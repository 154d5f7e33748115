import CalcBasic.Proofs.CheckedScans
import CalcBasic.Proofs.OutlineReading
import CalcBasic.Proofs.ShapeReading

/-! The expression reader by position. It takes the parts of an expression as slices between
positions that its scans find. Each slice lies in the list that it is taken from, and reading
ends, so the outcome is that of the reader that cuts token lists. -/
namespace CalcBasic
open Brackets (closing? whole_of_closing? cutFirst whole_of_cutFirst cutLast)

/-- Reading that may look outside of a token list or go too deep, and then gives nothing. -/
abbrev Checked := ExceptT CompileError (StateT Symbols Option)

namespace Checked

variable {interior rest : List Token} {cut : Cut} {name : Token}

variable {α β : Type}

def outcome? (action : Checked α) (symbols : Symbols) : Option (Except CompileError α × Symbols) :=
  action.run.run symbols

/-- Reading that looks at no positions. -/
def lift (action : Read α) : Checked α := ExceptT.mk fun symbols => some (Action.outcome action symbols)

theorem lift_pure (value : α) : lift (pure value) = pure value := rfl

theorem lift_get : lift get = get := rfl

theorem lift_bind (first : Read α) (next : α → Read β) :
    lift (first >>= next) = lift first >>= fun value => lift (next value) := by
  funext symbols
  show some (Action.outcome (first >>= next) symbols) = outcome? (lift first >>= fun value => lift (next value)) symbols
  rw [Action.outcome_bind,outcome?,ExceptT.run_bind,StateT.run_bind]
  have ran : (lift first).run.run symbols = some (Action.outcome first symbols) := rfl
  rw [ran,Option.bind_eq_bind,Option.bind_some]
  rcases Action.outcome first symbols with ⟨_ | value,after⟩ <;> rfl

theorem outcome?_get_bind (next : Symbols → Checked α) (symbols : Symbols) :
    outcome? (get >>= next) symbols = outcome? (next symbols) symbols := rfl

theorem liftM_some (value : α) : (liftM (some value) : Checked α) = pure value := rfl

theorem liftM_first (first : Token) (rest : List Token) : (liftM (first :: rest)[0]? : Checked Token) = pure first := rfl

open Read Shape

variable (markUnknown : Bool)

/-- Position at which the first token is closed. If nothing closes it, that is the end, with a remark. -/
def closing (tokens : List Token) : Checked Nat := do
  match ← closingIndex tokens with
  | some position => return position
  | none =>
    if let some first := tokens.head? then lift (remark (.unmatched first.text) (some first.line))
    return tokens.length

section Parts

-- how an expression within the one at hand is read
variable (read : List Token → Checked Tree)

def list (interior : List Token) : Checked Tree := do
  let groups ← splitTopLevel .delimiter interior
  return .list (← (groups.filter (!·.isEmpty)).mapM fun group => return listItem (← read group))

def callOf (name : Token) (tokens : List Token) : Checked (Option Tree) := do
  let groups ← if tokens.isEmpty then pure [] else splitTopLevel .delimiter tokens
  return some (← lift (callTree name (← groups.mapM read)))

def call? (tokens : List Token) : Checked (Option Tree) := do
  let name ← tokens[0]?
  match tokens[1]? with
  | none => callOf read name []
  | some next =>
    if next.tag = .parenOpen then
      match ← closingIndex (← slice tokens 1 tokens.length) with
      | none => lift (fail (.unclosedArguments name.text) next.line)
      | some close =>
        if close + 2 < tokens.length then return none else callOf read name (← slice tokens 2 (close + 1))
    else if startsOperand next && takesArguments (← get).functions name.text then
      callOf read name (← slice tokens 1 tokens.length)
    else return none

def range (tokens : List Token) (position : Nat) : Checked Tree := do
  let start ← read (← slice tokens 0 position)
  let inclusive := (← tokens[position]?).text == "to"
  let rest ← slice tokens (position + 1) tokens.length
  match ← firstTopLevel (·.tag == .rangeStep) rest with
  | some position =>
    let stop ← read (← slice rest 0 position)
    return .range start stop (← read (← slice rest (position + 1) rest.length)) inclusive true
  | none => return .range start (← read rest) (.number 1) inclusive true

def operation (tokens : List Token) (position : Nat) : Checked Tree := do
  let mark ← tokens[position]?
  let left ← read (← slice tokens 0 position)
  let right ← read (← slice tokens (position + 1) tokens.length)
  match Operator.ofSymbol? mark.text with
  | some op => return operationTree left op right
  | none => lift (unknown markUnknown tokens)

def element? (tokens : List Token) : Checked (Option Tree) := do
  let close := 1 + (← closing (← slice tokens 1 tokens.length))
  if close + 1 < tokens.length then return none
  else
    let name ← tokens[0]?
    let key ← lift (reference name.text)
    lift (modify fun symbols => symbols.setType key .list)
    return some (.element (.var key) (← read (← slice tokens 2 (min close tokens.length))))

def atom (first : Token) (tokens : List Token) : Checked Tree := do
  match first.tag with
  | .literal =>
    if first.text == "!" then return Tree.callOf "not" [← read (← slice tokens 1 tokens.length)] first.line
    else lift (unknown markUnknown tokens)
  | .identifier =>
    if tokens.length = 1 then lift (word first)
    else if (← tokens[1]?).tag = .listOpen then
      match ← element? read tokens with
      | some tree => return tree
      | none => lift (unknown markUnknown tokens)
    else lift (unknown markUnknown tokens)
  | .number | .text | .native => lift (literal first (tokens.length = 1))
  | _ => lift (unknown markUnknown tokens)

def signed (first : Token) (tokens : List Token) (later : Checked Tree) : Checked Tree := do
  if first.tag = .math && first.text == "-" then
    return .arith (.number 0) .sub (← read (← slice tokens 1 tokens.length))
  else if first.tag = .math && first.text == "+" then read (← slice tokens 1 tokens.length)
  else later

/-- Reads an operation of one of the given strengths. A sign binds as a sum does. -/
def operations (first : Token) (tokens : List Token) : List Nat → Checked Tree
  | [] => atom markUnknown read first tokens
  | strength :: tighter => do
    match ← lastTopLevel endsOperand (fun token => (operatorOf? strength token).isSome) tokens with
    | some position => operation markUnknown read tokens position
    | none =>
      if strength = 3 then signed read first tokens (operations first tokens tighter) else operations first tokens tighter

/-- Reads an expression that is no call, by the mark that joins its parts. -/
def joined (first : Token) (tokens : List Token) : Checked Tree := do
  match ← firstTopLevel (·.isKeyword "in") tokens with
  | some position =>
    let value ← read (← slice tokens 0 position)
    return .membership value (← read (← slice tokens (position + 1) tokens.length))
  | none =>
    match ← firstTopLevel (·.tag == .range) tokens with
    | some position => range read tokens position
    | none => operations markUnknown read first tokens [0, 1, 2, 3, 4, 5]

/-- Reads an expression without brackets around the whole. -/
def unenclosed (first : Token) (tokens : List Token) : Checked Tree := do
  if first.tag = .identifier && ((← get).functions.find? first.text).isSome then
    match ← call? read tokens with
    | some tree => return tree
    | none => joined markUnknown read first tokens
  else joined markUnknown read first tokens

end Parts

/-- Reads an expression with others in it to a limited depth. -/
def expressionTo : Nat → List Token → Checked Tree
  | 0, _ => liftM (none : Option Tree)
  | depth + 1, tokens => do
    let tokens ← sliceUntil Token.isTerminator tokens
    match tokens.head? with
    | none => lift (unknown markUnknown tokens)
    | some first =>
      if first.tag = .parenOpen || first.tag = .listOpen then
        let close ← closing tokens
        if tokens.length ≤ close + 1 then
          let interior ← slice tokens 1 (min close tokens.length)
          if first.tag = .parenOpen then expressionTo depth interior else list (expressionTo depth) interior
        else unenclosed markUnknown (expressionTo depth) first tokens
      else unenclosed markUnknown (expressionTo depth) first tokens

def expression (tokens : List Token) : Checked Tree := expressionTo markUnknown (tokens.length + 1) tokens

/-! ### Agreement -/

theorem lift_mapM {α β : Type} {step : α → Checked β} {read : α → Read β} {items : List α}
    (each : ∀ item ∈ items, step item = lift (read item)) : items.mapM step = lift (items.mapM read) := by
  induction items with
  | nil => rfl
  | cons item rest ih =>
    rw [List.mapM_cons,List.mapM_cons,each item (by simp),ih fun other member => each other (by simp [member]),lift_bind]
    simp only [lift_bind,lift_pure]

theorem lift_foldlM {α β : Type} {step : β → α → Checked β} {read : β → α → Read β}
    (each : ∀ value item, step value item = lift (read value item)) (items : List α) (start : β) :
    items.foldlM step start = lift (items.foldlM read start) := by
  induction items generalizing start with
  | nil => rfl
  | cons item rest ih =>
    rw [List.foldlM_cons,List.foldlM_cons,each,lift_bind]
    exact bind_congr fun value => ih value

theorem closing_eq (first : Token) (rest : List Token) :
    closing (first :: rest) =
      match closing? first rest with
      | some cut => pure (cut.before.length + 1)
      | none => do
        lift (remark (.unmatched first.text) (some first.line))
        return rest.length + 1 := by
  rw [closing,closingIndex_eq]
  cases closing? first rest <;> rfl

section Lower

variable {markUnknown} {tokens : List Token} {read : List Token → Checked Tree}
  (lower : ∀ part : List Token, part.length < tokens.length → read part = lift (Read.expression markUnknown part))
include lower

theorem list_eq (short : interior.length < tokens.length) : list read interior = lift (do
      return .list (← ((Brackets.split .delimiter interior).filter fun item => !item.isEmpty).mapM fun item =>
        return listItem (← Read.expression markUnknown item))) := by
  rw [list,splitTopLevel_eq,liftM_some,pure_bind,lift_bind]
  congr 1
  refine lift_mapM fun group member => ?_
  have shorter := Brackets.length_le_of_mem_split (List.mem_filter.mp member).1
  rw [lower group (by omega),lift_bind]
  rfl

theorem operation_eq (isWhole : cut.whole = tokens) {op : Operator} (isOperator : Operator.ofSymbol? cut.token.text = some op) :
    operation markUnknown read tokens cut.before.length = lift (ofShape markUnknown tokens (.operation cut.before op cut.after)) := by
  obtain ⟨left,right⟩ := Cut.sides_shorter isWhole
  simp only [operation,getElem?_cut isWhole,slice_before isWhole,slice_after isWhole,liftM_some,pure_bind,
    lower _ left,lower _ right,isOperator,ofShape,lift_bind,lift_pure]

theorem element?_eq {bracket : Token} {inside : List Token} (isTokens : tokens = name :: bracket :: inside) :
    element? read tokens =
      match closing? bracket inside with
      | none => some <$> lift (ofShape markUnknown tokens (.element name bracket false inside))
      | some cut =>
        if cut.after.isEmpty then some <$> lift (ofShape markUnknown tokens (.element name bracket true cut.before))
        else pure none := by
  subst isTokens
  rw [element?,slice_tail,liftM_some,pure_bind,closing_eq]
  have size : (name :: bracket :: inside).length = inside.length + 2 := rfl
  cases closed : closing? bracket inside with
  | none =>
    have index : slice (name :: bracket :: inside) 2 (min (1 + (inside.length + 1)) (name :: bracket :: inside).length) =
        some inside := by
      rw [Nat.min_eq_right (by omega)]
      exact slice_back (by omega)
    simp only [bind_assoc,pure_bind,liftM_first,index,liftM_some,lower inside (by omega),ofShape,lift_bind,lift_pure]
    rw [if_neg (by omega)]
    simp [checkClosed]
  | some cut =>
    have whole := whole_of_closing? closed
    have length := congrArg List.length whole
    rw [Cut.length_whole] at length
    have ended := isEmpty_after whole
    simp only [pure_bind,liftM_first]
    by_cases alone : cut.after.isEmpty
    · have index : slice (name :: bracket :: inside) 2
          (min (1 + (cut.before.length + 1)) (name :: bracket :: inside).length) = some cut.before := by
        rw [Nat.min_eq_left (by omega),Nat.add_comm 1,slice_cons,slice_cons,slice_before whole]
      have near := ended.mp alone
      rw [if_pos alone,if_neg (by omega)]
      simp only [index,liftM_some,pure_bind,lower cut.before (by omega),ofShape,lift_bind,lift_pure]
      simp [checkClosed,lift_pure]
    · have far := mt ended.mpr alone
      rw [if_neg alone,if_pos (by omega)]

theorem atom_eq {first : Token} (isTokens : tokens = first :: rest) :
    atom markUnknown read first tokens = lift (ofShape markUnknown tokens (Shape.atom first rest)) := by
  subst isTokens
  unfold atom Shape.atom
  cases first.tag with
  | literal =>
    dsimp only
    split
    · simp only [slice_tail,liftM_some,pure_bind,lower rest (by simp),ofShape,lift_bind,lift_pure]
    · rfl
  | identifier =>
    cases rest with
    | nil => rfl
    | cons bracket inside =>
      have second : (liftM (first :: bracket :: inside)[1]? : Checked Token) = pure bracket := rfl
      simp only [List.length_cons,second,pure_bind]
      rw [if_neg (by omega)]
      by_cases opens : bracket.tag = .listOpen
      · rw [if_pos opens,if_pos opens,element?_eq lower rfl]
        cases closing? bracket inside with
        | none => simp only [bind_map_left,bind_pure]
        | some cut =>
          dsimp only
          split
          · simp only [bind_map_left,bind_pure]
          · rfl
      · rw [if_neg opens,if_neg opens]
        rfl
  | number | text | native => cases rest <;> rfl
  | _ => rfl

theorem range_eq (isWhole : cut.whole = tokens) : range read tokens cut.before.length = lift (ofShape markUnknown tokens
      (match cutFirst (·.tag == .rangeStep) cut.after with
      | some inner => .range cut.before (cut.token.text == "to") inner.before (some inner.after)
      | none => .range cut.before (cut.token.text == "to") cut.after none)) := by
  obtain ⟨left,right⟩ := Cut.sides_shorter isWhole
  simp only [range,getElem?_cut isWhole,slice_before isWhole,slice_after isWhole,firstTopLevel_eq,liftM_some,pure_bind,
    lower _ left]
  cases found : cutFirst (·.tag == .rangeStep) cut.after with
  | none => simp only [Option.map_none,lower _ right,ofShape,lift_bind,lift_pure]
  | some inner =>
    have isInner := whole_of_cutFirst found
    obtain ⟨innerLeft,innerRight⟩ := Cut.sides_shorter isInner
    simp only [Option.map_some,slice_before isInner,slice_after isInner,liftM_some,pure_bind,
      lower _ (innerLeft.trans right),lower _ (innerRight.trans right),ofShape,lift_bind,lift_pure]

section Stages

variable {first : Token} {rest : List Token} (isTokens : tokens = first :: rest)
include isTokens

variable {tighter : List Nat} {found : Option Shape}
  (later : operations markUnknown read first tokens tighter =
    lift (ofShape markUnknown tokens (found.getD (Shape.atom first rest))))
include later

theorem signed_eq : signed read first tokens (operations markUnknown read first tokens tighter) =
    lift (ofShape markUnknown tokens ((sign? first rest <|> found).getD (Shape.atom first rest))) := by
  subst isTokens
  simp only [signed,sign?,slice_tail,liftM_some,pure_bind,lower rest (by simp)]
  by_cases minus : first.tag = .math && first.text == "-"
  · rw [if_pos minus,if_pos minus]
    exact (lift_bind _ _).symm
  rw [if_neg minus,if_neg minus]
  by_cases plus : first.tag = .math && first.text == "+"
  · rw [if_pos plus,if_pos plus]
    rfl
  · rw [if_neg plus,if_neg plus]
    exact later

theorem operations_eq (strength : Nat) :
    operations markUnknown read first tokens (strength :: tighter) = lift (ofShape markUnknown tokens
      ((operation? strength tokens <|> (if strength = 3 then sign? first rest else none) <|> found).getD
        (Shape.atom first rest))) := by
  rw [operations,lastTopLevel_eq,liftM_some,pure_bind,operation?]
  cases isCut : cutLast (fun previous token => endsOperand previous && (operatorOf? strength token).isSome)
      tokens with
  | none =>
    by_cases isSum : strength = 3
    · simp only [isSum,Option.map_none,if_true]
      exact signed_eq lower isTokens later
    · simp only [isSum,Option.map_none,if_false]
      exact later
  | some cut =>
    obtain ⟨previous,fits⟩ := wanted_of_cutLast isCut
    rw [Bool.and_eq_true,Option.isSome_iff_exists] at fits
    obtain ⟨op,isOperator⟩ := fits.2
    have symbol : Operator.ofSymbol? cut.token.text = some op := by
      unfold operatorOf? at isOperator
      split at isOperator
      · exact (Option.filter_eq_some_iff.mp isOperator).1
      · cases isOperator
    simp only [Option.map_some,Option.bind_some,isOperator]
    exact operation_eq lower (Brackets.whole_of_cutLast isCut) symbol

omit later in
/-- All strengths in turn; a sign comes right behind the sums. -/
theorem operations_all : operations markUnknown read first tokens [0, 1, 2, 3, 4, 5] = lift (ofShape markUnknown tokens
    ((operation? 0 tokens <|> operation? 1 tokens <|> operation? 2 tokens <|> operation? 3 tokens <|> sign? first rest <|>
      operation? 4 tokens <|> operation? 5 tokens).getD (Shape.atom first rest))) := by
  have none : operations markUnknown read first tokens [] =
      lift (ofShape markUnknown tokens ((none : Option Shape).getD (Shape.atom first rest))) := by
    rw [operations]
    exact atom_eq lower isTokens
  have powers : operations markUnknown read first tokens [5] =
      lift (ofShape markUnknown tokens ((operation? 5 tokens).getD (Shape.atom first rest))) := by
    rw [operations_eq lower isTokens none 5]
    cases operation? 5 tokens <;> rfl
  have sums := operations_eq lower isTokens (operations_eq lower isTokens powers 4) 3
  exact operations_eq lower isTokens (operations_eq lower isTokens (operations_eq lower isTokens sums 2) 1) 0

omit later in
theorem joined_eq : joined markUnknown read first tokens = lift (ofShape markUnknown tokens
    ((membership? tokens <|> range? tokens <|> operation? 0 tokens <|> operation? 1 tokens <|> operation? 2 tokens <|>
      operation? 3 tokens <|> sign? first rest <|> operation? 4 tokens <|> operation? 5 tokens).getD
        (Shape.atom first rest))) := by
  simp only [joined,firstTopLevel_eq,liftM_some,pure_bind,membership?]
  cases isMember : cutFirst (·.isKeyword "in") tokens with
  | some cut =>
    have whole := whole_of_cutFirst isMember
    obtain ⟨left,right⟩ := Cut.sides_shorter whole
    simp only [Option.map_some,slice_before whole,slice_after whole,liftM_some,pure_bind,lower _ left,lower _ right]
    refine Eq.trans ?_ (lift_bind _ _).symm
    simp only [lift_bind,lift_pure]
  | none =>
    simp only [range?]
    cases isRange : cutFirst (·.tag == .range) tokens with
    | some cut =>
      exact range_eq lower (whole_of_cutFirst isRange)
    | none => exact operations_all lower isTokens

end Stages

theorem callOf_eq (name : Token) {arguments : List Token} (short : arguments.length < tokens.length) :
    callOf read name arguments = some <$> lift (ofShape markUnknown tokens (.call name (argumentsOf arguments))) := by
  have each : ∀ group ∈ argumentsOf arguments, read group = lift (Read.expression markUnknown group) := by
    intro group member
    have shorter := length_le_of_mem_argumentsOf member
    exact lower group (by omega)
  have groups := lift_mapM each
  unfold argumentsOf at groups
  simp only [callOf,splitTopLevel_eq,liftM_some,pure_bind,ofShape,argumentsOf,lift_bind,map_eq_pure_bind,bind_assoc]
  split
  · rename_i empty
    rw [if_pos empty] at groups
    rw [groups]
  · rename_i filled
    rw [if_neg filled] at groups
    rw [groups]

/-- A call reads as the shape that the functions known at its start give. -/
theorem call?_eq (isTokens : tokens = name :: rest) : call? read tokens = get >>= fun symbols =>
      match called? symbols.functions name rest with
      | some shape => some <$> lift (ofShape markUnknown tokens shape)
      | none => pure none := by
  subst isTokens
  rw [call?,liftM_first,pure_bind]
  cases rest with
  | nil => exact (callOf_eq lower name (by simp))
  | cons next rest =>
    have size : (name :: next :: rest).length = rest.length + 2 := rfl
    simp only [List.getElem?_cons_succ,List.getElem?_cons_zero,slice_tail,liftM_some,pure_bind,closingIndex_eq,called?]
    by_cases opens : next.tag = .parenOpen
    · simp only [opens,if_true]
      cases closed : closing? next rest with
      | none => rfl
      | some cut =>
        have whole := whole_of_closing? closed
        have ended := isEmpty_after whole
        have length := congrArg List.length whole
        rw [Cut.length_whole] at length
        have inside : slice (name :: next :: rest) 2 (cut.before.length + 1 + 1) = some cut.before := by
          rw [slice_cons,slice_cons,slice_before whole]
        simp only [Option.map_some,inside,liftM_some,pure_bind]
        by_cases alone : cut.after.isEmpty
        · have near := ended.mp alone
          rw [if_pos alone,if_neg (by omega)]
          exact callOf_eq lower name (by omega)
        · have far := mt ended.mpr alone
          rw [if_neg alone,if_pos (by omega)]
          rfl
    · simp only [opens,if_false]
      refine bind_congr fun symbols => ?_
      by_cases bare : startsOperand next && takesArguments symbols.functions name.text
      · rw [if_pos bare,if_pos bare]
        exact callOf_eq lower name (by simp)
      · rw [if_neg bare,if_neg bare]

theorem unenclosed_eq {first : Token} (isTokens : tokens = first :: rest) {found : Option Shape}
    (later : joined markUnknown read first tokens =
      lift (ofShape markUnknown tokens (found.getD (Shape.atom first rest)))) :
    unenclosed markUnknown read first tokens = get >>= fun symbols => lift (ofShape markUnknown tokens
      ((namedCall? symbols.functions first rest <|> found).getD (Shape.atom first rest))) := by
  rw [unenclosed]
  funext symbols
  refine (outcome?_get_bind _ symbols).trans (Eq.trans ?_ (outcome?_get_bind _ symbols).symm)
  by_cases known : first.tag = .identifier && (symbols.functions.find? first.text).isSome
  · rw [if_pos known,call?_eq lower isTokens,namedCall?,if_pos known,bind_assoc]
    -- the table is looked at once more, with nothing changed since
    rw [outcome?_get_bind]
    cases called? symbols.functions first rest with
    | none => rw [pure_bind,later]; rfl
    | some shape => rw [bind_map_left,bind_pure]; rfl
  · rw [if_neg known,namedCall?,if_neg known]
    exact congrArg (outcome? · symbols) later

theorem interior_eq (first : Token) (closed : Bool) (short : interior.length < tokens.length) : (do
      lift (checkClosed closed first)
      if first.tag = .parenOpen then read interior else list read interior) =
    lift (ofShape markUnknown tokens (if first.tag = .parenOpen then .group first closed interior
      else .list first closed ((Brackets.split .delimiter interior).filter fun item => !item.isEmpty))) := by
  split
  · rw [lower interior short]
    exact (lift_bind _ _).symm
  · rw [list_eq lower short]
    exact (lift_bind _ _).symm

end Lower

/-- Every position at which reading an expression looks lies in its list, and each part that is read for
itself is shorter. -/
theorem expressionTo_eq {depth : Nat} {tokens : List Token} (deep : tokens.length < depth) :
    expressionTo markUnknown depth tokens = lift (Read.expression markUnknown tokens) := by
  induction depth generalizing tokens with
  | zero => cases deep
  | succ depth ih =>
    have shorter : (upToTerminator tokens).length ≤ tokens.length := (List.takeWhile_sublist _).length_le
    have line : sliceUntil Token.isTerminator tokens = some (upToTerminator tokens) := sliceUntil_eq _ _
    rw [expressionTo,line,liftM_some,pure_bind,Read.expression_eq,lift_bind,lift_get]
    generalize upToTerminator tokens = line at shorter
    cases line with
    | nil => rfl
    | cons first rest =>
      have lower : ∀ part : List Token, part.length < (first :: rest).length →
          expressionTo markUnknown depth part = lift (Read.expression markUnknown part) := fun part short => ih (by omega)
      have other := unenclosed_eq lower rfl (joined_eq lower rfl)
      have size : (first :: rest).length = rest.length + 1 := rfl
      simp only [List.head?_cons,Shape.of,enclosed?]
      by_cases bracket : first.tag = .parenOpen || first.tag = .listOpen
      · rw [if_pos bracket,if_pos bracket,closing_eq]
        cases closed : closing? first rest with
        | none =>
          simp only [bind_assoc,pure_bind,slice_unclosed,liftM_some]
          rw [if_pos (by omega)]
          exact interior_eq lower first false (by omega)
        | some cut =>
          have whole := whole_of_closing? closed
          have ended := isEmpty_after whole
          have shorter := (Cut.sides_shorter whole).1
          simp only [pure_bind,slice_closed closed,liftM_some]
          by_cases alone : cut.after.isEmpty
          · have near := ended.mp alone
            rw [if_pos alone,if_pos (by omega)]
            exact interior_eq lower first true (by omega)
          · have far := mt ended.mpr alone
            rw [if_neg alone,if_neg (by omega)]
            exact other
      · rw [if_neg bracket,if_neg bracket]
        exact other

theorem expression_eq (tokens : List Token) : expression markUnknown tokens = lift (Read.expression markUnknown tokens) :=
  expressionTo_eq markUnknown (Nat.lt_succ_self _)

end Checked
end CalcBasic

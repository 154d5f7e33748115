import CalcBasic.Proofs.CheckedExpressions
import CalcBasic.Proofs.StatementPieces

/-! The statement reader by position. A list of statements is read from a position on, and a
block in braces that is followed by more is read as the first statement of its own tokens. -/
namespace CalcBasic.Checked
open Read List
open Extent (endsHeader statement_le length_parts)
open Brackets (closing? whole_of_closing?)

variable {rest tail tokens : List Token} {first : Token} {cut : Cut}

variable (markUnknown : Bool)

/-- The body at the start of a token list, and the number of tokens up to its end. -/
def bodyTokens (code : List Token) : Checked (List Token × Nat) := do
  let skipped := (code.takeWhile Token.isTerminator).length
  let rest ← slice code skipped code.length
  match rest.head? with
  | none => return (rest, skipped)
  | some first =>
    if first.tag = .blockOpen then
      let stop := min ((← closing rest) + 1) rest.length
      return (← slice rest 0 stop, skipped + stop)
    else
      let length ← statementLength rest
      return (← slice rest 0 length, skipped + length)

/-! ### Parameters -/

def parameterTokens (name : Token) (header : List Token) : Checked (List Token) := do
  match header.head? with
  | none => return []
  | some first =>
    if first.tag = .parenOpen then
      let close ← closing header
      if close + 1 < header.length then lift (remark (.afterParameters name.text) (some name.line))
      slice header 1 (min close header.length)
    else if first.tag = .identifier then return header
    else
      lift (remark (.badParameterList name.text first.text) (some first.line))
      return []

def parameter (name : Token) (before : Parameters) (group : List Token) : Checked Parameters := do
  match group.head? with
  | none =>
    lift (remark (.badParameter name.text) (some name.line))
    return before
  | some param =>
    if param.tag = .identifier then
      let names := before.names ++ [← lift (reference param.text)]
      match group[1]? with
      | none => return { before with names, required := names.length }
      | some mark =>
        if mark.tag = .assign then
          let default ← expression markUnknown (← slice group 2 group.length)
          let guard ← lift (defaultGuard param.text default mark.line)
          return { before with names, guards := before.guards ++ [guard] }
        else if mark.tag = .compoundAssign then lift (fail (.compoundDefault param.text mark.text) mark.line)
        else
          lift (remark (.afterParameter mark.text param.text) (some mark.line))
          return { before with names }
    else
      lift (remark (.badParameter name.text) (some name.line))
      return before

def parameters (name : Token) (header : List Token) : Checked Parameters := do
  let tokens ← parameterTokens name header
  if tokens.isEmpty then return {}
  else (Groups.split (·.tag == .delimiter) tokens).foldlM (parameter markUnknown name) {}

/-! ### Statements -/

def assign (tokens : List Token) (position : Nat) : Checked Tree := do
  let mark ← tokens[position]?
  let target ← expression markUnknown (← slice tokens 0 position)
  let value ← expression markUnknown (← slice tokens (position + 1) tokens.length)
  return .assign target ((Store.ofSymbol? mark.text).getD .set) value mark.line

/-- Reads a statement without a keyword. -/
def plain (tokens : List Token) : Checked (Option Tree) := do
  let line ← sliceUntil Token.isTerminator tokens
  match ← firstTopLevel Outline.isAssignment line with
  | some position => return some (← assign markUnknown line position)
  | none => return some (← expression markUnknown line)

def giveBack (tokens : List Token) : Checked (Option Tree) := do
  let value ← sliceUntil Token.isTerminator (← slice tokens 1 tokens.length)
  if value.isEmpty then return some (.block [.native Tree.returnMarker])
  else return some (.block [← expression markUnknown value, .native Tree.returnMarker])

def leave (tokens : List Token) : Checked (Option Tree) := do
  match ← call? (expression markUnknown) tokens with
  | some tree => return some tree
  | none => return some (← lift (unknown markUnknown tokens))

section Bodies

-- how a statement within the one at hand is read
variable (statement : List Token → Checked (Option Tree))

def statementsFrom (tokens : List Token) (position : Nat) : Checked (List Tree) := do
  if position < tokens.length then
    let rest ← slice tokens position tokens.length
    if (← rest[0]?).isTerminator then statementsFrom tokens (position + 1)
    else
      let length := max (← statementLength rest) 1
      let tree ← statement (← slice rest 0 length)
      let others ← statementsFrom tokens (position + length)
      return tree.toList ++ others
  else return []
termination_by tokens.length - position

/-- Reads the statements of a body, with or without braces. -/
def block (tokens : List Token) : Checked (List Tree) := do
  statementsFrom statement (← stripBraces tokens) 0

def body (code : List Token) : Checked Tree := do
  return .block (← block statement (← bodyTokens code).1)

/-- Reads what follows the body of a conditional. -/
def branch (conditional : List Token → Checked Tree) (rest : List Token) : Checked (Option Tree) := do
  let rest ← slice rest (rest.takeWhile Token.isTerminator).length rest.length
  match rest.head? with
  | none => return none
  | some word =>
    if word.isKeyword "else" then
      let code ← slice rest 1 rest.length
      if code.head?.any Extent.startsConditional then return some (.block [← conditional code])
      else return some (← body statement code)
    else return none

/-- Reads a conditional with a limited number of branches. -/
def conditional : Nat → List Token → Checked Tree
  | 0, _ => liftM (none : Option Tree)
  | branches + 1, tokens => do
    let head ← tokens[0]?
    let header ← sliceUntil endsHeader (← slice tokens 1 tokens.length)
    let condition ← expression markUnknown header
    let code ← slice tokens (1 + header.length) tokens.length
    let (inside, consumed) ← bodyTokens code
    let statements ← block statement inside
    let otherwise ← branch statement (conditional branches) (← slice code consumed code.length)
    return .branch (if head.isKeyword "unless" then condition.negated else condition) (.block statements) otherwise

def forEach (tokens : List Token) : Checked (Option Tree) := do
  let head ← tokens[0]?
  let header ← sliceUntil endsHeader (← slice tokens 1 tokens.length)
  let code ← slice tokens (1 + header.length) tokens.length
  match ← expression markUnknown (fromAsMembership header) with
  | .membership counter collection => return some (.forEach counter collection (← body statement code))
  | _ => lift (fail .loopWithoutMembership head.line)

def loop (tokens : List Token) : Checked (Option Tree) := do
  let head ← tokens[0]?
  let header ← sliceUntil endsHeader (← slice tokens 1 tokens.length)
  let condition ← expression markUnknown header
  let code ← slice tokens (1 + header.length) tokens.length
  return some (.loop condition (← body statement code) (head.isKeyword "until"))

def function (tokens : List Token) (inline : Bool) : Checked (Option Tree) := do
  let head ← tokens[0]?
  match tokens[1]? with
  | none => lift (fail .namelessFunction head.line)
  | some name =>
    if name.tag = .identifier then
      let header ← sliceUntil endsHeader (← slice tokens 2 tokens.length)
      let code ← slice tokens (2 + header.length) tokens.length
      let parameters ← parameters markUnknown name header
      let statements ← block statement (← bodyTokens code).1
      return some (← lift (functionTree name inline parameters statements))
    else lift (fail .namelessFunction head.line)

def keyword (tokens : List Token) : Checked (Option Tree) := do
  let head ← tokens[0]?
  match head.text.toLower with
  | "if" | "unless" => return some (← conditional markUnknown statement tokens.length tokens)
  | "for" | "foreach" => forEach markUnknown statement tokens
  | "while" | "until" => loop markUnknown statement tokens
  | "function" => function markUnknown statement tokens false
  | "return" => giveBack markUnknown tokens
  | "exit" | "die" => leave markUnknown tokens
  | "const" => statement (← slice tokens 1 tokens.length)
  | "else" =>
    lift (remark .danglingElse (some head.line))
    return none
  | word =>
    lift (remark (.unsupportedKeyword word) (some head.line))
    return none

end Bodies

/-- Reads a statement with others in it to a limited depth. -/
def statement : Nat → List Token → Checked (Option Tree)
  | 0, _ => liftM (none : Option (Option Tree))
  | depth + 1, tokens => do
    match tokens.head? with
    | none => return none
    | some first =>
      if first.tag = .label then
        lift (remark (.labelIgnored first.text) (some first.line))
        statement depth (← slice tokens 1 tokens.length)
      else if first.tag = .keyword then keyword markUnknown (statement depth) tokens
      else if first.tag = .blockOpen then return some (.block (← block (statement depth) tokens))
      else
        match first.isInline, tokens[1]? with
        | true, some next =>
          if next.tag = .keyword then
            if next.isKeyword "function" then function markUnknown (statement depth) (← slice tokens 1 tokens.length) true
            else lift (fail (.inlineWithoutFunction next.text) first.line)
          else plain markUnknown tokens
        | _, _ => plain markUnknown tokens

def program (tokens : List Token) : Checked Tree := do
  let tokens := tokens.filter (·.tag != .whitespace)
  lift (declareFunctions none tokens)
  return .block (← block (statement markUnknown (tokens.length + 1)) tokens)

/-! ### Agreement of the pieces -/

theorem take_closed (whole : cut.whole = rest) :
    (first :: rest).take (cut.before.length + 2) = first :: cut.before ++ [cut.token] := by
  subst whole
  simp [Cut.whole,take_append,take_of_length_le (Nat.le_succ cut.before.length)]

theorem body_le (code : List Token) : Extent.body code ≤ code.length :=
  Extent.body_le (fun tokens _ => statement_le tokens) (Nat.le_refl _)

theorem bodyTokens_eq (code : List Token) :
    bodyTokens code = do
      lift (checkBody (Body.of code))
      return ((Body.of code).tokens, Extent.body code) := by
  simp only [bodyTokens,slice_past,liftM_some,pure_bind,Extent.body_eq,Body.of]
  cases code.dropWhile Token.isTerminator with
  | nil =>
    rw [Extent.statement_nil]
    rfl
  | cons first rest =>
    by_cases opens : first.tag = .blockOpen
    · simp only [head?_cons,opens,if_true,closing_eq,Extent.statement_of_block opens]
      cases closed : closing? first rest with
      | none =>
        have stop : min (rest.length + 1 + 1) (first :: rest).length = (first :: rest).length :=
          Nat.min_eq_right (Nat.le_succ _)
        have all : slice (first :: rest) 0 (first :: rest).length = some (first :: rest) := slice_back (Nat.zero_le _)
        simp only [bind_assoc,pure_bind,stop,all,liftM_some]
        rfl
      | some cut =>
        have whole := whole_of_closing? closed
        have length := congrArg List.length whole
        rw [Cut.length_whole] at length
        have stop : min (cut.before.length + 1 + 1) (first :: rest).length = cut.before.length + 2 :=
          Nat.min_eq_left (by rw [length_cons]; omega)
        have front : slice (first :: rest) 0 (cut.before.length + 2) = some (first :: cut.before ++ [cut.token]) := by
          rw [slice_front (by rw [length_cons]; omega),take_closed whole]
        simp only [pure_bind,stop,front,liftM_some]
        rfl
    · have front := slice_front (statement_le (first :: rest))
      simp only [head?_cons,opens,if_false,statementLength_eq,front,liftM_some,pure_bind]
      rfl

theorem parameterTokens_eq (name : Token) (header : List Token) :
    parameterTokens name header = lift (do
      for diagnostic in (ParameterList.of name header).remarks do remark diagnostic.remark diagnostic.line
      return (ParameterList.of name header).tokens) := by
  cases header with
  | nil => rfl
  | cons first rest =>
    simp only [parameterTokens,ParameterList.of,head?_cons]
    by_cases opens : first.tag = .parenOpen
    · simp only [opens,if_true,closing_eq]
      cases closed : closing? first rest with
      | none =>
        simp only [bind_assoc,pure_bind,slice_unclosed,liftM_some]
        rw [if_neg (by rw [length_cons]; omega)]
        rfl
      | some cut =>
        have ended := isEmpty_after (whole_of_closing? closed)
        simp only [pure_bind,slice_closed closed,liftM_some]
        by_cases alone : cut.after.isEmpty
        · have near := ended.mp alone
          rw [if_pos alone,if_neg (by rw [length_cons]; omega)]
          rfl
        · have far := mt ended.mpr alone
          rw [if_neg alone,if_pos (by rw [length_cons]; omega)]
          rfl
    · simp only [opens,if_false]
      by_cases named : first.tag = .identifier
      · simp only [named,if_true]
        rfl
      · simp only [named,if_false]
        rfl

theorem parameter_eq (name : Token) (before : Parameters) (group : List Token) :
    parameter markUnknown name before group = lift (Read.parameter markUnknown name before group) := by
  cases group with
  | nil => exact (lift_bind _ _).symm
  | cons param rest =>
    simp only [parameter,Read.parameter,head?_cons]
    by_cases named : param.tag = .identifier
    · simp only [named,if_true]
      rw [lift_bind]
      refine bind_congr fun key => ?_
      cases rest with
      | nil => rfl
      | cons mark value =>
        have default : slice (param :: mark :: value) 2 (param :: mark :: value).length = some value := slice_back (by simp)
        simp only [getElem?_cons_succ,getElem?_cons_zero,default,liftM_some,pure_bind,expression_eq]
        by_cases assigns : mark.tag = .assign
        · simp only [assigns,if_true,lift_bind,lift_pure]
        · simp only [assigns,if_false]
          split
          · rfl
          · exact (lift_bind _ _).symm
    · simp only [named,if_false]
      exact (lift_bind _ _).symm

theorem parameters_eq (name : Token) (header : List Token) :
    parameters markUnknown name header = lift (Read.parameters markUnknown name header) := by
  have folded := lift_foldlM (parameter_eq markUnknown name)
  rw [parameters,parameterTokens_eq,Read.parameters,lift_bind,lift_bind,bind_assoc]
  refine bind_congr fun _ => ?_
  rw [lift_pure,pure_bind,ParameterList.groups]
  split
  · rfl
  · exact folded _ _

theorem assign_eq (isWhole : cut.whole = tokens) :
    assign markUnknown tokens cut.before.length = lift (assignment markUnknown cut) := by
  simp only [assign,getElem?_cut isWhole,slice_before isWhole,slice_after isWhole,liftM_some,pure_bind,expression_eq,
    assignment,lift_bind,lift_pure]

theorem plain_eq (tokens : List Token) :
    plain markUnknown tokens = lift (ofOutline markUnknown (Outline.ofPlain tokens)) := by
  simp only [plain,Outline.ofPlain,sliceUntil_eq,firstTopLevel_eq,liftM_some,pure_bind]
  cases found : Brackets.cutFirst Outline.isAssignment (tokens.takeWhile (!·.isTerminator)) with
  | none => simp only [Option.map_none,expression_eq,ofOutline,lift_bind,lift_pure]
  | some cut =>
    simp only [Option.map_some,assign_eq markUnknown (Brackets.whole_of_cutFirst found),ofOutline,lift_bind,lift_pure]

theorem giveBack_eq (head : Token) (tail : List Token) :
    giveBack markUnknown (head :: tail) = lift (ofOutline markUnknown (.giveBack (tail.takeWhile (!·.isTerminator)))) := by
  simp only [giveBack,slice_tail,sliceUntil_eq,liftM_some,pure_bind,expression_eq,ofOutline]
  split
  · rfl
  · simp only [lift_bind,lift_pure]

theorem called?_cases {functions : FunctionTable} {name : Token} {shape : Shape}
    (found : Shape.called? functions name rest = some shape) :
    (∃ arguments, shape = .call name arguments) ∨ ∃ bracket, shape = .unclosedCall name bracket := by
  unfold Shape.called? at found
  split at found
  · exact .inl ⟨[], (Option.some.inj found).symm⟩
  · rename_i next rest
    split at found
    · split at found
      · exact .inr ⟨next, (Option.some.inj found).symm⟩
      · rename_i cut _
        split at found
        · exact .inl ⟨_, (Option.some.inj found).symm⟩
        · cases found
    · split at found
      · exact .inl ⟨_, (Option.some.inj found).symm⟩
      · cases found

theorem lift_call? (name : Token) (rest : List Token) :
    call? (expression markUnknown) (name :: rest) = lift (Read.call? markUnknown name rest) := by
  rw [call?_eq (fun part _ => expression_eq markUnknown part) rfl,Read.call?,lift_bind,lift_get]
  refine bind_congr fun symbols => ?_
  cases found : Shape.called? symbols.functions name rest with
  | none => rfl
  | some shape =>
    rcases called?_cases found with ⟨arguments,rfl⟩ | ⟨bracket,rfl⟩
    · simp only [ofShape,lift_bind,lift_pure,map_eq_pure_bind,bind_assoc]
    · rfl

theorem leave_eq (word : Token) (rest : List Token) :
    leave markUnknown (word :: rest) = lift (ofOutline markUnknown (.leave word rest)) := by
  rw [leave,lift_call?,ofOutline,lift_bind]
  refine bind_congr fun tree => ?_
  cases tree with
  | none => exact (lift_bind _ _).symm
  | some tree => rfl

/-! ### Agreement of blocks -/

section Blocks

variable {markUnknown} {size : Nat} {statement : List Token → Checked (Option Tree)}

theorem statementsFrom_cons {position : Nat} (found : tokens.drop position = first :: rest) :
    statementsFrom statement tokens position =
      if first.isTerminator then statementsFrom statement tokens (position + 1)
      else do
        let tree ← statement (first :: rest.take (Extent.statement (first :: rest) - 1))
        let others ← statementsFrom statement tokens (position + (Extent.statement (first :: rest) - 1 + 1))
        return tree.toList ++ others := by
  have bound := statement_le (first :: rest)
  have inside : position < tokens.length := by
    have length := congrArg List.length found
    rw [length_drop,length_cons] at length
    omega
  have rested : slice tokens position tokens.length = some (first :: rest) := by rw [slice_back (by omega),found]
  have length : max (Extent.statement (first :: rest)) 1 = Extent.statement (first :: rest) - 1 + 1 := by omega
  have front : slice (first :: rest) 0 (Extent.statement (first :: rest) - 1 + 1) =
      some (first :: rest.take (Extent.statement (first :: rest) - 1)) := by
    rw [length_cons] at bound
    rw [slice_front (by rw [length_cons]; omega),take_succ_cons]
  rw [statementsFrom,if_pos inside]
  simp only [rested,liftM_first,statementLength_eq,length,front,liftM_some,pure_bind]

theorem statementsFrom_eq (each : ∀ part : List Token, part.length ≤ size →
      statement part = lift (Read.statement markUnknown part)) {tokens : List Token} {position : Nat}
    (short : (tokens.drop position).length ≤ size) :
    statementsFrom statement tokens position = lift (Read.statements markUnknown (tokens.drop position)) := by
  induction left : (tokens.drop position).length using Nat.strongRecOn generalizing position with
  | _ left ih =>
    subst left
    cases found : tokens.drop position with
    | nil =>
      have outside := drop_eq_nil_iff.mp found
      rw [statementsFrom,if_neg (by omega),Read.statements]
      rfl
    | cons first rest =>
      have passed (count : Nat) : tokens.drop (position + (count + 1)) = rest.drop count := by
        rw [← drop_drop,found,drop_succ_cons]
      rw [found,length_cons] at short ih
      have later (count : Nat) : statementsFrom statement tokens (position + (count + 1)) =
          lift (Read.statements markUnknown (rest.drop count)) := by
        have fewer := @length_drop Token count rest
        have agreed := @ih (rest.drop count).length (by omega) (position + (count + 1))
        rw [passed] at agreed
        exact agreed (by omega) rfl
      have one := each (first :: rest.take (Extent.statement (first :: rest) - 1))
        (by rw [length_cons,length_take]; omega)
      rw [statementsFrom_cons found,Read.statements,one,later 0,later,drop_zero]
      split
      · rfl
      · simp only [lift_bind,lift_pure]

theorem statement_of_closed (opens : first.tag = .blockOpen) (closed : closing? first rest = some cut) :
    Read.statement markUnknown (first :: rest.take (cut.before.length + 1)) = do
      return some (.block (← Read.statements markUnknown cut.before)) := by
  have whole := congrArg List.length (whole_of_closing? closed)
  obtain ⟨after,again⟩ := Extent.closing?_take closed (Nat.lt_succ_self _)
  have length := congrArg List.length (whole_of_closing? again)
  rw [Cut.length_whole] at whole length
  rw [length_take] at length
  have none : after = [] := length_eq_zero_iff.mp (by dsimp only at length; omega)
  have outline : Outline.of (first :: rest.take (cut.before.length + 1)) =
      .braces first (rest.take (cut.before.length + 1)) := by
    simp [Outline.of,opens]
  rw [Read.statement_eq,outline,ofOutline,braced_eq,again,none]
  rfl

theorem block_of_braces (early : ∀ part : List Token, part.length < size →
      statement part = lift (Read.statement markUnknown part)) (short : rest.length < size) (opens : first.tag = .blockOpen) :
    block statement (first :: rest) = lift (braced markUnknown first rest) := by
  have inner {part : List Token} (shorter : part.length ≤ rest.length) :
      statementsFrom statement part 0 = lift (Read.statements markUnknown part) :=
    statementsFrom_eq (fun other fewer => early other (by omega)) shorter
  rw [block,stripBraces_of_open opens,liftM_some,pure_bind,braced_eq]
  cases closed : closing? first rest with
  | none => exact inner (Nat.le_refl _)
  | some cut =>
    have whole := whole_of_closing? closed
    have ended := isEmpty_after whole
    have sides := Cut.sides_shorter whole
    dsimp only
    by_cases alone : cut.after.isEmpty
    · rw [if_pos alone,if_pos alone]
      exact inner (Nat.le_of_lt sides.1)
    · -- the block is read as the first statement of the list that it starts
      have far := mt ended.mpr alone
      have length : Extent.statement (first :: rest) - 1 = cut.before.length + 1 := by
        rw [Extent.statement_of_block opens,closed]
        rfl
      have present : first.isTerminator = false := by rw [Token.isTerminator,opens]; rfl
      have after : (first :: rest).drop (0 + (cut.before.length + 1 + 1)) = cut.after := by
        rw [Nat.zero_add,drop_succ_cons,← whole,Cut.whole,drop_length_add_append]
        rfl
      have others : statementsFrom statement (first :: rest) (0 + (cut.before.length + 1 + 1)) =
          lift (Read.statements markUnknown cut.after) := by
        rw [← after]
        refine @statementsFrom_eq markUnknown rest.length statement (fun other fewer => early other (by omega)) _ _ ?_
        rw [after]
        exact Nat.le_of_lt sides.2
      rw [if_neg alone,if_neg alone,statementsFrom_cons drop_zero,present,length,others,
        early _ (by rw [length_cons,length_take]; omega),statement_of_closed opens closed]
      simp only [lift_bind,lift_pure,bind_assoc,pure_bind]
      rfl

theorem block_eq (each : ∀ part : List Token, part.length ≤ tokens.length →
      statement part = lift (Read.statement markUnknown part)) :
    block statement tokens = lift (Read.block markUnknown tokens) := by
  cases tokens with
  | nil =>
    have stripped : (liftM (stripBraces []) : Checked (List Token)) = pure [] := rfl
    rw [block,stripped,pure_bind,statementsFrom,Read.block]
    rfl
  | cons first rest =>
    rw [Read.block]
    by_cases opens : first.tag = .blockOpen
    · rw [if_pos opens]
      exact block_of_braces (fun part short => each part (Nat.le_of_lt short)) (Nat.lt_succ_self _) opens
    · have kept : (liftM (stripBraces (first :: rest)) : Checked (List Token)) = pure (first :: rest) := by
        rw [stripBraces,head?_cons]
        dsimp only
        rw [if_neg opens]
        rfl
      rw [if_neg opens,block,kept,pure_bind]
      exact statementsFrom_eq each (Nat.le_refl _)

end Blocks

/-! ### Agreement of statements -/

section Lower

variable {markUnknown} {size : Nat} {statement : List Token → Checked (Option Tree)}
  (early : ∀ part : List Token, part.length < size → statement part = lift (Read.statement markUnknown part))
include early

theorem block_lower {part : List Token} (short : part.length < size) :
    block statement part = lift (Read.block markUnknown part) :=
  block_eq fun other fewer => early other (Nat.lt_of_le_of_lt fewer short)

theorem body_eq {code : List Token} (short : code.length < size) :
    body statement code = lift (Read.body markUnknown code) := by
  have length := Body.length_tokens_le code
  rw [body,bodyTokens_eq,Read.body,lift_bind,bind_assoc]
  refine bind_congr fun _ => ?_
  rw [pure_bind,block_lower early (show (Body.of code).tokens.length < size by omega),lift_bind]
  rfl

theorem branch_eq (short : rest.length < size) {conditional : List Token → Checked Tree}
    (chained : ∀ (head : Token) (tail : List Token), tail.length < rest.length →
      conditional (head :: tail) = lift (Read.conditional markUnknown head tail)) :
    branch statement conditional rest = lift (ofOtherwise markUnknown (Otherwise.of rest)) := by
  have parts := length_parts Token.isTerminator rest
  simp only [branch,Otherwise.of,slice_past,liftM_some,pure_bind]
  cases found : rest.dropWhile Token.isTerminator with
  | nil => rfl
  | cons word code =>
    rw [found,length_cons] at parts
    simp only [head?_cons,slice_tail,liftM_some,pure_bind]
    by_cases isElse : word.isKeyword "else"
    · simp only [isElse,if_true]
      have other := body_eq early (show code.length < size by omega)
      cases code with
      | nil =>
        rw [other]
        exact (lift_bind _ _).symm
      | cons head tail =>
        rw [length_cons] at parts
        simp only [other,chained head tail (by omega)]
        by_cases chains : Extent.startsConditional head
        · rw [if_pos chains]
          exact (if_pos chains).trans (lift_bind _ _).symm
        · rw [if_neg chains]
          exact (if_neg chains).trans (lift_bind _ _).symm
    · simp only [isElse]
      rfl

omit early in
theorem slice_code (head : Token) (tail : List Token) :
    slice (head :: tail) (1 + (tail.takeWhile (!endsHeader ·)).length) (head :: tail).length =
      some (tail.dropWhile (!endsHeader ·)) := by
  have parts := length_parts (!endsHeader ·) tail
  rw [slice_back (by rw [length_cons]; omega),Nat.add_comm,drop_succ_cons,Extent.drop_takeWhile]

theorem conditional_eq (head : Token) (short : tail.length < size) {branches : Nat} (enough : tail.length < branches) :
    conditional markUnknown statement branches (head :: tail) = lift (Read.conditional markUnknown head tail) := by
  induction branches generalizing head tail with
  | zero => cases enough
  | succ branches ih =>
    have parts := length_parts (!endsHeader ·) tail
    rw [conditional,Read.conditional_eq]
    simp only [liftM_first,slice_tail,sliceUntil_eq,slice_code,bodyTokens_eq,liftM_some,pure_bind,expression_eq,bind_assoc,lift_bind]
    generalize tail.dropWhile (!endsHeader ·) = code at parts
    have inside := Body.length_tokens_le code
    have left := Body.length_rest_le code
    have rested : slice code (Extent.body code) code.length = some (Body.of code).rest := by
      rw [slice_back (body_le code),Body.drop_body]
    have others := branch_eq early (show (Body.of code).rest.length < size by omega) fun next more shorter =>
      ih next (show more.length < size by omega) (by omega)
    simp only [block_lower early (show (Body.of code).tokens.length < size by omega),rested,liftM_some,pure_bind,others]
    rfl

theorem forEach_eq (head : Token) (short : tail.length < size) :
    forEach markUnknown statement (head :: tail) = lift (ofOutline markUnknown (.forEach head tail)) := by
  have parts := length_parts (!endsHeader ·) tail
  have code := body_eq early (show (tail.dropWhile (!endsHeader ·)).length < size by omega)
  simp only [forEach,liftM_first,slice_tail,sliceUntil_eq,slice_code,liftM_some,pure_bind,expression_eq,code,ofOutline,loopHeader,
    lift_bind,lift_pure,bind_assoc]
  refine bind_congr fun tree => ?_
  cases tree with
  | membership counter collection => rfl
  | _ => rfl

theorem loop_eq (head : Token) (short : tail.length < size) :
    loop markUnknown statement (head :: tail) = lift (ofOutline markUnknown (.loop head tail)) := by
  have parts := length_parts (!endsHeader ·) tail
  have code := body_eq early (show (tail.dropWhile (!endsHeader ·)).length < size by omega)
  simp only [loop,liftM_first,slice_tail,sliceUntil_eq,slice_code,liftM_some,pure_bind,expression_eq,code,ofOutline,
    lift_bind,lift_pure]

theorem function_eq (head : Token) (short : tail.length < size) (inline : Bool) :
    function markUnknown statement (head :: tail) inline = lift (ofOutline markUnknown (Outline.ofFunction head tail inline)) := by
  rw [function,liftM_first,pure_bind]
  cases tail with
  | nil => rfl
  | cons name rest =>
    have parts := length_parts (!endsHeader ·) rest
    have after : slice (head :: name :: rest) 2 (head :: name :: rest).length = some rest := slice_back (by simp)
    have coded : slice (head :: name :: rest) (2 + (rest.takeWhile (!endsHeader ·)).length)
        (head :: name :: rest).length = some (rest.dropWhile (!endsHeader ·)) := by
      rw [show 2 + (rest.takeWhile (!endsHeader ·)).length =
        1 + (rest.takeWhile (!endsHeader ·)).length + 1 by omega,length_cons,slice_cons,slice_code]
    rw [length_cons] at short
    simp only [getElem?_cons_succ,getElem?_cons_zero,Outline.ofFunction]
    by_cases named : name.tag = .identifier
    · have inside := Body.length_tokens_le (rest.dropWhile (!endsHeader ·))
      simp only [named,if_true,after,coded,sliceUntil_eq,parameters_eq,bodyTokens_eq,
        block_lower early (show (Body.of (rest.dropWhile (!endsHeader ·))).tokens.length < size by omega),liftM_some,pure_bind,bind_assoc,
        ofOutline,lift_bind,lift_pure]
    · simp only [named,if_false]
      rfl

theorem keyword_eq (head : Token) (short : tail.length < size) :
    keyword markUnknown statement (head :: tail) = lift (ofOutline markUnknown (Outline.ofKeyword head tail)) := by
  rw [keyword,liftM_first,pure_bind]
  unfold Outline.ofKeyword
  -- Both sides match on the same word: one split may already settle both.
  split
  all_goals
    rename_i spelled
    try simp only [spelled]
  case h_1 | h_2 =>
    rw [length_cons,conditional_eq early head short (Nat.lt_add_one _)]
    exact (lift_bind _ _).symm
  case h_3 | h_4 => exact forEach_eq early head short
  case h_5 | h_6 => exact loop_eq early head short
  case h_7 => exact function_eq early head short false
  case h_8 => exact giveBack_eq markUnknown head tail
  case h_9 | h_10 => exact leave_eq markUnknown head tail
  case h_11 =>
    rw [slice_tail,liftM_some,pure_bind]
    exact early tail short
  case h_12 | h_13 => exact (lift_bind _ _).symm

end Lower

/-- Every statement in another is shorter than it. A block that is followed by more passes all its
tokens on to a statement and gets them back from it, but no further: their brace is stripped then. -/
theorem statement_eq (depth : Nat) : ∀ tokens : List Token, tokens.length < depth →
    statement markUnknown depth tokens = lift (Read.statement markUnknown tokens) := by
  induction depth with
  | zero => exact fun tokens deep => absurd deep (Nat.not_lt_zero _)
  | succ depth early =>
    intro tokens deep
    rw [statement,Read.statement_eq]
    cases tokens with
    | nil => rfl
    | cons first rest =>
      have short : rest.length < depth := Nat.lt_of_succ_lt_succ deep
      simp only [head?_cons,slice_tail,liftM_some,pure_bind,Outline.of]
      by_cases labelled : first.tag = .label
      · simp only [labelled,if_true,early rest short]
        exact (lift_bind _ _).symm
      by_cases isKeyword : first.tag = .keyword
      · simp only [isKeyword,if_true,keyword_eq early first short]
        rfl
      by_cases opens : first.tag = .blockOpen
      · simp only [opens,if_true,block_of_braces early short opens]
        exact (lift_bind _ _).symm
      simp only [labelled,isKeyword,opens,if_false]
      cases rest with
      | nil => cases first.isInline <;> exact plain_eq markUnknown [first]
      | cons next more =>
        rw [length_cons] at short
        simp only [getElem?_cons_succ,getElem?_cons_zero]
        cases first.isInline with
        | false => exact plain_eq markUnknown (first :: next :: more)
        | true =>
          dsimp only
          split
          · split
            · exact function_eq early next (by omega) true
            · rfl
          · exact plain_eq markUnknown (first :: next :: more)

/-- Reading a program by position never looks outside of a token list, never takes one from
a count of zero and always ends, with what reading the program gives. -/
theorem program_in_bounds (tokens : List Token) (symbols : Symbols) :
    outcome? (program markUnknown tokens) symbols =
      some (Action.outcome (Read.program markUnknown tokens) symbols) := by
  have blocks (part : List Token) :
      block (statement markUnknown (part.length + 1)) part = lift (Read.block markUnknown part) :=
    block_eq fun other fewer => statement_eq markUnknown _ other (Nat.lt_succ_of_le fewer)
  have agreed : program markUnknown tokens = lift (Read.program markUnknown tokens) := by
    rw [program,Read.program,lift_bind]
    simp only [blocks,lift_bind,lift_pure]
  rw [agreed]
  rfl

end CalcBasic.Checked

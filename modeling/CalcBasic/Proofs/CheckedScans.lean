import CalcBasic.Proofs.Extents
import Mathlib.Data.List.Induction

/-! Scans of token lists by position. A scan gives nothing if it looks outside of a list,
takes one from a count of zero or does not end; the scans of this module always give
something, and it is what the cuts of token lists say. -/
namespace CalcBasic.Checked
open List
open Extent (isCompound endsHeader drop_takeWhile length_parts branches trunk)
open Brackets (leveled closing? cutFirst cutLast)
open Token (isTerminator)

variable {α : Type} {position : Nat}

/-- The tokens from one position up to another, if both lie in the list and in order. -/
def slice (tokens : List Token) (start stop : Nat) : Option (List Token) :=
  if start ≤ stop ∧ stop ≤ tokens.length then some ((tokens.take stop).drop start) else none

/-- One less than a count that is not zero. -/
def oneLess : Nat → Option Nat
  | 0 => none
  | count + 1 => some count

/-! ### Brackets -/

/-- Position of the token at which the count of open brackets comes back to zero. -/
def closeFrom (opener closer : Tag) (depth position : Nat) : List Token → Option (Option Nat)
  | [] => return none
  | token :: rest =>
    if token.tag = opener then closeFrom opener closer (depth + 1) (position + 1) rest
    else if token.tag = closer then do
      let depth ← oneLess depth
      if depth = 0 then return some position else closeFrom opener closer depth (position + 1) rest
    else closeFrom opener closer depth (position + 1) rest

/-- Position at which the first token is closed. -/
def closingIndex (tokens : List Token) : Option (Option Nat) :=
  match tokens.head? with
  | none => return none
  | some first =>
    match first.tag.closer? with
    | none => return none
    | some closer => closeFrom first.tag closer 0 0 tokens

/-- Positions of the tokens outside brackets. -/
def topLevel (tokens : List Token) : List Nat :=
  ((leveled 0 tokens).zipIdx.filter (·.1.1 == 0)).map (·.2)

def firstTopLevel (wanted : Token → Bool) (tokens : List Token) : Option (Option Nat) :=
  (topLevel tokens).findM? fun position => return wanted (← tokens[position]?)

/-- Whether a wanted token stands at a position, behind one that fits. -/
def fitsAt (fits wanted : Token → Bool) (tokens : List Token) (position : Nat) : Option Bool := do
  if wanted (← tokens[position]?) && 0 < position then return fits (← tokens[← oneLess position]?)
  else return false

def lastTopLevel (fits wanted : Token → Bool) (tokens : List Token) : Option (Option Nat) :=
  (topLevel tokens).reverse.findM? (fitsAt fits wanted tokens)

def splitFrom (separator : Tag) (tokens : List Token) (start : Nat) : List Nat → Option (List (List Token))
  | [] => return [← slice tokens start tokens.length]
  | position :: rest => do
    if (← tokens[position]?).tag = separator then
      let group ← slice tokens start position
      return group :: (← splitFrom separator tokens (position + 1) rest)
    else splitFrom separator tokens start rest

/-- The groups between separators outside brackets. -/
def splitTopLevel (separator : Tag) (tokens : List Token) : Option (List (List Token)) :=
  splitFrom separator tokens 0 (topLevel tokens)

/-- The tokens before the first one that stops. -/
def sliceUntil (stops : Token → Bool) (tokens : List Token) : Option (List Token) :=
  slice tokens 0 (tokens.findIdx stops)

/-- What stands in braces around the whole; an unclosed brace reaches to the end. -/
def stripBraces (tokens : List Token) : Option (List Token) :=
  match tokens.head? with
  | none => return tokens
  | some first =>
    if first.tag = .blockOpen then do
      match ← closingIndex tokens with
      | none => slice tokens 1 tokens.length
      | some close => if close + 1 = tokens.length then slice tokens 1 close else return tokens
    else return tokens

/-! ### Lengths of statements -/

def pastTerminators (tokens : List Token) (position : Nat) : Nat :=
  if tokens[position]?.any isTerminator then pastTerminators tokens (position + 1) else position
termination_by tokens.length - position
decreasing_by
  have inside : position < tokens.length := by
    by_contra outside
    simp [getElem?_eq_none (Nat.le_of_not_lt outside)] at *
  omega

section Lengths

variable (compound : List Token → Option Nat)

/-- Length of a statement, by that of statements with a body. -/
def lengthBy (tokens : List Token) : Option Nat := do
  match tokens.head? with
  | none => return 0
  | some first =>
    if first.tag = .blockOpen then return ((← closingIndex tokens).map (· + 1)).getD tokens.length
    else if isCompound tokens then compound tokens
    else return (← firstTopLevel isTerminator tokens).getD tokens.length

/-- Where the body ends that starts at a position, or behind terminators there. -/
def bodyEnd (tokens : List Token) (start : Nat) : Option Nat := do
  let start := pastTerminators tokens start
  match tokens[start]? with
  | none => return tokens.length
  | some first =>
    let rest ← slice tokens start tokens.length
    if first.tag = .blockOpen then return ((← closingIndex rest).map (start + · + 1)).getD tokens.length
    else return start + (← lengthBy compound rest)

/-- Where the branch ends that follows a position, if there is one. -/
def branchEnd (tokens : List Token) (stop : Nat) : Option Nat := do
  let after := pastTerminators tokens stop
  if tokens[after]?.any (·.isKeyword "else") then
    let branch ← slice tokens (after + 1) tokens.length
    let length ← if isCompound branch then compound branch else bodyEnd compound branch 0
    return after + 1 + length
  else return stop

end Lengths

/-- Length of a statement with a body, and of the branches that follow it, to a limited depth. -/
def compoundLength : Nat → List Token → Option Nat
  | 0, _ => none
  | depth + 1, tokens => do
    match tokens.findIdx? endsHeader with
    | none => return tokens.length
    | some start =>
      let stop ← bodyEnd (compoundLength depth) tokens start
      if tokens.head?.any Extent.startsConditional then branchEnd (compoundLength depth) tokens stop else return stop

def statementLength (tokens : List Token) : Option Nat := lengthBy (compoundLength tokens.length) tokens

/-! ### Slices -/

variable {tokens : List Token} {start stop : Nat}

theorem slice_eq (ordered : start ≤ stop) (bounded : stop ≤ tokens.length) :
    slice tokens start stop = some ((tokens.take stop).drop start) := if_pos ⟨ordered, bounded⟩

theorem slice_front (bounded : stop ≤ tokens.length) : slice tokens 0 stop = some (tokens.take stop) :=
  slice_eq (Nat.zero_le stop) bounded

theorem slice_back (bounded : start ≤ tokens.length) : slice tokens start tokens.length = some (tokens.drop start) := by
  rw [slice_eq bounded (Nat.le_refl _),take_length]

theorem slice_tail (first : Token) (rest : List Token) :
    slice (first :: rest) 1 (first :: rest).length = some rest :=
  slice_back (by simp)

theorem slice_cons (first : Token) (rest : List Token) (start stop : Nat) :
    slice (first :: rest) (start + 1) (stop + 1) = slice rest start stop := by
  unfold slice
  rw [length_cons,take_succ_cons,drop_succ_cons]
  simp only [Nat.add_le_add_iff_right]

theorem sliceUntil_eq (stops : Token → Bool) (tokens : List Token) :
    sliceUntil stops tokens = some (tokens.takeWhile (!stops ·)) := by
  rw [sliceUntil,slice_front findIdx_le_length,takeWhile_eq_take_findIdx_not]
  simp

theorem slice_past (p : Token → Bool) (tokens : List Token) :
    slice tokens (tokens.takeWhile p).length tokens.length = some (tokens.dropWhile p) := by
  rw [slice_back (takeWhile_sublist p).length_le,drop_takeWhile]

theorem drop_past (p : Token → Bool) (tokens : List Token) (start : Nat) :
    tokens.drop (start + ((tokens.drop start).takeWhile p).length) = (tokens.drop start).dropWhile p := by
  rw [← drop_drop,drop_takeWhile]

section Cuts

variable {cut : Cut} (isWhole : cut.whole = tokens)
include isWhole

theorem slice_before : slice tokens 0 cut.before.length = some cut.before := by
  subst isWhole
  rw [slice_front (by simp [Cut.whole]),Cut.whole,take_left]

theorem slice_after : slice tokens (cut.before.length + 1) tokens.length = some cut.after := by
  subst isWhole
  rw [slice_back (by simp [Cut.whole]),Cut.whole,drop_length_add_append]
  rfl

theorem getElem?_cut : tokens[cut.before.length]? = some cut.token := by
  subst isWhole
  rw [Cut.whole,getElem?_append_right (Nat.le_refl _),Nat.sub_self]
  rfl

theorem isEmpty_after : cut.after.isEmpty = true ↔ tokens.length ≤ cut.before.length + 1 := by
  rw [← isWhole,Cut.length_whole,isEmpty_iff_length_eq_zero]
  omega

end Cuts

/-! ### Closing brackets -/

theorem map_length_cons (token : Token) (position : Nat) (found : Option Cut) :
    (found.map (Cut.cons token)).map (position + ·.before.length) = found.map (position + 1 + ·.before.length) := by
  rw [Option.map_map]
  congr 1
  funext cut
  simp only [Function.comp_apply,Cut.cons,length_cons]
  omega

theorem closeFrom_eq (opener closer : Tag) (nested position : Nat) (tokens : List Token) :
    closeFrom opener closer (nested + 1) position tokens =
      some ((Brackets.close opener closer nested tokens).map (position + ·.before.length)) := by
  induction tokens generalizing nested position with
  | nil => rfl
  | cons token rest ih =>
    rw [closeFrom]
    by_cases opens : token.tag = opener
    · rw [if_pos opens,ih,Brackets.close_opener _ _ opens,map_length_cons]
    rw [if_neg opens]
    by_cases closes : token.tag = closer
    · rw [if_pos closes]
      cases nested with
      | zero =>
        rw [Brackets.close_here _ opens closes]
        rfl
      | succ nested =>
        rw [Brackets.close_inner _ _ opens closes,map_length_cons,← ih]
        rfl
    · rw [if_neg closes,ih,Brackets.close_other _ _ opens closes,map_length_cons]

/-- The count of open brackets is not zero where one is taken from it. -/
theorem closingIndex_eq (first : Token) (rest : List Token) :
    closingIndex (first :: rest) = some ((closing? first rest).map (·.before.length + 1)) := by
  rw [closingIndex,head?_cons]
  dsimp only
  rw [closing?]
  cases isCloser : first.tag.closer? with
  | none => rfl
  | some closer =>
    simp only [closeFrom,if_true,Nat.zero_add,closeFrom_eq,Option.bind_some,Nat.add_comm 1]

section Inside

variable {first : Token} {rest : List Token}

theorem slice_unclosed : slice (first :: rest) 1 (min (rest.length + 1) (first :: rest).length) = some rest := by
  rw [length_cons,Nat.min_self]
  exact slice_tail first rest

variable {cut : Cut} (closed : closing? first rest = some cut)
include closed

theorem slice_closed : slice (first :: rest) 1 (min (cut.before.length + 1) (first :: rest).length) = some cut.before := by
  have whole := Brackets.whole_of_closing? closed
  rw [Nat.min_eq_left (by rw [length_cons]; have := (Cut.sides_shorter whole).1; omega),slice_cons,slice_before whole]

end Inside

theorem stripBraces_of_open {first : Token} (opens : first.tag = .blockOpen) (rest : List Token) :
    stripBraces (first :: rest) = some (match closing? first rest with
      | none => rest
      | some cut => if cut.after.isEmpty then cut.before else first :: rest) := by
  simp only [stripBraces,head?_cons,opens,if_true,closingIndex_eq,Option.bind_eq_bind,Option.bind_some]
  cases closed : closing? first rest with
  | none => exact slice_tail first rest
  | some cut =>
    have whole := Brackets.whole_of_closing? closed
    have ended := isEmpty_after whole
    have shorter := (Cut.sides_shorter whole).1
    simp only [Option.map_some,length_cons]
    by_cases alone : cut.after.isEmpty
    · have near := ended.mp alone
      rw [if_pos alone,if_pos (by omega),slice_cons,slice_before whole]
    · have far := mt ended.mpr alone
      rw [if_neg alone,if_neg (by omega)]
      rfl

/-! ### Tokens outside brackets -/

theorem findM?_positions (outside wanted : α → Bool) (test : Nat → Option Bool) {entries : List (α × Nat)}
    (each : ∀ entry ∈ entries, test entry.2 = some (wanted entry.1)) :
    ((entries.filter (outside ·.1)).map (·.2)).findM? test =
      some ((entries.find? fun entry => outside entry.1 && wanted entry.1).map (·.2)) := by
  induction entries with
  | nil => rfl
  | cons entry rest ih =>
    have later := ih fun other member => each other (by simp [member])
    cases isOutside : outside entry.1 with
    | false => simpa [isOutside] using later
    | true =>
      rw [filter_cons,if_pos isOutside,map_cons,List.findM?,each entry (by simp)]
      cases found : wanted entry.1 with
      | false => simpa [isOutside,found] using later
      | true => simp [isOutside,found]

theorem zipIdx_find? (wanted : α → Bool) (items : List α) (start : Nat) :
    ((items.zipIdx start).find? fun entry => wanted entry.1).map (·.2) =
      match items.dropWhile (!wanted ·) with
      | [] => none
      | _ :: _ => some (start + (items.takeWhile (!wanted ·)).length) := by
  induction items generalizing start with
  | nil => rfl
  | cons item rest ih =>
    rw [zipIdx_cons]
    cases found : wanted item with
    | true => simp [found]
    | false =>
      rw [find?_cons_of_neg (by simp [found]),ih,dropWhile_cons_of_pos (by simp [found]),
        takeWhile_cons_of_pos (by simp [found]),length_cons]
      simp only [Nat.add_assoc,Nat.add_comm 1]

theorem zipIdx_reverse_find? (wanted : α → Bool) (items : List α) :
    (items.zipIdx.reverse.find? fun entry => wanted entry.1).map (·.2) =
      match items.reverse.dropWhile (!wanted ·) with
      | [] => none
      | _ :: before => some before.length := by
  induction items using List.reverseRecOn with
  | nil => rfl
  | append_singleton items last ih =>
    rw [zipIdx_append,reverse_append,reverse_append]
    cases found : wanted last with
    | true => simp [found]
    | false => simpa [found] using ih

theorem getElem?_leveled {depth level : Nat} {token : Token}
    (placed : (leveled depth tokens)[position]? = some (level, token)) : tokens[position]? = some token := by
  have mapped := congrArg (Option.map Prod.snd) placed
  rwa [← getElem?_map,Brackets.map_snd_leveled] at mapped

theorem firstTopLevel_eq (wanted : Token → Bool) (tokens : List Token) :
    firstTopLevel wanted tokens = some ((cutFirst wanted tokens).map (·.before.length)) := by
  have found := findM?_positions (fun entry : Nat × Token => entry.1 == 0) (fun entry => wanted entry.2)
    (fun position => do return wanted (← tokens[position]?))
    (fun entry (member : entry ∈ (leveled 0 tokens).zipIdx) => by
      rw [getElem?_leveled (mem_zipIdx_iff_getElem?.mp member)]
      rfl)
  rw [zipIdx_find? fun entry : Nat × Token => entry.1 == 0 && wanted entry.2] at found
  refine found.trans (congrArg some ?_)
  unfold cutFirst
  dsimp only
  split <;> simp only [*,Option.map_none,Option.map_some,length_map,Nat.zero_add]

/-- Each token with its level and the token before it. -/
def preceded (tokens : List Token) : List ((Nat × Token) × Option Token) :=
  (leveled 0 tokens).zip (none :: tokens.map some)

theorem topLevel_eq (tokens : List Token) :
    topLevel tokens = ((preceded tokens).zipIdx.filter (·.1.1.1 == 0)).map (·.2) := by
  have firsts : (preceded tokens).map Prod.fst = leveled 0 tokens :=
    map_fst_zip (by simp [Brackets.length_leveled])
  rw [topLevel,← firsts,zipIdx_map,filter_map,map_map]
  rfl

theorem fitsAt_eq (fits wanted : Token → Bool) {entry : (Nat × Token) × Option Token}
    (placed : (preceded tokens)[position]? = some entry) :
    fitsAt fits wanted tokens position = some (entry.2.any fun previous => fits previous && wanted entry.1.2) := by
  obtain ⟨level,before⟩ := getElem?_zip_eq_some.mp placed
  rw [fitsAt,getElem?_leveled level]
  cases position with
  | zero =>
    rw [getElem?_cons_zero,Option.some.injEq] at before
    simp [← before]
  | succ position =>
    rw [getElem?_cons_succ,getElem?_map] at before
    obtain ⟨previous,found,isPrevious⟩ := Option.map_eq_some_iff.mp before
    rw [← isPrevious]
    cases isWanted : wanted entry.1.2 <;> simp [isWanted,oneLess,found]

theorem lastTopLevel_eq (fits wanted : Token → Bool) (tokens : List Token) :
    lastTopLevel fits wanted tokens =
      some ((cutLast (fun previous token => fits previous && wanted token) tokens).map (·.before.length)) := by
  let matched (entry : (Nat × Token) × Option Token) : Bool :=
    entry.1.1 == 0 && entry.2.any fun previous => fits previous && wanted entry.1.2
  have found := findM?_positions (fun entry => entry.1.1 == 0)
    (fun entry => entry.2.any fun previous => fits previous && wanted entry.1.2) (fitsAt fits wanted tokens)
    (fun entry (member : entry ∈ (preceded tokens).zipIdx.reverse) =>
      fitsAt_eq fits wanted (mem_zipIdx_iff_getElem?.mp (mem_reverse.mp member)))
  rw [zipIdx_reverse_find? matched,filter_reverse,map_reverse,← topLevel_eq] at found
  refine found.trans (congrArg some ?_)
  unfold cutLast
  rw [← preceded]
  dsimp only [matched]
  split <;> simp only [*,Option.map_none,Option.map_some,length_map,length_reverse]

theorem wanted_of_cutLast {wanted : Token → Token → Bool} {cut : Cut} (found : cutLast wanted tokens = some cut) :
    ∃ previous, wanted previous cut.token = true := by
  simp only [cutLast] at found
  split at found
  · cases found
  · rename_i level token previous before rest
    cases found
    have kept := head?_dropWhile_not (fun entry : (Nat × Token) × Option Token =>
      !(entry.1.1 == 0 && entry.2.any (wanted · entry.1.2)))
      ((leveled 0 tokens).zip (none :: tokens.map some)).reverse
    rw [rest] at kept
    simp only [head?_cons,Bool.not_eq_false',Bool.and_eq_true] at kept
    obtain ⟨before,_,fits⟩ := (Option.any_eq_true _ _).mp kept.2
    exact ⟨before, fits⟩

/-- The groups of what is left, when the first of them starts in what was passed. -/
theorem splitFrom_eq (separator : Tag) (depth start : Nat) {passed : List Token} (ordered : start ≤ passed.length)
    (rest : List Token) :
    let groups := Groups.cut (fun entry => entry.1 == 0 && entry.2.tag == separator) (leveled depth rest)
    splitFrom separator (passed ++ rest) start
        ((((leveled depth rest).zipIdx passed.length).filter (·.1.1 == 0)).map (·.2)) =
      some ((passed.drop start ++ groups.1.map (·.2)) :: groups.2.map (·.map (·.2))) := by
  induction rest generalizing depth passed start with
  | nil =>
    rw [append_nil]
    simp [leveled,splitFrom,slice_back ordered,Groups.cut]
  | cons token rest ih =>
    have longer : (passed ++ [token]).length = passed.length + 1 := by simp
    have kept : (passed ++ [token]).drop start = passed.drop start ++ [token] := drop_append_of_le_length ordered
    have started : slice (passed ++ token :: rest) start passed.length = some (passed.drop start) := by
      rw [slice_eq ordered (by simp),take_left]
    rw [leveled]
    generalize (if token.tag.isClose then depth - 1 else depth) = level
    generalize (if token.tag.isOpen then level + 1 else level) = inner
    have continued := @ih inner start (passed ++ [token]) (by omega)
    have restarted := @ih inner (passed.length + 1) (passed ++ [token]) (by omega)
    rw [longer,append_assoc,singleton_append] at continued restarted
    rw [kept] at continued
    simp only [zipIdx_cons,Groups.cut]
    by_cases outside : level = 0
    · by_cases separates : token.tag = separator
      · simp only [drop_of_length_le (Nat.le_of_eq longer),nil_append] at restarted
        simp [outside,separates,splitFrom,started,restarted]
      · simpa [outside,separates,splitFrom] using continued
    · simpa [outside] using continued

theorem splitTopLevel_eq (separator : Tag) (tokens : List Token) :
    splitTopLevel separator tokens = some (Brackets.split separator tokens) :=
  splitFrom_eq separator 0 0 (Nat.zero_le ([] : List Token).length) tokens

/-! ### Lengths of statements -/

theorem pastTerminators_eq {rest : List Token} (left : tokens.drop position = rest) :
    pastTerminators tokens position = position + (rest.takeWhile isTerminator).length := by
  have first : tokens[position]? = rest.head? := by rw [← left,head?_drop]
  induction rest generalizing position with
  | nil =>
    rw [pastTerminators,first]
    rfl
  | cons token rest ih =>
    rw [pastTerminators,first,head?_cons,Option.any_some]
    cases passed : token.isTerminator with
    | false =>
      rw [takeWhile_cons_of_neg (by simp [passed])]
      rfl
    | true =>
      have shorter : tokens.drop (position + 1) = rest := by rw [← tail_drop,left,tail_cons]
      rw [if_pos rfl,ih shorter (by rw [← shorter,head?_drop]),takeWhile_cons_of_pos passed,length_cons,
        Nat.add_assoc,Nat.add_comm 1]

theorem findIdx?_eq (p : Token → Bool) (tokens : List Token) :
    tokens.findIdx? p =
      match tokens.dropWhile (!p ·) with
      | [] => none
      | _ :: _ => some (tokens.takeWhile (!p ·)).length := by
  rw [findIdx?_eq_fst_find?_zipIdx]
  refine (zipIdx_find? p tokens 0).trans ?_
  split <;> simp only [*,Nat.zero_add]

section Lower

variable {compound : List Token → Option Nat} {size : Nat} (lower : ∀ tokens : List Token, tokens.length ≤ size →
  isCompound tokens = true → compound tokens = some (Extent.statement tokens))
include lower

theorem lengthBy_eq (short : tokens.length ≤ size) : lengthBy compound tokens = some (Extent.statement tokens) := by
  cases tokens with
  | nil =>
    rw [Extent.statement_nil]
    rfl
  | cons first rest =>
    cases reaches : isCompound (first :: rest) with
    | true =>
      rw [← lower _ short reaches]
      exact (if_neg (Extent.not_terminator_of_isCompound reaches).1).trans (if_pos reaches)
    | false =>
      rw [lengthBy,Extent.statement]
      simp only [head?_cons,reaches,closingIndex_eq,firstTopLevel_eq,Option.bind_eq_bind,Option.bind_some]
      split
      · cases closing? first rest <;> rfl
      · cases cutFirst isTerminator (first :: rest) <;> rfl

theorem bodyEnd_eq (ordered : start ≤ tokens.length) (short : (tokens.drop start).length ≤ size) :
    bodyEnd compound tokens start = some (start + Extent.body (tokens.drop start)) := by
  have parts := length_parts isTerminator (tokens.drop start)
  have left := drop_past isTerminator tokens start
  rw [bodyEnd,pastTerminators_eq rfl,← head?_drop,left,Extent.body_eq,← Nat.add_assoc]
  rw [length_drop] at parts short
  generalize (tokens.drop start).takeWhile isTerminator = gap at parts left
  cases found : (tokens.drop start).dropWhile isTerminator with
  | nil =>
    rw [found,length_nil] at parts
    rw [Extent.statement_nil]
    exact congrArg some (by omega)
  | cons first rest =>
    rw [found] at parts left
    have rested : slice tokens (start + gap.length) tokens.length = some (first :: rest) := by
      rw [slice_back (by omega),left]
    rw [length_cons] at parts
    simp only [head?_cons,rested,Option.bind_eq_bind,Option.bind_some]
    by_cases opens : first.tag = .blockOpen
    · simp only [opens,if_true,closingIndex_eq,Option.bind_some,Extent.statement_of_block opens]
      cases closing? first rest with
      | none => exact congrArg some (show tokens.length = start + gap.length + (rest.length + 1) by omega)
      | some cut => rfl
    · have length := lengthBy_eq lower (show (first :: rest).length ≤ size by rw [length_cons]; omega)
      simp only [opens,if_false,length]
      rfl

theorem branchEnd_eq (ordered : stop ≤ tokens.length) (short : (tokens.drop stop).length ≤ size) :
    branchEnd compound tokens stop = some (stop + branches (tokens.drop stop)) := by
  have parts := length_parts isTerminator (tokens.drop stop)
  have left := drop_past isTerminator tokens stop
  rw [branchEnd,pastTerminators_eq rfl,← head?_drop,left,branches]
  rw [length_drop] at parts short
  generalize (tokens.drop stop).takeWhile isTerminator = gap at parts left
  cases found : (tokens.drop stop).dropWhile isTerminator with
  | nil => rfl
  | cons word branch =>
    rw [found] at parts left
    rw [length_cons] at parts
    have rested : slice tokens (stop + gap.length + 1) tokens.length = some branch := by
      rw [slice_back (by omega),← drop_drop,left]
      rfl
    have total : stop + gap.length + 1 + Extent.body branch = stop + (gap.length + 1 + Extent.body branch) := by omega
    simp only [head?_cons,Option.any_some,rested,Option.bind_eq_bind,Option.bind_some]
    by_cases isElse : word.isKeyword "else"
    · rw [if_pos isElse,if_pos isElse,← total]
      split
      · rename_i reaches
        rw [lower branch (by omega) reaches]
        cases branch with
        | nil => cases reaches
        | cons head tail =>
          rw [Extent.statement_of_isCompound reaches,Extent.body_of_isCompound reaches]
          rfl
      · rw [bodyEnd_eq lower (Nat.zero_le _) (by rw [drop_zero]; omega),drop_zero,Nat.zero_add]
        rfl
    · rw [if_neg isElse,if_neg isElse]
      rfl

end Lower

/-- Every body and every branch is shorter than the statement it belongs to. -/
theorem compoundLength_eq (depth : Nat) : ∀ tokens : List Token, tokens.length ≤ depth →
    isCompound tokens = true → compoundLength depth tokens = some (Extent.statement tokens) := by
  induction depth with
  | zero =>
    intro tokens short reaches
    rw [length_eq_zero_iff.mp (Nat.le_zero.mp short)] at reaches
    cases reaches
  | succ depth lower =>
    rintro (_ | ⟨head,tail⟩) short reaches
    · cases reaches
    rw [length_cons] at short
    have bound := Extent.trunk_le (fun tokens _ => Extent.statement_le tokens) (Nat.le_refl tail.length)
    have parts := length_parts (!endsHeader ·) tail
    have notEnd : (!endsHeader head) = true := by
      obtain ⟨notOpen,notTerminator⟩ := Extent.not_terminator_of_isCompound reaches
      rw [Bool.not_eq_true',endsHeader,Bool.or_eq_false_iff]
      exact ⟨notTerminator, by simpa using notOpen⟩
    have code : (head :: tail).drop ((tail.takeWhile (!endsHeader ·)).length + 1) =
        tail.dropWhile (!endsHeader ·) := by
      rw [drop_succ_cons,drop_takeWhile]
    have passed : (head :: tail).dropWhile (!endsHeader ·) = tail.dropWhile (!endsHeader ·) :=
      dropWhile_cons_of_pos notEnd
    have header : (head :: tail).takeWhile (!endsHeader ·) = head :: tail.takeWhile (!endsHeader ·) :=
      takeWhile_cons_of_pos notEnd
    rw [Extent.statement_of_isCompound reaches,Extent.compound_eq,compoundLength,findIdx?_eq,passed,header,length_cons]
    cases found : tail.dropWhile (!endsHeader ·) with
    | nil =>
      have all : trunk tail = (head :: tail).length := by
        rw [found,length_nil] at parts
        rw [trunk,found,Extent.body_nil,length_cons]
        omega
      rw [all,drop_length]
      exact congrArg some (by simp [branches])
    | cons first rest =>
      have stop : bodyEnd (compoundLength depth) (head :: tail) ((tail.takeWhile (!endsHeader ·)).length + 1) =
          some (trunk tail) := by
        rw [bodyEnd_eq lower (by rw [length_cons]; omega) (by rw [code]; omega),code,trunk,Nat.add_comm _ 1]
      simp only [stop,Option.bind_eq_bind,Option.bind_some]
      by_cases conditional : Extent.startsConditional head
      · have remaining : ((head :: tail).drop (trunk tail)).length ≤ depth := by
          have positive : 1 ≤ trunk tail := by rw [trunk]; omega
          rw [length_drop,length_cons]
          omega
        rw [if_pos conditional,← branchEnd_eq lower (by rw [length_cons]; omega) remaining]
        exact if_pos conditional
      · rw [if_neg conditional]
        exact if_neg conditional

theorem statementLength_eq (tokens : List Token) : statementLength tokens = some (Extent.statement tokens) :=
  lengthBy_eq (compoundLength_eq tokens.length) (Nat.le_refl _)

end CalcBasic.Checked

import CalcBasic.Groups
import CalcBasic.Token

/-! Brackets in token lists: how deep a token lies, where a bracket closes, and
cuts at tokens outside all brackets. A cut loses no token. -/
namespace CalcBasic

/-- A token list cut at one of its tokens. -/
structure Cut where
  before : List Token
  token : Token
  after : List Token
  deriving DecidableEq, Repr

namespace Cut

def whole (cut : Cut) : List Token := cut.before ++ cut.token :: cut.after

def cons (token : Token) (cut : Cut) : Cut := { cut with before := token :: cut.before }

theorem whole_cons (token : Token) (cut : Cut) : (cut.cons token).whole = token :: cut.whole := rfl

theorem length_whole (cut : Cut) : cut.whole.length = cut.before.length + cut.after.length + 1 := by
  simp only [whole, List.length_append, List.length_cons]; omega

theorem sides_shorter {tokens : List Token} {cut : Cut} (isWhole : cut.whole = tokens) :
    cut.before.length < tokens.length ∧ cut.after.length < tokens.length := by
  rw [← isWhole, length_whole]; omega

end Cut

namespace Brackets

variable {tokens : List Token} {cut : Cut}

/-! ### Closing brackets -/

/-- Cuts what follows an opening bracket at its closing one, with `nested` more
brackets of the kind open. Other kinds of brackets do not matter. -/
def close (opener closer : Tag) (nested : Nat) : List Token → Option Cut
  | [] => none
  | token :: rest =>
    if token.tag = opener then (close opener closer (nested + 1) rest).map (Cut.cons token)
    else if token.tag = closer then
      match nested with
      | 0 => some ⟨[], token, rest⟩
      | nested + 1 => (close opener closer nested rest).map (Cut.cons token)
    else (close opener closer nested rest).map (Cut.cons token)

/-- Cuts what follows `bracket` where it closes. -/
def closing? (bracket : Token) (rest : List Token) : Option Cut :=
  bracket.tag.closer?.bind fun closer => close bracket.tag closer 0 rest

theorem whole_of_close {opener closer : Tag} {nested : Nat}
    (closed : close opener closer nested tokens = some cut) : cut.whole = tokens := by
  fun_induction close opener closer nested tokens generalizing cut with
  | case1 => contradiction
  | case3 => simp only [Option.some.injEq] at closed; subst closed; rfl
  | case2 nested token rest _ ih | case4 token rest _ _ nested ih | case5 nested token rest _ _ ih =>
    obtain ⟨inner, found, rfl⟩ := Option.map_eq_some_iff.mp closed
    rw [Cut.whole_cons, ih found]

theorem whole_of_closing? {bracket : Token} (closed : closing? bracket tokens = some cut) : cut.whole = tokens := by
  obtain ⟨_, _, closed⟩ := Option.bind_eq_some_iff.mp closed
  exact whole_of_close closed

/-! ### Levels -/

/-- Each token with the number of brackets around it. An opening bracket and its
closing one are outside of themselves; a stray closing bracket is passed over. -/
def leveled (depth : Nat) : List Token → List (Nat × Token)
  | [] => []
  | token :: rest =>
    let level := if token.tag.isClose then depth - 1 else depth
    (level, token) :: leveled (if token.tag.isOpen then level + 1 else level) rest

theorem map_snd_leveled (depth : Nat) (tokens : List Token) :
    (leveled depth tokens).map (·.2) = tokens := by
  induction tokens generalizing depth with
  | nil => rfl
  | cons token rest ih => simp [leveled, ih]

theorem length_leveled (depth : Nat) (tokens : List Token) :
    (leveled depth tokens).length = tokens.length := by
  rw [← List.length_map (f := (·.2)), map_snd_leveled]

/-- Cuts at the first token outside brackets that is wanted. -/
def cutFirst (wanted : Token → Bool) (tokens : List Token) : Option Cut :=
  let skips := fun (entry : Nat × Token) => !(entry.1 == 0 && wanted entry.2)
  let entries := leveled 0 tokens
  match entries.dropWhile skips with
  | [] => none
  | (_, token) :: after => some ⟨(entries.takeWhile skips).map (·.2), token, after.map (·.2)⟩

/-- Cuts at the last token outside brackets that is wanted after the token
before it. -/
def cutLast (wanted : Token → Token → Bool) (tokens : List Token) : Option Cut :=
  let skips := fun (entry : (Nat × Token) × Option Token) =>
    !(entry.1.1 == 0 && entry.2.any (wanted · entry.1.2))
  let entries := ((leveled 0 tokens).zip (none :: tokens.map some)).reverse
  match entries.dropWhile skips with
  | [] => none
  | ((_, token), _) :: before =>
    some ⟨(before.map (·.1.2)).reverse, token, ((entries.takeWhile skips).map (·.1.2)).reverse⟩

/-- The groups between separators outside brackets. -/
def split (separator : Tag) (tokens : List Token) : List (List Token) :=
  (Groups.split (fun entry => entry.1 == 0 && entry.2.tag == separator) (leveled 0 tokens)).map
    fun group => group.map (·.2)

theorem whole_of_cutFirst {wanted : Token → Bool} (found : cutFirst wanted tokens = some cut) : cut.whole = tokens := by
  simp only [cutFirst] at found
  split at found
  · contradiction
  · rename_i level token after rest
    simp only [Option.some.injEq] at found
    subst found
    have parts := List.takeWhile_append_dropWhile
      (p := fun (entry : Nat × Token) => !(entry.1 == 0 && wanted entry.2)) (l := leveled 0 tokens)
    rw [rest] at parts
    have whole := congrArg (List.map (·.2)) parts
    rw [map_snd_leveled] at whole
    simpa [Cut.whole] using whole

theorem whole_of_cutLast {wanted : Token → Token → Bool} (found : cutLast wanted tokens = some cut) : cut.whole = tokens := by
  simp only [cutLast] at found
  split at found
  · contradiction
  · rename_i level token previous before rest
    simp only [Option.some.injEq] at found
    subst found
    have parts := List.takeWhile_append_dropWhile
      (p := fun (entry : (Nat × Token) × Option Token) =>
        !(entry.1.1 == 0 && entry.2.any (wanted · entry.1.2)))
      (l := ((leveled 0 tokens).zip (none :: tokens.map some)).reverse)
    rw [rest] at parts
    have whole := congrArg (fun entries => (entries.map (·.1.2)).reverse) parts
    have firsts : ((leveled 0 tokens).zip (none :: tokens.map some)).map (·.1.2) = tokens := by
      have lengths : (leveled 0 tokens).length ≤ (none :: tokens.map some).length := by
        simp [length_leveled]
      calc ((leveled 0 tokens).zip (none :: tokens.map some)).map (·.1.2)
          = (((leveled 0 tokens).zip (none :: tokens.map some)).map Prod.fst).map (·.2) := by
            rw [List.map_map]; rfl
        _ = tokens := by rw [List.map_fst_zip lengths, map_snd_leveled]
    simpa [Cut.whole, firsts] using whole

theorem length_le_of_mem_split {separator : Tag} {group : List Token}
    (isGroup : group ∈ split separator tokens) : group.length ≤ tokens.length := by
  obtain ⟨entries, isEntries, rfl⟩ := List.mem_map.mp isGroup
  simpa [length_leveled] using Groups.length_le_of_mem_split isEntries

end Brackets
end CalcBasic

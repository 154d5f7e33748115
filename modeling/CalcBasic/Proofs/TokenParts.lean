import CalcBasic.Reader.Outline
import CalcBasic.Reader.Shape
import Mathlib.Data.List.Basic

/-! The tokens that shapes and outlines are made of. Finding them makes up no token and
leaves none out: each part is a stretch of the list that is being read. -/
namespace CalcBasic
open List

/-! ### Cuts and groups -/

theorem Cut.within {tokens : List Token} {cut : Cut} (isWhole : cut.whole = tokens) :
    cut.before <:+: tokens ∧ cut.token ∈ tokens ∧ cut.after <:+: tokens := by
  subst isWhole
  refine ⟨(prefix_append _ _).isInfix, ?_, ?_⟩
  · exact mem_append_right _ mem_cons_self
  · exact ((suffix_cons _ _).trans (suffix_append _ _)).isInfix

theorem Groups.cut_within {α : Type} (separates : α → Bool) (items : List α) :
    (cut separates items).1 <+: items ∧ ∀ group ∈ (cut separates items).2, group <:+: items := by
  induction items with
  | nil => exact ⟨prefix_refl [], nofun⟩
  | cons head rest ih =>
    obtain ⟨first,others⟩ := ih
    have later : ∀ group ∈ (cut separates rest).2, group <:+: head :: rest := fun group member =>
      infix_cons (others group member)
    unfold cut
    dsimp only
    split
    · exact ⟨List.nil_prefix, forall_mem_cons.mpr ⟨infix_cons first.isInfix, later⟩⟩
    · exact ⟨(prefix_cons_inj head).mpr first, later⟩

theorem Groups.within_of_mem_split {α : Type} {separates : α → Bool} {items group : List α}
    (isGroup : group ∈ split separates items) : group <:+: items := by
  obtain ⟨first,others⟩ := cut_within separates items
  rcases mem_cons.mp isGroup with rfl | later
  · exact first.isInfix
  · exact others group later

theorem Brackets.within_of_mem_split {separator : Tag} {tokens group : List Token}
    (isGroup : group ∈ split separator tokens) : group <:+: tokens := by
  obtain ⟨entries,isEntries,rfl⟩ := mem_map.mp isGroup
  have stretch := (Groups.within_of_mem_split isEntries).map (·.2)
  rwa [map_snd_leveled] at stretch

/-! ### Shapes -/

namespace Shape

/-- The tokens that a shape names by themselves. -/
@[simp]
def marks : Shape → List Token
  | .group bracket _ _ | .list bracket _ _ => [bracket]
  | .call name _ | .word name => [name]
  | .unclosedCall name bracket | .element name bracket _ _ => [name, bracket]
  | .complement mark _ => [mark]
  | .literal token _ => [token]
  | _ => []

/-- The shape is made of these tokens. -/
structure Within (tokens : List Token) (shape : Shape) : Prop where
  marks : shape.marks ⊆ tokens
  parts : ∀ part ∈ shape.parts, part <:+: tokens

variable {first : Token} {rest tokens : List Token} {shape : Shape}

theorem enclosed?_within (found : enclosed? first rest = some shape) : shape.Within (first :: rest) := by
  have inside {closed : Bool} {inner : List Token} (within : inner <:+: rest) :
      (if first.tag = .parenOpen then group first closed inner
        else list first closed ((Brackets.split .delimiter inner).filter fun item => !item.isEmpty)).Within (first :: rest) := by
    have covered : inner <:+: first :: rest := infix_cons within
    split
    · exact ⟨by simp [Shape.marks], by simpa [parts] using covered⟩
    · refine ⟨by simp [Shape.marks], fun item isItem => ?_⟩
      rw [parts,mem_filter] at isItem
      exact (Brackets.within_of_mem_split isItem.1).trans covered
  simp only [enclosed?] at found
  split at found
  · split at found
    · cases found
      exact inside infix_rfl
    · rename_i cut closed
      split at found
      · cases found
        exact inside (Cut.within (Brackets.whole_of_closing? closed)).1
      · cases found
  · cases found

theorem argumentsOf_within {part : List Token} (isPart : part ∈ argumentsOf tokens) : part <:+: tokens := by
  unfold argumentsOf at isPart
  split at isPart
  · cases isPart
  · exact Brackets.within_of_mem_split isPart

theorem called?_within {functions : FunctionTable} (found : called? functions first rest = some shape) :
    shape.Within (first :: rest) := by
  unfold called? at found
  split at found
  · cases found
    exact ⟨by simp [Shape.marks], by simp⟩
  · rename_i next more
    split at found
    · split at found
      · cases found
        exact ⟨by simp [Shape.marks], by simp⟩
      · rename_i cut closed
        split at found
        · cases found
          refine ⟨by simp [Shape.marks], fun part isPart => (argumentsOf_within isPart).trans ?_⟩
          exact infix_cons (infix_cons (Cut.within (Brackets.whole_of_closing? closed)).1)
        · cases found
    · split at found
      · cases found
        exact ⟨by simp [Shape.marks], fun part isPart => infix_cons (argumentsOf_within isPart)⟩
      · cases found

theorem membership?_within (found : membership? tokens = some shape) : shape.Within tokens := by
  obtain ⟨cut,isCut,rfl⟩ := Option.map_eq_some_iff.mp found
  obtain ⟨before,_,after⟩ := Cut.within (Brackets.whole_of_cutFirst isCut)
  exact ⟨by simp [Shape.marks], by simp [parts,before,after]⟩

theorem range?_within (found : range? tokens = some shape) : shape.Within tokens := by
  obtain ⟨cut,isCut,rfl⟩ := Option.map_eq_some_iff.mp found
  obtain ⟨before,_,after⟩ := Cut.within (Brackets.whole_of_cutFirst isCut)
  split
  · rename_i inner isInner
    obtain ⟨stop,_,step⟩ := Cut.within (Brackets.whole_of_cutFirst isInner)
    exact ⟨by simp [Shape.marks], by simp [parts,before,stop.trans after,step.trans after]⟩
  · exact ⟨by simp [Shape.marks], by simp [parts,before,after]⟩

theorem operation?_within {strength : Nat} (found : operation? strength tokens = some shape) : shape.Within tokens := by
  obtain ⟨cut,isCut,isShape⟩ := Option.bind_eq_some_iff.mp found
  obtain ⟨op,_,rfl⟩ := Option.map_eq_some_iff.mp isShape
  obtain ⟨before,_,after⟩ := Cut.within (Brackets.whole_of_cutLast isCut)
  exact ⟨by simp [Shape.marks], by simp [parts,before,after]⟩

theorem sign?_within (found : sign? first rest = some shape) : shape.Within (first :: rest) := by
  have later : rest <:+: first :: rest := (suffix_cons first rest).isInfix
  unfold sign? at found
  split at found
  · cases found
    exact ⟨by simp [Shape.marks], by simpa [parts] using later⟩
  · split at found
    · cases found
      exact ⟨by simp [Shape.marks], by simpa [parts] using later⟩
    · cases found

theorem atom_within (first : Token) (rest : List Token) : (atom first rest).Within (first :: rest) := by
  have nothing : unknown.Within (first :: rest) := ⟨by simp [Shape.marks], nofun⟩
  unfold atom
  split
  · split
    · exact ⟨by simp [Shape.marks], by simpa [parts] using (suffix_cons _ _).isInfix⟩
    · exact nothing
  · exact ⟨by simp [Shape.marks], nofun⟩
  · rename_i bracket inside _
    split
    · split
      · refine ⟨by simp [Shape.marks], ?_⟩
        simpa [parts] using infix_cons (suffix_cons bracket inside).isInfix
      · rename_i cut closed
        obtain ⟨before,_,_⟩ := Cut.within (Brackets.whole_of_closing? closed)
        split
        · refine ⟨by simp [Shape.marks], ?_⟩
          simpa [parts] using infix_cons (infix_cons before)
        · exact nothing
    · exact nothing
  · exact ⟨by simp [Shape.marks], nofun⟩
  · exact ⟨by simp [Shape.marks], nofun⟩
  · exact ⟨by simp [Shape.marks], nofun⟩
  · exact nothing

theorem of_within (functions : FunctionTable) (tokens : List Token) : (of functions tokens).Within tokens := by
  cases tokens with
  | nil => exact ⟨by simp [of,Shape.marks], nofun⟩
  | cons first rest =>
    exact of_cases enclosed?_within called?_within membership?_within range?_within operation?_within sign?_within
      (atom_within first rest)

end Shape

/-! ### Outlines -/

namespace Body

theorem of_within (code : List Token) :
    (of code).tokens <:+: code ∧ (of code).rest <:+: code ∧ ∀ bracket ∈ (of code).unclosed, bracket ∈ code := by
  have whole := of_whole code
  refine ⟨⟨_, _, whole⟩, List.IsSuffix.isInfix ⟨_, whole⟩, fun bracket isUnclosed => ?_⟩
  · have parts := takeWhile_append_dropWhile (p := Token.isTerminator) (l := code)
    rw [Option.mem_def] at isUnclosed
    unfold of at isUnclosed
    split at isUnclosed
    · cases isUnclosed
    · rename_i first rest found
      split at isUnclosed
      · split at isUnclosed
        · cases isUnclosed
        · cases isUnclosed
          rw [← parts,found]
          simp
      · cases isUnclosed

end Body

namespace Otherwise

def tokens : Otherwise → List Token
  | .absent => []
  | .chain head tail => head :: tail
  | .body code => code

theorem of_within (rest : List Token) : (of rest).tokens <:+: rest := by
  have tail := dropWhile_suffix Token.isTerminator (l := rest)
  unfold of
  split
  · rename_i word branch found
    rw [found] at tail
    have behind : branch <:+: rest := ((suffix_cons word branch).trans tail).isInfix
    split
    · split
      · split
        · exact behind
        · exact behind
      · exact nil_infix
    · exact nil_infix
  · exact nil_infix

end Otherwise

namespace ParameterList

theorem of_within (name : Token) (header : List Token) : (of name header).tokens <:+: header ∧
    ∀ diagnostic ∈ (of name header).remarks, ∃ token ∈ name :: header, diagnostic.line = some token.line := by
  unfold of
  split
  · exact ⟨infix_rfl, by simp⟩
  · rename_i first rest
    split
    · split
      · exact ⟨(suffix_cons first rest).isInfix, by simp⟩
      · rename_i cut closed
        refine ⟨infix_cons (Cut.within (Brackets.whole_of_closing? closed)).1, ?_⟩
        dsimp only
        split <;> simp
    · split
      · exact ⟨infix_rfl, by simp⟩
      · exact ⟨List.nil_infix, by simp⟩

theorem groups_within {list : ParameterList} {group : List Token} (isGroup : group ∈ list.groups) : group <:+: list.tokens := by
  unfold groups at isGroup
  split at isGroup
  · cases isGroup
  · exact Groups.within_of_mem_split isGroup

end ParameterList

namespace Outline

/-- The tokens that an outline is made of. -/
def tokens : Outline → List Token
  | .empty => []
  | .label head rest | .braces head rest | .conditional head rest | .forEach head rest | .loop head rest
  | .function head rest _ | .leave head rest => head :: rest
  | .nameless head | .danglingElse head | .unsupported head => [head]
  | .strayInline word next => [word, next]
  | .giveBack rest | .constant rest | .expression rest => rest
  | .assign cut => cut.whole

theorem ofPlain_within (list : List Token) : (ofPlain list).tokens <:+: list := by
  have line := (List.takeWhile_prefix (!·.isTerminator) (l := list)).isInfix
  simp only [ofPlain]
  split
  · rename_i cut found
    rw [tokens,Brackets.whole_of_cutFirst found]
    exact line
  · exact line

theorem ofFunction_within (head : Token) (tail : List Token) (inline : Bool) :
    (ofFunction head tail inline).tokens <:+: head :: tail := by
  unfold ofFunction
  split
  · split
    · exact (suffix_cons head _).isInfix
    · exact (prefix_append [head] _).isInfix
  · exact infix_rfl

theorem ofKeyword_within (head : Token) (tail : List Token) : (ofKeyword head tail).tokens <:+: head :: tail := by
  have line := (List.takeWhile_prefix (!·.isTerminator) (l := tail)).isInfix
  have alone : [head] <:+: head :: tail := (prefix_append [head] tail).isInfix
  unfold ofKeyword
  split
  case h_7 => exact ofFunction_within head tail false
  case h_8 => exact infix_cons line
  case h_11 => exact (suffix_cons head tail).isInfix
  case h_12 => exact alone
  case h_13 => exact alone
  all_goals exact infix_rfl

theorem of_within (list : List Token) : (of list).tokens <:+: list := by
  unfold of
  split
  · exact infix_rfl
  · rename_i first rest
    split
    · exact infix_rfl
    split
    · exact ofKeyword_within first rest
    split
    · exact infix_rfl
    split
    · rename_i next more _
      split
      · split
        · exact infix_cons (ofFunction_within next more true)
        · exact (prefix_append [first, next] more).isInfix
      · exact ofPlain_within _
    · exact ofPlain_within _

end Outline
end CalcBasic

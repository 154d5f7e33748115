import CalcBasic.Code.Layout
import Mathlib.Tactic.Common

/-! The lines of calculator code. Joining pieces of code keeps the lines of every
piece, in order, whatever line breaks the pieces begin or end with. -/
namespace CalcBasic
open List

/-- What holds of the characters of a list is decided along the list, not over all
characters. -/
scoped instance (priority := high) decidableAlong (p : Char → Prop) [DecidablePred p] (text : List Char) :
    Decidable (∀ c ∈ text, p c) :=
  List.decidableBAll p text

theorem Groups.split_eq_splitOnP {α : Type} (separates : α → Bool) (items : List α) :
    split separates items = items.splitOnP separates := by
  induction items with
  | nil => rfl
  | cons item rest ih =>
    rw [splitOnP_cons_eq_if_modifyHead,← ih]
    simp only [split,cut]
    by_cases found : separates item <;> simp [found]

theorem Groups.separates_of_mem {α : Type} {separates : α → Bool} {items group : List α}
    (member : group ∈ items.splitOnP separates) {item : α} (inside : item ∈ group) : separates item = false := by
  induction items generalizing group with
  | nil => simp_all
  | cons head rest ih =>
    obtain ⟨first,others,found⟩ := exists_cons_of_ne_nil (splitOnP_ne_nil separates rest)
    rw [splitOnP_cons_eq_if_modifyHead,found] at member
    rw [found] at ih
    split at member
    · rcases mem_cons.mp member with rfl | later
      · cases inside
      · exact ih later inside
    · rename_i ordinary
      rcases mem_cons.mp member with rfl | later
      · rcases mem_cons.mp inside with rfl | within
        · exact Bool.eq_false_iff.mpr ordinary
        · exact ih mem_cons_self within
      · exact ih (mem_cons_of_mem first later) inside

namespace Code

variable {c : Char} {code : String}

/-- The lines that are not empty. -/
def lines (code : String) : List String :=
  ((Groups.split (· == '\n') code.toList).filter (!·.isEmpty)).map String.ofList

theorem lines_eq (code : String) :
    lines code = ((code.toList.splitOn '\n').filter (!·.isEmpty)).map String.ofList := by
  rw [lines,Groups.split_eq_splitOnP,splitOn_eq_splitOnP]

@[simp]
theorem lines_empty : lines "" = [] := rfl

theorem lines_ofList_break (code more : List Char) :
    lines (String.ofList (code ++ '\n' :: more)) = lines (String.ofList code) ++ lines (String.ofList more) := by
  simp only [lines_eq,String.toList_ofList]
  rw [splitOn_append_cons_self,filter_append,map_append]

theorem lines_break (code more : String) : lines (code ++ "\n" ++ more) = lines code ++ lines more := by
  have chars : code ++ "\n" ++ more = String.ofList (code.toList ++ '\n' :: more.toList) := by
    simp [← String.toList_inj]
  rw [chars,lines_ofList_break,String.ofList_toList,String.ofList_toList]

theorem lines_intercalate (pieces : List String) : lines ("\n".intercalate pieces) = pieces.flatMap lines := by
  induction pieces with
  | nil => rfl
  | cons piece rest ih =>
    cases rest with
    | nil => simp
    | cons second later => rw [String.intercalate_cons_cons,lines_break,ih,flatMap_cons]; rfl

theorem lines_singleton {line : String} (nonempty : line ≠ "") (whole : '\n' ∉ line.toList) :
    lines line = [line] := by
  have chars : line.toList ≠ [] := by simpa using nonempty
  rw [lines_eq,splitOn_eq_singleton whole]
  simp [chars]

theorem lines_of_mem {line : String} (member : line ∈ lines code) : lines line = [line] := by
  rw [lines_eq,mem_map] at member
  obtain ⟨chars,kept,rfl⟩ := member
  rw [mem_filter,splitOn_eq_splitOnP] at kept
  refine lines_singleton ?_ ?_
  · simpa using kept.2
  · intro broken
    rw [String.toList_ofList] at broken
    cases Groups.separates_of_mem kept.1 broken

theorem joinLines_eq (pieces : List String) : joinLines pieces = "\n".intercalate (pieces.flatMap lines) := by
  rw [← lines_intercalate,← String.toList_inj,String.toList_intercalate]
  simp [joinLines,lines]

theorem lines_joinLines (pieces : List String) : lines (joinLines pieces) = pieces.flatMap lines := by
  have kept {all : List String} (each : ∀ line ∈ all, lines line = [line]) : all.flatMap lines = all := by
    induction all with
    | nil => rfl
    | cons line rest ih =>
      rw [flatMap_cons,each line (by simp),ih fun other member => each other (by simp [member])]
      rfl
  rw [joinLines_eq,lines_intercalate]
  refine kept fun line member => ?_
  obtain ⟨piece,_,isLine⟩ := mem_flatMap.mp member
  exact lines_of_mem isLine

theorem lines_trimBreaks (code : String) : lines (trimBreaks code) = lines code := by
  have leading (lead rest : List Char) (breaks : ∀ c ∈ lead, (c == '\n') = true) :
      lines (String.ofList (lead ++ rest)) = lines (String.ofList rest) := by
    induction lead with
    | nil => rfl
    | cons c lead ih =>
      have first : c = '\n' := beq_iff_eq.mp (breaks c (by simp))
      rw [← ih fun other member => breaks other (by simp [member]),first]
      exact lines_ofList_break [] (lead ++ rest)
  have trailing (rest tail : List Char) (breaks : ∀ c ∈ tail, (c == '\n') = true) :
      lines (String.ofList (rest ++ tail)) = lines (String.ofList rest) := by
    induction tail generalizing rest with
    | nil => rw [append_nil]
    | cons c tail ih =>
      have first : c = '\n' := beq_iff_eq.mp (breaks c (by simp))
      have none : lines (String.ofList tail) = [] := ih [] fun other member => breaks other (by simp [member])
      rw [first,lines_ofList_break,none,append_nil]
  unfold trimBreaks
  obtain ⟨tail,whole,breaks⟩ := Text.trimEndWhile_append (· == '\n') (code.toList.dropWhile (· == '\n'))
  rw [← trailing _ tail breaks,whole,
    ← leading (code.toList.takeWhile (· == '\n')) _ (all_eq_true.mp all_takeWhile),
    takeWhile_append_dropWhile,String.ofList_toList]

/-! ### Characters of joined code -/

theorem mem_of_mem_trimClosers (member : c ∈ (trimClosers code).toList) : c ∈ code.toList := by
  obtain ⟨tail,whole,_⟩ := Text.trimEndWhile_append isCloser code.toList
  rw [← whole]
  apply mem_append_left
  rw [trimClosers,String.toList_ofList] at member
  split at member
  · exact (dropLast_sublist _).mem member
  · exact member

theorem lines_store {value place : String} (whole : '\n' ∉ value.toList) (single : '\n' ∉ place.toList) :
    lines (trimClosers value ++ "→" ++ place) = [trimClosers value ++ "→" ++ place] := by
  refine lines_singleton (by simp) ?_
  rw [String.toList_append,String.toList_append,mem_append,mem_append]
  rintro ((inside | mark) | outside)
  · exact whole (mem_of_mem_trimClosers inside)
  · exact absurd mark (by decide)
  · exact single outside

theorem mem_intercalate {c : Char} {separator : List Char} (apart : c ∉ separator) {pieces : List (List Char)} :
    c ∈ separator.intercalate pieces ↔ ∃ piece ∈ pieces, c ∈ piece := by
  induction pieces with
  | nil => simp
  | cons piece rest ih =>
    cases rest with
    | nil => simp
    | cons second later =>
      rw [intercalate_cons_cons,mem_append,mem_append,ih]
      simp [apart]

theorem mem_joined {separator : String} (apart : c ∉ separator.toList) {pieces : List String} :
    c ∈ (separator.intercalate pieces).toList ↔ ∃ piece ∈ pieces, c ∈ piece.toList := by
  rw [String.toList_intercalate,mem_intercalate apart]
  simp

theorem mem_lines (within : c ≠ '\n') : (∃ line ∈ lines code, c ∈ line.toList) ↔ c ∈ code.toList := by
  have chars : c ∈ code.toList ↔ ∃ piece ∈ code.toList.splitOn '\n', c ∈ piece := by
    rw [← @mem_intercalate c ['\n'] (by simpa using within),List.intercalate_splitOn]
  rw [chars,lines_eq]
  simp only [mem_map,mem_filter]
  constructor
  · rintro ⟨line,⟨piece,⟨split,_⟩,rfl⟩,inside⟩
    exact ⟨piece, split, by simpa using inside⟩
  · rintro ⟨piece,split,inside⟩
    have nonempty : (!piece.isEmpty) = true := by
      cases piece with
      | nil => cases inside
      | cons => rfl
    exact ⟨String.ofList piece, ⟨piece, ⟨split, nonempty⟩, rfl⟩, by simpa using inside⟩

theorem mem_joinLines (within : c ≠ '\n') {pieces : List String} :
    c ∈ (joinLines pieces).toList ↔ ∃ piece ∈ pieces, c ∈ piece.toList := by
  rw [joinLines_eq,mem_joined (by simpa using within)]
  constructor
  · rintro ⟨line,member,inside⟩
    obtain ⟨piece,isPiece,isLine⟩ := mem_flatMap.mp member
    exact ⟨piece, isPiece, (mem_lines within).mp ⟨line, isLine, inside⟩⟩
  · rintro ⟨piece,isPiece,inside⟩
    obtain ⟨line,isLine,held⟩ := (mem_lines within).mpr inside
    exact ⟨line, mem_flatMap.mpr ⟨piece, isPiece, isLine⟩, held⟩

end Code
end CalcBasic

import CalcBasic.Proofs.CodeLines
import CalcBasic.Tree
import Mathlib.Data.List.DropRight
import Mathlib.Data.List.Forall2

/-! Code in which pieces are replaced by shorter ones. Neither the old pieces nor the
new ones hold a mark that ends a line, a statement or a text. So both codes keep the
same shape whatever is done with them, and the new code is never the longer one. -/
namespace CalcBasic

theorem Text.rdropWhile_append_of_ne {drops : Char → Bool} (text : List Char) {more : List Char}
    (solid : more.rdropWhile drops ≠ []) : (text ++ more).rdropWhile drops = text ++ more.rdropWhile drops := by
  induction more using List.reverseRecOn with
  | nil => exact absurd rfl solid
  | append_singleton more c ih =>
    rw [List.rdropWhile_concat] at solid ⊢
    rw [← List.append_assoc,List.rdropWhile_concat]
    split
    · rename_i dropped
      rw [if_pos dropped] at solid
      exact ih solid
    · exact List.append_assoc ..

namespace Code

/-! ### Pieces -/

/-- Ends a line, a statement or a text. -/
def isMark (c : Char) : Bool := c == '\n' || c == ':' || c == '"' || c == '→'

/-- The code without the closers at its end. -/
def bare (code : List Char) : List Char := code.rdropWhile isCloser

/-- A piece of code without marks, more than closers, that does not end like the marker
of a return. -/
structure Firm (piece : List Char) : Prop where
  unmarked : ∀ c ∈ piece, isMark c = false
  ends : ∃ lead last, bare piece = lead ++ [last] ∧ last ∉ Tree.returnMarker.toList

namespace Firm

variable {piece : List Char}

theorem solid (firm : Firm piece) : bare piece ≠ [] := by
  obtain ⟨lead,last,whole,_⟩ := firm.ends
  simp [whole]

theorem ne_nil (firm : Firm piece) : piece ≠ [] := by
  rintro rfl
  exact firm.solid rfl

theorem of_last {lead : List Char} {last : Char} (unmarked : ∀ c ∈ lead ++ [last], isMark c = false)
    (opens : isCloser last = false) (ordinary : last ∉ Tree.returnMarker.toList) : Firm (lead ++ [last]) :=
  ⟨unmarked, lead, last, by rw [bare,List.rdropWhile_concat,opens]; rfl, ordinary⟩

theorem lead (firm : Firm piece) {lead : List Char} (unmarked : ∀ c ∈ lead, isMark c = false) : Firm (lead ++ piece) := by
  obtain ⟨start,last,whole,ordinary⟩ := firm.ends
  refine ⟨fun c member => (List.mem_append.mp member).elim (unmarked c) (firm.unmarked c), lead ++ start, last, ?_, ordinary⟩
  rw [bare,Text.rdropWhile_append_of_ne lead firm.solid,← bare,whole,List.append_assoc]

theorem close (firm : Firm piece) {tail : List Char} (closers : ∀ c ∈ tail, isCloser c = true) : Firm (piece ++ tail) := by
  have unmarked : ∀ c, isCloser c = true → isMark c = false := by
    intro c closer
    simp only [isCloser,Bool.or_eq_true,beq_iff_eq] at closer
    rcases closer with (rfl | rfl) | rfl <;> decide
  induction tail using List.reverseRecOn with
  | nil => rwa [List.append_nil]
  | append_singleton tail c ih =>
    have before := ih fun other member => closers other (by simp [member])
    have closer := closers c (by simp)
    rw [← List.append_assoc]
    refine ⟨fun other member => ?_, ?_⟩
    · rcases List.mem_append.mp member with inside | last
      · exact before.unmarked other inside
      · rw [List.mem_singleton.mp last]
        exact unmarked c closer
    · rw [bare,List.rdropWhile_concat_pos _ _ _ closer]
      exact before.ends

theorem bare_self (firm : Firm piece) : Firm (bare piece) :=
  ⟨fun c member => firm.unmarked c ((List.rdropWhile_prefix _ _).mem member), by
    rw [bare,bare,List.rdropWhile_idempotent]; exact firm.ends⟩

theorem last (firm : Firm piece) : ∃ lead c, piece = lead ++ [c] ∧ isMark c = false ∧ c ∉ Tree.returnMarker.toList := by
  obtain ⟨start,last,whole,ordinary⟩ := firm.ends
  obtain ⟨lead,c,rfl⟩ := (List.eq_nil_or_concat' piece).resolve_left firm.ne_nil
  refine ⟨lead, c, rfl, firm.unmarked c (by simp), ?_⟩
  rw [bare,List.rdropWhile_concat] at whole
  split at whole
  · rename_i closer
    have opens : ∀ c ∈ Tree.returnMarker.toList, isCloser c = false := by decide
    intro marks
    rw [opens c marks] at closer
    cases closer
  · obtain ⟨_,same⟩ := List.append_inj' whole rfl
    rwa [List.singleton_inj.mp same]

end Firm

/-- A firm piece takes the place of one that is no shorter, with the closers at their
ends and without. -/
structure Shrinks (new old : List Char) : Prop where
  firmNew : Firm new
  firmOld : Firm old
  length : new.length ≤ old.length
  bare : (bare new).length ≤ (bare old).length

theorem Shrinks.bare_self {new old : List Char} (shrinks : Shrinks new old) : Shrinks (Code.bare new) (Code.bare old) :=
  ⟨shrinks.firmNew.bare_self, shrinks.firmOld.bare_self, shrinks.bare, by
    rw [Code.bare,Code.bare,Code.bare,Code.bare,List.rdropWhile_idempotent,List.rdropWhile_idempotent]
    exact shrinks.bare⟩

/-! ### Replaced pieces -/

/-- New code for old: some pieces are replaced, and all else is kept. -/
inductive Folds : List Char → List Char → Prop
  | nil : Folds [] []
  | keep (c : Char) {new old : List Char} (rest : Folds new old) : Folds (c :: new) (c :: old)
  | fold {piece replaced new old : List Char} (shrinks : Shrinks piece replaced) (rest : Folds new old) :
      Folds (piece ++ new) (replaced ++ old)

namespace Folds

variable {new old new' old' : List Char}

theorem refl (code : List Char) : Folds code code := by
  induction code with
  | nil => exact .nil
  | cons c rest ih => exact .keep c ih

theorem append (first : Folds new old) (second : Folds new' old') : Folds (new ++ new') (old ++ old') := by
  induction first with
  | nil => exact second
  | keep c _ ih => exact .keep c ih
  | fold shrinks _ ih =>
    rw [List.append_assoc,List.append_assoc]
    exact .fold shrinks ih

theorem of_shrinks (shrinks : Shrinks new old) : Folds new old := by
  have alone := Folds.fold shrinks .nil
  rwa [List.append_nil,List.append_nil] at alone

/-- Induction from the end of the code. -/
@[elab_as_elim]
theorem snoc_induction {motive : ∀ new old, Folds new old → Prop} (nil : motive [] [] .nil)
    (keep : ∀ c {new old} (rest : Folds new old), motive new old rest →
      motive (new ++ [c]) (old ++ [c]) (rest.append (refl [c])))
    (fold : ∀ {piece replaced new old} (shrinks : Shrinks piece replaced) (rest : Folds new old), motive new old rest →
      motive (new ++ piece) (old ++ replaced) (rest.append (of_shrinks shrinks)))
    {new old : List Char} (folds : Folds new old) : motive new old folds := by
  -- what is known of the code read so far goes on to hold while more of it is read
  have extend {new old : List Char} (folds : Folds new old) : ∀ start before (known : Folds start before),
      motive start before known → motive (start ++ new) (before ++ old) (known.append folds) := by
    induction folds with
    | nil =>
      intro start before known held
      simpa using held
    | keep c rest ih =>
      intro start before known held
      simpa using ih _ _ (known.append (refl [c])) (keep c known held)
    | fold shrinks rest ih =>
      intro start before known held
      simpa using ih _ _ (known.append (of_shrinks shrinks)) (fold shrinks known held)
  exact extend folds [] [] .nil nil

theorem length_le (folds : Folds new old) : new.length ≤ old.length := by
  induction folds with
  | nil => exact Nat.le_refl 0
  | keep c _ ih => exact Nat.succ_le_succ ih
  | fold shrinks _ ih =>
    rw [List.length_append,List.length_append]
    exact Nat.add_le_add shrinks.length ih

theorem eq_nil_iff (folds : Folds new old) : new = [] ↔ old = [] := by
  cases folds with
  | nil => exact Iff.rfl
  | keep => simp
  | fold shrinks => simp [shrinks.firmNew.ne_nil,shrinks.firmOld.ne_nil]

/-! ### Trimming -/

theorem bare (folds : Folds new old) : Folds (Code.bare new) (Code.bare old) := by
  induction folds using snoc_induction with
  | nil => exact .nil
  | @keep c new old rest ih =>
    simp only [Code.bare,List.rdropWhile_concat]
    split
    · exact ih
    · exact rest.append (refl [c])
  | @fold piece replaced new old shrinks rest _ =>
    rw [Code.bare,Code.bare,Text.rdropWhile_append_of_ne new shrinks.firmNew.solid,
      Text.rdropWhile_append_of_ne old shrinks.firmOld.solid]
    exact rest.append (of_shrinks shrinks.bare_self)

theorem trimMarks (folds : Folds new old) {drops : Char → Bool} (marks : ∀ c, drops c = true → isMark c = true) :
    Folds (new.rdropWhile drops) (old.rdropWhile drops) := by
  have firm {piece : List Char} (isFirm : Firm piece) (start : List Char) :
      (start ++ piece).rdropWhile drops = start ++ piece := by
    obtain ⟨lead,c,rfl,unmarked,_⟩ := isFirm.last
    rw [← List.append_assoc,List.rdropWhile_concat,if_neg]
    intro dropped
    rw [marks c dropped] at unmarked
    cases unmarked
  induction folds using snoc_induction with
  | nil => exact .nil
  | @keep c new old rest ih =>
    simp only [List.rdropWhile_concat]
    split
    · exact ih
    · exact rest.append (refl [c])
  | @fold piece replaced new old shrinks rest _ =>
    rw [firm shrinks.firmNew new,firm shrinks.firmOld old]
    exact rest.append (of_shrinks shrinks)

theorem dropBreaks (folds : Folds new old) : Folds (new.dropWhile (· == '\n')) (old.dropWhile (· == '\n')) := by
  have firm {piece : List Char} (isFirm : Firm piece) (rest : List Char) :
      (piece ++ rest).dropWhile (· == '\n') = piece ++ rest := by
    obtain ⟨c,tail,rfl⟩ := List.exists_cons_of_ne_nil isFirm.ne_nil
    have unmarked := isFirm.unmarked c (by simp)
    have other : (c == '\n') = false := by
      simp only [isMark,Bool.or_eq_false_iff] at unmarked
      exact unmarked.1.1.1
    rw [List.cons_append,List.dropWhile_cons,other]
    rfl
  induction folds with
  | nil => exact .nil
  | keep c rest ih =>
    simp only [List.dropWhile_cons]
    split
    · exact ih
    · exact .keep c rest
  | fold shrinks rest ih =>
    rw [firm shrinks.firmNew,firm shrinks.firmOld]
    exact .fold shrinks rest

theorem dropQuote (folds : Folds new old) :
    Folds (if new.getLast? == some '"' then new.dropLast else new) (if old.getLast? == some '"' then old.dropLast else old) := by
  have firm {piece : List Char} (isFirm : Firm piece) (start : List Char) :
      ((start ++ piece).getLast? == some '"') = false := by
    obtain ⟨lead,c,rfl,unmarked,_⟩ := isFirm.last
    have other : c ≠ '"' := by
      rintro rfl
      cases unmarked
    simp [← List.append_assoc,other]
  induction folds using snoc_induction with
  | nil => exact .nil
  | @keep c new old rest _ =>
    simp only [List.getLast?_concat,List.dropLast_concat]
    split
    · exact rest
    · exact rest.append (refl [c])
  | @fold piece replaced new old shrinks rest _ =>
    rw [firm shrinks.firmNew new,firm shrinks.firmOld old]
    exact rest.append (of_shrinks shrinks)

/-! ### Shape -/

theorem isSuffixOf_marker (folds : Folds new old) :
    Tree.returnMarker.toList.isSuffixOf new = Tree.returnMarker.toList.isSuffixOf old := by
  suffices each : ∀ marker : List Char, marker ⊆ Tree.returnMarker.toList → (marker <:+ new ↔ marker <:+ old) by
    rw [Bool.eq_iff_iff,List.isSuffixOf_iff_suffix,List.isSuffixOf_iff_suffix]
    exact each _ (List.Subset.refl _)
  have concat (marker code : List Char) (c d : Char) : marker ++ [c] <:+ code ++ [d] ↔ marker <:+ code ∧ c = d := by
    simpa using @List.suffix_append_inj_of_length_eq _ marker code [c] [d] rfl
  have firm {piece : List Char} (isFirm : Firm piece) (start : List Char) {marker : List Char} {c : Char}
      (inside : marker ++ [c] ⊆ Tree.returnMarker.toList) : ¬ marker ++ [c] <:+ start ++ piece := by
    obtain ⟨lead,last,rfl,_,ordinary⟩ := isFirm.last
    rw [← List.append_assoc,concat]
    rintro ⟨_,rfl⟩
    exact ordinary (inside (by simp))
  induction folds using snoc_induction with
  | nil => exact fun marker _ => Iff.rfl
  | @keep c new old rest ih =>
    intro marker inside
    rcases List.eq_nil_or_concat' marker with rfl | ⟨start,last,rfl⟩
    · simp
    · rw [concat,concat,ih start fun c member => inside (by simp [member])]
  | @fold piece replaced new old shrinks rest _ =>
    intro marker inside
    rcases List.eq_nil_or_concat' marker with rfl | ⟨start,last,rfl⟩
    · simp
    · exact iff_of_false (firm shrinks.firmNew new inside) (firm shrinks.firmOld old inside)

theorem countFrom_eq (folds : Folds new old) (inText pending : Bool) :
    countFrom inText pending new = countFrom inText pending old := by
  have step (inText pending : Bool) {c : Char} (unmarked : isMark c = false) (rest : List Char) :
      countFrom inText pending (c :: rest) = countFrom inText true rest := by
    simp only [isMark,Bool.or_eq_false_iff,beq_eq_false_iff_ne] at unmarked
    obtain ⟨⟨⟨notBreak,notColon⟩,notQuote⟩,notStore⟩ := unmarked
    simp [countFrom,notBreak,notColon,notQuote,notStore]
  have firm (inText pending : Bool) {piece : List Char} (isFirm : Firm piece) (rest : List Char) :
      countFrom inText pending (piece ++ rest) = countFrom inText true rest := by
    have unmarked := isFirm.unmarked
    obtain ⟨c,tail,rfl⟩ := List.exists_cons_of_ne_nil isFirm.ne_nil
    rw [List.cons_append,step inText pending (unmarked c (by simp))]
    replace unmarked : ∀ c ∈ tail, isMark c = false := fun c member => unmarked c (by simp [member])
    clear isFirm
    induction tail with
    | nil => rfl
    | cons c tail ih =>
      rw [List.cons_append,step inText true (unmarked c (by simp))]
      exact ih fun c member => unmarked c (by simp [member])
  induction folds generalizing inText pending with
  | nil => rfl
  | keep c rest ih => simp only [countFrom,ih]
  | fold shrinks rest ih => rw [firm inText pending shrinks.firmNew,firm inText pending shrinks.firmOld,ih]

theorem split (folds : Folds new old) : List.Forall₂ Folds (new.splitOnP (· == '\n')) (old.splitOnP (· == '\n')) := by
  have heads {lines lines' : List (List Char)} (each : List.Forall₂ Folds lines lines') {first first' : List Char}
      (start : Folds first first') :
      List.Forall₂ Folds (lines.modifyHead (first ++ ·)) (lines'.modifyHead (first' ++ ·)) := by
    cases each with
    | nil => exact .nil
    | cons line rest => exact .cons (start.append line) rest
  have unbroken {piece : List Char} (unmarked : ∀ c ∈ piece, isMark c = false) (rest : List Char) :
      (piece ++ rest).splitOnP (· == '\n') = (rest.splitOnP (· == '\n')).modifyHead (piece ++ ·) := by
    induction piece with
    | nil =>
      obtain ⟨line,lines,found⟩ := List.exists_cons_of_ne_nil (List.splitOnP_ne_nil (· == '\n') rest)
      rw [List.nil_append,found]
      rfl
    | cons c piece ih =>
      have other : (c == '\n') = false := by
        have ordinary := unmarked c (by simp)
        simp only [isMark,Bool.or_eq_false_iff] at ordinary
        exact ordinary.1.1.1
      rw [List.cons_append,List.splitOnP_cons_eq_if_modifyHead,other,ih fun c member => unmarked c (by simp [member]),
        if_neg (by decide),List.modifyHead_modifyHead]
      rfl
  induction folds with
  | nil => exact .cons .nil .nil
  | keep c rest ih =>
    rw [List.splitOnP_cons_eq_if_modifyHead,List.splitOnP_cons_eq_if_modifyHead]
    split
    · exact .cons .nil ih
    · exact heads ih (refl [c])
  | fold shrinks rest ih =>
    rw [unbroken shrinks.firmNew.unmarked,unbroken shrinks.firmOld.unmarked]
    exact heads ih (of_shrinks shrinks)

end Folds

/-! ### Code as text -/

/-- New code in which pieces of old code are replaced. -/
def Folded (new old : String) : Prop := Folds new.toList old.toList

namespace Folded

variable {new old new' old' : String} {news olds : List String}

theorem refl (code : String) : Folded code code := Folds.refl _

theorem append (first : Folded new old) (second : Folded new' old') : Folded (new ++ new') (old ++ old') := by
  rw [Folded,String.toList_append,String.toList_append]
  exact Folds.append first second

theorem length_le (folded : Folded new old) : new.length ≤ old.length := by
  rw [← String.length_toList,← String.length_toList]
  exact Folds.length_le folded

theorem countStatements_eq (folded : Folded new old) : countStatements new = countStatements old :=
  Folds.countFrom_eq folded false false

theorem isSuffixOf_marker (folded : Folded new old) :
    Tree.returnMarker.toList.isSuffixOf new.toList = Tree.returnMarker.toList.isSuffixOf old.toList :=
  Folds.isSuffixOf_marker folded

theorem trimBrackets (folded : Folded new old) : Folded (trimBrackets new) (trimBrackets old) := by
  rw [Folded,Code.trimBrackets,Code.trimBrackets,String.toList_ofList,String.toList_ofList]
  exact Folds.bare folded

theorem trimClosers (folded : Folded new old) : Folded (trimClosers new) (trimClosers old) := by
  rw [Folded,Code.trimClosers,Code.trimClosers,String.toList_ofList,String.toList_ofList]
  exact (Folds.bare folded).dropQuote

theorem trimBreaks (folded : Folded new old) : Folded (trimBreaks new) (trimBreaks old) := by
  rw [Folded,Code.trimBreaks,Code.trimBreaks,String.toList_ofList,String.toList_ofList]
  exact (Folds.dropBreaks folded).trimMarks fun c isBreak => by simp [isMark,isBreak]

theorem intercalate (each : List.Forall₂ Folded news olds) (separator : String) :
    Folded (separator.intercalate news) (separator.intercalate olds) := by
  induction each with
  | nil => exact refl _
  | cons first rest ih =>
    cases rest with
    | nil => simpa using first
    | cons second later =>
      rw [String.intercalate_cons_cons,String.intercalate_cons_cons]
      exact (first.append (refl separator)).append ih

theorem joinStatements (each : List.Forall₂ Folded news olds) : Folded (joinStatements news) (joinStatements olds) := by
  have trimmed : List.Forall₂ Folded (news.map Code.trimBrackets) (olds.map Code.trimBrackets) := by
    rw [List.forall₂_map_left_iff,List.forall₂_map_right_iff]
    exact each.imp fun _ _ => trimBrackets
  rw [Folded,Code.joinStatements,Code.joinStatements,String.toList_ofList,String.toList_ofList]
  exact Folds.trimMarks (intercalate trimmed ":") fun c isQuote => by simp [isMark,isQuote]

theorem lines (folded : Folded new old) : List.Forall₂ Folded (lines new) (lines old) := by
  rw [lines_eq,lines_eq,List.splitOn_eq_splitOnP,List.splitOn_eq_splitOnP]
  have filled : ∀ ⦃new old : List Char⦄, Folds new old → ((!new.isEmpty) = true ↔ (!old.isEmpty) = true) := by
    intro new old folds
    simp [folds.eq_nil_iff]
  refine List.rel_map (fun new old folds => ?_) (List.rel_filter filled (Folds.split folded))
  rw [Folded,String.toList_ofList,String.toList_ofList]
  exact folds

theorem joinLines (each : List.Forall₂ Folded news olds) : Folded (joinLines news) (joinLines olds) := by
  rw [joinLines_eq,joinLines_eq]
  exact intercalate (List.rel_flatMap each fun _ _ => lines) "\n"

end Folded

end Code
end CalcBasic

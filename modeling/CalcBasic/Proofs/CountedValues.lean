import CalcBasic.Proofs.NumberOrder
import CalcBasic.Proofs.ScalarCode

/-! Counted loops over constant ranges. The head of a loop has an end of its own: where the
range leaves its end out, the loop stops at the end moved by one. It visits the values of the
range up to there, which are all of them for whole numbers, but not for every range. -/
namespace CalcBasic

variable {values : List Float}

/-! ### Progressions -/

/-- A counter after so many steps by one. -/
def counted : Nat → Float
  | 0 => 0
  | j + 1 => counted j + 1

def term (start step : Float) (j : Nat) : Float := start + counted j * step

/-- The values are `start`, `start + step`, … up to the first that is not inside. -/
structure Sweeps (inside : Float → Bool) (start step : Float) (values : List Float) : Prop where
  terms : values = (List.range values.length).map (term start step)
  each : ∀ j < values.length, inside (term start step j) = true
  ended : inside (term start step values.length) = false

/-- What a loop visits that counts from a start by steps, as long as it is not past the last value. -/
def Visits (start last step : Float) : List Float → Prop := Sweeps (withinEnd (0 < step) true last) start step

section Progressions

variable {inside : Float → Bool} {start step : Float}

theorem sweeps_of_progression_from {room i : Nat} (found : progression inside start step room (counted i) = some values) :
    values = (List.range values.length).map (fun j => term start step (i + j)) ∧
    (∀ j < values.length, inside (term start step (i + j)) = true) ∧
    inside (term start step (i + values.length)) = false ∧ values.length ≤ room := by
  induction room generalizing i values with
  | zero =>
    unfold progression at found
    split at found
    · cases found
    · rename_i outside
      cases found
      exact ⟨rfl, nofun, by simpa [term] using outside, Nat.le_refl 0⟩
  | succ room ih =>
    unfold progression at found
    dsimp only at found
    split at found
    · rename_i here
      obtain ⟨later,next,rfl⟩ := Option.map_eq_some_iff.mp found
      have step' : counted i + 1 = counted (i + 1) := rfl
      rw [step'] at next
      obtain ⟨terms,each,ended,short⟩ := ih next
      have shift (j : Nat) : i + 1 + j = i + (j + 1) := by omega
      simp only [shift] at terms each ended
      refine ⟨?_, ?_, ended, Nat.succ_le_succ short⟩
      · rw [List.length_cons,List.range_succ_eq_map,List.map_cons,List.map_map]
        exact congrArg (_ :: ·) terms
      · intro j below
        cases j with
        | zero => exact here
        | succ j => exact each j (Nat.lt_of_succ_lt_succ below)
    · rename_i outside
      cases found
      exact ⟨rfl, nofun, by simpa [term] using outside, Nat.zero_le _⟩

theorem sweeps_of_progression {room : Nat} (found : progression inside start step room 0 = some values) :
    Sweeps inside start step values ∧ values.length ≤ room := by
  obtain ⟨terms,each,ended,short⟩ := sweeps_of_progression_from (i := 0) found
  simp only [Nat.zero_add] at terms each ended
  exact ⟨⟨terms, each, ended⟩, short⟩

theorem Sweeps.unique {others : List Float} (first : Sweeps inside start step values)
    (second : Sweeps inside start step others) : values = others := by
  have same : values.length = others.length := by
    rcases lt_trichotomy values.length others.length with less | same | more
    · cases (second.each _ less).symm.trans first.ended
    · exact same
    · cases (first.each _ more).symm.trans second.ended
  rw [first.terms,second.terms,same]

/-- Another test gives the same values if it agrees on them and on the one after them. -/
theorem Sweeps.iff_agrees {other : Float → Bool} (sweeps : Sweeps inside start step values) : Sweeps other start step values ↔
      ∀ j ≤ values.length, other (term start step j) = inside (term start step j) := by
  constructor
  · intro again j bound
    rcases Nat.lt_or_eq_of_le bound with below | rfl
    · rw [again.each j below,sweeps.each j below]
    · rw [again.ended,sweeps.ended]
  · intro agrees
    refine ⟨sweeps.terms, ?_, ?_⟩
    · intro j below
      rw [agrees j (Nat.le_of_lt below),sweeps.each j below]
    · rw [agrees _ (Nat.le_refl _),sweeps.ended]

theorem Sweeps.takeWhile {narrower : Float → Bool} (sweeps : Sweeps inside start step values)
    (implies : ∀ value, narrower value = true → inside value = true) :
    Sweeps narrower start step (values.takeWhile narrower) := by
  have parts := List.takeWhile_append_dropWhile (p := narrower) (l := values)
  have short : (values.takeWhile narrower).length ≤ values.length := (List.takeWhile_prefix narrower).length_le
  have placed (j : Nat) (below : j < values.length) : values[j] = term start step j := by
    rw [List.getElem_of_eq sweeps.terms,List.getElem_map,List.getElem_range]
  have kept : values.takeWhile narrower = (List.range (values.takeWhile narrower).length).map (term start step) := by
    apply List.ext_getElem
    · simp
    · intro j left right
      rw [(List.takeWhile_prefix narrower).getElem left,placed j (Nat.lt_of_lt_of_le left short),List.getElem_map,
        List.getElem_range]
  refine ⟨kept, ?_, ?_⟩
  · intro j below
    have member := List.getElem_mem below
    rw [(List.takeWhile_prefix narrower).getElem below,placed j (Nat.lt_of_lt_of_le below short)] at member
    exact List.mem_takeWhile_imp member
  · cases left : values.dropWhile narrower with
    | nil =>
      rw [left,List.append_nil] at parts
      rw [parts]
      exact Bool.eq_false_iff.mpr fun holds => Bool.eq_false_iff.mp sweeps.ended (implies _ holds)
    | cons value later =>
      have failed := List.head?_dropWhile_not narrower values
      rw [left] at failed parts
      have below : (values.takeWhile narrower).length < values.length := by
        have lengths := congrArg List.length parts
        simp only [List.length_append,List.length_cons] at lengths
        omega
      have stopped : values[(values.takeWhile narrower).length] = value := by
        rw [List.getElem_of_eq parts.symm,List.getElem_append_right (Nat.le_refl _)]
        simp
      rw [← placed _ below,stopped]
      exact failed

end Progressions

/-! ### Heads of loops -/

/-- The number that a tree amounts to: its value if it is constant, or a value moved by one. -/
inductive Tree.Amounts : Tree → Float → Prop
  | constant {tree : Tree} {value : Float} (known : tree.constantNumber = .ok (some value)) : Amounts tree value
  | moved {tree : Tree} {value : Float} (op : Arith) (known : tree.constantNumber = .ok (some value)) :
      Amounts (.arith tree op (.number 1)) (op.apply value 1)

/-- The last value of a loop over a range with this end and this step. -/
def Range.lastOf (range : Range) (stop step : Float) : Float :=
  if range.inclusive then stop else if step < 0 then stop + 1 else stop - 1

theorem Range.amounts_lastValue {range : Range} {stop step : Float} (stops : range.stop.constantNumber = .ok (some stop))
    (steps : range.step.constantNumber = .ok (some step)) : range.lastValue.Amounts (range.lastOf stop step) := by
  unfold Range.lastValue Range.lastOf
  split
  · exact .constant stops
  · rw [steps]
    dsimp only
    split
    · exact .moved .add stops
    · exact .moved .sub stops

namespace Emit
open CalcBasic.Action

/-- The text is code of a tree that amounts to the number. -/
def Shows (text : String) (value : Float) : Prop :=
  ∃ tree : Tree, tree.Amounts value ∧
    ∃ depth settled before after, outcome (render depth settled tree) before = (.ok text, after)

/-- The head of a loop with these numbers. A step of one is left out. -/
def IsHead (text : String) (start last step : Float) : Prop :=
  ∃ place first second tail, text = "For(" ++ place ++ "," ++ first ++ "," ++ second ++ tail ∧
    Shows first start ∧ Shows second last ∧
    (tail = "" ∧ (step == 1) = true ∨ ∃ stride, tail = "," ++ stride ∧ Shows stride step)

theorem isHead_countedLoop {depth : Nat} {counter : Tree} {range : Range} {emitter after : Emitter} {text : String}
    {start stop step : Float} (starts : range.start.constantNumber = .ok (some start))
    (stops : range.stop.constantNumber = .ok (some stop)) (steps : range.step.constantNumber = .ok (some step))
    (done : outcome (countedLoop (render depth) counter range) emitter = (.ok text, after)) :
    IsHead text start (range.lastOf stop step) step := by
  unfold countedLoop at done
  obtain ⟨place,_,_,done⟩ := outcome_bind_eq_ok done
  obtain ⟨first,_,started,done⟩ := outcome_bind_eq_ok done
  obtain ⟨second,_,stopped,done⟩ := outcome_bind_eq_ok done
  obtain ⟨settled,_,stepped,done⟩ := outcome_bind_eq_ok done
  obtain ⟨value,evaluated,isStep⟩ := Tree.constantNumber_some steps
  have again := (evaluate_settle stepped).trans evaluated
  have shown : settled.constantNumber = .ok (some step) := by
    rw [Tree.constantNumber,again]
    exact congrArg Except.ok isStep
  have begins : Shows first start := ⟨_, .constant starts, _, _, _, _, started⟩
  have ends : Shows second (range.lastOf stop step) := ⟨_, range.amounts_lastValue stops steps, _, _, _, _, stopped⟩
  dsimp only at done
  split at done
  · rename_i one
    rw [outcome_pure] at done
    refine ⟨place, first, second, "", ?_, begins, ends, .inl ⟨rfl, ?_⟩⟩
    · rw [String.append_empty]
      exact (Except.ok.inj (Prod.mk.inj done).1).symm
    · cases settled with
      | number unit =>
        cases shown
        exact one
      | _ => cases one
  · obtain ⟨stride,_,written,done⟩ := outcome_bind_eq_ok done
    rw [outcome_pure] at done
    refine ⟨place, first, second, "," ++ stride, ?_, begins, ends, .inr ⟨stride, rfl, _, .constant shown, _, _, _, _, written⟩⟩
    rw [← String.append_assoc]
    exact (Except.ok.inj (Prod.mk.inj done).1).symm

end Emit

/-! ### Whole numbers -/

namespace Number

theorem holds_counted {j : Nat} (small : j < 2 ^ 53) : Holds (counted j) j := by
  induction j with
  | zero => exact holds_zero
  | succ j ih =>
    have before := ih (by omega)
    exact holds_add before (by omega) holds_one (by decide) (by omega)

/-- With up to so many steps, whole numbers below `2^43` stay exact. -/
theorem holds_term {start step : Float} {first stride : Int} (isStart : Holds start first) (isStep : Holds step stride)
    (smallStart : first.natAbs < 2 ^ 43) (smallStep : stride.natAbs < 2 ^ 43) {j : Nat} (few : j ≤ maxListLength) :
    Holds (term start step j) (first + j * stride) ∧ (first + j * stride).natAbs < 2 ^ 53 := by
  have room : maxListLength = 999 := rfl
  have product : ((j : Int) * stride).natAbs ≤ 999 * 2 ^ 43 := by
    rw [Int.natAbs_mul,Int.natAbs_natCast]
    exact Nat.mul_le_mul (by omega) smallStep.le
  have moved := holds_mul (holds_counted (show j < 2 ^ 53 by omega)) (by omega) isStep (by omega) (show _ < 2 ^ 53 by omega)
  have sum : (first + j * stride).natAbs < 2 ^ 53 := by omega
  exact ⟨holds_add isStart (by omega) moved (by omega) sum, sum⟩

/-- Whole numbers before an end are those up to the one next to it. -/
theorem withinEnd_lastOf (range : Range) {stop step value : Float} {last stride n : Int} (isStop : Holds stop last)
    (small : last.natAbs < 2 ^ 43) (isStep : Holds step stride) (moves : stride ≠ 0) (isValue : Holds value n) :
    withinEnd (0 < step) true (range.lastOf stop step) value = withinEnd (0 < step) range.inclusive stop value := by
  have up := lt_iff_of_holds holds_zero isStep
  have down := lt_iff_of_holds isStep holds_zero
  unfold Range.lastOf
  cases range.inclusive with
  | true => rfl
  | false =>
    simp only [Bool.false_eq_true,if_false]
    by_cases falling : stride < 0
    · have next := holds_add isStop (by omega) holds_one (by decide) (show (last + 1).natAbs < 2 ^ 53 by omega)
      have same : stop + 1 ≤ value ↔ stop < value := by
        rw [le_iff_of_holds next isValue,lt_iff_of_holds isStop isValue]
        omega
      have downwards : ¬0 < step := by
        rw [up]
        omega
      simp only [down.mpr falling,if_true,downwards,decide_false,withinEnd,same]
    · have next := holds_sub isStop (by omega) holds_one (by decide) (show (last - 1).natAbs < 2 ^ 53 by omega)
      have same : value ≤ stop - 1 ↔ value < stop := by
        rw [le_iff_of_holds isValue next,lt_iff_of_holds isValue isStop]
        omega
      have upwards : 0 < step := up.mpr (by omega)
      have rising : ¬step < 0 := falling ∘ down.mp
      simp only [rising,if_false,upwards,decide_true,withinEnd,same]

end Number

open CalcBasic.Action CalcBasic.Emit in
/-- What a counted loop over a range visits, next to the values of the range. -/
structure Range.Counts (range : Range) (values : List Float) (start stop step : Float) : Prop where
  head : ∀ depth counter emitter text after,
    outcome (countedLoop (render depth) counter range) emitter = (.ok text, after) →
      IsHead text start (range.lastOf stop step) step
  literal : ∀ emitter, outcome (rangeValues range) emitter = (.ok (",".intercalate (values.map Number.code)), emitter)
  agrees : Visits start (range.lastOf stop step) step values ↔ ∀ j ≤ values.length,
    withinEnd (0 < step) true (range.lastOf stop step) (term start step j) =
      withinEnd (0 < step) range.inclusive stop (term start step j)
  inclusive : range.inclusive = true → Visits start (range.lastOf stop step) step values
  /-- Where moving the end changes it, the loop visits the values up to there. -/
  exclusive : range.inclusive = false →
    (if 0 < step then range.lastOf stop step < stop else stop < range.lastOf stop step) →
      Visits start (range.lastOf stop step) step
        (values.takeWhile (withinEnd (0 < step) true (range.lastOf stop step)))
  whole : ∀ first last stride : Int, Number.Holds start first → Number.Holds stop last → Number.Holds step stride →
    first.natAbs < 2 ^ 43 → last.natAbs < 2 ^ 43 → stride.natAbs < 2 ^ 43 → Visits start (range.lastOf stop step) step values

/-- `5 til 1 by -2` -/
def fallingTwos : Range := ⟨.number 5, .number 1, .number (-2), false⟩

end CalcBasic

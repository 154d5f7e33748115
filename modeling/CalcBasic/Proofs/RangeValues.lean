import CalcBasic.Proofs.CountedValues

/-! The values of a range. They are listed in a loop that knows no bound but the room in the
list: it ends at the first value past the end of the range, or with an error at a value that
finds the list full. So a range has all its values or none. -/
namespace CalcBasic

namespace Tree

/-- Why a tree has no value although it is constant. -/
def refusal? (tree : Tree) : Option FoldFailure :=
  match tree.evaluate with
  | .error reason => some reason
  | .ok _ => none

theorem refusal?_eq_some_iff {tree : Tree} {reason : FoldFailure} :
    tree.refusal? = some reason ↔ tree.constantNumber = .error reason := by
  unfold refusal? constantNumber
  cases tree.evaluate <;> simp [Except.map]

theorem refusal?_eq_none_iff {tree : Tree} : tree.refusal? = none ↔ ∃ number, tree.constantNumber = .ok number := by
  unfold refusal? constantNumber
  cases tree.evaluate <;> simp [Except.map]

end Tree

/-- The value is not past the end of a range with this step. -/
def Inside (stop step : Float) (inclusive : Bool) (value : Float) : Prop :=
  if 0 < step then if inclusive then value ≤ stop else value < stop
  else if inclusive then value ≥ stop else value > stop

instance (stop step : Float) (inclusive : Bool) (value : Float) : Decidable (Inside stop step inclusive value) :=
  inferInstanceAs (Decidable (if 0 < step then if inclusive then value ≤ stop else value < stop
    else if inclusive then value ≥ stop else value > stop))

theorem withinEnd_iff {stop step value : Float} {inclusive : Bool} :
    withinEnd (0 < step) inclusive stop value = true ↔ Inside stop step inclusive value := by
  unfold Inside
  by_cases rising : 0 < step <;> cases inclusive <;> simp [withinEnd,rising]

/-! ### The loop -/

/-- The loop that lists a progression. A pass ends at a value that is not inside, or at one for
which there is no room; any other value it appends, and the counter goes on by one. -/
inductive Lists (inside : Float → Prop) (start step : Float) : Float → List Float → Except FoldFailure (List Float) → Prop
  | past {k : Float} {values : List Float} (outside : ¬inside (start + k * step)) :
      Lists inside start step k values (.ok values)
  | full {k : Float} {values : List Float} (within : inside (start + k * step)) (full : values.length = maxListLength) :
      Lists inside start step k values (.error .tooManyValues)
  | next {k : Float} {values : List Float} {result : Except FoldFailure (List Float)} (within : inside (start + k * step))
      (room : values.length ≠ maxListLength)
      (rest : Lists inside start step (k + 1) (values ++ [start + k * step]) result) :
      Lists inside start step k values result

section Loop

variable {start step : Float}

theorem Lists.unique {inside : Float → Prop} {k : Float} {values : List Float} {result other : Except FoldFailure (List Float)}
    (first : Lists inside start step k values result) (second : Lists inside start step k values other) : result = other := by
  induction first with
  | past outside =>
    cases second with
    | past => rfl
    | full within | next within => exact absurd within outside
  | full within full =>
    cases second with
    | past outside => exact absurd within outside
    | full => rfl
    | next _ room => exact absurd full room
  | next within room _ ih =>
    cases second with
    | past outside => exact absurd within outside
    | full _ full => exact absurd full room
    | next _ _ rest => exact ih rest

variable {inside : Float → Bool}

/-- The loop ends with what the progression says, since every pass that goes on takes up room. -/
theorem lists_progression {room : Nat} {k : Float} {values : List Float} (left : values.length + room = maxListLength) :
    Lists (inside · = true) start step k values
      ((progression inside start step room k).elim (.error .tooManyValues) fun later => .ok (values ++ later)) := by
  induction room generalizing k values with
  | zero =>
    unfold progression
    split
    · rename_i within
      exact .full within left
    · rename_i outside
      rw [Option.elim_some,List.append_nil]
      exact .past outside
  | succ room ih =>
    unfold progression
    dsimp only
    split
    · rename_i within
      refine .next within (by omega) ?_
      have rest := @ih (k + 1) (values ++ [start + k * step]) (by rw [List.length_append,List.length_singleton]; omega)
      cases found : progression inside start step room (k + 1) with
      | none => rwa [found] at rest
      | some later =>
        rw [found,Option.elim_some,List.append_assoc] at rest
        exact rest
    · rename_i outside
      rw [Option.elim_some,List.append_nil]
      exact .past outside

theorem progression_eq_none_iff {room i : Nat} : progression inside start step room (counted i) = none ↔
    ∀ j ≤ room, inside (term start step (i + j)) = true := by
  induction room generalizing i with
  | zero =>
    have first : progression inside start step 0 (counted i) = none ↔ inside (term start step i) = true := by
      rw [progression,term]
      split <;> simp_all
    simp [first]
  | succ room ih =>
    have first : progression inside start step (room + 1) (counted i) = none ↔
        inside (term start step i) = true ∧ progression inside start step room (counted (i + 1)) = none := by
      rw [progression,counted,term]
      split <;> simp_all
    rw [first,ih]
    constructor
    · rintro ⟨here,later⟩ j bound
      cases j with
      | zero => exact here
      | succ j =>
        have place : i + (j + 1) = i + 1 + j := by omega
        rw [place]
        exact later j (Nat.le_of_succ_le_succ bound)
    · intro each
      refine ⟨each 0 (Nat.zero_le _), fun j bound => ?_⟩
      have place : i + 1 + j = i + (j + 1) := by omega
      rw [place]
      exact each (j + 1) (Nat.succ_le_succ bound)

theorem progression_of_sweeps {room : Nat} {values : List Float} (sweeps : Sweeps inside start step values)
    (fits : values.length ≤ room) : progression inside start step room 0 = some values := by
  cases found : progression inside start step room 0 with
  | none =>
    have within := (progression_eq_none_iff (i := 0)).mp found values.length fits
    rw [Nat.zero_add,sweeps.ended] at within
    cases within
  | some others => rw [(sweeps_of_progression found).1.unique sweeps]

end Loop

/-! ### Ranges -/

namespace Range

/-- The three trees of a range, in the order in which they are evaluated. -/
def parts (range : Range) : List Tree := [range.start, range.stop, range.step]

variable {range : Range}

theorem values_of_failure {reason : FoldFailure} (failed : range.parts.findSome? Tree.refusal? = some reason) :
    range.values = .error reason := by
  rw [parts,List.findSome?_cons] at failed
  unfold Range.values
  cases first : range.start.refusal? with
  | some early =>
    rw [first] at failed
    cases failed
    rw [Tree.refusal?_eq_some_iff.mp first]
    rfl
  | none =>
    obtain ⟨start,starts⟩ := Tree.refusal?_eq_none_iff.mp first
    rw [first,List.findSome?_cons] at failed
    rw [starts]
    cases second : range.stop.refusal? with
    | some early =>
      rw [second] at failed
      cases failed
      rw [Tree.refusal?_eq_some_iff.mp second]
      rfl
    | none =>
      obtain ⟨stop,stops⟩ := Tree.refusal?_eq_none_iff.mp second
      rw [second,List.findSome?_singleton] at failed
      rw [stops,Tree.refusal?_eq_some_iff.mp failed]
      rfl

theorem values_of_open (sound : range.parts.findSome? Tree.refusal? = none)
    (varies : ∃ tree ∈ range.parts, tree.constantNumber = .ok none) : range.values = .ok none := by
  have each : ∀ tree ∈ range.parts, ∃ number, tree.constantNumber = .ok number :=
    fun tree isPart => Tree.refusal?_eq_none_iff.mp (List.findSome?_eq_none_iff.mp sound tree isPart)
  obtain ⟨start,starts⟩ := each range.start (by simp [parts])
  obtain ⟨stop,stops⟩ := each range.stop (by simp [parts])
  obtain ⟨step,steps⟩ := each range.step (by simp [parts])
  simp only [parts,List.mem_cons,List.not_mem_nil,or_false,exists_eq_or_imp,exists_eq_left,starts,stops,steps,
    Except.ok.injEq] at varies
  unfold Range.values
  rw [starts,stops,steps]
  rcases varies with rfl | rfl | rfl
  · rfl
  · cases start <;> rfl
  · cases start <;> cases stop <;> rfl

section Numbers

variable {start stop step : Float} (starts : range.start.constantNumber = .ok (some start))
  (stops : range.stop.constantNumber = .ok (some stop)) (steps : range.step.constantNumber = .ok (some step))
include starts stops steps

theorem values_of_numbers : range.values = if step == 0 || !step.isFinite then .error .idleStep else
    (progression (withinEnd (0 < step) range.inclusive stop) start step maxListLength 0).elim (.error .tooManyValues)
      fun values => .ok (some values) := by
  unfold Range.values
  rw [starts,stops,steps]
  change (if _ then _ else _) = _
  congr 1
  cases progression (withinEnd (0 < step) range.inclusive stop) start step maxListLength 0 <;> rfl

theorem values_of_idle (idle : (step == 0 || !step.isFinite) = true) : range.values = .error .idleStep := by
  rw [values_of_numbers starts stops steps,if_pos idle]

variable (moves : (step == 0 || !step.isFinite) = false)
include moves

theorem values_of_moves : range.values =
    (progression (withinEnd (0 < step) range.inclusive stop) start step maxListLength 0).elim (.error .tooManyValues)
      fun values => .ok (some values) := by
  rw [values_of_numbers starts stops steps,if_neg (by simp [moves])]

theorem values_of_first_outside {m : Nat} (few : m ≤ maxListLength)
    (each : ∀ k < m, Inside stop step range.inclusive (term start step k))
    (outside : ¬Inside stop step range.inclusive (term start step m)) :
    range.values = .ok (some ((List.range m).map (term start step))) := by
  have sweeps : Sweeps (withinEnd (0 < step) range.inclusive stop) start step ((List.range m).map (term start step)) := by
    refine ⟨?_, ?_, ?_⟩
    · rw [List.length_map,List.length_range]
    · simpa [withinEnd_iff] using each
    · simpa [Bool.eq_false_iff,withinEnd_iff] using outside
  have fits : ((List.range m).map (term start step)).length ≤ maxListLength := by
    rwa [List.length_map,List.length_range]
  rw [values_of_moves starts stops steps moves,progression_of_sweeps sweeps fits]
  rfl

theorem values_tooMany_iff : range.values = .error .tooManyValues ↔
    ∀ k ≤ maxListLength, Inside stop step range.inclusive (term start step k) := by
  have all : progression (withinEnd (0 < step) range.inclusive stop) start step maxListLength (counted 0) = none ↔
      ∀ k ≤ maxListLength, Inside stop step range.inclusive (term start step k) := by
    rw [progression_eq_none_iff]
    simp only [withinEnd_iff,Nat.zero_add]
  rw [values_of_moves starts stops steps moves,← all,counted]
  cases progression (withinEnd (0 < step) range.inclusive stop) start step maxListLength 0 <;> simp

end Numbers

end Range

/-- The loop ends whatever the numbers are. -/
theorem lists_inside (start stop step : Float) (inclusive : Bool) : Lists (Inside stop step inclusive) start step 0 []
    ((progression (withinEnd (0 < step) inclusive stop) start step maxListLength 0).elim (.error .tooManyValues) .ok) := by
  have same : (withinEnd (0 < step) inclusive stop · = true) = Inside stop step inclusive :=
    funext fun _ => propext withinEnd_iff
  rw [← same]
  exact lists_progression (Nat.zero_add _)

/-- A range has all its values or none. A part that fails decides, the first one in order, then
a part that is no number, then a step that leads nowhere. Otherwise the values are those before
the first that is not inside, up to 999 of them; with one more there are none. -/
theorem range_complete_or_refused (range : Range) :
    (∀ reason, range.parts.findSome? Tree.refusal? = some reason → range.values = .error reason) ∧
    (range.parts.findSome? Tree.refusal? = none → (∃ tree ∈ range.parts, tree.constantNumber = .ok none) →
      range.values = .ok none) ∧
    (∀ start stop step, range.start.constantNumber = .ok (some start) → range.stop.constantNumber = .ok (some stop) →
      range.step.constantNumber = .ok (some step) →
      ((step == 0 || !step.isFinite) = true → range.values = .error .idleStep) ∧
      ((step == 0 || !step.isFinite) = false →
        (∀ m ≤ 999, (∀ k < m, Inside stop step range.inclusive (term start step k)) →
          ¬Inside stop step range.inclusive (term start step m) →
            range.values = .ok (some ((List.range m).map (term start step)))) ∧
        (range.values = .error .tooManyValues ↔ ∀ k ≤ 999, Inside stop step range.inclusive (term start step k)) ∧
        ∀ result, Lists (Inside stop step range.inclusive) start step 0 [] result → range.values = result.map some)) ∧
    ∀ start stop step inclusive, ∃ result, Lists (Inside stop step inclusive) start step 0 [] result := by
  refine ⟨fun _ => Range.values_of_failure, Range.values_of_open, ?_, fun start stop step inclusive => ⟨_, lists_inside ..⟩⟩
  intro start stop step starts stops steps
  refine ⟨Range.values_of_idle starts stops steps, fun moves => ⟨?_, ?_, ?_⟩⟩
  · exact fun m => Range.values_of_first_outside starts stops steps moves
  · exact Range.values_tooMany_iff starts stops steps moves
  · intro result lists
    rw [Range.values_of_moves starts stops steps moves,lists.unique (lists_inside start stop step range.inclusive)]
    cases progression (withinEnd (0 < step) range.inclusive stop) start step maxListLength 0 <;> rfl

/-- Of two parts without a value the first is reported, and a falling range ends above its end. -/
theorem range_complete_or_refused_fallingTwos :
    let refused : Range := ⟨.var "n", .arith (.number 1) .div (.number 0), .arith (.number 1) .mod (.number 0), true⟩
    refused.parts.findSome? Tree.refusal? = some (.notFinite .div) ∧ refused.values = .error (.notFinite .div) ∧
      fallingTwos.values = .ok (some [term 5 (-2) 0, term 5 (-2) 1]) := by
  intro refused
  have failed : refused.parts.findSome? Tree.refusal? = some (.notFinite .div) := by decide +kernel
  obtain ⟨_,_,numbers,_⟩ := range_complete_or_refused fallingTwos
  obtain ⟨listed,_⟩ := (numbers 5 1 (-2) rfl rfl rfl).2 (by decide +kernel)
  refine ⟨failed, (range_complete_or_refused refused).1 _ failed, listed 2 (by decide) ?_ ?_⟩ <;> decide +kernel

end CalcBasic

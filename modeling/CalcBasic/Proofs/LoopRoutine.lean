import CalcBasic.Proofs.EmittedFormula
import Mathlib.Logic.Function.Basic

/-! Loops as the calculator runs them: stores, lists, and counted loops around a
body. A loop over a range either counts on its own, or fills a list and then runs
over its elements. -/
namespace CalcBasic

/-! ### Values of ranges -/

/-- Whether a value is not past the end, seen in the direction of the step. -/
def within (inclusive : Bool) (stop step value : Int) : Bool :=
  if step < 0 then (if inclusive then stop ≤ value else stop < value)
  else 0 < step && (if inclusive then value ≤ stop else value < stop)

/-- The values from a start on, by steps, before they are past the end. -/
def spanned (inclusive : Bool) (start stop step : Int) : List Int :=
  if within inclusive stop step start then start :: spanned inclusive (start + step) stop step else []
termination_by (if step < 0 then start - stop + 1 else stop - start + 1).toNat
decreasing_by
  rename_i inside
  cases inclusive <;> simp only [within] at inside <;> split at inside <;> simp at inside <;> split <;> omega

theorem within_exclusive (stop step value : Int) :
    within false stop step value = within true (if step < 0 then stop + 1 else stop - 1) step value := by
  have up : value < stop ↔ value ≤ stop - 1 := by omega
  have down : stop < value ↔ stop + 1 ≤ value := by omega
  unfold within
  split <;> simp only [up,down,Bool.false_eq_true,if_false,if_true]

theorem spanned_exclusive (start stop step : Int) :
    spanned false start stop step = spanned true start (if step < 0 then stop + 1 else stop - 1) step := by
  fun_induction spanned false start stop step with
  | case1 start inside ih =>
    rw [within_exclusive] at inside
    rw [spanned.eq_def true,if_pos inside,ih]
  | case2 start outside =>
    rw [within_exclusive] at outside
    rw [spanned.eq_def true,if_neg outside]

/-! ### Memory -/

structure Memory where
  scalars : Slot → Int
  /-- By the names that code gives them. -/
  lists : String → List Int

namespace Memory

def store (memory : Memory) (target : Slot) (value : Int) : Memory :=
  { memory with scalars := Function.update memory.scalars target value }

def storeList (memory : Memory) (list : String) (items : List Int) : Memory :=
  { memory with lists := Function.update memory.lists list items }

/-- Changes an element, or adds one right behind the last. -/
def put (memory : Memory) (list : String) (index value : Int) : Memory :=
  let items := memory.lists list
  let place := (index - 1).toNat
  memory.storeList list (if place = items.length then items ++ [value] else items.set place value)

@[simp]
theorem store_same (memory : Memory) (target : Slot) (value : Int) : (memory.store target value).scalars target = value :=
  Function.update_self ..

@[simp]
theorem store_other (memory : Memory) {target slot : Slot} (other : slot ≠ target) (value : Int) :
    (memory.store target value).scalars slot = memory.scalars slot :=
  Function.update_of_ne other ..

@[simp]
theorem store_lists (memory : Memory) (target : Slot) (value : Int) : (memory.store target value).lists = memory.lists := rfl

@[simp]
theorem storeList_same (memory : Memory) (list : String) (items : List Int) : (memory.storeList list items).lists list = items :=
  Function.update_self ..

@[simp]
theorem storeList_scalars (memory : Memory) (list : String) (items : List Int) :
    (memory.storeList list items).scalars = memory.scalars := rfl

@[simp]
theorem put_scalars (memory : Memory) (list : String) (index value : Int) :
    (memory.put list index value).scalars = memory.scalars := rfl

end Memory

/-! ### Routines -/

/-- An expression in the head of a loop or before a store. -/
inductive Amount where
  | literal (value : Int)
  | scalar (slot : Slot)
  | plus (base : Amount) (more : Nat)
  | minus (base : Amount) (less : Nat)
  | length (list : String)
  | element (list : String) (index : Slot)

namespace Amount

def code : Amount → String
  | .literal value => toString value
  | .scalar slot => slot.code
  | .plus base more => base.code ++ "+" ++ toString more
  | .minus base less => base.code ++ "-" ++ toString less
  | .length list => "dim(" ++ list ++ ")"
  | .element list index => list ++ "(" ++ index.code ++ ")"

def value (memory : Memory) : Amount → Int
  | .literal value => value
  | .scalar slot => memory.scalars slot
  | .plus base more => base.value memory + more
  | .minus base less => base.value memory - less
  | .length list => (memory.lists list).length
  | .element list index => (memory.lists list).getD (memory.scalars index - 1).toNat 0

end Amount

/-- What stands in the head of a counted loop besides its counter. A step of one is
left out. -/
structure Head where
  start : Amount
  stop : Amount
  step : Option Amount

namespace Head

/-- The head as it is written, not closed. -/
def code (head : Head) (counter : Slot) : String :=
  "For(" ++ counter.code ++ "," ++ head.start.code ++ "," ++ head.stop.code ++
    match head.step with
    | none => ""
    | some step => "," ++ step.code

/-- The values that the counter takes. They are settled when the loop is entered. -/
def values (head : Head) (memory : Memory) : List Int :=
  spanned true (head.start.value memory) (head.stop.value memory) ((head.step.map (·.value memory)).getD 1)

end Head

inductive Routine where
  /-- The body of the loop in source, which sees the value of a variable. -/
  | body (seen : Slot)
  | store (value : Amount) (target : Slot)
  /-- Makes a list of one element. -/
  | single (value : Int) (list : String)
  | put (value : Amount) (list : String) (index : Slot)
  | loop (counter : Slot) (head : Head) (closed : Bool) (inner : Routine)
  | seq (first next : Routine)

namespace Routine

variable {memory : Memory} {effect : Memory → Memory}

/-- The lines of a routine around those of a body. Brackets that are open before a
store are not closed. -/
def lines (body : List String) : Routine → List String
  | .body _ => body
  | .store value target => [Code.trimClosers value.code ++ "→" ++ target.code]
  | .single value list => [Code.trimClosers (Emit.braced (toString value)) ++ "→" ++ list]
  | .put value list index => [Code.trimClosers value.code ++ "→" ++ list ++ "(" ++ index.code ++ ")"]
  | .loop counter head closed inner =>
    (head.code counter ++ if closed then ")" else "") :: inner.lines body ++ ["End"]
  | .seq first next => first.lines body ++ next.lines body

/-- A run, where the body changes the memory by some effect. The values that the body
sees are collected. -/
def run (effect : Memory → Memory) : Routine → Memory × List Int → Memory × List Int
  | .body seen, (memory, values) => (effect memory, values ++ [memory.scalars seen])
  | .store value target, (memory, values) => (memory.store target (value.value memory), values)
  | .single value list, (memory, values) => (memory.storeList list [value], values)
  | .put value list index, (memory, values) =>
    (memory.put list (memory.scalars index) (value.value memory), values)
  | .loop counter head _ inner, state =>
    (head.values state.1).foldl (fun state value => inner.run effect (state.1.store counter value, state.2)) state
  | .seq first next, state => next.run effect (first.run effect state)

/-- The values that the body sees, one after the other. -/
def visits (routine : Routine) (effect : Memory → Memory) (memory : Memory) : List Int :=
  (routine.run effect (memory, [])).2

/-- A loop that counts with the variable of the source. -/
def overRange (counter : Slot) (head : Head) (closed : Bool) : Routine := .loop counter head closed (.body counter)

/-- Fills a list with the values of a counter. The list begins with one element, since
there is no literal of an empty list. -/
def fill (list : String) (count counter : Slot) (head : Head) : Routine :=
  .seq (.single 0 list) (.seq (.store (.literal 0) count) (.loop counter head false
    (.seq (.store (.plus (.scalar count) 1) count) (.put (.scalar counter) list count))))

/-- Runs the body for the elements of a list. -/
def overList (list : String) (length index target : Slot) : Routine :=
  .seq (.store (.length list) length) (.loop index ⟨.literal 1, .scalar length, none⟩ false
    (.seq (.store (.element list index) target) (.body target)))

theorem visits_overRange (counter : Slot) (head : Head) (closed : Bool) (effect : Memory → Memory) (memory : Memory) :
    (overRange counter head closed).visits effect memory = head.values memory := by
  have counts (values : List Int) (state : Memory × List Int) :
      (values.foldl (fun state value => (Routine.body counter).run effect (state.1.store counter value, state.2)) state).2 =
        state.2 ++ values := by
    induction values generalizing state with
    | nil => simp
    | cons value rest ih => rw [List.foldl_cons,ih]; simp [run]
  exact (counts _ _).trans (List.nil_append _)

/-! ### Filling a list -/

/-- After some values the count is their number, and the list holds them, if there
are any. -/
structure Filled (list : String) (count : Slot) (values : List Int) (memory : Memory) : Prop where
  counted : memory.scalars count = values.length
  listed : memory.lists list = if values = [] then [0] else values

section Filling

variable {list : String} {count counter : Slot} (apart : count ≠ counter)
include apart

theorem filled_step {values : List Int} (filled : Filled list count values memory) (effect : Memory → Memory) (seen : List Int)
    (value : Int) :
    ∃ after, (Routine.seq (.store (.plus (.scalar count) 1) count) (.put (.scalar counter) list count)).run effect
        (memory.store counter value, seen) = (after, seen) ∧ Filled list count (values ++ [value]) after := by
  refine ⟨_, rfl, ?_, ?_⟩
  · simp [Amount.value,apart,filled.counted]
  · have place : ((values.length : Int) + 1 - 1).toNat = values.length := by omega
    simp only [Memory.put,Memory.storeList_same,Memory.store_same,Memory.store_lists,Amount.value,filled.listed,
      Memory.store_other _ apart,Memory.store_other _ apart.symm,filled.counted,Nat.cast_one,place]
    -- the first value takes the place of the element that the list began with
    cases values with
    | nil => simp
    | cons first rest => simp

theorem filled_loop {done : List Int} (filled : Filled list count done memory) (effect : Memory → Memory)
    (seen values : List Int) :
    ∃ after, values.foldl (fun state value => (Routine.seq (.store (.plus (.scalar count) 1) count)
        (.put (.scalar counter) list count)).run effect (state.1.store counter value, state.2)) (memory, seen) =
          (after, seen) ∧ Filled list count (done ++ values) after := by
  induction values generalizing done memory with
  | nil => exact ⟨memory, rfl, by rwa [List.append_nil]⟩
  | cons value rest ih =>
    obtain ⟨next,stepped,filledNext⟩ := filled_step apart filled effect seen value
    obtain ⟨after,ran,filledAfter⟩ := ih filledNext
    refine ⟨after, ?_, ?_⟩
    · rw [List.foldl_cons,stepped,ran]
    · rwa [List.append_assoc,List.singleton_append] at filledAfter

theorem run_fill (head : Head) (effect : Memory → Memory) (memory : Memory) (seen : List Int) :
    ∃ after, (fill list count counter head).run effect (memory, seen) = (after, seen) ∧
      Filled list count (head.values ((memory.storeList list [0]).store count 0)) after := by
  have empty : Filled list count [] ((memory.storeList list [0]).store count 0) := ⟨by simp, by simp⟩
  exact filled_loop apart empty effect seen _

end Filling

/-! ### Running over a list -/

theorem run_elements {list : String} (index target : Slot) {effect : Memory → Memory}
    (keeps : ∀ memory, (effect memory).lists list = memory.lists list) {items : List Int} {first : Int}
    (positive : 0 < first) {memory : Memory} (listed : memory.lists list = items) (seen : List Int) :
    ((spanned true first items.length 1).foldl (fun state value => (Routine.seq (.store (.element list index) target)
      (.body target)).run effect (state.1.store index value, state.2)) (memory, seen)).2 =
        seen ++ items.drop (first - 1).toNat := by
  generalize last : (items.length : Int) = stop
  generalize unit : (1 : Int) = step
  fun_induction spanned true first stop step generalizing memory seen with
  | case1 first inside ih =>
    subst last unit
    have bounded : (first - 1).toNat < items.length := by
      simp [within] at inside
      omega
    have next : (first + 1 - 1).toNat = (first - 1).toNat + 1 := by omega
    have read : items.getD (first - 1).toNat 0 = items[(first - 1).toNat] := by
      rw [List.getD_eq_getElem?_getD,List.getElem?_eq_getElem bounded,Option.getD_some]
    let loaded := (memory.store index first).store target items[(first - 1).toNat]
    have stepped : (Routine.seq (.store (.element list index) target) (.body target)).run effect
        (memory.store index first, seen) = (effect loaded, seen ++ [items[(first - 1).toNat]]) := by
      simp only [run,Amount.value,Memory.store_same,Memory.store_lists,listed,read,loaded]
    have kept : (effect loaded).lists list = items := (keeps loaded).trans listed
    rw [List.foldl_cons,stepped,ih (by omega) kept,next,List.drop_eq_getElem_cons bounded,List.append_assoc]
    rfl
  | case2 first outside =>
    subst last unit
    have beyond : items.length ≤ (first - 1).toNat := by
      simp [within] at outside
      omega
    rw [List.drop_eq_nil_of_le beyond,List.append_nil]
    rfl

theorem run_overList {list : String} (length index target : Slot)
    (keeps : ∀ memory, (effect memory).lists list = memory.lists list) (memory : Memory) (seen : List Int) :
    ((overList list length index target).run effect (memory, seen)).2 = seen ++ memory.lists list := by
  let measured := memory.store length (memory.lists list).length
  have elements := @run_elements list index target effect keeps (memory.lists list) 1 (by decide) measured rfl seen
  have bound : Head.values ⟨.literal 1, .scalar length, none⟩ measured = spanned true 1 (memory.lists list).length 1 := by
    simp [Head.values,Amount.value,measured]
  change ((Head.values ⟨.literal 1, .scalar length, none⟩ measured).foldl _ (measured, seen)).2 = _
  rw [bound]
  exact elements

/-- A loop over a list filled with a range sees the values of the range, but sees the
element that the list began with if there are none. -/
theorem visits_filled {list : String} {count counter : Slot} (apart : count ≠ counter) (head : Head)
    (length index target : Slot) (keeps : ∀ memory, (effect memory).lists list = memory.lists list) (memory : Memory) :
    (Routine.seq (fill list count counter head) (overList list length index target)).visits effect memory =
      let values := head.values ((memory.storeList list [0]).store count 0)
      if values = [] then [0] else values := by
  obtain ⟨after,ran,filled⟩ := run_fill apart head effect memory []
  rw [visits,run,ran,run_overList length index target keeps,filled.listed,List.nil_append]

end Routine

end CalcBasic

import CalcBasic.Proofs.Subtrees
import CalcBasic.Tree.Constant

/-! Trees with a constant value: what their parts evaluate to. -/
namespace CalcBasic

variable {x : Float} {op : Arith} {reason : FoldFailure} {truth : Bool} {a b value : Constant} {tree : Tree}

namespace Tree

theorem combined_some {first second : Except FoldFailure (Option Constant)} {value : Constant}
    {combine : Constant → Constant → Except FoldFailure (Option Constant)}
    (combined : (do
      match ← first, ← second with
      | some a, some b => combine a b
      | _, _ => return none) = .ok (some value)) :
    ∃ a b, first = .ok (some a) ∧ second = .ok (some b) ∧ combine a b = .ok (some value) := by
  rcases first with reason | _ | a
  · cases combined
  · rcases second with reason | _ | b <;> cases combined
  · rcases second with reason | _ | b
    · cases combined
    · cases combined
    · exact ⟨a, b, rfl, rfl, combined⟩

theorem evaluate_arith_some {left right : Tree} {op : Arith} {value : Constant}
    (evaluated : (Tree.arith left op right).evaluate = .ok (some value)) :
    ∃ a b, left.evaluate = .ok (some a) ∧ right.evaluate = .ok (some b) ∧ op.evaluate a b = .ok (some value) := by
  rw [evaluate] at evaluated
  exact combined_some evaluated

theorem evaluate_compare_some {left right : Tree} {op : Comparison} {value : Constant}
    (evaluated : (Tree.compare left op right).evaluate = .ok (some value)) :
    ∃ a b truth, left.evaluate = .ok (some a) ∧ right.evaluate = .ok (some b) ∧
      op.evaluate? a b = some truth ∧ value = .boolean truth := by
  rw [evaluate] at evaluated
  obtain ⟨a,b,first,second,held⟩ := combined_some evaluated
  obtain ⟨truth,compared,same⟩ := Option.map_eq_some_iff.mp (Except.ok.inj held)
  exact ⟨a, b, truth, first, second, compared, same.symm⟩

end Tree

theorem Constant.evaluate_tree (value : Constant) : value.tree.evaluate = .ok (some value) := by
  cases value <;> rfl

theorem Constant.single_of_number? (number : value.number? = some x) (items : List Tree) : value ≠ .list items := by
  rintro rfl
  cases number

theorem Arith.evaluate_some (evaluated : op.evaluate a b = .ok (some value)) :
    ∃ x y, a.number? = some x ∧ b.number? = some y ∧ (op.apply x y).isFinite = true ∧
      value = .number (op.apply x y) := by
  unfold Arith.evaluate at evaluated
  split at evaluated
  · rename_i x y first second
    dsimp only at evaluated
    split at evaluated
    · cases evaluated
    · split at evaluated
      · rename_i finite
        cases evaluated
        exact ⟨x, y, first, second, finite, rfl⟩
      · cases evaluated
  · cases evaluated

theorem Arith.evaluate_error (failed : op.evaluate a b = .error reason) : ∃ x y, a.number? = some x ∧ b.number? = some y := by
  unfold Arith.evaluate at failed
  split at failed
  · rename_i x y first second
    exact ⟨x, y, first, second⟩
  · cases failed

/-- A failure that no operand has is one of arithmetic on numbers. -/
theorem Tree.innermost_failure (failed : tree.evaluate = .error reason)
    (innermost : (tree.children.all fun child => child.evaluate.isOk) = true) : ∃ left op right a b x y,
      tree = .arith left op right ∧ left.evaluate = .ok (some a) ∧ right.evaluate = .ok (some b) ∧
        a.number? = some x ∧ b.number? = some y := by
  cases tree with
  | arith left op right =>
    simp only [children,List.all_cons,List.all_nil,Bool.and_true,Bool.and_eq_true] at innermost
    rw [evaluate] at failed
    rcases first : left.evaluate with _ | _ | a <;> rcases second : right.evaluate with _ | _ | b <;> rw [first,second] at failed innermost
    case ok.some.ok.some =>
      obtain ⟨x,y,numberA,numberB⟩ := Arith.evaluate_error (show op.evaluate a b = .error reason from failed)
      exact ⟨left, op, right, a, b, x, y, rfl, first, second, numberA, numberB⟩
    all_goals simp [Except.isOk,Except.toBool,bind,Except.bind,pure,Except.pure] at innermost failed
  | compare left op right =>
    rw [evaluate] at failed
    simp only [children,List.all_cons,List.all_nil,Bool.and_true,Bool.and_eq_true] at innermost
    rcases first : left.evaluate with _ | _ | a <;> rcases second : right.evaluate with _ | _ | b <;>
      simp [first,second,Except.isOk,Except.toBool,bind,Except.bind,pure,Except.pure] at innermost failed
  | _ => simp [evaluate] at failed

theorem Comparison.evaluate?_some {op : Comparison} (compared : op.evaluate? a b = some truth) :
    (∃ x y, a.number? = some x ∧ b.number? = some y) ∨ ∃ x y, a = .text x ∧ b = .text y := by
  unfold Comparison.evaluate? at compared
  split at compared
  · rename_i x y first second
    exact .inl ⟨x, y, first, second⟩
  · exact .inr ⟨_, _, rfl, rfl⟩
  · cases compared

theorem Comparison.single_of_evaluate? {op : Comparison} (compared : op.evaluate? a b = some truth) :
    (∀ items, a ≠ .list items) ∧ ∀ items, b ≠ .list items := by
  unfold Comparison.evaluate? at compared
  constructor
  · rintro items rfl
    simp [Constant.number?] at compared
  · rintro items rfl
    cases a <;> simp [Constant.number?] at compared

/-- Literals of single values, and operations on which folding does not fail. -/
def Tree.isValued : Tree → Bool
  | .number _ | .boolean _ | .text _ => true
  | .arith left op right => (Tree.arith left op right).evaluate.isOk
  | .compare left op right => (Tree.compare left op right).evaluate.isOk
  | _ => false

theorem Tree.valued_of_evaluate (evaluated : tree.evaluate = .ok (some value))
    (single : ∀ items, value ≠ .list items) : tree.everywhere isValued = true := by
  fun_induction Tree.evaluate tree generalizing value with
  | case1 | case2 | case3 => exact everywhere_iff.mpr ⟨rfl, by simp⟩
  | case4 items =>
    cases evaluated
    exact absurd rfl (single items)
  | case5 left op right ihLeft ihRight =>
    obtain ⟨a,b,first,second,combined⟩ := combined_some evaluated
    obtain ⟨x,y,numberA,numberB,_⟩ := Arith.evaluate_some combined
    have valuedLeft := ihLeft first (Constant.single_of_number? numberA)
    have valuedRight := ihRight second (Constant.single_of_number? numberB)
    refine everywhere_iff.mpr ⟨?_, by simp [valuedLeft,valuedRight]⟩
    rw [isValued,evaluate,evaluated]
    rfl
  | case6 left op right ihLeft ihRight =>
    obtain ⟨a,b,first,second,combined⟩ := combined_some evaluated
    obtain ⟨truth,compared,_⟩ := Option.map_eq_some_iff.mp (Except.ok.inj combined)
    obtain ⟨singleA,singleB⟩ := Comparison.single_of_evaluate? compared
    refine everywhere_iff.mpr ⟨?_, by simp [ihLeft first singleA,ihRight second singleB]⟩
    rw [isValued,evaluate,evaluated]
    rfl
  | case7 => cases evaluated

theorem Tree.constantNumber_some (constant : tree.constantNumber = .ok (some x)) :
    ∃ value, tree.evaluate = .ok (some value) ∧ value.number? = some x := by
  unfold Tree.constantNumber at constant
  rcases evaluated : tree.evaluate with reason | _ | value
  · rw [evaluated] at constant
    cases constant
  · rw [evaluated] at constant
    cases constant
  · rw [evaluated] at constant
    exact ⟨value, rfl, Except.ok.inj constant⟩

theorem Range.values_some {range : Range} {values : List Float} (known : range.values = .ok (some values)) :
    ∃ start stop step, range.start.constantNumber = .ok (some start) ∧
      range.stop.constantNumber = .ok (some stop) ∧ range.step.constantNumber = .ok (some step) := by
  unfold Range.values at known
  generalize range.start.constantNumber = start, range.stop.constantNumber = stop,
    range.step.constantNumber = step at known ⊢
  rcases start with reason | _ | start
  · cases known
  · rcases stop with reason | _ | stop <;> rcases step with reason | _ | step <;> cases known
  · rcases stop with reason | _ | stop
    · cases known
    · rcases step with reason | _ | step <;> cases known
    · rcases step with reason | _ | step
      · cases known
      · cases known
      · exact ⟨start, stop, step, rfl, rfl, rfl⟩

end CalcBasic

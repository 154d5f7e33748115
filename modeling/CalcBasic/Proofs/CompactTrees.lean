import CalcBasic.Proofs.ConstantCode
import CalcBasic.Proofs.RankedTrees

/-! Trees that folding can only make shorter. A value may be shorter than its operation
and still make the code longer: as an operand it may need parentheses that the operation
does without, and it has no closers that could be left out. -/
namespace CalcBasic

/-- Code that is no longer than other code, with the closers at their ends and without. -/
def Code.isNoLonger (new old : String) : Bool :=
  new.length ≤ old.length && (trimBrackets new).length ≤ (trimBrackets old).length

theorem Code.shrinks_of_isNoLonger {new old : String} (firmNew : Firm new.toList) (firmOld : Firm old.toList)
    (noLonger : isNoLonger new old = true) : Shrinks new.toList old.toList := by
  simp only [isNoLonger,Bool.and_eq_true,decide_eq_true_eq,trimBrackets,← String.length_toList,String.toList_ofList]
    at noLonger
  exact ⟨firmNew, firmOld, noLonger.1, noLonger.2⟩

namespace Tree

variable {value : Constant} {code : String} {left right : Tree} {mark : Nat}

/-- The value of a constant tree, written into some place, is no longer than the tree. -/
def foldsShort (modern : Bool) (place : Tree → String → String) (tree : Tree) : Bool :=
  (tree.folded? modern).all fun value =>
    value.code?.all fun code => Code.isNoLonger (place value.tree code) (place tree (tree.plainCode modern))

/-- An operation and its operands fold short where they stand, and it compares no texts. -/
def isCompactOperation (modern : Bool) (tree : Tree) : Bool :=
  let operands (outer : Operator) (left right : Tree) : Bool :=
    left.foldsShort modern (operandCode modern outer false) && right.foldsShort modern (operandCode modern outer true)
  match tree with
  | .arith left op right =>
    tree.foldsShort modern (fun _ code => code) && operands (.arith (if op = .mod then .div else op)) left right
  | .compare left op right =>
    !tree.comparesTexts && tree.foldsShort modern (fun _ code => code) && operands (.compare op) left right
  | _ => true

/-- The operations that a tree is rendered through are compact, and no choice is made on
a folded value: no condition becomes a literal, and no step becomes one. -/
def isCompactNode (modern : Bool) : Tree → Bool
  | .arith left op right => isCompactOperation modern (.arith left op right)
  | .compare left op right => isCompactOperation modern (.compare left op right)
  | .assign target (.update op) value _ => isCompactOperation modern (.arith target op value)
  | .membership value collection => isCompactOperation modern (.compare value .eq collection)
  | .range start stop step inclusive _ =>
    isCompactOperation modern (Range.lastValue ⟨start, stop, step, inclusive⟩) &&
      (step.folded? modern).all (!·.tree.isOne)
  | .branch condition _ _ => (condition.folded? modern).isNone
  | .call name arguments mark =>
    ((Builtin.find? name).bind Builtin.expansion).all fun expansion =>
      (expansion.expand arguments mark).everywhere (isCompactOperation modern)
  | _ => true

/-- Folding makes no part of the tree longer. -/
def isCompact (modern : Bool) (tree : Tree) : Bool := tree.everywhere (isCompactNode modern)

variable {modern : Bool} {tree : Tree}

theorem isCompact_iff : tree.isCompact modern = true ↔
    tree.isCompactNode modern = true ∧ ∀ child ∈ tree.children, child.isCompact modern = true := everywhere_iff

theorem isCompact_child (compact : tree.isCompact modern = true) {child : Tree} (isChild : child ∈ tree.children) :
    child.isCompact modern = true :=
  (isCompact_iff.mp compact).2 child isChild

theorem isCompactOperation_of_node (tree : Tree) (node : tree.isCompactNode modern = true) :
    tree.isCompactOperation modern = true := by
  cases tree with
  | arith | compare => exact node
  | _ => rfl

theorem textless (compact : tree.isCompact modern = true) : tree.everywhere (!·.comparesTexts) = true := by
  refine everywhere_mono (fun tree node => ?_) compact
  have operation := isCompactOperation_of_node tree node
  cases tree with
  | compare left op right =>
    simp only [isCompactOperation,Bool.and_eq_true] at operation
    exact operation.1.1
  | _ => rfl

/-! ### Folded values -/

theorem folded?_some (found : tree.folded? modern = some value) :
    (∃ code, value.code? = some code) ∧ tree.isOperation = true ∧ tree.evaluate = .ok (some value) := by
  unfold folded? at found
  split at found
  · rename_i constant
    split at found
    · rename_i given evaluated
      split at found
      · rename_i short
        cases found
        obtain ⟨code,written,_⟩ := (Option.any_eq_true _ _).mp short
        exact ⟨⟨code, written⟩, ((Bool.and_eq_true _ _).mp constant).1, evaluated⟩
      · cases found
    · cases found
  · cases found

theorem firm_code? (written : value.code? = some code) : Code.Firm code.toList := by
  cases value with
  | number x =>
    cases written
    exact Number.firm_code x
  | boolean truth =>
    cases written
    exact @firm_plainCode false (.boolean truth) rfl
  | text | list => cases written

theorem shrinks_of_foldsShort (compact : tree.isCompact modern = true) {place : Tree → String → String}
    (firm : ∀ tree code, Code.Firm code.toList → Code.Firm (place tree code).toList)
    (short : tree.foldsShort modern place = true) (found : tree.folded? modern = some value)
    (written : value.code? = some code) :
    Code.Shrinks (place value.tree code).toList (place tree (tree.plainCode modern)).toList := by
  obtain ⟨_,operation,evaluated⟩ := folded?_some found
  have numeric := isNumeric_of_operation (textless compact) operation evaluated
  rw [foldsShort,found,Option.all_some,written,Option.all_some] at short
  exact Code.shrinks_of_isNoLonger (firm _ _ (firm_code? written)) (firm _ _ (firm_plainCode modern numeric)) short

theorem foldsShort_of_none (varies : tree.folded? modern = none) (place : Tree → String → String) :
    tree.foldsShort modern place = true := by
  rw [foldsShort,varies]
  rfl

theorem folded?_of_simple (varies : (tree.isOperation && tree.isSimple) = false) : tree.folded? modern = none := by
  rw [folded?,varies]
  rfl

theorem foldsShort_self (compact : tree.isCompact modern = true) : tree.foldsShort modern (fun _ code => code) = true := by
  have node := isCompactOperation_of_node tree (isCompact_iff.mp compact).1
  cases tree with
  | arith left op right =>
    simp only [isCompactOperation,Bool.and_eq_true] at node
    exact node.1
  | compare left op right =>
    simp only [isCompactOperation,Bool.and_eq_true] at node
    exact node.1.2
  | _ => exact foldsShort_of_none (folded?_of_simple rfl) _

/-! ### Trees of the emitter -/

theorem isCompact_leaf (node : tree.isCompactNode modern = true) (alone : tree.children = []) :
    tree.isCompact modern = true :=
  isCompact_iff.mpr ⟨node, by rw [alone]; exact nofun⟩

theorem isCompact_number (x : Float) : (Tree.number x).isCompact modern = true := isCompact_leaf rfl rfl

theorem isCompact_var (name : String) : (Tree.var name).isCompact modern = true := isCompact_leaf rfl rfl

theorem isCompact_element {base index : Tree} (compactBase : base.isCompact modern = true)
    (compactIndex : index.isCompact modern = true) : (Tree.element base index).isCompact modern = true :=
  isCompact_iff.mpr ⟨rfl, by simp [compactBase,compactIndex]⟩

theorem isCompact_arith {op : Arith} (operation : (Tree.arith left op right).isCompactOperation modern = true)
    (compactLeft : left.isCompact modern = true)
    (compactRight : right.isCompact modern = true) : (Tree.arith left op right).isCompact modern = true :=
  isCompact_iff.mpr ⟨by rw [isCompactNode]; exact operation, by simp [compactLeft,compactRight]⟩

theorem isCompact_compare {op : Comparison} (operation : (Tree.compare left op right).isCompactOperation modern = true)
    (compactLeft : left.isCompact modern = true)
    (compactRight : right.isCompact modern = true) : (Tree.compare left op right).isCompact modern = true :=
  isCompact_iff.mpr ⟨by rw [isCompactNode]; exact operation, by simp [compactLeft,compactRight]⟩

theorem isCompact_next (count : String) : (Tree.arith (.var count) .add (.number 1)).isCompact modern = true := by
  refine isCompact_arith ?_ (isCompact_var count) (isCompact_number 1)
  simp [isCompactOperation,foldsShort_of_none,folded?_of_simple,isOperation,isSimple]

theorem isCompact_call {name : String} {arguments : List Tree} (plain : (Builtin.find? name).bind Builtin.expansion = none)
    (compact : ∀ argument ∈ arguments, argument.isCompact modern = true) :
    (Tree.call name arguments mark).isCompact modern = true :=
  isCompact_iff.mpr ⟨by rw [isCompactNode,plain]; rfl, compact⟩

theorem isCompact_line {statements : List Tree} (compact : ∀ statement ∈ statements, statement.isCompact modern = true) :
    (Tree.line statements).isCompact modern = true :=
  isCompact_iff.mpr ⟨rfl, compact⟩

theorem isCompact_assigned {target value : Tree} {mode : Store}
    (compact : (Tree.assign target mode value mark).isCompact modern = true) :
    (Emit.assignedValue target mode value).isCompact modern = true := by
  obtain ⟨node,below⟩ := isCompact_iff.mp compact
  have compactTarget := below target (by simp)
  have compactValue := below value (by simp)
  cases mode with
  | set => exact compactValue
  | update op => exact isCompact_arith node compactTarget compactValue

end Tree

theorem Range.lastValue_cases (range : Range) :
    range.lastValue = range.stop ∨ ∃ op, range.lastValue = .arith range.stop op (.number 1) := by
  unfold lastValue
  split
  · exact .inl rfl
  · split <;> exact .inr ⟨_, rfl⟩

/-- The trees that a range is rendered through are compact. -/
structure Range.Compact (modern : Bool) (range : Range) : Prop where
  start : range.start.isCompact modern = true
  last : range.lastValue.isCompact modern = true
  step : range.step.isCompact modern = true
  moving : (range.step.folded? modern).all (!·.tree.isOne) = true

theorem Tree.isCompact_range {modern : Bool} {tree : Tree} (compact : tree.isCompact modern = true) {range : Range}
    (isRange : tree.range? = some range) : range.Compact modern := by
  have parts {start stop step : Tree} {inclusive standalone : Bool}
      (compact : (Tree.range start stop step inclusive standalone).isCompact modern = true) :
      Range.Compact modern ⟨start, stop, step, inclusive⟩ := by
    obtain ⟨node,below⟩ := isCompact_iff.mp compact
    obtain ⟨operation,moving⟩ := (Bool.and_eq_true _ _).mp node
    have compactStop := below stop (by simp)
    refine ⟨below start (by simp), ?_, below step (by simp), moving⟩
    rcases Range.lastValue_cases ⟨start, stop, step, inclusive⟩ with same | ⟨op,same⟩
    · rwa [same]
    · rw [same] at operation ⊢
      exact isCompact_arith operation compactStop (isCompact_number 1)
  unfold range? at isRange
  split at isRange
  · cases isRange
    exact parts compact
  · cases isRange
    exact parts (isCompact_child compact (List.mem_singleton_self _))
  · cases isRange

theorem Expansion.isCompact_expand {modern : Bool} (expansion : Expansion) {arguments : List Tree} {mark : Nat}
    (operations : (expansion.expand arguments mark).everywhere (Tree.isCompactOperation modern) = true)
    (compact : ∀ argument ∈ arguments, argument.isCompact modern = true) :
    (expansion.expand arguments mark).isCompact modern = true := by
  have bound (place : Nat) (value : Float) : (arguments[place]?.getD (.number value)).isCompact modern = true := by
    cases found : arguments[place]? with
    | none => exact Tree.isCompact_number value
    | some bound => exact compact bound (List.mem_of_getElem? found)
  have segment {points : List Tree} (inside : points ⊆ arguments) :
      (Tree.callOf "draw_line" points mark).isCompact modern = true :=
    Tree.isCompact_call (by cbv) fun point member => compact point (inside member)
  have path : (pathTree arguments mark).isCompact modern = true := by
    refine Tree.isCompact_line fun statement member => ?_
    obtain ⟨points,isSegment,rfl⟩ := List.mem_map.mp member
    exact segment (segments_subset isSegment)
  cases expansion with
  | path => exact path
  | shape =>
    refine Tree.isCompact_line fun statement member => ?_
    rcases List.mem_pair.mp member with rfl | rfl
    · have expands : (Builtin.find? "draw_path".toLower).bind Builtin.expansion = some .path := by cbv
      refine Tree.isCompact_iff.mpr ⟨?_, compact⟩
      rw [Tree.callOf,Tree.isCompactNode,expands]
      exact Tree.everywhere_mono Tree.isCompactOperation_of_node path
    · refine segment fun point inside => ?_
      rcases List.mem_append.mp inside with last | first
      · exact List.mem_of_mem_drop last
      · exact List.mem_of_mem_take first
  | between =>
    obtain ⟨sum,parts⟩ := Tree.everywhere_iff.mp operations
    obtain ⟨product,factors⟩ := Tree.everywhere_iff.mp (parts _ (List.mem_pair.mpr (.inr rfl)))
    obtain ⟨difference,_⟩ := Tree.everywhere_iff.mp (factors _ (List.mem_pair.mpr (.inr rfl)))
    have random : (Tree.callOf "random" [] mark).isCompact modern = true := Tree.isCompact_call (by cbv) (by simp)
    exact Tree.isCompact_arith sum (bound 0 0) (Tree.isCompact_arith product random
      (Tree.isCompact_arith difference (bound 1 1) (bound 0 0)))
  | oneLine => exact Tree.isCompact_line compact

end CalcBasic

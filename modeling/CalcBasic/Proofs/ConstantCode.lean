import CalcBasic.Proofs.ConstantTrees
import CalcBasic.Proofs.EmitEdits
import CalcBasic.Proofs.EmittedFormula
import CalcBasic.Proofs.FoldedText

/-! The code of constant operations, and when their values take its place. -/
namespace CalcBasic

/-! ### Trees of numbers -/

namespace Tree

variable {tree : Tree}

/-- Literals of numbers and truth values, and operations on them. -/
def isNumeric : Tree → Bool
  | .number _ | .boolean _ => true
  | .arith left _ right => left.isNumeric && right.isNumeric
  | .compare left _ right => left.isNumeric && right.isNumeric
  | _ => false

/-- The code of a tree of numbers where nothing is folded. -/
def plainCode (modern : Bool) : Tree → String
  | .number value => Number.code value
  | .boolean value => if value then "1" else "0"
  | .arith left op right =>
    if op = .mod && modern then "remainder(" ++ left.plainCode modern ++ "," ++ right.plainCode modern ++ ")"
    else
      let outer := .arith (if op = .mod then .div else op)
      let a := left.operandCode modern outer false (left.plainCode modern)
      let b := right.operandCode modern outer true (right.plainCode modern)
      match op with
      | .mod => Emit.remainder a b
      | .mul => Emit.product left right a b
      | _ => a ++ op.symbol ++ b
  | .compare left op right =>
    left.operandCode modern (.compare op) false (left.plainCode modern) ++ op.sign ++
      right.operandCode modern (.compare op) true (right.plainCode modern)
  | _ => ""

/-- A comparison of two literal texts. No other operation on texts has a value. -/
def comparesTexts : Tree → Bool
  | .compare (.text _) _ (.text _) => true
  | _ => false

theorem eq_text_of_evaluate {value : String} (evaluated : tree.evaluate = .ok (some (.text value))) : tree = .text value := by
  cases tree with
  | text => cases evaluated; rfl
  | arith left op right =>
    obtain ⟨a,b,_,_,applied⟩ := evaluate_arith_some evaluated
    obtain ⟨x,y,_,_,_,same⟩ := Arith.evaluate_some applied
    cases same
  | compare left op right =>
    obtain ⟨a,b,truth,_,_,_,same⟩ := evaluate_compare_some evaluated
    cases same
  | _ => simp [evaluate] at evaluated

/-- Where texts are not compared, what counts as a number is made of numbers. -/
theorem isNumeric_of_evaluate (textless : tree.everywhere (!·.comparesTexts) = true) {value : Constant}
    (evaluated : tree.evaluate = .ok (some value)) {x : Float} (number : value.number? = some x) :
    tree.isNumeric = true := by
  fun_induction isNumeric tree generalizing value x with
  | case1 | case2 => rfl
  | case3 left op right ihLeft ihRight =>
    obtain ⟨_,below⟩ := everywhere_iff.mp textless
    obtain ⟨a,b,first,second,applied⟩ := evaluate_arith_some evaluated
    obtain ⟨_,_,numberA,numberB,_⟩ := Arith.evaluate_some applied
    rw [ihLeft (below left (by simp)) first numberA,ihRight (below right (by simp)) second numberB]
    rfl
  | case4 left op right ihLeft ihRight =>
    obtain ⟨node,below⟩ := everywhere_iff.mp textless
    obtain ⟨a,b,truth,first,second,compared,_⟩ := evaluate_compare_some evaluated
    rcases Comparison.evaluate?_some compared with ⟨_,_,numberA,numberB⟩ | ⟨_,_,rfl,rfl⟩
    · rw [ihLeft (below left (by simp)) first numberA,ihRight (below right (by simp)) second numberB]
      rfl
    · rw [eq_text_of_evaluate first,eq_text_of_evaluate second] at node
      cases node
  | case5 tree notNumber notBoolean notArith notCompare =>
    cases tree with
    | number x => exact absurd rfl (notNumber x)
    | boolean x => exact absurd rfl (notBoolean x)
    | arith left op right => exact absurd rfl (notArith left op right)
    | compare left op right => exact absurd rfl (notCompare left op right)
    | text | list => cases evaluated; cases number
    | _ => simp [evaluate] at evaluated

theorem isNumeric_of_operation (textless : tree.everywhere (!·.comparesTexts) = true) {value : Constant}
    (operation : tree.isOperation = true) (evaluated : tree.evaluate = .ok (some value)) : tree.isNumeric = true := by
  cases tree with
  | arith left op right =>
    obtain ⟨a,b,_,_,applied⟩ := evaluate_arith_some evaluated
    obtain ⟨x,y,_,_,_,rfl⟩ := Arith.evaluate_some applied
    exact isNumeric_of_evaluate textless evaluated rfl
  | compare left op right =>
    obtain ⟨a,b,truth,_,_,_,rfl⟩ := evaluate_compare_some evaluated
    exact isNumeric_of_evaluate textless evaluated rfl
  | _ => cases operation

theorem isNumeric_of_failure (textless : tree.everywhere (!·.comparesTexts) = true) {reason : FoldFailure}
    (failed : tree.evaluate = .error reason) (innermost : (tree.children.all fun child => child.evaluate.isOk) = true) :
    tree.isNumeric = true := by
  obtain ⟨left,op,right,a,b,x,y,rfl,first,second,numberA,numberB⟩ := innermost_failure failed innermost
  obtain ⟨_,below⟩ := everywhere_iff.mp textless
  rw [isNumeric,isNumeric_of_evaluate (below left (by simp)) first numberA,
    isNumeric_of_evaluate (below right (by simp)) second numberB]
  rfl

end Tree

/-! ### Characters -/

open Code in
/-- A number ends in a digit, or in the last letter of what is no number. -/
theorem Number.firm_code (x : Float) : Firm (Number.code x).toList := by
  have word (lead : List Char) (last : Char) (unmarked : ∀ c ∈ lead ++ [last], isMark c = false)
      (opens : isCloser last = false) (ordinary : last ∉ Tree.returnMarker.toList) :
      Firm (String.ofList (lead ++ [last])).toList := by
    rw [String.toList_ofList]
    exact .of_last unmarked opens ordinary
  have decimal (d : Decimal) : Firm d.text.toList := by
    have apart : ∀ c ∈ ['\n', ':', '"', '→', ')', '\x7d', ']'] ++ Tree.returnMarker.toList,
        ¬(c.isDigit = true ∨ c = '.') := by decide
    obtain ⟨nonempty,numeric⟩ := d.text_numeric
    obtain ⟨lead,last,whole⟩ := (List.eq_nil_or_concat' d.text.toList).resolve_left (by simpa using nonempty)
    have inside : last ∈ d.text.toList := by simp [whole]
    have firm := word lead last (fun c member => ?_) ?_ fun marks => apart last (by simp [marks]) (numeric last inside)
    · rwa [← whole,String.ofList_toList] at firm
    · rw [← whole] at member
      refine Bool.eq_false_iff.mpr fun mark => apart c ?_ (numeric c member)
      simp only [isMark,Bool.or_eq_true,beq_iff_eq] at mark
      rcases mark with ((rfl | rfl) | rfl) | rfl <;> simp
    · refine Bool.eq_false_iff.mpr fun closer => apart last ?_ (numeric last inside)
      simp only [isCloser,Bool.or_eq_true,beq_iff_eq] at closer
      rcases closer with (rfl | rfl) | rfl <;> simp
  have magnitude (infinite : Bool) (significand : Nat) (d : Decimal) :
      Firm (if infinite then "inf" else if significand = 0 then "0" else d.text).toList := by
    split
    · exact word ['i', 'n'] 'f' (by decide) rfl (by decide)
    · split
      · exact word [] '0' (by decide) rfl (by decide)
      · exact decimal d
  unfold code text
  split
  · exact word ['N', 'a'] 'N' (by decide) rfl (by decide)
  · dsimp only
    split
    · rw [String.toList_append]
      exact (magnitude _ _ _).lead (by decide)
    · exact magnitude _ _ _

namespace Tree
open Code

theorem product_eq {left right : Tree} (numericLeft : left.isNumeric = true) (numericRight : right.isNumeric = true)
    (a b : String) : Emit.product left right a b = a ++ "*" ++ b := by
  have ordinary {tree : Tree} (numeric : tree.isNumeric = true) (code : String) : Emit.isLetter tree code = false := by
    cases tree <;> first | rfl | cases numeric
  rw [Emit.product,ordinary numericLeft,ordinary numericRight]
  rfl

theorem firm_operandCode (modern : Bool) (outer : Operator) (right : Bool) (operand : Tree) {code : String}
    (firm : Firm code.toList) : Firm (operand.operandCode modern outer right code).toList := by
  unfold operandCode
  split
  · rw [String.toList_append,String.toList_append]
    exact (firm.lead (by decide)).close (by decide)
  · exact firm

theorem firm_plainCode (modern : Bool) {tree : Tree} (numeric : tree.isNumeric = true) :
    Firm (tree.plainCode modern).toList := by
  have join {a b : List Char} (firstFirm : Firm a) (secondFirm : Firm b) {sign : List Char}
      (unmarked : ∀ c ∈ sign, isMark c = false) : Firm (a ++ sign ++ b) :=
    secondFirm.lead fun c member => (List.mem_append.mp member).elim (firstFirm.unmarked c) (unmarked c)
  fun_induction isNumeric tree with
  | case1 x => exact Number.firm_code x
  | case2 truth =>
    have digits : (if truth then "1" else "0").toList = [] ++ [if truth then '1' else '0'] := by cases truth <;> decide
    rw [plainCode,digits]
    exact .of_last (by cases truth <;> decide) (by cases truth <;> decide) (by cases truth <;> decide)
  | case3 left op right ihLeft ihRight =>
    obtain ⟨numericLeft,numericRight⟩ := (Bool.and_eq_true _ _).mp numeric
    have firmLeft := ihLeft numericLeft
    have firmRight := ihRight numericRight
    rw [plainCode]
    split
    · simp only [String.toList_append]
      exact (join (firmLeft.lead (by decide)) firmRight (by decide)).close (by decide)
    · extract_lets outer a b
      have firmA : Firm a.toList := firm_operandCode modern _ _ _ firmLeft
      have firmB : Firm b.toList := firm_operandCode modern _ _ _ firmRight
      split
      · simp only [Emit.remainder,String.toList_append]
        exact (join (join (join (join firmB firmA (by decide)) firmB (by decide)) firmA (by decide)) firmB
          (by decide)).close (by decide)
      · rw [product_eq numericLeft numericRight,String.toList_append,String.toList_append]
        exact join firmA firmB (by decide)
      · rw [String.toList_append,String.toList_append]
        exact join firmA firmB (by cases op <;> decide)
  | case4 left op right ihLeft ihRight =>
    obtain ⟨numericLeft,numericRight⟩ := (Bool.and_eq_true _ _).mp numeric
    rw [plainCode,String.toList_append,String.toList_append]
    exact join (firm_operandCode modern _ _ _ (ihLeft numericLeft)) (firm_operandCode modern _ _ _ (ihRight numericRight))
      (by cases op <;> decide)
  | case5 => cases numeric

/-! ### Folding -/

/-- The value that takes the place of a constant operation, unless it is longer. -/
def folded? (modern : Bool) (tree : Tree) : Option Constant :=
  if tree.isOperation && tree.isSimple then
    match tree.evaluate with
    | .ok (some value) => if value.code?.any (·.length ≤ (tree.plainCode modern).length) then some value else none
    | _ => none
  else none

/-- The tree after folding. -/
def settled (modern : Bool) (tree : Tree) : Tree := ((tree.folded? modern).map Constant.tree).getD tree

end Tree

namespace Emit
open CalcBasic.Action

variable {emitter : Emitter}

theorem returns_settle_off (render : Renderer) (tree : Tree) (off : emitter.folding = false) :
    Returns (· = emitter) (settle render tree) (· = tree) := by
  unfold settle
  refine returns_bind returns_get fun state same => ?_
  rw [same,off]
  exact returns_pure rfl

theorem returns_numeric (depth : Nat) (settled : Bool) {tree : Tree} (numeric : tree.isNumeric = true)
    (off : emitter.folding = false) :
    Returns (· = emitter) (render depth settled tree) (· = tree.plainCode emitter.modern) := by
  induction depth generalizing settled tree with
  | zero => exact returns_throw _
  | succ depth lower =>
    have again {tree : Tree} (numeric : tree.isNumeric = true) :
        Returns (· = emitter) (settle (render depth) tree >>= render depth true) (· = tree.plainCode emitter.modern) := by
      refine returns_bind (returns_settle_off (render depth) tree off) fun same isSame => ?_
      rw [isSame]
      exact lower true numeric
    have operands (outer : Operator) (right : Bool) {tree : Tree} (numeric : tree.isNumeric = true) :
        Returns (· = emitter) (operand (render depth) outer right tree)
          (· = tree.operandCode emitter.modern outer right (tree.plainCode emitter.modern)) := by
      refine returns_bind (returns_settle_off (render depth) tree off) fun same isSame => ?_
      rw [isSame]
      refine returns_bind (lower true numeric) fun code isCode => ?_
      refine returns_bind returns_get fun state isState => returns_pure ?_
      rw [isState,isCode]
      rfl
    cases tree with
    | number | boolean => exact returns_pure rfl
    | arith left op right =>
      obtain ⟨numericLeft,numericRight⟩ := (Bool.and_eq_true _ _).mp numeric
      cases settled with
      | false => exact again numeric
      | true =>
        change Returns _ (arithmetic (render depth) left op right) _
        unfold arithmetic Tree.plainCode
        refine returns_bind returns_get fun state isState => ?_
        rw [isState]
        split
        · refine returns_bind (lower false numericLeft) fun a isA => returns_bind (lower false numericRight) fun b isB => ?_
          exact returns_pure (by rw [isA,isB])
        · refine returns_bind (operands _ false numericLeft) fun a isA =>
            returns_bind (operands _ true numericRight) fun b isB => returns_pure ?_
          subst isA isB
          cases op <;> rfl
    | compare left op right =>
      obtain ⟨numericLeft,numericRight⟩ := (Bool.and_eq_true _ _).mp numeric
      cases settled with
      | false => exact again numeric
      | true =>
        refine returns_bind (operands _ false numericLeft) fun a isA =>
          returns_bind (operands _ true numericRight) fun b isB => ?_
        exact returns_pure (by rw [isA,isB]; rfl)
    | _ => cases numeric

/-- The test whether a value is longer leaves no trace. -/
theorem returns_plain (depth : Nat) {tree : Tree} (numeric : tree.isNumeric = true) :
    Returns (fun state => ∃ notes, state = emitter.noting notes) (unfolded (render depth true tree))
      (· = tree.plainCode emitter.modern) := by
  rintro state code after ⟨notes,rfl⟩ done
  rw [outcome_unfolded] at done
  obtain ⟨given,reached⟩ := Prod.mk.inj done
  obtain ⟨same,still⟩ := @returns_numeric { emitter.noting notes with folding := false } depth true tree numeric rfl
    _ code _ rfl (Prod.ext given rfl)
  have restored := congrArg (fun state : Emitter => { state with folding := emitter.folding }) still
  exact ⟨same, notes, reached.symm.trans restored⟩

/-- Folding replaces a constant operation by its value, unless that is longer; it may
remark on an operation without a value. -/
theorem returns_settle_on (depth : Nat) {tree : Tree} (textless : tree.everywhere (!·.comparesTexts) = true)
    (on : emitter.folding = true) : Returns (fun state => ∃ notes, state = emitter.noting notes)
      (settle (render depth) tree) (· = tree.settled emitter.modern) := by
  unfold settle
  refine returns_bind returns_get fun state known => ?_
  obtain ⟨notes,rfl⟩ := known
  have folding : (emitter.noting notes).folding = true := on
  rw [folding,Bool.true_and]
  split
  · rename_i constant
    split
    · rename_i value evaluated
      have numeric := Tree.isNumeric_of_operation textless ((Bool.and_eq_true _ _).mp constant).1 evaluated
      refine returns_bind (returns_plain depth numeric) fun code isCode => returns_pure ?_
      rw [isCode,Tree.settled,Tree.folded?,if_pos constant,evaluated]
      dsimp only
      split <;> rfl
    · rename_i evaluated
      exact returns_pure (by rw [Tree.settled,Tree.folded?,if_pos constant,evaluated]; rfl)
    · rename_i reason failed
      have unchanged : tree = tree.settled emitter.modern := by
        rw [Tree.settled,Tree.folded?,if_pos constant,failed]
        rfl
      dsimp only
      split
      · rename_i innermost
        refine returns_bind (returns_plain depth (Tree.isNumeric_of_failure textless failed innermost)) fun code _ => ?_
        have noted : Returns (fun state => ∃ notes, state = emitter.noting notes) (remark (.unfolded code reason))
            fun _ => True := by
          rintro _ _ _ ⟨notes,rfl⟩ done
          cases done
          exact ⟨trivial, _, rfl⟩
        exact returns_bind noted fun _ _ => returns_pure unchanged
      · exact returns_pure unchanged
  · rename_i varies
    exact returns_pure (by rw [Tree.settled,Tree.folded?,if_neg varies]; rfl)

end Emit

end CalcBasic

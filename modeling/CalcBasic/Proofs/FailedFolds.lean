import CalcBasic.Proofs.ScalarCode

/-! Remarks on failed folding. It is tried at every level of an expression, and a failure shows at
all levels around it; still each one is remarked on once. -/
namespace CalcBasic

namespace Tree

variable {reason : FoldFailure}

/-- Literals, variables, elements and operations. -/
def isTermNode : Tree → Bool
  | .number _ | .boolean _ | .text _ | .list _ | .var _ | .listVar _ | .textVar _ => true
  | .element .. | .arith .. | .compare .. => true
  | _ => false

/-- Why arithmetic has no value, where both operands do not fail. -/
def failure? : Tree → Option FoldFailure
  | .arith left op right =>
    match (Tree.arith left op right).evaluate with
    | .error reason => if left.evaluate.isOk && right.evaluate.isOk then some reason else none
    | .ok _ => none
  | _ => none

/-- The failures of a tree, from the root down. -/
def failures (tree : Tree) : List FoldFailure := (tree :: tree.descendants).filterMap failure?

/-- The failures to remark on. -/
def due (folding : Bool) (tree : Tree) : List FoldFailure := if folding then tree.failures else []

def dueBelow (folding : Bool) (tree : Tree) : List FoldFailure := tree.children.flatMap (due folding)

variable {tree : Tree}

theorem failures_eq (tree : Tree) : tree.failures = tree.failure?.toList ++ tree.children.flatMap failures := by
  unfold failures
  rw [descendants_eq,← List.filterMap_flatMap]
  cases failed : tree.failure? <;> simp [failed]

theorem dueBelow_on (tree : Tree) : tree.dueBelow true = tree.children.flatMap failures := rfl

theorem due_of_none (folding : Bool) (sound : tree.failure? = none) : tree.due folding = tree.dueBelow folding := by
  cases folding with
  | false => simp [due,dueBelow]
  | true => rw [due,if_pos rfl,failures_eq,sound,dueBelow_on]; rfl

theorem due_of_some (failed : tree.failure? = some reason) : tree.due true = reason :: tree.dueBelow true := by
  rw [due,if_pos rfl,failures_eq,failed,dueBelow_on]
  rfl

theorem failure?_of_ok (valued : tree.evaluate.isOk = true) : tree.failure? = none := by
  unfold failure?
  split
  · split
    · rename_i failed
      rw [failed] at valued
      cases valued
    · rfl
  · rfl

theorem due_of_valued (folding : Bool) (valued : tree.everywhere isValued = true) : tree.due folding = [] := by
  cases folding with
  | false => rfl
  | true =>
    refine List.filterMap_eq_nil_iff.mpr fun node member => ?_
    have sound := List.all_eq_true.mp valued node member
    cases node with
    | arith => exact failure?_of_ok sound
    | _ => rfl

theorem isSimple_of_valued (valued : tree.everywhere isValued = true) : tree.isSimple = true := by
  fun_induction isSimple tree with
  | case1 | case2 | case3 | case4 => rfl
  | case5 left op right ihLeft ihRight | case6 left op right ihLeft ihRight =>
    obtain ⟨_,below⟩ := everywhere_iff.mp valued
    rw [ihLeft (below left (by simp)),ihRight (below right (by simp))]
    rfl
  | case7 => exact absurd (everywhere_iff.mp valued).1 Bool.false_ne_true
  | case8 tree =>
    have root := (everywhere_iff.mp valued).1
    rw [isValued] at root
    · cases root
    all_goals assumption

theorem failure?_of_error (failed : tree.evaluate = .error reason) :
    tree.failure? = if (tree.children.all fun child => child.evaluate.isOk) then some reason else none := by
  cases tree with
  | arith left op right =>
    rw [failure?,failed]
    simp
  | compare left op right =>
    rw [if_neg]
    · rfl
    · intro innermost
      obtain ⟨_,_,_,_,_,_,_,same,_⟩ := innermost_failure failed innermost
      cases same
  | _ => simp [evaluate] at failed

theorem isSimple_of_failure? (failed : tree.failure? = some reason) : (tree.isOperation && tree.isSimple) = true := by
  rcases evaluated : tree.evaluate with _ | value
  · rw [failure?_of_error evaluated] at failed
    split at failed
    · rename_i innermost
      obtain ⟨left,op,right,a,b,x,y,rfl,first,second,numberA,numberB⟩ := innermost_failure evaluated innermost
      have valuedLeft := valued_of_evaluate first (Constant.single_of_number? numberA)
      have valuedRight := valued_of_evaluate second (Constant.single_of_number? numberB)
      rw [isSimple,isSimple_of_valued valuedLeft,isSimple_of_valued valuedRight]
      rfl
    · cases failed
  · rw [failure?_of_ok (by rw [evaluated]; rfl)] at failed
    cases failed

theorem dueBelow_pair {left right : Tree} (two : tree.children = [left, right]) (folding : Bool) :
    tree.dueBelow folding = left.due folding ++ right.due folding := by
  rw [dueBelow,two,List.flatMap_cons,List.flatMap_singleton]

theorem dueBelow_off (tree : Tree) : tree.dueBelow false = [] := by simp [dueBelow,due]

theorem single_term {value : Constant} (single : ∀ items, value ≠ .list items) (folding : Bool) :
    value.tree.everywhere isTermNode = true ∧ value.tree.dueBelow folding = [] := by
  cases value with
  | list items => exact absurd rfl (single items)
  | _ => exact ⟨everywhere_iff.mpr ⟨rfl, by simp [Constant.tree]⟩, rfl⟩

end Tree

namespace Emit
open CalcBasic.Action

/-! ### Runs and the remarks they make -/

def IsReport (reason : FoldFailure) (note : Diagnostic) : Prop := ∃ text, note = ⟨.unfolded text reason, none⟩

/-- A run of the action reports failures from the front of those due. If it succeeds, the result
and the failures left over are so. -/
def Reports (folding : Bool) (due : List FoldFailure) {α : Type} (action : Emit α)
    (ends : α → List FoldFailure → Prop) : Prop :=
  ∀ emitter, emitter.folding = folding → ∃ reasons rest told, due = reasons ++ rest ∧ List.Forall₂ IsReport reasons told ∧
    (outcome action emitter).2.symbols.diagnostics = emitter.symbols.diagnostics ++ told ∧
    (outcome action emitter).2.folding = folding ∧ ∀ value, (outcome action emitter).1 = .ok value → ends value rest

section Rules

variable {α β : Type} {folding : Bool} {due : List FoldFailure} {ends : α → List FoldFailure → Prop}

theorem reports_pure {value : α} (known : ends value due) : Reports folding due (pure value) ends := by
  intro emitter flag
  refine ⟨[], due, [], rfl, .nil, (List.append_nil _).symm, flag, ?_⟩
  rintro _ ⟨⟩
  exact known

theorem reports_fail (fault : Fault) (line : Option Nat) : Reports folding due (fail fault line : Emit α) ends :=
  fun emitter flag => ⟨[], due, [], rfl, .nil, (List.append_nil _).symm, flag, fun _ done => by cases done⟩

theorem reports_bind {first : Emit α} {next : α → Emit β} {then' : β → List FoldFailure → Prop}
    (start : Reports folding due first ends)
    (continued : ∀ value rest, ends value rest → Reports folding rest (next value) then') :
    Reports folding due (first >>= next) then' := by
  intro emitter flag
  obtain ⟨reasons,rest,told,rfl,reported,noted,flagged,ended⟩ := start emitter flag
  rw [outcome_bind]
  rcases reached : outcome first emitter with ⟨_ | value,middle⟩ <;> rw [reached] at noted flagged ended
  · exact ⟨reasons, rest, told, rfl, reported, noted, flagged, fun _ done => by cases done⟩
  · obtain ⟨others,left,more,rfl,reportedMore,notedMore,flaggedMore,endedMore⟩ :=
      continued value rest (ended value rfl) middle flagged
    refine ⟨reasons ++ others, left, told ++ more, (List.append_assoc ..).symm, List.rel_append reported reportedMore, ?_,
      flaggedMore, endedMore⟩
    rw [notedMore,noted,List.append_assoc]

theorem reports_get : Reports folding due get fun emitter rest => emitter.folding = folding ∧ rest = due := by
  intro emitter flag
  refine ⟨[], due, [], rfl, .nil, (List.append_nil _).symm, flag, ?_⟩
  rintro _ ⟨⟩
  exact ⟨flag, rfl⟩

theorem reports_query {ask : Symbols → α × Symbols}
    (silent : ∀ symbols, (ask symbols).2.diagnostics = symbols.diagnostics) :
    Reports folding due (query ask) fun _ rest => rest = due :=
  fun emitter flag => ⟨[], due, [], rfl, .nil, (silent emitter.symbols).trans (List.append_nil _).symm, flag, fun _ _ => rfl⟩

theorem reports_remark (text : String) (reason : FoldFailure) :
    Reports folding (reason :: due) (remark (.unfolded text reason)) fun _ rest => rest = due :=
  fun _ flag => ⟨[reason], due, [⟨.unfolded text reason, none⟩], rfl, .cons ⟨text, rfl⟩ .nil, rfl, flag, fun _ _ => rfl⟩

theorem reports_unfolded {action : Emit α} (inner : Reports false [] action fun _ rest => rest = []) :
    Reports folding due (unfolded action) fun _ rest => rest = due := by
  intro emitter flag
  obtain ⟨reasons,rest,told,nothing,reported,noted,_,_⟩ := inner { emitter with folding := false } rfl
  obtain ⟨rfl,rfl⟩ := List.nil_eq_append_iff.mp nothing
  cases reported
  rw [outcome_unfolded]
  exact ⟨[], due, [], rfl, .nil, noted, flag, fun _ _ => rfl⟩

theorem Reports.before {action : Emit α} (inner : Reports folding due action fun _ rest => rest = []) (more : List FoldFailure) :
    Reports folding (due ++ more) action fun _ rest => rest = more := by
  intro emitter flag
  obtain ⟨reasons,rest,told,rfl,reported,noted,flagged,ended⟩ := inner emitter flag
  refine ⟨reasons, rest ++ more, told, List.append_assoc .., reported, noted, flagged, fun value done => ?_⟩
  rw [ended value done]
  rfl

theorem reports_mapM {step : α → Emit β} {each : α → List FoldFailure} (items : List α)
    (steps : ∀ item ∈ items, Reports folding (each item) (step item) fun _ rest => rest = []) :
    Reports folding (items.flatMap each) (items.mapM step) fun _ rest => rest = [] := by
  induction items with
  | nil => exact reports_pure rfl
  | cons item items ih =>
    rw [List.mapM_cons,List.flatMap_cons]
    refine reports_bind ((steps item List.mem_cons_self).before _) fun _ rest known => ?_
    rw [known]
    refine reports_bind (ih fun other member => steps other (List.mem_cons_of_mem _ member)) fun _ _ known => reports_pure known

end Rules

/-! ### Names -/

section Names

variable {folding : Bool}

theorem reports_listCode (name : String) : Reports folding [] (listCode name) fun _ rest => rest = [] :=
  reports_bind (reports_query fun _ => rfl) fun _ _ known => reports_pure known

theorem reports_textCode (name : String) : Reports folding [] (textCode name) fun _ rest => rest = [] := by
  have silent (symbols : Symbols) : (symbols.textName name).2.diagnostics = symbols.diagnostics := by
    unfold Symbols.textName
    dsimp only
    split <;> rfl
  unfold textCode
  refine reports_bind (reports_query silent) fun answer rest known => ?_
  split
  · exact reports_pure known
  · exact reports_fail _ _

theorem reports_variableCode (name : String) : Reports folding [] (variableCode name) fun _ rest => rest = [] := by
  have scalar : Reports folding [] (scalarCode name) fun _ rest => rest = [] := by
    unfold scalarCode
    refine reports_bind (reports_query fun _ => rfl) fun slot rest known => ?_
    rw [known]
    split
    · exact reports_pure rfl
    · exact reports_bind (reports_listCode overflowList) fun _ _ known => reports_pure known
  unfold variableCode
  refine reports_bind reports_get fun emitter rest known => ?_
  rw [known.2]
  split
  · exact reports_listCode name
  · exact reports_textCode name
  · exact scalar
  · exact scalar

end Names

/-! ### Expressions -/

section Expressions

/-- The renderer reports what is due, in terms. -/
def ReportsTerms (render : Renderer) : Prop := ∀ folding settled tree, tree.everywhere Tree.isTermNode = true →
  Reports folding (if settled then tree.dueBelow folding else tree.due folding) (render settled tree) fun _ rest => rest = []

variable {render : Renderer} (rendered : ReportsTerms render) {folding : Bool}
include rendered

theorem reports_settle {tree : Tree} (term : tree.everywhere Tree.isTermNode = true) :
    Reports folding (tree.due folding) (settle render tree) fun settled rest =>
      settled.everywhere Tree.isTermNode = true ∧ rest = settled.dueBelow folding := by
  -- with folding off no failure is due
  have quiet : Reports false [] (render true tree) fun _ rest => rest = [] := by
    have plain := rendered false true tree term
    rwa [if_pos rfl,tree.dueBelow_off] at plain
  unfold settle
  refine reports_bind reports_get fun emitter rest known => ?_
  obtain ⟨flag,rfl⟩ := known
  rw [flag]
  cases folding with
  | false => exact reports_pure ⟨term, tree.dueBelow_off.symm⟩
  | true =>
    rw [Bool.true_and]
    split
    · rename_i constant
      split
      · rename_i value evaluated
        have single := single_of_operation ((Bool.and_eq_true _ _).mp constant).1 evaluated
        have nothing : tree.due true = [] := Tree.due_of_valued true (Tree.valued_of_evaluate evaluated single)
        have below := Tree.due_of_none true (Tree.failure?_of_ok (show tree.evaluate.isOk = true by rw [evaluated]; rfl))
        refine reports_bind (reports_unfolded quiet) fun code rest known => reports_pure ?_
        rw [known,nothing]
        split
        · exact ⟨(Tree.single_term single true).1, (Tree.single_term single true).2.symm⟩
        · exact ⟨term, nothing.symm.trans below⟩
      · rename_i evaluated
        exact reports_pure ⟨term, Tree.due_of_none true (Tree.failure?_of_ok (by rw [evaluated]; rfl))⟩
      · rename_i reason failed
        have own := Tree.failure?_of_error failed
        dsimp only
        split
        · rename_i innermost
          rw [innermost] at own
          rw [Tree.due_of_some own]
          refine reports_bind (reports_unfolded quiet) fun code rest known => ?_
          rw [known]
          exact reports_bind (reports_remark code reason) fun _ _ known => reports_pure ⟨term, known⟩
        · rename_i outer
          rw [if_neg outer] at own
          exact reports_pure ⟨term, Tree.due_of_none true own⟩
    · rename_i varies
      refine reports_pure ⟨term, Tree.due_of_none true ?_⟩
      cases failed : tree.failure? with
      | none => rfl
      | some reason => exact absurd (Tree.isSimple_of_failure? failed) varies

theorem reports_operand {tree : Tree} (term : tree.everywhere Tree.isTermNode = true) (outer : Operator) (right : Bool) :
    Reports folding (tree.due folding) (operand render outer right tree) fun _ rest => rest = [] := by
  refine reports_bind (reports_settle rendered term) fun settled rest known => ?_
  rw [known.2]
  refine reports_bind (rendered folding true settled known.1) fun _ rest known => ?_
  rw [known]
  exact reports_bind reports_get fun _ _ known => reports_pure known.2

omit rendered in
theorem reports_pair {first second : Emit String} {due other : List FoldFailure} (start : Reports folding due first fun _ rest => rest = [])
    (next : Reports folding other second fun _ rest => rest = []) (make : String → String → String) :
    Reports folding (due ++ other) (first >>= fun a => second >>= fun b => pure (make a b)) fun _ rest => rest = [] := by
  refine reports_bind (start.before _) fun _ rest known => ?_
  rw [known]
  exact reports_bind next fun _ _ known => reports_pure known

theorem reports_arithmetic {left right : Tree} (termLeft : left.everywhere Tree.isTermNode = true)
    (termRight : right.everywhere Tree.isTermNode = true) (op : Arith) :
    Reports folding (left.due folding ++ right.due folding) (arithmetic render left op right) fun _ rest => rest = [] := by
  unfold arithmetic
  refine reports_bind reports_get fun emitter rest known => ?_
  rw [known.2]
  split
  · exact reports_pair (rendered folding false left termLeft) (rendered folding false right termRight) _
  · exact reports_pair (reports_operand rendered termLeft _ _) (reports_operand rendered termRight _ _) _

theorem reports_listLiteral {items : List Tree} (terms : ∀ item ∈ items, item.everywhere Tree.isTermNode = true) :
    Reports folding (items.flatMap (Tree.due folding)) (listLiteral render items) fun _ rest => rest = [] := by
  unfold listLiteral
  split
  · exact absurd (Tree.everywhere_iff.mp (terms _ List.mem_cons_self)).1 Bool.false_ne_true
  · refine reports_bind (reports_mapM items fun item member => ?_) fun _ _ known => reports_pure known
    unfold listItem
    split
    · exact absurd (Tree.everywhere_iff.mp (terms _ member)).1 Bool.false_ne_true
    · exact rendered folding false item (terms item member)

theorem reports_construct : ReportsTerms (construct render) := by
  intro folding settled tree term
  obtain ⟨node,below⟩ := Tree.everywhere_iff.mp term
  have again : Reports folding (tree.due folding) (settle render tree >>= render true) fun _ rest => rest = [] := by
    refine reports_bind (reports_settle rendered term) fun other rest known => ?_
    rw [known.2]
    exact rendered folding true other known.1
  -- only operations have a failure of their own, so settling makes no difference to other trees
  have leaf (plain : tree.failure? = none) :
      (if settled then tree.dueBelow folding else tree.due folding) = tree.dueBelow folding := by
    rw [Tree.due_of_none folding plain,ite_self]
  cases tree with
  | number | boolean | text =>
    rw [leaf rfl]
    exact reports_pure rfl
  | var name =>
    rw [leaf rfl]
    exact reports_variableCode name
  | listVar name =>
    rw [leaf rfl]
    exact reports_listCode name
  | textVar name =>
    rw [leaf rfl]
    exact reports_textCode name
  | list items =>
    rw [leaf rfl]
    exact reports_listLiteral rendered below
  | element base index =>
    rw [leaf rfl,Tree.dueBelow_pair rfl]
    exact reports_pair (rendered folding false base (below base (by simp)))
      (rendered folding false index (below index (by simp))) _
  | arith left op right =>
    cases settled with
    | false => exact again
    | true =>
      rw [if_pos rfl,Tree.dueBelow_pair rfl]
      exact reports_arithmetic rendered (below left (by simp)) (below right (by simp)) op
  | compare left op right =>
    cases settled with
    | false => exact again
    | true =>
      rw [if_pos rfl,Tree.dueBelow_pair rfl]
      exact reports_pair (reports_operand rendered (below left (by simp)) _ _)
        (reports_operand rendered (below right (by simp)) _ _) _
  | _ => cases node

end Expressions

theorem reports_render (depth : Nat) : ReportsTerms (render depth) := by
  induction depth with
  | zero => exact fun _ _ _ _ => reports_fail _ _
  | succ depth ih => exact reports_construct ih

end Emit

open Emit CalcBasic.Action in
theorem failed_folds_reported_once (emitter : Emitter) (tree : Tree) (term : tree.everywhere Tree.isTermNode = true) :
    (emitter.folding = true → ∀ code after, outcome (Emit.code tree) emitter = (.ok code, after) →
      ∃ told, after.symbols.diagnostics = emitter.symbols.diagnostics ++ told ∧ List.Forall₂ IsReport tree.failures told ∧
        told.length = (tree :: tree.descendants).countP (·.failure?.isSome)) ∧
    (emitter.folding = false → (outcome (Emit.code tree) emitter).2.symbols.diagnostics = emitter.symbols.diagnostics) := by
  obtain ⟨reasons,rest,told,due,reported,noted,_,ended⟩ :=
    reports_render (emitter.depth tree) emitter.folding false tree term emitter rfl
  constructor
  · intro on code after done
    have ran : outcome (render (emitter.depth tree) false tree) emitter = (.ok code, after) := done
    rw [ran] at noted ended
    have all : tree.failures = reasons := by
      rw [on,ended code rfl,List.append_nil] at due
      exact due
    refine ⟨told, noted, all ▸ reported, ?_⟩
    rw [← reported.length_eq,← all,Tree.failures,List.length_filterMap_eq_countP]
  · intro off
    rw [off] at due
    obtain ⟨rfl,rfl⟩ := List.nil_eq_append_iff.mp due
    cases reported
    exact noted.trans (List.append_nil _)

open Emit CalcBasic.Action in
theorem failed_folds_reported_once_quotient :
    let emitter : Emitter := { symbols := {}, modern := true, folding := true, program := "QUOT" }
    let quotient := Tree.arith (.arith (.number 1) .div (.number 0)) .add (.number 2)
    let list := Tree.list [.arith (.number 3) .mod (.number 0), .var "x"]
    let tree := Tree.compare (.arith quotient .mul (.var "x")) .lt (.element list (.arith (.number 4) .sub (.number 3)))
    tree.everywhere Tree.isTermNode = true ∧ ∃ code after, outcome (Emit.code tree) emitter = (.ok code, after) ∧
      after.symbols.diagnostics.length = 2 ∧ List.Forall₂ IsReport [.notFinite .div, .notFinite .mod] after.symbols.diagnostics := by
  intro emitter quotient list tree
  have term : tree.everywhere Tree.isTermNode = true := by decide +kernel
  have succeeds : (outcome (Emit.code tree) emitter).1.isOk = true := by decide +kernel
  have due : tree.failures = [.notFinite .div, .notFinite .mod] := by decide +kernel
  rcases done : outcome (Emit.code tree) emitter with ⟨_ | code,after⟩ <;> rw [done] at succeeds
  · cases succeeds
  obtain ⟨told,noted,reported,_⟩ := (failed_folds_reported_once emitter tree term).1 rfl code after done
  have all : after.symbols.diagnostics = told := noted
  rw [due] at reported
  exact ⟨term, code, after, rfl, by rw [all,← reported.length_eq]; rfl, by rwa [all]⟩

end CalcBasic

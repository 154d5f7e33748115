import CalcBasic.Proofs.ConstantTrees
import CalcBasic.Proofs.EmittedFormula
import CalcBasic.Proofs.Storage

/-! Emitting the code of scalar operations: it never fails, and its text is told by
the homes that the variables have at the end. -/
namespace CalcBasic

def Symbols.home (symbols : Symbols) (name : String) : Slot := (symbols.slot name).1

theorem Symbols.home_mem {symbols : Symbols} {name : String} {letter : Char}
    (housed : symbols.home name = .letter letter) : letter ∈ alphabet := by
  unfold Symbols.home Symbols.slot Slot.ofRank at housed
  dsimp only at housed
  split at housed
  · rename_i found
    rw [← Slot.letter.inj housed]
    exact List.mem_of_getElem? found
  · cases housed

theorem foldl_max_le {ranks : List Nat} {start bound : Nat} :
    ranks.foldl max start ≤ bound ↔ start ≤ bound ∧ ∀ rank ∈ ranks, rank ≤ bound := by
  induction ranks generalizing start with
  | nil => simp
  | cons rank rest ih => simp [ih,and_assoc]

namespace Emit
open CalcBasic.Action Symbols

variable {emitter after : Emitter} {tree left right : Tree}

/-- What emitting scalar operations leaves as it is. -/
structure Settling (before after : Emitter) : Prop where
  entries : after.symbols.entries = before.symbols.entries
  grows : Grows before.symbols after.symbols
  modern : after.modern = before.modern
  folding : after.folding = before.folding

theorem Settling.refl (emitter : Emitter) : Settling emitter emitter :=
  ⟨rfl, .refl emitter.symbols, rfl, rfl⟩

theorem Settling.trans {before middle : Emitter} (first : Settling before middle)
    (second : Settling middle after) : Settling before after :=
  ⟨second.entries.trans first.entries, first.grows.trans second.grows, second.modern.trans first.modern,
    second.folding.trans first.folding⟩

/-- The action succeeds, with a text that is this code for the homes of any time
after it. -/
def Settles (emitter : Emitter) (action : Emit String) (code : (String → Slot) → String) : Prop :=
  ∃ text after, outcome action emitter = (.ok text,after) ∧ Settling emitter after ∧
    ∀ later, Grows after.symbols later → text = code later.home

theorem settles_pure (emitter : Emitter) (text : String) : Settles emitter (pure text) fun _ => text :=
  ⟨text, emitter, rfl, .refl emitter, fun _ _ => rfl⟩

theorem Settles.pair {emitter : Emitter} {first second : Emit String} {code other : (String → Slot) → String}
    (settles : Settles emitter first code) (next : ∀ after, Settling emitter after → Settles after second other)
    (make : String → String → String) :
    Settles emitter (first >>= fun a => second >>= fun b => pure (make a b))
      fun home => make (code home) (other home) := by
  obtain ⟨text,middle,done,settling,written⟩ := settles
  obtain ⟨more,after,doneNext,settlingNext,writtenNext⟩ := next middle settling
  refine ⟨make text more, after, ?_, settling.trans settlingNext, fun later grown => ?_⟩
  · rw [outcome_bind_ok done,outcome_bind_ok doneNext]
    rfl
  · rw [written later (settlingNext.grows.trans grown),writtenNext later grown]

/-! ### Variables -/

theorem type_of_entries {before after : Symbols} (same : after.entries = before.entries) (name : String) :
    after.type name = before.type name := by
  simp only [Symbols.type,Symbols.entry?,same]

theorem isScalar_of_entries {before after : Symbols} (same : after.entries = before.entries) (tree : Tree) :
    tree.isScalar after = tree.isScalar before := by
  induction tree using Tree.isScalar.induct with
  | case1 value => rfl
  | case2 name => simp only [Tree.isScalar,type_of_entries same]
  | case3 left op right ihLeft ihRight => simp only [Tree.isScalar,ihLeft,ihRight]
  | case4 left op right ihLeft ihRight => simp only [Tree.isScalar,ihLeft,ihRight]
  | case5 tree notNumber notVar notArith notCompare =>
    rw [Tree.isScalar,Tree.isScalar] <;> assumption

theorem listName_overflow {symbols : Symbols} (first : [overflowList] <+: symbols.lists) :
    (symbols.listName overflowList).1 = "ARR0" := by
  have upper : Text.upper overflowList = overflowList := by cbv
  have member : overflowList ∈ symbols.lists := first.mem (List.mem_singleton_self _)
  have place : symbols.lists.idxOf overflowList = 0 := by
    rw [← first.idxOf_eq_of_mem (List.mem_singleton_self _),List.idxOf_cons_self]
  have name : "ARR" ++ Number.base36 0 = "ARR0" := by cbv
  unfold Symbols.listName
  rw [upper,Numbering.number_of_mem member,place]
  exact name

theorem settles_scalarCode (first : [overflowList] <+: emitter.symbols.lists)
    (name : String) : Settles emitter (scalarCode name) fun home => (home name).code := by
  have queried : outcome (query (·.slot name)) emitter =
      (.ok (emitter.symbols.home name),{ emitter with symbols := (emitter.symbols.slot name).2 }) := rfl
  have settled : Settling emitter { emitter with symbols := (emitter.symbols.slot name).2 } :=
    ⟨rfl, (slot_extends _ name).grows, rfl, rfl⟩
  have kept {later : Symbols} (grown : Grows (emitter.symbols.slot name).2 later) :
      later.home name = emitter.symbols.home name := (slot_later grown name).mpr rfl
  unfold scalarCode Settles
  rw [outcome_bind_ok queried]
  cases housed : emitter.symbols.home name with
  | letter letter =>
    refine ⟨letter.toString, _, rfl, settled, fun later grown => ?_⟩
    dsimp only
    rw [kept grown,housed]
    rfl
  | overflow index =>
    have listed := (listName_extends (emitter.symbols.slot name).2 overflowList).grows
    refine ⟨"∟" ++ ((emitter.symbols.slot name).2.listName overflowList).1 ++ "(" ++ toString index ++ ")", _,
      rfl, settled.trans ⟨rfl, listed, rfl, rfl⟩, fun later grown => ?_⟩
    dsimp only
    rw [kept (listed.trans grown),housed,listName_overflow (first.trans settled.grows.lists)]
    rfl

theorem settles_variableCode (first : [overflowList] <+: emitter.symbols.lists) {name : String}
    (scalar : (Tree.var name).isScalar emitter.symbols = true) :
    Settles emitter (variableCode name) fun home => (home name).code := by
  have asked : outcome (get : Emit Emitter) emitter = (.ok emitter,emitter) := rfl
  rw [Tree.isScalar,Bool.or_eq_true,beq_iff_eq,beq_iff_eq] at scalar
  unfold variableCode Settles
  rw [outcome_bind_ok asked]
  rcases scalar with number | boolean
  · rw [number]
    exact settles_scalarCode first name
  · rw [boolean]
    exact settles_scalarCode first name

/-! ### Operations -/

theorem outcome_settle (unfolding : emitter.folding = false) (render : Renderer) (tree : Tree) :
    outcome (settle render tree) emitter = (.ok tree,emitter) := by
  have asked : outcome (get : Emit Emitter) emitter = (.ok emitter,emitter) := rfl
  unfold settle
  rw [outcome_bind_ok asked,unfolding]
  rfl

theorem settle_of_plain {render : Renderer} (plain : (tree.isOperation && tree.isSimple) = false) :
    settle render tree = pure tree := by
  unfold settle
  simp only [Bool.and_assoc,plain,Bool.and_false,Bool.false_eq_true,if_false]
  rfl

/-- Folding leaves a tree as it is, or puts its value in the place of a constant operation whose
code is no shorter. -/
theorem settle_cases {render : Renderer} {settled : Tree}
    (done : outcome (settle render tree) emitter = (.ok settled, after)) : settled = tree ∨
      tree.isOperation = true ∧ tree.isSimple = true ∧ ∃ value code plain, tree.evaluate = .ok (some value) ∧
        value.code? = some code ∧ settled = value.tree ∧
        outcome (unfolded (render true tree)) emitter = (.ok plain, after) ∧ code.length ≤ plain.length := by
  unfold settle at done
  obtain ⟨_,_,asked,done⟩ := outcome_bind_eq_ok done
  cases asked
  split at done
  · rename_i constant
    simp only [Bool.and_eq_true] at constant
    split at done
    · rename_i value evaluated
      obtain ⟨plain,_,rendered,done⟩ := outcome_bind_eq_ok done
      cases done
      split
      · rename_i shorter
        obtain ⟨code,written,fits⟩ := (Option.any_eq_true _ _).mp shorter
        exact .inr ⟨constant.1.2, constant.2, value, code, plain, evaluated, written, rfl, rendered, of_decide_eq_true fits⟩
      · exact .inl rfl
    · cases done
      exact .inl rfl
    · dsimp only at done
      split at done
      · obtain ⟨_,_,_,done⟩ := outcome_bind_eq_ok done
        obtain ⟨_,_,_,done⟩ := outcome_bind_eq_ok done
        cases done
        exact .inl rfl
      · cases done
        exact .inl rfl
  · cases done
    exact .inl rfl

theorem returns_settle_cases (render : Renderer) (tree : Tree) :
    Returns (fun _ => True) (settle render tree) fun settled => settled = tree ∨
      tree.isOperation = true ∧ tree.isSimple = true ∧
        ∃ value code, tree.evaluate = .ok (some value) ∧ value.code? = some code ∧ settled = value.tree := by
  intro emitter settled after _ done
  refine ⟨(settle_cases done).imp_right ?_, trivial⟩
  rintro ⟨operation,simple,value,code,_,evaluated,written,same,_⟩
  exact ⟨operation, simple, value, code, evaluated, written, same⟩

theorem single_of_operation {value : Constant} (operation : tree.isOperation = true)
    (evaluated : tree.evaluate = .ok (some value)) (items : List Tree) : value ≠ .list items := by
  rintro rfl
  cases tree with
  | arith left op right =>
    obtain ⟨_,_,_,_,applied⟩ := Tree.evaluate_arith_some evaluated
    obtain ⟨_,_,_,_,_,same⟩ := Arith.evaluate_some applied
    cases same
  | compare left op right =>
    obtain ⟨_,_,_,_,_,_,same⟩ := Tree.evaluate_compare_some evaluated
    cases same
  | _ => cases operation

theorem evaluate_settle {render : Renderer} {settled : Tree}
    (done : outcome (settle render tree) emitter = (.ok settled, after)) : settled.evaluate = tree.evaluate := by
  rcases (returns_settle_cases render tree emitter settled after trivial done).1 with rfl | ⟨_,_,value,_,evaluated,_,rfl⟩
  · rfl
  · rw [evaluated,value.evaluate_tree]

theorem settles_operand (unfolding : emitter.folding = false) {render : Renderer} {code : (String → Slot) → String}
    (settles : Settles emitter (render true tree) code) (outer : Operator)
    (right : Bool) : Settles emitter (operand render outer right tree)
      fun home => tree.operandCode emitter.modern outer right (code home) := by
  obtain ⟨text,after,done,settling,written⟩ := settles
  refine ⟨tree.operandCode emitter.modern outer right text, after, ?_, settling, fun later grown => ?_⟩
  · unfold operand
    rw [outcome_bind_ok (outcome_settle unfolding render tree),outcome_bind_ok done]
    change (Except.ok (if tree.isWrapped after.modern outer right then "(" ++ text ++ ")" else text),after) = _
    rw [settling.modern]
    rfl
  · rw [written later grown]

/-- Both operands are settled by the renderer, in this state and in those that
settling leads to. -/
structure Operands (emitter : Emitter) (render : Renderer) (settled : Bool) (left right : Tree) : Prop where
  left : Settles emitter (render settled left) (left.settledCode emitter.modern)
  right : ∀ after, Settling emitter after →
    Settles after (render settled right) (right.settledCode emitter.modern)

theorem settles_operands (unfolding : emitter.folding = false) {render : Renderer}
    (operands : Operands emitter render true left right) (outer : Operator) (make : String → String → String) :
    Settles emitter (operand render outer false left >>= fun a => operand render outer true right >>= fun b =>
      pure (make a b)) fun home =>
        make (left.operandCode emitter.modern outer false (left.settledCode emitter.modern home))
          (right.operandCode emitter.modern outer true (right.settledCode emitter.modern home)) := by
  refine (settles_operand unfolding operands.left outer false).pair (fun after settling => ?_) make
  have next := settles_operand (settling.folding.trans unfolding) (operands.right after settling) outer true
  rwa [settling.modern] at next

theorem settles_arithmetic (unfolding : emitter.folding = false) {render : Renderer}
    (operands : ∀ settled, Operands emitter render settled left right) (op : Arith) :
    Settles emitter (arithmetic render left op right) ((Tree.arith left op right).settledCode emitter.modern) := by
  have asked : outcome (get : Emit Emitter) emitter = (.ok emitter,emitter) := rfl
  unfold arithmetic Settles
  rw [outcome_bind_ok asked]
  obtain ⟨symbols,modern,folding,program,inlining⟩ := emitter
  cases op with
  | add => exact settles_operands unfolding (operands true) (.arith .add) fun a b => a ++ "+" ++ b
  | sub => exact settles_operands unfolding (operands true) (.arith .sub) fun a b => a ++ "-" ++ b
  | mul => exact settles_operands unfolding (operands true) (.arith .mul) (product left right)
  | div => exact settles_operands unfolding (operands true) (.arith .div) fun a b => a ++ "/" ++ b
  | pow => exact settles_operands unfolding (operands true) (.arith .pow) fun a b => a ++ "^" ++ b
  | mod =>
    cases modern with
    | true =>
      exact (operands false).left.pair (operands false).right fun a b => "remainder(" ++ a ++ "," ++ b ++ ")"
    | false => exact settles_operands unfolding (operands true) (.arith .div) remainder

theorem settles_comparison (unfolding : emitter.folding = false) {render : Renderer}
    (operands : Operands emitter render true left right) (op : Comparison) :
    Settles emitter (comparison render left op right) ((Tree.compare left op right).settledCode emitter.modern) :=
  settles_operands unfolding operands (.compare op) fun a b => a ++ op.sign ++ b

/-! ### Depth -/

theorem rank_pos (tree : Tree) : 0 < tree.rank := by
  rw [Tree.rank]
  have weighted : 0 < tree.weight := by fun_cases Tree.weight tree <;> decide
  omega

theorem rank_arith (left right : Tree) (op : Arith) :
    (Tree.arith left op right).rank = 1 + max left.rank right.rank := by
  rw [Tree.rank]
  simp [Tree.weight]

theorem rank_compare (left right : Tree) (op : Comparison) :
    (Tree.compare left op right).rank = 1 + max left.rank right.rank := by
  rw [Tree.rank]
  simp [Tree.weight]

theorem rank_le_depth (emitter : Emitter) (tree : Tree) : 2 * tree.rank ≤ emitter.depth tree := by
  unfold Emitter.depth
  extract_lets users highest
  have reached : tree.rank ≤ highest := (foldl_max_le.mp (Nat.le_refl _)).1
  calc 2 * tree.rank ≤ 1 * (2 * highest + 2) := by omega
    _ ≤ (users.length + 1) * (2 * highest + 2) := Nat.mul_le_mul_right _ (Nat.le_add_left 1 _)

/-- Every operation takes two levels at most: one on which its root is folded, and
one on which it is rendered. -/
theorem settles_render (depth : Nat) (settled : Bool) (unfolding : emitter.folding = false)
    (first : [overflowList] <+: emitter.symbols.lists) (scalar : tree.isScalar emitter.symbols = true)
    (deep : 2 * tree.rank ≤ depth + if settled then 1 else 0) :
    Settles emitter (render depth settled tree) (tree.settledCode emitter.modern) := by
  -- an operation takes two levels, one to settle it and one to render its operands
  induction depth generalizing settled tree emitter with
  | zero =>
    have positive := rank_pos tree
    split at deep <;> omega
  | succ depth lower =>
    have operation {left right : Tree} (scalars : (left.isScalar emitter.symbols && right.isScalar emitter.symbols) = true)
        (shallow : 2 * max left.rank right.rank ≤ depth) (flag : Bool) :
        Operands emitter (render depth) flag left right := by
      obtain ⟨scalarLeft,scalarRight⟩ := (Bool.and_eq_true _ _).mp scalars
      constructor
      · exact lower flag unfolding first scalarLeft (by split <;> omega)
      · intro after settling
        rw [← settling.modern]
        refine lower flag (settling.folding.trans unfolding) (first.trans settling.grows.lists) ?_ (by split <;> omega)
        rw [isScalar_of_entries settling.entries]
        exact scalarRight
    have again {tree : Tree} (scalars : tree.isScalar emitter.symbols = true)
        (shallow : 2 * tree.rank ≤ depth + 1) :
        Settles emitter (settle (render depth) tree >>= render depth true)
          (tree.settledCode emitter.modern) := by
      unfold Settles
      rw [outcome_bind_ok (outcome_settle unfolding _ tree)]
      exact lower true unfolding first scalars (by simpa using shallow)
    cases tree with
    | number value => exact settles_pure emitter _
    | var name => exact settles_variableCode first scalar
    | arith left op right =>
      rw [rank_arith] at deep
      cases settled with
      | true => exact settles_arithmetic unfolding (operation scalar (by simp at deep; omega)) op
      | false => exact again scalar (by rw [rank_arith]; simp at deep; omega)
    | compare left op right =>
      rw [rank_compare] at deep
      cases settled with
      | true => exact settles_comparison unfolding (operation scalar (by simp at deep; omega) true) op
      | false => exact again scalar (by rw [rank_compare]; simp at deep; omega)
    | _ => cases scalar

end Emit

open Symbols in
theorem code_reads_with_value (requests : List Request) (settings : Settings) (tree : Tree)
    (unsimplified : settings.simplify = false) (scalar : tree.isScalar (session {} requests) = true) :
    ∃ text after formula, (session {} requests).emit settings (Emit.code tree) = (.ok text,after) ∧
      Formula.read? text = some formula ∧
      ∀ meaning : Meaning, meaning.value formula = tree.value meaning settings.modern after.home := by
  let start : Emitter :=
    { symbols := session {} requests, modern := settings.modern, folding := settings.simplify,
      program := settings.programName }
  have first : [overflowList] <+: start.symbols.lists := (session_extends {} requests).grows.lists
  obtain ⟨text,after,done,_,written⟩ :=
    Emit.settles_render (start.depth tree) false unsimplified first scalar (Emit.rank_le_depth start tree)
  -- variables get their homes on the way, so the text is compared in the table left behind
  have denotes : Formula.Denotes (tree.settledCode settings.modern after.symbols.home) _ _ :=
    Formula.denotes_code (fun _ _ => home_mem) tree scalar
  obtain ⟨formula,reads,valued⟩ := denotes.read
  have same : text = tree.settledCode settings.modern after.symbols.home := written after.symbols (.refl _)
  rw [← same] at reads
  refine ⟨text, after.symbols, formula, ?_, reads, valued⟩
  have run : Action.outcome (Emit.code tree) start = (.ok text,after) := done
  exact congrArg (fun reached : Except CompileError String × Emitter => (reached.1,reached.2.symbols)) run

theorem code_reads_with_value_remainder :
    let settings : Settings := { modern := false, simplify := false }
    let tree : Tree := .arith (.arith (.arith (.var "a") .mul (.arith (.var "b") .div (.var "c"))) .mod
      (.arith (.var "d") .sub (.number 2))) .mul (.var "a")
    tree.isScalar (Symbols.session {} [.slot "d"]) = true ∧
      ∃ text after formula,
        (Symbols.session {} [.slot "d"]).emit settings (Emit.code tree) = (.ok text,after) ∧
        Formula.read? text = some formula ∧
        ∀ meaning : Meaning, meaning.value formula = tree.value meaning false after.home := by
  intro settings tree
  have scalar : tree.isScalar (Symbols.session {} [.slot "d"]) = true := by decide +kernel
  exact ⟨scalar, code_reads_with_value [.slot "d"] settings tree rfl scalar⟩

end CalcBasic

import CalcBasic.Proofs.ScalarCode

/-! Folding in parts. Whichever operations are folded first, the value of the whole stays the
same; and an operation gives way to its value only where the code gets no longer. -/
namespace CalcBasic
open CalcBasic.Action Emit

/-- The second tree is the first one with some of its operations folded, each in a state of its
own, where operations alone lead to them from the root. -/
inductive PartlyFolded : Tree → Tree → Prop
  | kept (tree : Tree) : PartlyFolded tree tree
  | folded {depth : Nat} {emitter after : Emitter} {tree other : Tree} (operation : tree.isOperation = true)
      (done : outcome (settle (render depth) tree) emitter = (.ok other, after)) : PartlyFolded tree other
  | arith {left right left' right' : Tree} (op : Arith) (first : PartlyFolded left left')
      (second : PartlyFolded right right') : PartlyFolded (.arith left op right) (.arith left' op right')
  | compare {left right left' right' : Tree} (op : Comparison) (first : PartlyFolded left left')
      (second : PartlyFolded right right') : PartlyFolded (.compare left op right) (.compare left' op right')

theorem PartlyFolded.evaluate_eq {tree other : Tree} (folded : PartlyFolded tree other) :
    other.evaluate = tree.evaluate := by
  induction folded with
  | kept => rfl
  | folded _ done => exact evaluate_settle done
  | arith op _ _ first second => rw [Tree.evaluate,Tree.evaluate,first,second]
  | compare op _ _ first second => rw [Tree.evaluate,Tree.evaluate,first,second]

/-! ### Code of constants -/

namespace Emit

variable {tree : Tree} {text : String} {enough : Prop} {emitter : Emitter}

/-- The action gives this value and leaves no trace, unless its depth is not enough for it. -/
def Gives {α : Type} (emitter : Emitter) (enough : Prop) (action : Emit α) (value : α) : Prop :=
  outcome action emitter = (.ok value, emitter) ∨ ¬ enough ∧ ∃ error, (outcome action emitter).1 = .error error

theorem Gives.mono {α : Type} {more : Prop} {action : Emit α} {value : α} (gives : Gives emitter enough action value)
    (stronger : more → enough) : Gives emitter more action value :=
  gives.imp_right fun failed => ⟨fun held => failed.1 (stronger held), failed.2⟩

theorem Gives.bind {α β : Type} {first : Emit α} {next : α → Emit β} {value : α} {result : β}
    (start : Gives emitter enough first value) (rest : Gives emitter enough (next value) result) :
    Gives emitter enough (first >>= next) result := by
  rcases start with done | ⟨lacking,error,failed⟩
  · unfold Gives
    rwa [outcome_bind_ok done]
  · refine .inr ⟨lacking, error, ?_⟩
    rw [outcome_bind]
    rcases reached : outcome first emitter with ⟨_ | _,_⟩ <;> rw [reached] at failed <;> cases failed
    rfl

/-- The tree has one code at every depth that is enough for it. -/
def Plain (emitter : Emitter) (tree : Tree) : Prop :=
  ∃ text, ∀ depth (settled : Bool), Gives emitter (2 * tree.rank ≤ depth + settled.toNat) (render depth settled tree) text

theorem gives_render {depth : Nat} {settled : Bool} (above : ∀ less, depth = less + 1 →
      Gives emitter (2 * tree.rank ≤ depth + settled.toNat) (render (less + 1) settled tree) text) :
    Gives emitter (2 * tree.rank ≤ depth + settled.toNat) (render depth settled tree) text := by
  cases depth with
  | zero =>
    have positive := rank_pos tree
    have least := settled.toNat_le
    exact .inr ⟨by omega, _, rfl⟩
  | succ less => exact above less rfl

section Unfolded

variable (off : emitter.folding = false)
include off

theorem gives_operand {render : Renderer} (rendered : Gives emitter enough (render true tree) text) (outer : Operator)
    (right : Bool) :
    Gives emitter enough (operand render outer right tree) (tree.operandCode emitter.modern outer right text) :=
  .bind (.inl (outcome_settle off render tree)) (.bind rendered (.inl rfl))

theorem gives_arithmetic (left : Tree) (op : Arith) (right : Tree) (a b : String) :
    ∃ text, ∀ {enough : Prop} {render : Renderer}, (∀ settled, Gives emitter enough (render settled left) a) →
      (∀ settled, Gives emitter enough (render settled right) b) → Gives emitter enough (arithmetic render left op right) text := by
  cases called : (op = .mod && emitter.modern : Bool) with
  | true =>
    refine ⟨"remainder(" ++ a ++ "," ++ b ++ ")", fun first second => .bind (.inl (outcome_get emitter)) ?_⟩
    rw [called]
    exact .bind (first false) (.bind (second false) (.inl rfl))
  | false =>
    let outer := Operator.arith (if op = .mod then .div else op)
    exact ⟨_, fun first second => .bind (.inl (outcome_get emitter)) (by
      rw [called]
      exact .bind (gives_operand off (first true) outer false) (.bind (gives_operand off (second true) outer true) (.inl rfl)))⟩

theorem plain_operation (operation : tree.isOperation = true)
    (rendered : ∀ depth, Gives emitter (2 * tree.rank ≤ depth + 2) (render (depth + 1) true tree) text) : Plain emitter tree := by
  have inner (depth : Nat) : Gives emitter (2 * tree.rank ≤ depth + 1) (render depth true tree) text :=
    gives_render fun less _ => (rendered less).mono fun deep => by simp at deep; omega
  refine ⟨text, fun depth settled => ?_⟩
  cases settled with
  | true => exact inner depth
  | false =>
    refine gives_render fun less _ => ?_
    have again : render (less + 1) false tree = (settle (render less) tree >>= render less true) := by
      cases tree with
      | arith | compare => rfl
      | _ => cases operation
    rw [again]
    exact .bind (.inl (outcome_settle off _ tree)) ((inner less).mono fun deep => by simp at deep; omega)

theorem plain_arith {left right : Tree} (first : Plain emitter left) (second : Plain emitter right) (op : Arith) :
    Plain emitter (.arith left op right) := by
  obtain ⟨a,first⟩ := first
  obtain ⟨b,second⟩ := second
  obtain ⟨text,rendered⟩ := gives_arithmetic off left op right a b
  refine plain_operation off rfl fun depth => rendered (fun settled => (first depth settled).mono ?_) fun settled =>
    (second depth settled).mono ?_
  all_goals
    rw [rank_arith]
    omega

theorem plain_compare {left right : Tree} (first : Plain emitter left) (second : Plain emitter right) (op : Comparison) :
    Plain emitter (.compare left op right) := by
  obtain ⟨a,first⟩ := first
  obtain ⟨b,second⟩ := second
  apply plain_operation off rfl
  intro depth
  rw [rank_compare]
  exact .bind (gives_operand off ((first depth true).mono (by omega)) _ _)
    (.bind (gives_operand off ((second depth true).mono (by omega)) _ _) (.inl rfl))

theorem plain_of_valued (valued : tree.everywhere Tree.isValued = true) : Plain emitter tree := by
  fun_induction Tree.evaluate tree with
  | case1 | case2 | case3 => exact ⟨_, fun depth settled => gives_render fun less _ => .inl rfl⟩
  | case4 => exact absurd (Tree.everywhere_iff.mp valued).1 Bool.false_ne_true
  | case5 left op right ihLeft ihRight =>
    obtain ⟨_,below⟩ := Tree.everywhere_iff.mp valued
    exact plain_arith off (ihLeft (below left (by simp))) (ihRight (below right (by simp))) op
  | case6 left op right ihLeft ihRight =>
    obtain ⟨_,below⟩ := Tree.everywhere_iff.mp valued
    exact plain_compare off (ihLeft (below left (by simp))) (ihRight (below right (by simp))) op
  | case7 tree =>
    have root := (Tree.everywhere_iff.mp valued).1
    rw [Tree.isValued] at root
    · cases root
    all_goals assumption

end Unfolded

theorem gives_literal {value : Constant} {code : String} (written : value.code? = some code) (depth : Nat) (settled : Bool) :
    Gives emitter (2 * value.tree.rank ≤ depth + settled.toNat) (render depth settled value.tree) code := by
  refine gives_render fun less _ => ?_
  cases value with
  | number | boolean =>
    cases written
    exact .inl rfl
  | text | list => cases written

theorem outcome_code_of_gives
    (gives : ∀ depth (settled : Bool), Gives emitter (2 * tree.rank ≤ depth + settled.toNat) (render depth settled tree) text) :
    outcome (Emit.code tree) emitter = (.ok text, emitter) :=
  (gives (emitter.depth tree) false).resolve_right fun failed => failed.1 (rank_le_depth emitter tree)

end Emit

theorem folding_in_parts_keeps_value :
    (∀ tree other, PartlyFolded tree other → other.evaluate = tree.evaluate) ∧
    ∀ depth emitter after tree settled, outcome (settle (render depth) tree) emitter = (.ok settled, after) → settled ≠ tree →
      tree.isSimple = true ∧ after = emitter ∧ ∃ value literal plain, tree.evaluate = .ok (some value) ∧ settled = value.tree ∧
        outcome (Emit.code settled) emitter = (.ok literal, emitter) ∧
        outcome (unfolded (Emit.code tree)) emitter = (.ok plain, emitter) ∧ literal.length ≤ plain.length := by
  refine ⟨fun tree other folded => folded.evaluate_eq, fun depth emitter after tree settled done changed => ?_⟩
  rcases settle_cases done with same | ⟨operation,simple,value,literal,plain,evaluated,written,rfl,rendered,fits⟩
  · exact absurd same changed
  have valued := Tree.valued_of_evaluate evaluated (single_of_operation operation evaluated)
  obtain ⟨text,gives⟩ := plain_of_valued (show { emitter with folding := false }.folding = false from rfl) valued
  rw [outcome_unfolded] at rendered
  rcases gives depth true with same | ⟨_,error,failed⟩
  · rw [same] at rendered
    cases rendered
    refine ⟨simple, rfl, value, literal, plain, evaluated, rfl, outcome_code_of_gives (gives_literal written), ?_, fits⟩
    rw [outcome_unfolded,outcome_code_of_gives gives]
  · rw [failed] at rendered
    cases rendered

theorem folding_in_parts_keeps_value_remainder :
    let emitter : Emitter := { symbols := {}, modern := true, folding := true, program := "DIFF" }
    let seven := Tree.arith (.number 10) .sub (.number 3)
    let nothing := Tree.arith (.number 2) .sub (.number 2)
    ∃ folded, outcome (settle (render 4) seven) emitter = (.ok folded, emitter) ∧ folded ≠ seven ∧
      (Tree.arith folded .mod nothing).evaluate = (Tree.arith seven .mod nothing).evaluate ∧
      ∃ literal plain, outcome (Emit.code folded) emitter = (.ok literal, emitter) ∧
        outcome (unfolded (Emit.code seven)) emitter = (.ok plain, emitter) ∧ literal.length ≤ plain.length := by
  intro emitter seven nothing
  have alone : (outcome (settle (render 4) seven) emitter).1.toOption.map Tree.isOperation = some false := by decide +kernel
  rcases done : outcome (settle (render 4) seven) emitter with ⟨_ | folded,after⟩ <;> rw [done] at alone
  · cases alone
  have changed : folded ≠ seven := by
    rintro rfl
    cases alone
  obtain ⟨keeps,replaces⟩ := folding_in_parts_keeps_value
  obtain ⟨_,rfl,_,literal,plain,_,_,named,rendered,fits⟩ := replaces 4 emitter after seven folded done changed
  exact ⟨folded, rfl, changed, keeps _ _ (.arith .mod (.folded rfl done) (.kept nothing)), literal, plain, named, rendered, fits⟩

end CalcBasic

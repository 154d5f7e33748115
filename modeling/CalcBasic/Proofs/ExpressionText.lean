import CalcBasic.Proofs.ScalarCode

/-! Texts of names and operations. What the code of an expression is like follows from what the
code of its operands is like, one rule for each way to put texts together. -/
namespace CalcBasic

/-- Literals, variables, lists and operations. -/
def Tree.isWorded : Tree → Bool
  | .number _ | .boolean _ | .text _ | .list _ | .var _ | .listVar _ | .textVar _ | .commas _ | .range .. => true
  | .element .. | .arith .. | .compare .. => true
  | _ => false

namespace Emit
open CalcBasic.Action

/-! ### Names -/

/-- The code of a variable: a letter, a text, a list or an element of the overflow list. -/
inductive IsName : String → Prop
  | letter {letter : Char} (known : letter ∈ alphabet) : IsName letter.toString
  | text (n : Nat) : IsName ("Str" ++ toString n)
  | list (n : Nat) : IsName ("∟" ++ ("ARR" ++ Number.base36 n))
  | cell (n index : Nat) : IsName ("∟" ++ ("ARR" ++ Number.base36 n) ++ "(" ++ toString index ++ ")")

theorem returns_answer {α : Type} {ask : Symbols → α × Symbols} (result : α → Prop)
    (answers : ∀ symbols, result (ask symbols).1) : Returns (fun _ => True) (query ask) result := by
  intro emitter value after _ done
  cases done
  exact ⟨answers emitter.symbols, trivial⟩

/-- Every successful run gives a name. -/
abbrev Names (action : Emit String) : Prop := Returns (fun _ => True) action IsName

theorem returns_listCode (name : String) : Returns (fun _ => True) (listCode name) fun code =>
    ∃ n, code = "∟" ++ ("ARR" ++ Number.base36 n) := by
  refine returns_bind (returns_answer (fun list => ∃ n, list = "ARR" ++ Number.base36 n)
    fun symbols => ⟨_, rfl⟩) fun list known => returns_pure ?_
  obtain ⟨n,rfl⟩ := known
  exact ⟨n, rfl⟩

theorem names_listCode (name : String) : Names (listCode name) :=
  (returns_listCode name).mono fun code known => by
    obtain ⟨n,rfl⟩ := known
    exact .list n

theorem names_textCode (name : String) : Names (textCode name) := by
  have named (symbols : Symbols) : ∀ code ∈ (symbols.textName name).1, IsName code := by
    unfold Symbols.textName
    dsimp only
    split
    · rintro code ⟨⟩
      exact .text _
    · rintro code ⟨⟩
  unfold textCode
  refine returns_bind (returns_answer (fun answer => ∀ code ∈ answer, IsName code) named) fun answer known => ?_
  split
  · exact returns_pure (known _ rfl)
  · exact returns_throw _

theorem names_scalarCode (name : String) : Names (scalarCode name) := by
  unfold scalarCode
  refine returns_bind (returns_answer (fun slot => ∀ letter, slot = Slot.letter letter → letter ∈ alphabet)
    fun symbols letter => Symbols.home_mem) fun slot member => ?_
  split
  · exact returns_pure (.letter (member _ rfl))
  · refine returns_bind (returns_listCode overflowList) fun list known => returns_pure ?_
    obtain ⟨n,rfl⟩ := known
    exact .cell n _

theorem names_variableCode (name : String) : Names (variableCode name) := by
  unfold variableCode
  refine returns_bind returns_get fun emitter _ => ?_
  split
  · exact names_listCode name
  · exact names_textCode name
  · exact names_scalarCode name
  · exact names_scalarCode name

/-! ### Rules for texts -/

/-- What stands for a truth value, between operands and between the items of a list. -/
def joiners : List String := ["", "0", "1", ",", "+", "-", "*", "/", "^"] ++ Comparison.all.map Comparison.sign

/-- Code of the trees that are covered. It may be of two kinds, and the second one prevails. -/
structure Phrasing (holds : Emitter → Prop) (covers : Tree → Prop) (kind : Tree → Bool) (writes : Bool → String → Prop) :
    Prop where
  moves (before after : Emitter) : Moves before after → holds before → holds after
  child {tree child : Tree} : covers tree → tree.isWorded = true → child ∈ tree.children → covers child
  made {tree : Tree} : covers tree → tree.isWorded = true → kind tree = tree.children.any kind
  literal {tree : Tree} {value : Constant} {code : String} : covers tree → tree.evaluate = .ok (some value) →
    value.code? = some code → covers value.tree ∧ kind value.tree = kind tree
  counted {start stop step : Tree} {inclusive standalone : Bool} {values : List Float} :
    (Range.mk start stop step inclusive).values = .ok (some values) →
      kind (.range start stop step inclusive standalone) = false
  text {value : String} : covers (.text value) → writes false ("\"" ++ value ++ "\"")
  name {code : String} : IsName code → writes false code
  number (value : Float) : writes false (Number.code value)
  mark {mark : String} : mark ∈ joiners → writes false mark
  beside {first second : Bool} {a b : String} : writes first a → writes second b → writes (first || second) (a ++ b)
  wrapped {first : Bool} {a : String} : writes first a → writes first ("(" ++ a ++ ")")
  braced {first : Bool} {a : String} : writes first a → writes first (braced a)
  remainder {first second : Bool} {a b : String} :
    writes first a → writes second b → writes (first || second) (remainder a b)
  modulo {first second : Bool} {a b : String} :
    writes first a → writes second b → writes (first || second) ("remainder(" ++ a ++ "," ++ b ++ ")")

section Phrasing

variable {holds : Emitter → Prop} {covers : Tree → Prop} {kind : Tree → Bool} {writes : Bool → String → Prop}

/-- Renders every covered tree to code of its kind. -/
structure Phrases (holds : Emitter → Prop) (covers : Tree → Prop) (kind : Tree → Bool) (writes : Bool → String → Prop)
    (render : Renderer) : Prop where
  moves : ∀ settled tree, Keeps Moves (render settled tree)
  writes : ∀ settled tree, covers tree → Returns holds (render settled tree) (writes (kind tree))

namespace Phrasing

variable {α : Type} {first second : Bool} {a b : String}

variable (phrasing : Phrasing holds covers kind writes)
include phrasing

theorem returns {action : Emit α} {result : α → Prop} (known : Returns (fun _ => True) action result)
    (keeps : Keeps Moves action) : Returns holds action result := by
  intro emitter value after held done
  exact ⟨(known emitter value after trivial done).1,
    (returns_of_keeps keeps phrasing.moves emitter value after held done).2⟩

theorem between {mark : String} (isMark : mark ∈ joiners) (left : writes first a)
    (right : writes second b) : writes (first || second) (a ++ mark ++ b) := by
  have whole := phrasing.beside (phrasing.beside left (phrasing.mark isMark)) right
  rwa [Bool.or_false] at whole

theorem intercalate {kind : α → Bool} {items : List α} {codes : List String}
    (each : List.Forall₂ (fun item code => writes (kind item) code) items codes) :
    writes (items.any kind) (",".intercalate codes) := by
  induction each with
  | nil => exact phrasing.mark (by decide)
  | cons first rest ih =>
    cases rest with
    | nil =>
      rw [List.any_cons,List.any_nil,Bool.or_false,String.intercalate_singleton]
      exact first
    | cons second later =>
      rw [List.any_cons,String.intercalate_cons_cons]
      exact phrasing.between (by decide) first ih

theorem product (left right : Tree) (isLeft : writes first a) (isRight : writes second b) :
    writes (first || second) (Emit.product left right a b) := by
  unfold Emit.product
  split
  · split
    · rw [Bool.or_comm]
      exact phrasing.beside isRight isLeft
    · exact phrasing.beside isLeft isRight
  · exact phrasing.between (by decide) isLeft isRight

theorem rangeValues (start stop step : Tree) (inclusive standalone : Bool) :
    Returns holds (rangeValues ⟨start, stop, step, inclusive⟩) (writes (kind (.range start stop step inclusive standalone))) := by
  unfold Emit.rangeValues
  split
  · rename_i values known
    have numbers : List.Forall₂ (fun _ code => writes false code) values (values.map Number.code) :=
      List.forall₂_map_right_iff.mpr (List.forall₂_same.mpr fun value _ => phrasing.number value)
    have none : (values.any fun _ => false) = false := List.any_eq_false.mpr (by simp)
    rw [phrasing.counted known,← none]
    exact returns_pure (phrasing.intercalate numbers)
  · exact returns_throw _
  · exact returns_throw _

variable {render : Renderer} (phrases : Phrases holds covers kind writes render)
include phrases

/-! ### Operations -/

theorem settle {tree : Tree} (covered : covers tree) :
    Returns holds (settle render tree) fun settled => covers settled ∧ kind settled = kind tree := by
  refine (phrasing.returns (returns_settle_cases render tree) (moves_pervade.settle phrases.moves tree)).mono fun settled known => ?_
  rcases known with rfl | ⟨_,_,value,code,evaluated,written,rfl⟩
  · exact ⟨covered, rfl⟩
  · exact phrasing.literal covered evaluated written

theorem operand {tree : Tree} (covered : covers tree) (outer : Operator) (right : Bool) :
    Returns holds (operand render outer right tree) (writes (kind tree)) := by
  refine returns_bind (phrasing.settle phrases covered) fun settled known => ?_
  refine returns_bind (phrases.writes true settled known.1) fun code written => ?_
  rw [known.2] at written
  refine returns_bind returns_get fun emitter _ => returns_pure ?_
  split
  · exact phrasing.wrapped written
  · exact written

theorem arithmetic {left right : Tree} (isLeft : covers left) (isRight : covers right) (op : Arith) :
    Returns holds (arithmetic render left op right) (writes (kind left || kind right)) := by
  unfold Emit.arithmetic
  refine returns_bind returns_get fun emitter _ => ?_
  split
  · exact returns_bind (phrases.writes false left isLeft) fun a first =>
      returns_bind (phrases.writes false right isRight) fun b second => returns_pure (phrasing.modulo first second)
  · refine returns_bind (phrasing.operand phrases isLeft _ false) fun a first => ?_
    refine returns_bind (phrasing.operand phrases isRight _ true) fun b second => returns_pure ?_
    cases op with
    | mod => exact phrasing.remainder first second
    | mul => exact phrasing.product left right first second
    | _ => exact phrasing.between (by decide) first second

theorem comparison {left right : Tree} (isLeft : covers left) (isRight : covers right) (op : Comparison) :
    Returns holds (comparison render left op right) (writes (kind left || kind right)) := by
  have isMark : op.sign ∈ joiners := by cases op <;> decide
  exact returns_bind (phrasing.operand phrases isLeft _ false) fun a first =>
    returns_bind (phrasing.operand phrases isRight _ true) fun b second => returns_pure (phrasing.between isMark first second)

/-! ### Lists -/

theorem renderAll {trees : List Tree} (covered : ∀ tree ∈ trees, covers tree) :
    Returns holds (renderAll render trees) fun codes => writes (trees.any kind) (",".intercalate codes) :=
  (returns_mapM trees fun tree member => phrases.writes false tree (covered tree member)).mono
    fun _ each => phrasing.intercalate each

theorem listLiteral {items : List Tree} (covered : ∀ item ∈ items, covers item) :
    Returns holds (listLiteral render items) (writes (items.any kind)) := by
  have single {item : Tree} (member : item ∈ items) : Returns holds (listItem render item) (writes (kind item)) := by
    have rendered := phrases.writes false item (covered item member)
    unfold listItem
    split
    · split
      · exact rendered
      · exact returns_throw _
    · exact rendered
  unfold Emit.listLiteral
  split
  · rename_i start stop step inclusive standalone
    refine returns_bind (phrasing.rangeValues start stop step inclusive standalone) fun code written =>
      returns_pure (phrasing.braced ?_)
    rwa [List.any_cons,List.any_nil,Bool.or_false]
  · exact returns_bind (returns_mapM items fun item member => single member) fun codes each =>
      returns_pure (phrasing.braced (phrasing.intercalate each))

/-! ### Expressions -/

theorem construct (settled : Bool) {tree : Tree} (covered : covers tree)
    (others : tree.isWorded = false → Returns holds (construct render settled tree) (writes (kind tree))) :
    Returns holds (construct render settled tree) (writes (kind tree)) := by
  cases worded : tree.isWorded with
  | false => exact others worded
  | true =>
    have made := phrasing.made covered worded
    have inside {child : Tree} (isChild : child ∈ tree.children) : covers child := phrasing.child covered worded isChild
    have named {action : Emit String} (names : Names action) (keeps : Keeps Moves action) :
        Returns holds action (writes false) := (phrasing.returns names keeps).mono fun _ => phrasing.name
    have operation {action : Emit String} (inner : Returns holds action (writes (tree.children.any kind))) :
        Returns holds (if settled = true then action else do render true (← Emit.settle render tree)) (writes (kind tree)) := by
      split
      · rwa [made]
      · refine returns_bind (phrasing.settle phrases covered) fun reached known => ?_
        rw [← known.2]
        exact phrases.writes true reached known.1
    cases tree with
    | number value =>
      rw [made]
      exact returns_pure (phrasing.number value)
    | boolean value =>
      rw [made]
      exact returns_pure (phrasing.mark (by cases value <;> decide))
    | text value =>
      rw [made]
      exact returns_pure (phrasing.text covered)
    | list items =>
      rw [made]
      exact phrasing.listLiteral phrases fun item member => inside member
    | var name =>
      rw [made]
      exact named (names_variableCode name) (keeps_variableCode name)
    | listVar name =>
      rw [made]
      exact named (names_listCode name) (keeps_listCode name)
    | textVar name =>
      rw [made]
      exact named (names_textCode name) (moves_pervade.textCode name)
    | commas items =>
      rw [made]
      exact returns_bind (phrasing.renderAll phrases fun item member => inside member) fun codes written => returns_pure written
    | range start stop step inclusive standalone =>
      refine returns_bind (phrasing.rangeValues start stop step inclusive standalone) fun code written => returns_pure ?_
      split
      · exact phrasing.braced written
      · exact written
    | element base index =>
      refine returns_bind (phrases.writes false base (inside (by simp))) fun list first => ?_
      refine returns_bind (phrases.writes false index (inside (by simp))) fun place second => returns_pure ?_
      have whole := phrasing.beside first (phrasing.wrapped second)
      rw [made]
      simpa [Tree.children,String.append_assoc] using whole
    | arith left op right =>
      refine operation ?_
      simpa [Tree.children] using
        phrasing.arithmetic phrases (inside (by simp)) (inside (by simp)) op
    | compare left op right =>
      refine operation ?_
      simpa [Tree.children] using
        phrasing.comparison phrases (inside (by simp)) (inside (by simp)) op
    | _ => cases worded

end Phrasing
end Phrasing
end Emit
end CalcBasic

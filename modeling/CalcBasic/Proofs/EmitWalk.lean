import CalcBasic.Emit.Program
import CalcBasic.Proofs.Remarks

/-! What emitting is made of. A property of actions that the basic ones have and that
putting actions together keeps is a property of every emission. -/
namespace CalcBasic.Emit

/-- A property of actions that emitting inherits from its basic actions. The state is
looked at without regard to the remarks made so far. -/
structure Pervades (holds : {α : Type} → Emit α → Prop) : Prop where
  pure {α : Type} (value : α) : holds (Pure.pure value)
  fail {α : Type} (fault : Fault) (line : Option Nat) : holds (Emit.fail fault line : Emit α)
  bind {α β : Type} {first : Emit α} {next : α → Emit β} :
    holds first → (∀ value, holds (next value)) → holds (first >>= next)
  look {α : Type} {next : Emitter → Emit α} :
    (∀ emitter notes, next (emitter.noting notes) = next emitter) → (∀ emitter, holds (next emitter)) →
      holds (get >>= next)
  temporary : holds Emit.temporary
  slot (name : String) : holds (query (·.slot name))
  listName (name : String) : holds (query (·.listName name))
  textName (name : String) : holds (query (·.textName name))
  takeType (target value : Tree) : holds (Emit.takeType target value)
  listType (name : String) : holds (update fun symbols => symbols.setType name .list)
  remark (note : Remark) : holds (Emit.remark note)
  unfolded {α : Type} {action : Emit α} : holds action → holds (Emit.unfolded action)
  expanding {α : Type} {action : Emit α} (name : String) : holds action → holds (Emit.expanding name action)

namespace Pervades

variable {holds : {α : Type} → Emit α → Prop} (known : Pervades @holds)
include known

theorem mapM {α β : Type} {step : α → Emit β} (items : List α) (each : ∀ item, holds (step item)) :
    holds (items.mapM step) := by
  induction items with
  | nil => exact known.pure []
  | cons item rest ih =>
    rw [List.mapM_cons]
    exact known.bind (each item) fun _ => known.bind ih fun _ => known.pure _

/-! ### Variables -/

theorem listCode (name : String) : holds (Emit.listCode name) :=
  known.bind (known.listName name) fun _ => known.pure _

theorem textCode (name : String) : holds (Emit.textCode name) := by
  unfold Emit.textCode
  refine known.bind (known.textName name) fun answer => ?_
  split
  · exact known.pure _
  · exact known.fail _ _

theorem scalarCode (name : String) : holds (Emit.scalarCode name) := by
  unfold Emit.scalarCode
  refine known.bind (known.slot name) fun answer => ?_
  split
  · exact known.pure _
  · exact known.bind (known.listCode overflowList) fun _ => known.pure _

theorem variableCode (name : String) : holds (Emit.variableCode name) := by
  unfold Emit.variableCode
  refine known.look (fun _ _ => rfl) fun emitter => ?_
  split
  · exact known.listCode name
  · exact known.textCode name
  · exact known.scalarCode name
  · exact known.scalarCode name

section Rendering

variable {render : Renderer} (rendered : ∀ settled tree, holds (render settled tree))
include rendered

/-! ### Expressions -/

theorem settle (tree : Tree) : holds (Emit.settle render tree) := by
  unfold Emit.settle
  refine known.look (fun _ _ => rfl) fun emitter => ?_
  split
  · split
    · exact known.bind (known.unfolded (rendered true tree)) fun _ => known.pure _
    · exact known.pure tree
    · dsimp only
      split
      · exact known.bind (known.unfolded (rendered true tree)) fun _ =>
          known.bind (known.remark _) fun _ => known.pure tree
      · exact known.pure tree
  · exact known.pure tree

theorem operand (outer : Operator) (right : Bool) (tree : Tree) : holds (Emit.operand render outer right tree) :=
  known.bind (known.settle rendered tree) fun tree => known.bind (rendered true tree) fun _ =>
    known.look (fun _ _ => rfl) fun _ => known.pure _

theorem arithmetic (left : Tree) (op : Arith) (right : Tree) : holds (Emit.arithmetic render left op right) := by
  unfold Emit.arithmetic
  refine known.look (fun _ _ => rfl) fun emitter => ?_
  split
  · exact known.bind (rendered false left) fun _ => known.bind (rendered false right) fun _ => known.pure _
  · exact known.bind (known.operand rendered _ false left) fun _ =>
      known.bind (known.operand rendered _ true right) fun _ => known.pure _

theorem comparison (left : Tree) (op : Comparison) (right : Tree) : holds (Emit.comparison render left op right) :=
  known.bind (known.operand rendered _ false left) fun _ =>
    known.bind (known.operand rendered _ true right) fun _ => known.pure _

theorem renderAll (trees : List Tree) : holds (Emit.renderAll render trees) := known.mapM trees (rendered false)

omit rendered in
theorem rangeValues (range : Range) : holds (Emit.rangeValues range) := by
  unfold Emit.rangeValues
  split
  · exact known.pure _
  · exact known.fail _ _
  · exact known.fail _ _

theorem listItem (item : Tree) : holds (Emit.listItem render item) := by
  unfold Emit.listItem
  split
  · split
    · exact rendered false _
    · exact known.fail _ _
  · exact rendered false item

theorem listLiteral (items : List Tree) : holds (Emit.listLiteral render items) := by
  unfold Emit.listLiteral
  split
  · exact known.bind (known.rangeValues _) fun _ => known.pure _
  · exact known.bind (known.mapM items (known.listItem rendered)) fun _ => known.pure _

/-! ### Assignments, branches and loops -/

theorem store (target value : Tree) : holds (Emit.store render target value) :=
  known.bind (rendered false value) fun _ => known.bind (rendered false target) fun _ => known.pure _

theorem storeTyped (target value : Tree) : holds (Emit.storeTyped render target value) :=
  known.bind (known.takeType target value) fun _ => known.store rendered target value

theorem countedLoop (counter : Tree) (range : Range) : holds (Emit.countedLoop render counter range) := by
  unfold Emit.countedLoop
  refine known.bind (rendered false counter) fun _ => known.bind (rendered false range.start) fun _ =>
    known.bind (rendered false range.lastValue) fun _ => known.bind (known.settle rendered range.step) fun step => ?_
  dsimp only
  split
  · exact known.pure _
  · exact known.bind (rendered true step) fun _ => known.pure _

theorem fillList (range : Range) : holds (Emit.fillList render range) :=
  known.bind known.temporary fun _ => known.bind known.temporary fun _ =>
    known.bind known.temporary fun _ =>
      known.bind (known.storeTyped rendered _ _) fun _ =>
        known.bind (known.storeTyped rendered _ _) fun _ =>
          known.bind (known.countedLoop rendered _ range) fun _ =>
            known.bind (known.storeTyped rendered _ _) fun _ =>
              known.bind (known.storeTyped rendered _ _) fun _ => known.pure _

theorem fillAtRunTime? (range : Range) : holds (Emit.fillAtRunTime? render range) := by
  unfold Emit.fillAtRunTime?
  split
  · exact known.pure _
  · exact known.bind (known.fillList rendered range) fun _ => known.pure _
  · exact known.bind (known.remark _) fun _ =>
      known.bind (known.fillList rendered range) fun _ => known.pure _

theorem assign (target : Tree) (mode : Store) (value : Tree) (line : Nat) :
    holds (Emit.assign render target mode value line) := by
  unfold Emit.assign
  split
  · exact known.fail _ _
  · dsimp only
    refine known.bind (known.takeType target _) fun _ => ?_
    split
    · exact known.store rendered target _
    · refine known.bind (known.fillAtRunTime? rendered _) fun filled => ?_
      split
      · exact known.store rendered target _
      · exact known.bind (rendered false _) fun _ => known.bind (rendered false target) fun _ => known.pure _

theorem branch (condition body : Tree) (otherwise : Option Tree) :
    holds (Emit.branch render condition body otherwise) := by
  unfold Emit.branch
  refine known.bind (known.settle rendered condition) fun condition => ?_
  split
  · exact rendered false body
  · exact rendered false _
  · exact known.pure _
  · refine known.bind (rendered true condition) fun _ => known.bind (rendered false body) fun code => ?_
    split
    · exact known.bind (rendered false _) fun _ => known.pure _
    · split
      · exact known.pure _
      · exact known.pure _

theorem loop (condition body : Tree) (untilTrue : Bool) : holds (Emit.loop render condition body untilTrue) :=
  known.bind (rendered false condition) fun _ => known.bind (rendered false body) fun _ => known.pure _

theorem loopList (collection : Tree) : holds (Emit.loopList render collection) := by
  unfold Emit.loopList
  split
  · exact known.fillList rendered _
  · exact known.bind (known.listType _) fun _ => known.pure _
  · exact known.pure _
  · exact known.bind known.temporary fun _ => known.bind (known.storeTyped rendered _ _) fun _ => known.pure _

theorem listLoop (counter collection body : Tree) : holds (Emit.listLoop render counter collection body) :=
  known.bind (known.loopList rendered collection) fun _ => known.bind known.temporary fun _ =>
    known.bind known.temporary fun _ => known.bind (known.storeTyped rendered _ _) fun _ =>
      known.bind (rendered false _) fun _ => known.bind (rendered false _) fun _ =>
        known.bind (known.assign rendered counter .set _ 0) fun _ =>
          known.bind (rendered false body) fun _ => known.pure _

theorem forEach (counter collection body : Tree) : holds (Emit.forEach render counter collection body) := by
  unfold Emit.forEach
  split
  · exact known.bind (known.countedLoop rendered counter _) fun _ =>
      known.bind (rendered false body) fun _ => known.pure _
  · exact known.listLoop rendered counter collection body

/-! ### Calls and functions -/

theorem builtinCall (name : String) (f : Builtin) (arguments : List Tree) (line : Nat) :
    holds (Emit.builtinCall render name f arguments line) := by
  unfold Emit.builtinCall
  split
  · exact rendered false _
  · split
    · exact known.fail _ _
    · split
      · exact known.pure _
      · exact known.bind (known.renderAll rendered arguments) fun _ => known.pure _

theorem inlineCall (name : String) (f : UserFunction) (arguments : List Tree) (line : Nat) :
    holds (Emit.inlineCall render name f arguments line) := by
  unfold Emit.inlineCall
  refine known.look (fun _ _ => rfl) fun emitter => ?_
  split
  · exact known.fail _ _
  · split
    · exact known.fail _ _
    · refine known.bind (known.mapM _ fun bound => known.assign rendered _ .set _ line) fun _ => ?_
      exact known.bind (known.expanding f.name (rendered false _)) fun _ => known.pure _

theorem sectionCall (f : UserFunction) (arguments : List Tree) : holds (Emit.sectionCall render f arguments) := by
  have leave (pass : List String) : holds (do
      let place ← Emit.variableCode selector
      let select := toString f.id ++ "→" ++ place
      return ":".intercalate (pass ++ [select, "prgm" ++ (← get).program, "Ans"]) : Emit String) :=
    known.bind (known.variableCode selector) fun _ => known.look (fun _ _ => rfl) fun _ => known.pure _
  unfold Emit.sectionCall
  dsimp only
  split
  · exact known.bind (known.pure _) leave
  · exact known.bind (known.listLiteral rendered arguments) fun _ => known.bind (known.pure _) leave

theorem userCall (name : String) (f : UserFunction) (arguments : List Tree) (line : Nat) :
    holds (Emit.userCall render name f arguments line) := by
  unfold Emit.userCall
  split
  · exact known.fail _ _
  · dsimp only
    split
    · exact known.inlineCall rendered name f _ line
    · exact known.sectionCall rendered f _

theorem call (name : String) (arguments : List Tree) (line : Nat) : holds (Emit.call render name arguments line) := by
  unfold Emit.call
  refine known.look (fun _ _ => rfl) fun emitter => ?_
  split
  · exact known.fail _ _
  · exact known.builtinCall rendered name _ arguments line
  · exact known.userCall rendered name _ arguments line

omit rendered in
theorem resetSelector : holds Emit.resetSelector := known.bind (known.variableCode selector) fun _ => known.pure _

omit rendered in
theorem loadParams (f : UserFunction) (params : List String) : holds (Emit.loadParams f params) :=
  known.mapM _ fun _ => known.bind (known.variableCode _) fun _ => known.pure _

theorem function (name : String) (params : List String) (body : Tree) (inline : Bool) :
    holds (Emit.function render name params body inline) := by
  unfold Emit.function
  split
  · exact known.pure _
  · refine known.look (fun _ _ => rfl) fun emitter => ?_
    split
    · exact known.fail _ _
    · exact known.bind (known.variableCode selector) fun _ => known.bind known.resetSelector fun _ =>
        known.bind (known.loadParams _ params) fun _ => known.bind (rendered false body) fun _ => known.pure _

/-! ### Trees and programs -/

theorem construct (settled : Bool) (tree : Tree) : holds (Emit.construct render settled tree) := by
  have operation {emitted : Emit String} (inner : holds emitted) :
      holds (if settled = true then emitted else do render true (← Emit.settle render tree)) := by
    split
    · exact inner
    · exact known.bind (known.settle rendered tree) fun _ => rendered true _
  cases tree with
  | number value => exact known.pure _
  | boolean value => exact known.pure _
  | text value => exact known.pure _
  | list items => exact known.listLiteral rendered items
  | var name => exact known.variableCode name
  | listVar name => exact known.listCode name
  | textVar name => exact known.textCode name
  | commas items => exact known.bind (known.renderAll rendered items) fun _ => known.pure _
  | range start stop step inclusive standalone => exact known.bind (known.rangeValues _) fun _ => known.pure _
  | assign target mode value line => exact known.assign rendered target mode value line
  | element base index =>
    exact known.bind (rendered false base) fun _ => known.bind (rendered false index) fun _ => known.pure _
  | block statements => exact known.bind (known.renderAll rendered statements) fun _ => known.pure _
  | arith left op right => exact operation (known.arithmetic rendered left op right)
  | compare left op right => exact operation (known.comparison rendered left op right)
  | call name arguments line => exact known.call rendered name arguments line
  | membership value collection => exact known.call rendered _ _ _
  | branch condition body otherwise => exact known.branch rendered condition body otherwise
  | forEach counter collection body => exact known.forEach rendered counter collection body
  | loop condition body untilTrue => exact known.loop rendered condition body untilTrue
  | function name params body inline => exact known.function rendered name params body inline
  | native code => exact known.look (fun _ _ => rfl) fun _ => known.pure _
  | line statements => exact known.bind (known.renderAll rendered statements) fun _ => known.pure _

end Rendering

theorem render (depth : Nat) (settled : Bool) (tree : Tree) : holds (Emit.render depth settled tree) := by
  induction depth generalizing settled tree with
  | zero => exact known.fail _ _
  | succ depth lower => exact known.construct lower settled tree

theorem code (tree : Tree) : holds (Emit.code tree) :=
  known.look (fun _ _ => rfl) fun _ => known.render _ false tree

theorem folded (tree : Tree) : holds (Emit.folded tree) :=
  known.look (fun _ _ => rfl) fun _ => known.settle (known.render _) tree

theorem layOut (statements : List Tree) : holds (Emit.layOut statements) := by
  unfold Emit.layOut
  refine known.bind (known.mapM statements fun tree => known.bind (known.code tree) fun _ => known.pure _)
    fun codes => ?_
  dsimp only
  split
  · exact known.pure _
  · exact known.bind known.resetSelector fun _ => known.pure _

theorem program (tree : Tree) : holds (Emit.program tree) := by
  unfold Emit.program
  split
  · exact known.bind (known.layOut _) fun _ => known.pure _
  · exact known.bind (known.code tree) fun _ => known.pure _

end Pervades

/-- Arguments that a call leaves out are zeros. -/
theorem forall_mem_padded {holds : Tree → Prop} {arguments : List Tree} (each : ∀ argument ∈ arguments, holds argument)
    (zero : holds (.number 0)) (count : Nat) : ∀ argument ∈ arguments ++ List.replicate count (.number 0), holds argument := by
  intro argument member
  rcases List.mem_append.mp member with given | filler
  · exact each argument given
  · rw [(List.mem_replicate.mp filler).2]
    exact zero

end CalcBasic.Emit

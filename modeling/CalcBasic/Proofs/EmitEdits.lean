import CalcBasic.Proofs.Actions
import CalcBasic.Proofs.EmitWalk
import Mathlib.Logic.Relation

/-! All that emitting does to its state. Every run, also one that ends with an
error, edits the symbol table in a few ways and leaves the rest as it was. -/
namespace CalcBasic.Emit
open CalcBasic.Action

variable {α : Type} {before after : Symbols}

inductive Edit : Symbols → Symbols → Prop
  | temporary (symbols : Symbols) : Edit symbols symbols.temporary.2
  | setType (symbols : Symbols) (name : String) (type : ValueType) :
      Edit symbols (symbols.setType name type)
  | slot (symbols : Symbols) (name : String) : Edit symbols (symbols.slot name).2
  | listName (symbols : Symbols) (name : String) : Edit symbols (symbols.listName name).2
  | textName (symbols : Symbols) (name : String) : Edit symbols (symbols.textName name).2
  | remark (symbols : Symbols) (remark : Remark) : Edit symbols (symbols.remark remark none)

abbrev Edits : Symbols → Symbols → Prop := Relation.ReflTransGen Edit

theorem Edit.functions (edit : Edit before after) : after.functions = before.functions := by
  cases edit with
  | temporary =>
    unfold Symbols.temporary Symbols.reference
    dsimp only
    split <;> rfl
  | textName name =>
    unfold Symbols.textName
    dsimp only
    split <;> rfl
  | setType | slot | listName | remark => rfl

theorem Edits.functions (edits : Edits before after) : after.functions = before.functions := by
  induction edits with
  | refl => rfl
  | tail _ last ih => exact last.functions.trans ih

theorem Edit.temporaries (edit : Edit before after) : before.temporaries ≤ after.temporaries := by
  cases edit with
  | temporary =>
    unfold Symbols.temporary Symbols.reference
    dsimp only
    split <;> exact Nat.le_succ _
  | textName name =>
    unfold Symbols.textName
    dsimp only
    split <;> exact Nat.le_refl _
  | setType | slot | listName | remark => exact Nat.le_refl _

theorem Edits.temporaries (edits : Edits before after) : before.temporaries ≤ after.temporaries := by
  induction edits with
  | refl => exact Nat.le_refl _
  | tail _ last ih => exact Nat.le_trans ih last.temporaries

/-- Flags and functions under expansion are as before. -/
structure Moves (before after : Emitter) : Prop where
  symbols : Edits before.symbols after.symbols
  modern : after.modern = before.modern
  folding : after.folding = before.folding
  program : after.program = before.program
  inlining : after.inlining = before.inlining

instance : Std.Refl Moves := ⟨fun _ => ⟨.refl, rfl, rfl, rfl, rfl⟩⟩

instance : Trans Moves Moves Moves :=
  ⟨fun first second => ⟨first.symbols.trans second.symbols, second.modern.trans first.modern,
    second.folding.trans first.folding, second.program.trans first.program,
    second.inlining.trans first.inlining⟩⟩

theorem keeps_query {ask : Symbols → α × Symbols} (each : ∀ symbols, Edit symbols (ask symbols).2) : Keeps Moves (query ask) :=
  fun emitter => ⟨.single (each emitter.symbols), rfl, rfl, rfl, rfl⟩

theorem keeps_update {change : Symbols → Symbols} (each : ∀ symbols, Edit symbols (change symbols)) :
    Keeps Moves (update change) :=
  fun emitter => ⟨.single (each emitter.symbols), rfl, rfl, rfl, rfl⟩

theorem keeps_remark (note : Remark) : Keeps Moves (remark note) :=
  keeps_update (Edit.remark · note)

theorem keeps_temporary : Keeps Moves temporary := keeps_query Edit.temporary

theorem outcome_unfolded (action : Emit α) (emitter : Emitter) : outcome (unfolded action) emitter =
      ((outcome action { emitter with folding := false }).1,
        { (outcome action { emitter with folding := false }).2 with folding := emitter.folding }) := rfl

theorem outcome_expanding (name : String) (action : Emit α) (emitter : Emitter) : outcome (expanding name action) emitter =
      ((outcome action { emitter with inlining := name :: emitter.inlining }).1,
        { (outcome action { emitter with inlining := name :: emitter.inlining }).2 with
          inlining := emitter.inlining }) := rfl

theorem keeps_unfolded {action : Emit α} (inner : Keeps Moves action) : Keeps Moves (unfolded action) := by
  intro emitter
  rw [outcome_unfolded]
  obtain ⟨symbols,modern,_,program,inlining⟩ := inner { emitter with folding := false }
  exact ⟨symbols, modern, rfl, program, inlining⟩

theorem keeps_expanding {action : Emit α} (name : String) (inner : Keeps Moves action) :
    Keeps Moves (expanding name action) := by
  intro emitter
  rw [outcome_expanding]
  obtain ⟨symbols,modern,folding,program,_⟩ := inner { emitter with inlining := name :: emitter.inlining }
  exact ⟨symbols, modern, folding, program, rfl⟩

theorem keeps_takeType (target value : Tree) : Keeps Moves (takeType target value) := by
  unfold takeType
  split
  · exact keeps_update fun symbols => Edit.setType symbols _ _
  · exact keeps_pure _

/-! ### Every emission -/

theorem moves_pervade : Pervades (Keeps Moves) where
  pure := keeps_pure
  fail _ _ := keeps_throw _
  bind := keeps_bind
  look _ each := keeps_bind keeps_get each
  temporary := keeps_temporary
  slot name := keeps_query (Edit.slot · name)
  listName name := keeps_query (Edit.listName · name)
  textName name := keeps_query (Edit.textName · name)
  takeType := keeps_takeType
  listType name := keeps_update (Edit.setType · name .list)
  remark := keeps_remark
  unfolded := keeps_unfolded
  expanding := keeps_expanding

theorem keeps_listCode (name : String) : Keeps Moves (listCode name) := moves_pervade.listCode name

theorem keeps_variableCode (name : String) : Keeps Moves (variableCode name) := moves_pervade.variableCode name

theorem keeps_listLiteral {render : Renderer} (rendered : ∀ settled tree, Keeps Moves (render settled tree))
    (items : List Tree) : Keeps Moves (listLiteral render items) := moves_pervade.listLiteral rendered items

theorem keeps_fillAtRunTime? {render : Renderer} (rendered : ∀ settled tree, Keeps Moves (render settled tree))
    (range : Range) : Keeps Moves (fillAtRunTime? render range) := moves_pervade.fillAtRunTime? rendered range

theorem keeps_loadParams (f : UserFunction) (params : List String) : Keeps Moves (loadParams f params) :=
  moves_pervade.loadParams f params

theorem keeps_render (depth : Nat) (settled : Bool) (tree : Tree) : Keeps Moves (render depth settled tree) :=
  moves_pervade.render depth settled tree

theorem keeps_code (tree : Tree) : Keeps Moves (code tree) := moves_pervade.code tree

theorem keeps_folded (tree : Tree) : Keeps Moves (folded tree) := moves_pervade.folded tree

theorem keeps_program (tree : Tree) : Keeps Moves (program tree) := moves_pervade.program tree

end CalcBasic.Emit

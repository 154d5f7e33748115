import CalcBasic.Proofs.GuidedRuns

/-! Invariants of emitting. Types are the only part of the symbol table that
emitting overwrites, and it sets the types of the variables of the tree alone. What
survives that survives every emission. -/
namespace CalcBasic

/-- Every variable of the tree has one of the names. -/
def Tree.over (names : String → Bool) (tree : Tree) : Bool :=
  tree.everywhere fun
    | .var name => names name
    | _ => true

namespace Tree

variable {names : String → Bool}

theorem over_child {tree child : Tree} (covered : tree.over names = true) (isChild : child ∈ tree.children) :
    child.over names = true :=
  (everywhere_iff.mp covered).2 child isChild

theorem over_number (value : Float) : (Tree.number value).over names = true :=
  everywhere_iff.mpr ⟨rfl, by simp⟩

theorem isTarget_of_over {tree : Tree} (covered : tree.over names = true) : tree.IsTarget (names · = true) := by
  cases tree with
  | var name => exact (everywhere_iff.mp covered).1
  | _ => trivial

/-- What the node gives a type has one of the names. -/
def Retypes (names : String → Bool) : Tree → Prop
  | .assign target _ _ _ => target.IsTarget (names · = true)
  | .forEach counter collection _ => counter.IsTarget (names · = true) ∧ collection.IsTarget (names · = true)
  | _ => True

theorem throughout_of_over {tree : Tree} (covered : tree.over names = true) : tree.Throughout (Retypes names) := by
  refine throughout_iff.mpr ⟨?_, fun child isChild => throughout_of_over (over_child covered isChild)⟩
  have inside {child : Tree} (isChild : child ∈ tree.children) : child.IsTarget (names · = true) :=
    isTarget_of_over (over_child covered isChild)
  cases tree with
  | assign target mode value line => exact inside (by simp)
  | forEach counter collection body => exact ⟨inside (by simp), inside (by simp)⟩
  | _ => trivial
termination_by sizeOf tree
decreasing_by exact sizeOf_lt_of_mem_children isChild

end Tree

namespace Emit
open CalcBasic.Action

/-- Edits that set the types of these names only keep the property, and temporary
variables are among the names. -/
structure Invariant (names : String → Bool) (table : FunctionTable) (holds : Symbols → Prop) : Prop where
  functions : ∀ symbols, holds symbols → symbols.functions = table
  bodies : ∀ f ∈ table.users, ∀ body ∈ f.body, body.over names = true
  params : ∀ f ∈ table.users, ∀ param ∈ f.params, names param = true
  named : ∀ symbols, holds symbols → names symbols.temporary.1 = true
  temporary : ∀ symbols, holds symbols → holds symbols.temporary.2
  setType : ∀ symbols name type, names name = true → holds symbols → holds (symbols.setType name type)
  slot : ∀ symbols name, holds symbols → holds (symbols.slot name).2
  listName : ∀ symbols name, holds symbols → holds (symbols.listName name).2
  textName : ∀ symbols name, holds symbols → holds (symbols.textName name).2
  remark : ∀ symbols remark, holds symbols → holds (symbols.remark remark none)

/-- Successful runs keep the property and return such a value. -/
abbrev Stays {α : Type} (holds : Symbols → Prop) (action : Emit α) (result : α → Prop) : Prop :=
  Returns (fun emitter => holds emitter.symbols) action result

/-- The same state twice, with the property. -/
def Held (holds : Symbols → Prop) (emitter other : Emitter) : Prop := other = emitter ∧ holds emitter.symbols

section Runs

variable {names : String → Bool} {table : FunctionTable} {holds : Symbols → Prop}
  (invariant : Invariant names table holds)
include invariant

theorem likeness_held : Likeness (Tree.Retypes names) (names · = true) (Held holds) where
  modern := by rintro _ _ ⟨rfl,_⟩; rfl
  folding := by rintro _ _ ⟨rfl,_⟩; rfl
  program := by rintro _ _ ⟨rfl,_⟩; rfl
  inlining := by rintro _ _ ⟨rfl,_⟩; rfl
  unfolded := by rintro _ _ folding ⟨rfl,held⟩; exact ⟨rfl, held⟩
  expanding := by rintro _ _ inlining ⟨rfl,held⟩; exact ⟨rfl, held⟩
  temporary := by rintro _ _ ⟨rfl,held⟩; exact ⟨rfl, rfl, invariant.temporary _ held⟩
  slot := by rintro name _ _ ⟨rfl,held⟩; exact ⟨rfl, rfl, invariant.slot _ name held⟩
  listName := by rintro name _ _ ⟨rfl,held⟩; exact ⟨rfl, rfl, invariant.listName _ name held⟩
  textName := by rintro name _ _ ⟨rfl,held⟩; exact ⟨rfl, rfl, invariant.textName _ name held⟩
  remark := by rintro note _ _ ⟨rfl,held⟩; exact ⟨rfl, invariant.remark _ note held⟩
  setList := by rintro name known _ _ ⟨rfl,held⟩; exact ⟨rfl, invariant.setType _ name _ known held⟩
  setType := by rintro name value known _ _ _ ⟨rfl,held⟩; exact ⟨rfl, invariant.setType _ name _ known held⟩
  stored := by rintro _ _ _ _ ⟨rfl,_⟩; rfl
  fresh := by rintro _ _ ⟨rfl,held⟩; exact ⟨trivial, invariant.named _ held⟩

theorem guide_held : Guide (Tree.Retypes names) (names · = true) table (Held holds) fun _ => True where
  likeness := likeness_held invariant
  plain := by
    intro tree plain
    cases tree with
    | assign | forEach => cases plain
    | _ => trivial
  placeless _ _ := trivial
  found := by rintro _ _ _ _ _ _ ⟨rfl,_⟩; rfl
  faults _ _ := trivial
  helpers _ _ _ _ _ _ := trivial
  params _ found _ param isParam := ⟨trivial, invariant.params _ (FunctionTable.mem_users found) param isParam⟩
  bodies _ found _ isBody := Tree.throughout_of_over (invariant.bodies _ (FunctionTable.mem_users found) _ isBody)
  selects _ _ _ := trivial
  sums _ _ := trivial
  lengths _ _ _ := trivial
  counters _ _ _ := trivial
  retyped root _ := root
  assigned root := root
  targets _ _ := trivial
  sections := by rintro _ _ _ _ _ _ ⟨rfl,_⟩; rfl
  loads _ := ⟨trivial, fun _ _ => trivial⟩

theorem stays_of_tracks {α : Type} {action : Emit α} {result : α → Prop}
    (tracks : ∀ stack, Tracks table (Held holds) stack (fun _ => True) action result) : Stays holds action result := by
  intro emitter value after held done
  have tracked := tracks emitter.inlining emitter emitter ⟨invariant.functions _ held, rfl⟩ ⟨rfl, held⟩
  rw [done] at tracked
  exact ⟨tracked.ok value rfl, tracked.like.2⟩

theorem stays_render (depth : Nat) (settled : Bool) {tree : Tree} (covered : tree.over names = true) :
    Stays holds (render depth settled tree) fun _ => True :=
  stays_of_tracks invariant fun stack =>
    tracks_render (guide_held invariant) trivial depth stack settled tree (Tree.throughout_of_over covered)

theorem stays_listLiteral (depth : Nat) {items : List Tree} (covered : ∀ item ∈ items, item.over names = true) :
    Stays holds (listLiteral (render depth) items) fun _ => True := by
  have guide := guide_held invariant
  have below stack := below_tracking guide trivial depth stack (2 * (Tree.list items).rank)
  refine stays_of_tracks invariant fun stack => tracks_of_parallel (parallel_listLiteral guide (below stack) fun item member =>
    ⟨?_, Tree.throughout_of_over (covered item member)⟩)
  have lower := @Tree.rank_child (.list items) item member
  have weight := (Tree.list items).weight_pos
  omega

theorem stays_loadParams (f : UserFunction) (params : List String) : Stays holds (loadParams f params) fun _ => True :=
  stays_of_tracks invariant fun _ => tracks_of_parallel (parallel_loadParams (guide_held invariant) f fun _ _ => trivial)

end Runs
end Emit
end CalcBasic

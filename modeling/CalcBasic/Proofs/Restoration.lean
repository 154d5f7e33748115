import CalcBasic.Proofs.InlineStack

/-! What a rendering gives back. Folding is switched off for parts of a rendering, and
functions are marked while they are expanded; both are undone on every way out, wherever
in the tree an error is raised. -/
namespace CalcBasic.Emit
open CalcBasic.Action

/-- Apart from its symbol table the emitter is as before. -/
structure Restored (before after : Emitter) : Prop where
  folding : after.folding = before.folding
  inlining : after.inlining = before.inlining
  modern : after.modern = before.modern
  program : after.program = before.program

theorem Restored.trans {before middle after : Emitter} (first : Restored before middle)
    (second : Restored middle after) : Restored before after :=
  ⟨second.folding.trans first.folding, second.inlining.trans first.inlining, second.modern.trans first.modern,
    second.program.trans first.program⟩

theorem restored_of_keeps {α : Type} {action : Emit α} (keeps : Keeps Moves action) (emitter : Emitter) :
    Restored emitter (outcome action emitter).2 := by
  obtain ⟨_,modern,folding,program,inlining⟩ := keeps emitter
  exact ⟨folding, inlining, modern, program⟩

/-- Runs an action with a function on top of those being expanded, and then takes off
whatever is on top. -/
def pushing {α : Type} (name : String) (action : Emit α) : Emit α := ExceptT.mk do
  modify fun emitter => { emitter with inlining := name :: emitter.inlining }
  let result ← action.run
  modify fun emitter => { emitter with inlining := emitter.inlining.tail }
  return result

theorem outcome_pushing {α : Type} (name : String) (action : Emit α) (emitter : Emitter) :
    outcome (pushing name action) emitter =
      ((outcome action { emitter with inlining := name :: emitter.inlining }).1,
        { (outcome action { emitter with inlining := name :: emitter.inlining }).2 with
          inlining := (outcome action { emitter with inlining := name :: emitter.inlining }).2.inlining.tail }) := rfl

/-- An action that leaves the marks as they are leaves its own function on top. -/
theorem outcome_pushing_eq {α : Type} {action : Emit α} (keeps : Keeps Moves action) (name : String)
    (emitter : Emitter) : outcome (pushing name action) emitter = outcome (expanding name action) emitter := by
  have kept := (keeps { emitter with inlining := name :: emitter.inlining }).inlining
  rw [outcome_pushing,outcome_expanding,kept]
  rfl

theorem keeps_watched (alarm : Emitter → Tree → Option CompileError) (depth : Nat) (settled : Bool) (tree : Tree) :
    Keeps Moves (watched alarm depth settled tree) := by
  induction depth generalizing settled tree with
  | zero => exact keeps_throw _
  | succ depth lower =>
    refine keeps_bind keeps_get fun emitter => ?_
    split
    · exact keeps_throw _
    · exact moves_pervade.construct lower settled tree

/-- Trees rendered one after the other, whether the ones before succeeded or not. -/
def attempts (emitter : Emitter) (trees : List Tree) : Emitter :=
  trees.foldl (fun state tree => (outcome (code tree) state).2) emitter

theorem restored_attempts (emitter : Emitter) (trees : List Tree) : Restored emitter (attempts emitter trees) := by
  induction trees generalizing emitter with
  | nil => exact ⟨rfl, rfl, rfl, rfl⟩
  | cons tree rest ih => exact (restored_of_keeps (keeps_code tree) emitter).trans (ih _)

/-- Flags, program name and the functions under expansion are the same after every run, also
if errors are raised at arbitrary places of the tree. So it makes no difference whether the
mark of a function is taken off the top or the earlier marks are put back. -/
theorem emitter_restored (emitter : Emitter) (alarm : Emitter → Tree → Option CompileError) (depth : Nat)
    (settled : Bool) (tree : Tree) :
    Restored emitter (outcome (render depth settled tree) emitter).2 ∧
    Restored emitter (outcome (settle (render depth) tree) emitter).2 ∧
    Restored emitter (outcome (unfolded (render depth settled tree)) emitter).2 ∧
    Restored emitter (outcome (code tree) emitter).2 ∧
    Restored emitter (outcome (folded tree) emitter).2 ∧
    Restored emitter (outcome (program tree) emitter).2 ∧
    (Restored emitter (outcome (watched alarm depth settled tree) emitter).2 ∧
      Restored emitter (outcome (settle (watched alarm depth) tree) emitter).2 ∧
      Restored emitter (outcome (unfolded (watched alarm depth settled tree)) emitter).2) ∧
    (∀ trees, Restored emitter (attempts emitter trees)) ∧
    ∀ name, outcome (pushing name (watched alarm depth settled tree)) emitter =
      outcome (expanding name (watched alarm depth settled tree)) emitter := by
  have rendered := keeps_render depth
  have watches := keeps_watched alarm depth
  refine ⟨restored_of_keeps (rendered settled tree) emitter, restored_of_keeps (moves_pervade.settle rendered tree) emitter,
    restored_of_keeps (keeps_unfolded (rendered settled tree)) emitter, restored_of_keeps (keeps_code tree) emitter,
    restored_of_keeps (keeps_folded tree) emitter, restored_of_keeps (keeps_program tree) emitter, ⟨?_, ?_, ?_⟩,
    restored_attempts emitter, fun name => outcome_pushing_eq (watches settled tree) name emitter⟩
  · exact restored_of_keeps (watches settled tree) emitter
  · exact restored_of_keeps (moves_pervade.settle watches tree) emitter
  · exact restored_of_keeps (keeps_unfolded (watches settled tree)) emitter

end CalcBasic.Emit

import CalcBasic.Compilation
import CalcBasic.Proofs.EmitEdits

/-! Emitting without regard to remarks: the code of a tree does not hang on the remarks
that reading it has left. -/
namespace CalcBasic
namespace Emit
open CalcBasic.Action

/-- With other remarks in the table the action ends as before, up to remarks. -/
def Silent {α : Type} (action : Emit α) : Prop :=
  ∀ emitter notes, ∃ after,
    outcome action (emitter.noting notes) = ((outcome action emitter).1, (outcome action emitter).2.noting after)

theorem silent_bind {α β : Type} {first : Emit α} {next : α → Emit β} (start : Silent first)
    (continued : ∀ value, Silent (next value)) : Silent (first >>= next) := by
  intro emitter notes
  obtain ⟨after,same⟩ := start emitter notes
  rw [outcome_bind,outcome_bind,same]
  rcases outcome first emitter with ⟨_ | value,middle⟩
  · exact ⟨after, rfl⟩
  · exact continued value middle after

theorem silent_query {α : Type} {ask : Symbols → α × Symbols}
    (silent : ∀ symbols notes, ask (symbols.noting notes) = ((ask symbols).1, (ask symbols).2.noting notes)) :
    Silent (query ask) := by
  have answer (emitter : Emitter) : outcome (query ask) emitter =
      (.ok (ask emitter.symbols).1, { emitter with symbols := (ask emitter.symbols).2 }) := rfl
  intro emitter notes
  refine ⟨notes, ?_⟩
  rw [answer,answer]
  simp only [Emitter.noting,silent]

theorem silent_update {change : Symbols → Symbols}
    (silent : ∀ symbols notes, ∃ after, change (symbols.noting notes) = (change symbols).noting after) :
    Silent (update change) := by
  intro emitter notes
  obtain ⟨after,same⟩ := silent emitter.symbols notes
  exact ⟨after, congrArg (fun symbols => (Except.ok (), { emitter with symbols })) same⟩

theorem silent_takeType (target value : Tree) : Silent (takeType target value) := by
  unfold takeType
  split
  · refine silent_update fun symbols notes => ⟨notes, ?_⟩
    rw [Tree.type_noting]
    rfl
  · exact fun _ notes => ⟨notes, rfl⟩

theorem silent_pervades : Pervades Silent where
  pure _ _ notes := ⟨notes, rfl⟩
  fail _ _ _ notes := ⟨notes, rfl⟩
  bind := silent_bind
  look same each emitter notes := by
    rw [outcome_bind_ok (outcome_get _),outcome_bind_ok (outcome_get _),same]
    exact each emitter emitter notes
  temporary := silent_query Symbols.temporary_noting
  slot _ := silent_query fun _ _ => rfl
  listName _ := silent_query fun _ _ => rfl
  textName name := silent_query fun symbols notes => symbols.textName_noting notes name
  takeType := silent_takeType
  listType _ := silent_update fun _ notes => ⟨notes, rfl⟩
  remark _ := silent_update fun _ _ => ⟨_, rfl⟩
  unfolded inner emitter notes := by
    obtain ⟨after,same⟩ := inner { emitter with folding := false } notes
    rw [outcome_unfolded,outcome_unfolded]
    exact ⟨after, congrArg (fun ended => (ended.1, { ended.2 with folding := emitter.folding })) same⟩
  expanding name inner emitter notes := by
    obtain ⟨after,same⟩ := inner { emitter with inlining := name :: emitter.inlining } notes
    rw [outcome_expanding,outcome_expanding]
    exact ⟨after, congrArg (fun ended => (ended.1, { ended.2 with inlining := emitter.inlining })) same⟩

end Emit

/-- The code of a program does not hang on the remarks made on it. -/
theorem Symbols.emit_noting (symbols : Symbols) (notes : List Diagnostic) (settings : Settings) (tree : Tree) :
    ((symbols.noting notes).emit settings (Emit.program tree)).1 = (symbols.emit settings (Emit.program tree)).1 := by
  obtain ⟨_,same⟩ := Emit.silent_pervades.program tree
    { symbols, modern := settings.modern, folding := settings.simplify, program := settings.programName } notes
  have results := congrArg Prod.fst same
  exact results

end CalcBasic

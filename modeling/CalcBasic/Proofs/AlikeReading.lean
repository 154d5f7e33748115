import CalcBasic.Proofs.Actions
import CalcBasic.Proofs.Remarks
import CalcBasic.Reader.Statement

/-! Two readings side by side. They are alike if they give the same and do the same to
the symbol table, remarks apart. -/
namespace CalcBasic

/-! ### Names in two spellings -/

section Names

variable {name other : String} (same : other.toLower = name.toLower)
include same

theorem Symbols.reference_of_lower (symbols : Symbols) : symbols.reference other = symbols.reference name := by
  simp only [reference, entry?,update,same]

namespace FunctionTable

variable (table : FunctionTable)

theorem user?_of_lower : table.user? other = table.user? name := by simp only [user?,same]

theorem find?_of_lower : table.find? other = table.find? name := by
  simp only [find?,user?,Builtin.find?,same]

theorem declare_of_lower (inline : Bool) : table.declare other inline = table.declare name inline := by
  simp only [declare,user?,same]

theorem define_of_lower (inline : Bool) (params : List String) (required : Nat) (body : Tree) :
    table.define other inline params required body = table.define name inline params required body := by
  simp only [define,declare_of_lower same,same]

end FunctionTable
end Names

namespace Read
open CalcBasic.Action

/-! ### Readings side by side -/

/-- Two runs end alike: with the same value or with an error each, and in tables that
differ in remarks alone. -/
inductive Ends (errors : CompileError → CompileError → Prop) {α : Type} :
    Except CompileError α × Symbols → Except CompileError α × Symbols → Prop
  | ok (value : α) (symbols : Symbols) (notes : List Diagnostic) :
      Ends errors (.ok value, symbols) (.ok value, symbols.noting notes)
  | error {error other : CompileError} (related : errors error other) (symbols : Symbols) (notes : List Diagnostic) :
      Ends errors (.error error, symbols) (.error other, symbols.noting notes)

/-- From tables that differ in remarks alone two actions end alike. -/
def Alike (errors : CompileError → CompileError → Prop) {α : Type} (action other : Read α) : Prop :=
  ∀ symbols notes, Ends errors (outcome action symbols) (outcome other (symbols.noting notes))

section Rules

variable {errors : CompileError → CompileError → Prop} {α β : Type}

theorem alike_pure (value : α) : Alike errors (pure value) (pure value) := fun symbols notes => .ok value symbols notes

theorem alike_throw {error other : CompileError} (related : errors error other) :
    Alike errors (throw error : Read α) (throw other) :=
  fun symbols notes => .error related symbols notes

theorem alike_bind {first first' : Read α} {next next' : α → Read β} (start : Alike errors first first')
    (continued : ∀ value, Alike errors (next value) (next' value)) :
    Alike errors (first >>= next) (first' >>= next') := by
  intro symbols notes
  have reached := start symbols notes
  rw [outcome_bind,outcome_bind]
  generalize outcome first symbols = ended at reached
  generalize outcome first' (symbols.noting notes) = ended' at reached
  cases reached with
  | ok value after notes => exact continued value after notes
  | error related after notes => exact .error related after notes

theorem alike_look {next next' : Symbols → Read α}
    (each : ∀ symbols notes, Alike errors (next symbols) (next' (symbols.noting notes))) :
    Alike errors (get >>= next) (get >>= next') := by
  intro symbols notes
  rw [outcome_bind_ok (outcome_get _),outcome_bind_ok (outcome_get _)]
  exact each symbols notes symbols notes

theorem alike_modify {change change' : Symbols → Symbols}
    (same : ∀ symbols notes, ∃ after, change' (symbols.noting notes) = (change symbols).noting after) :
    Alike errors (modify change) (modify change') := by
  intro symbols notes
  obtain ⟨after,changed⟩ := same symbols notes
  rw [outcome_modify,outcome_modify,changed]
  exact .ok () _ after

end Rules

/-! ### Actions that only remark -/

/-- The action ends well and does nothing but remark. -/
def Quiet (action : Read Unit) : Prop := ∀ symbols, ∃ notes, outcome action symbols = (.ok (), symbols.noting notes)

theorem quiet_pure : Quiet (pure ()) := fun symbols => ⟨symbols.diagnostics, rfl⟩

theorem quiet_remark (note : Remark) (line : Option Nat) : Quiet (remark note line) := fun _ => ⟨_, rfl⟩

theorem quiet_bind {first next : Read Unit} (start : Quiet first) (continued : Quiet next) :
    Quiet (first >>= fun _ => next) := by
  intro symbols
  obtain ⟨notes,reached⟩ := start symbols
  obtain ⟨more,done⟩ := continued (symbols.noting notes)
  exact ⟨more, by rw [outcome_bind_ok reached,done]; rfl⟩

theorem quiet_checkBody (code : Body) : Quiet (checkBody code) := by
  unfold checkBody
  split
  · exact quiet_remark _ _
  · exact quiet_pure

theorem quiet_remarks (notes : List Diagnostic) :
    Quiet (forIn notes () fun diagnostic _ => do remark diagnostic.remark diagnostic.line; return .yield ()) := by
  induction notes with
  | nil => exact quiet_pure
  | cons note rest ih =>
    rw [List.forIn_cons,bind_assoc]
    simp only [pure_bind]
    exact quiet_bind (quiet_remark _ _) ih

section Tables

variable {errors : CompileError → CompileError → Prop}

theorem alike_of_quiet {action other : Read Unit} (first : Quiet action) (second : Quiet other) :
    Alike errors action other := by
  intro symbols notes
  obtain ⟨before,done⟩ := first symbols
  obtain ⟨after,done'⟩ := second (symbols.noting notes)
  rw [done,done']
  exact .ok () (symbols.noting before) after

theorem alike_remark (note other : Remark) (line line' : Option Nat) :
    Alike errors (remark note line) (remark other line') :=
  alike_of_quiet (quiet_remark _ _) (quiet_remark _ _)

theorem alike_checkBody (code other : Body) : Alike errors (checkBody code) (checkBody other) :=
  alike_of_quiet (quiet_checkBody _) (quiet_checkBody _)

theorem alike_unknown (markUnknown : Bool) (tokens others : List Token) :
    Alike errors (unknown markUnknown tokens) (unknown markUnknown others) :=
  alike_bind (alike_remark _ _ _ _) fun _ => alike_pure _

theorem alike_use {name other : String} (same : other.toLower = name.toLower) :
    Alike errors (modify fun symbols => symbols.reference name) (modify fun symbols => symbols.reference other) :=
  alike_modify fun symbols notes => ⟨notes, by rw [symbols.reference_noting,Symbols.reference_of_lower same]⟩

theorem alike_reference {name other : String} (same : other.toLower = name.toLower) :
    Alike errors (reference name) (reference other) := by
  unfold reference
  rw [same]
  exact alike_bind (alike_use same) fun _ => alike_pure _

theorem alike_callTree {name other : Token} (same : other.text.toLower = name.text.toLower) (line : other.line = name.line)
    (arguments : List Tree) : Alike errors (callTree name arguments) (callTree other arguments) := by
  unfold callTree
  refine alike_look fun symbols notes => ?_
  rw [show (symbols.noting notes).functions = symbols.functions from rfl,FunctionTable.user?_of_lower same,line]
  simp only [Tree.callOf,same]
  split
  · split
    · exact alike_pure _
    · exact alike_bind (alike_use rfl) fun _ => alike_pure _
  · exact alike_pure _

theorem alike_functionTree {name other : Token} (same : other.text.toLower = name.text.toLower) (inline : Bool)
    (parameters : Parameters) (statements : List Tree) :
    Alike errors (functionTree name inline parameters statements) (functionTree other inline parameters statements) := by
  have enter (body : Tree) : Alike errors
      (modify fun symbols => (symbols.define name.text inline parameters.names parameters.required body).2)
      (modify fun symbols => (symbols.define other.text inline parameters.names parameters.required body).2) := by
    refine alike_modify fun symbols notes => ⟨notes, ?_⟩
    simp only [Symbols.define,FunctionTable.define_of_lower same]
    rfl
  unfold functionTree
  simp only [same]
  split
  · exact alike_bind (enter _) fun _ => alike_pure _
  · exact alike_bind (alike_use rfl) fun _ => alike_bind (enter _) fun _ => alike_pure _

end Tables
end Read
end CalcBasic

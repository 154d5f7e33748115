import CalcBasic.Proofs.InlineStack

/-! Emitting the same tree from two states. A rule for nodes says which functions and variables
a tree may ask for; where the states agree on those, the runs are the same, and the errors
they end with are the ones that the rule admits. -/
namespace CalcBasic.Emit
open CalcBasic.Action

/-- Both runs end alike, with such a value or with an admitted error. -/
structure Tracked (table : FunctionTable) (like : Emitter → Emitter → Prop) (stack : List String)
    (allowed : CompileError → Prop) {α : Type} (result : α → Prop) (reached swapped : Except CompileError α × Emitter) :
    Prop where
  same : swapped.1 = reached.1
  like : like reached.2 swapped.2
  expands : Expands table stack reached.2
  ok : ∀ value, reached.1 = .ok value → result value
  error : ∀ error, reached.1 = .error error → allowed error

/-- The action cannot tell states apart that are alike. -/
def Tracks (table : FunctionTable) (like : Emitter → Emitter → Prop) (stack : List String)
    (allowed : CompileError → Prop) {α : Type} (action : Emit α) (result : α → Prop) : Prop :=
  ∀ emitter other, Expands table stack emitter → like emitter other →
    Tracked table like stack allowed result (outcome action emitter) (outcome action other)

section Guided

variable {rule : Tree → Prop} {settable : String → Prop} {table : FunctionTable} {like : Emitter → Emitter → Prop}
  {stack : List String} {allowed : CompileError → Prop}

/-- An action runs in parallel with itself, with the same errors. -/
abbrev tracking (table : FunctionTable) (rule : Tree → Prop) (settable : String → Prop) (like : Emitter → Emitter → Prop)
    (allowed : CompileError → Prop) : Frame := ⟨table, rule, settable, like, allowed, fun _ _ => False⟩

theorem tracks_of_parallel {α : Type} {action : Emit α} {result : α → Prop}
    (parallel : Parallel (tracking table rule settable like allowed) stack action action result) :
    Tracks table like stack allowed action result := by
  intro emitter other expands alike
  obtain ⟨ended,kept⟩ := parallel emitter other expands alike
  generalize outcome action emitter = reached at ended kept ⊢
  generalize outcome action other = reached' at ended ⊢
  cases ended with
  | ok known like =>
    refine ⟨rfl, like, kept, ?_, by simp⟩
    rintro _ ⟨⟩
    exact known
  | error related like =>
    obtain ⟨rfl,admitted⟩ := related.resolve_right id
    refine ⟨rfl, like, kept, by simp, ?_⟩
    rintro _ ⟨⟩
    exact admitted

variable (guide : Guide rule settable table like allowed) (deep : allowed ⟨.tooDeep, none⟩)
include guide deep

theorem parallel_render (depth : Nat) (stack : List String) (settled : Bool) (tree : Tree) (covered : tree.Throughout rule) :
    Parallel (tracking table rule settable like allowed) stack (render depth settled tree) (render depth settled tree)
      fun _ => True := by
  induction depth generalizing stack settled tree with
  | zero => exact parallel_fail deep
  | succ depth lower =>
    -- no limit on the ranks is needed, since the depth is what bounds the recursion
    have below : Below (tracking table rule settable like allowed) stack (2 * tree.rank) (render depth) (render depth) :=
      ⟨fun settled part fits => lower stack settled part fits.covered,
        fun f body _ _ _ _ inside => lower (f.name :: stack) false body inside⟩
    exact parallel_construct guide below ⟨by omega, covered⟩

theorem below_tracking (depth : Nat) (stack : List String) (limit : Nat) :
    Below (tracking table rule settable like allowed) stack limit (render depth) (render depth) :=
  ⟨fun settled tree fits => parallel_render guide deep depth stack settled tree fits.covered,
    fun f body _ _ _ _ inside => parallel_render guide deep depth (f.name :: stack) false body inside⟩

theorem tracks_render (depth : Nat) (stack : List String) (settled : Bool) (tree : Tree) (covered : tree.Throughout rule) :
    Tracks table like stack allowed (render depth settled tree) fun _ => True :=
  tracks_of_parallel (parallel_render guide deep depth stack settled tree covered)

omit guide deep in
theorem outcome_code {emitter : Emitter} (start : emitter.inlining = []) {tree : Tree} {depth : Nat}
    (enough : emitter.depth tree ≤ depth) : outcome (code tree) emitter = outcome (render depth false tree) emitter := by
  have alike := alike_watched start (warranted_silent emitter.symbols.functions) (Nat.le_refl _) enough false
  rw [watched_silent] at alike
  unfold code
  rw [outcome_bind_ok (outcome_get emitter)]
  exact alike.eq

/-- The depth that is set aside hangs on the bodies in the table; more of it changes nothing. -/
theorem parallel_code_of_throughout {tree : Tree} (covered : tree.Throughout rule) :
    Parallel (tracking table rule settable like allowed) [] (code tree) (code tree) fun _ => True := by
  intro emitter other expands alike
  let depth := max (emitter.depth tree) (other.depth tree)
  have here := outcome_code expands.inlining (Nat.le_max_left _ _ : emitter.depth tree ≤ depth)
  have start : other.inlining = [] := (guide.likeness.inlining alike).trans expands.inlining
  have there := outcome_code start (Nat.le_max_right _ _ : other.depth tree ≤ depth)
  rw [here,there]
  exact parallel_render guide deep depth [] false tree covered emitter other expands alike

theorem tracks_program (chosen : rule (.var selector)) {tree : Tree} (covered : tree.Throughout rule) :
    Tracks table like [] allowed (program tree) fun _ => True := by
  refine tracks_of_parallel (parallel_program guide chosen fun part inside => parallel_code_of_throughout guide deep ?_)
  rcases inside with rfl | isChild
  · exact covered
  · exact covered.child isChild

end Guided
end CalcBasic.Emit

import CalcBasic.Proofs.ParallelRuns
import Mathlib.Data.List.Perm.Subperm

/-! Functions expanded in place. An expansion always ends: no function is expanded within
itself, so that the functions being expanded are different ones and the depth that is set
aside for a rendering is never used up. -/
namespace CalcBasic

/-- The call that a tree is rendered as. -/
def Tree.called? : Tree → Option (String × List Tree × Nat)
  | .call name arguments place => some (name, arguments, place)
  | .membership value collection => some ("array_sum", [.compare value .eq collection], 0)
  | _ => none

/-- The error at a call of a function that is being expanded. The arguments are counted
first. -/
def Emitter.selfCall? (emitter : Emitter) (tree : Tree) : Option CompileError :=
  match tree.called? with
  | some (name, arguments, line) =>
    match emitter.symbols.functions.find? name with
    | some (.user f) =>
      if emitter.inlining.contains f.name then
        if f.accepts arguments.length then some ⟨.inlinedIntoItself name, some line⟩
        else some ⟨.argumentCount name arguments.length f.describeArity, some line⟩
      else none
    | _ => none
  | none => none

namespace FunctionTable

/-- How many functions may be expanded within those of the stack. -/
def free (table : FunctionTable) (stack : List String) : Nat := table.users.countP fun f => f.name ∉ stack

theorem free_cons {table : FunctionTable} {stack : List String} {f : UserFunction} (isUser : f ∈ table.users)
    (fresh : f.name ∉ stack) : table.free (f.name :: stack) < table.free stack := by
  have fewer (users : List UserFunction) :
      users.countP (fun g => g.name ∉ f.name :: stack) ≤ users.countP fun g => g.name ∉ stack := by
    apply List.countP_mono_left
    intro g _ outside
    simp only [List.mem_cons,not_or,decide_eq_true_eq] at outside ⊢
    exact outside.2
  obtain ⟨earlier,later,split⟩ := List.append_of_mem isUser
  unfold free
  rw [split,List.countP_append,List.countP_append,List.countP_cons_of_neg (by simp),List.countP_cons_of_pos (by simpa using fresh)]
  have first := fewer earlier
  have second := fewer later
  omega

theorem free_le (table : FunctionTable) (stack : List String) : table.free stack ≤ table.users.length :=
  List.countP_le_length

end FunctionTable

namespace Emit
open CalcBasic.Action

variable {emitter : Emitter} {error : CompileError} {table : FunctionTable} {stack : List String} {depth depth' : Nat}
  {tree : Tree} {α : Type}

/-- The functions being expanded are different functions of the program. -/
structure Stacked (table : FunctionTable) (stack : List String) : Prop where
  nodup : stack.Nodup
  inline : ∀ name ∈ stack, ∃ f, table.users.find? (·.name == name) = some f ∧ f.inline = true

theorem Stacked.nil (table : FunctionTable) : Stacked table [] := ⟨.nil, nofun⟩

theorem Stacked.cons {table : FunctionTable} {stack : List String} (stacked : Stacked table stack) {f : UserFunction}
    (known : table.users.find? (·.name == f.name) = some f) (inline : f.inline = true) (fresh : f.name ∉ stack) :
    Stacked table (f.name :: stack) := by
  refine ⟨List.nodup_cons.mpr ⟨fresh, stacked.nodup⟩, fun name member => ?_⟩
  rcases List.mem_cons.mp member with rfl | older
  · exact ⟨f, known, inline⟩
  · exact stacked.inline name older

theorem Stacked.length_le (stacked : Stacked table stack) : stack.length ≤ (table.users.filter (·.inline)).length := by
  have inside : stack ⊆ (table.users.filter (·.inline)).map (·.name) := by
    intro name member
    obtain ⟨f,known,inline⟩ := stacked.inline name member
    have named := List.find?_some known
    rw [← beq_iff_eq.mp named]
    exact List.mem_map_of_mem (List.mem_filter.mpr ⟨List.mem_of_find?_eq_some known, inline⟩)
  have bounded := (List.subperm_of_subset stacked.nodup inside).length_le
  rwa [List.length_map] at bounded

/-- Rendering to a limited depth that looks at each tree, and at the state it is rendered
in, and stops where the alarm is raised. -/
def watched (alarm : Emitter → Tree → Option CompileError) : Nat → Renderer
  | 0 => fun _ _ => fail .tooDeep none
  | depth + 1 => fun settled tree => do
    match alarm (← get) tree with
    | some error => throw error
    | none => construct (watched alarm depth) settled tree

theorem outcome_watched (alarm : Emitter → Tree → Option CompileError) (depth : Nat) (settled : Bool) (tree : Tree)
    (emitter : Emitter) : outcome (watched alarm (depth + 1) settled tree) emitter =
      match alarm emitter tree with
      | some error => (.error error, emitter)
      | none => outcome (construct (watched alarm depth) settled tree) emitter := by
  rw [watched,outcome_bind_ok (outcome_get emitter)]
  split <;> rfl

theorem watched_silent (depth : Nat) : watched (fun _ _ => none) depth = render depth := by
  induction depth with
  | zero => rfl
  | succ depth ih =>
    funext settled tree
    rw [watched,ih]
    rfl

/-- An alarm that is only raised where rendering ends with an error anyway, for which its
own is swapped. -/
def Warranted (table : FunctionTable) (alarm : Emitter → Tree → Option CompileError)
    (swapped : CompileError → CompileError → Prop) : Prop :=
  ∀ emitter tree error, emitter.symbols.functions = table → Stacked table emitter.inlining →
    alarm emitter tree = some error → ∃ first : CompileError, swapped first error ∧
      ∀ render settled, outcome (construct render settled tree) emitter = (.error first, emitter)

/-- Where one state is rendered in twice, nothing need be known of what a tree asks for. -/
abbrev watching (table : FunctionTable) (swapped : CompileError → CompileError → Prop) : Frame :=
  ⟨table, fun _ => True, fun _ => True, Eq, fun error => error.fault ≠ .tooDeep, swapped⟩

theorem guide_watching (table : FunctionTable) :
    Guide (fun _ => True) (fun _ => True) table Eq fun error => error.fault ≠ .tooDeep where
  likeness := likeness_eq fun _ => trivial
  plain _ _ := trivial
  placeless _ deep := deep
  found _ same := by rw [same]
  faults _ fault := by cases fault <;> simp
  helpers _ _ _ _ _ _ := trivial
  params _ _ _ _ _ := ⟨trivial, trivial⟩
  bodies _ _ _ _ _ _ := trivial
  selects _ _ _ := trivial
  sums _ _ := trivial
  lengths _ _ _ := trivial
  counters _ _ _ := by simp
  retyped _ _ := ⟨Tree.isTarget_of_forall (fun _ => trivial) _, Tree.isTarget_of_forall (fun _ => trivial) _⟩
  assigned _ := Tree.isTarget_of_forall (fun _ => trivial) _
  targets _ _ := by simp
  sections _ same := by rw [same]
  loads _ := ⟨trivial, fun _ _ => trivial⟩

section Watching

variable {table : FunctionTable} {alarm : Emitter → Tree → Option CompileError} {swapped : CompileError → CompileError → Prop}
  {highest : Nat}

/-- Enough depth for a tree and for all functions that may be expanded below it. -/
def Suffices (table : FunctionTable) (highest : Nat) (stack : List String) (settled : Bool) (tree : Tree) (depth : Nat) : Prop :=
  2 * tree.rank + table.free stack * (2 * highest + 2) ≤ depth + settled.toNat

theorem Suffices.pos {settled : Bool} (suffice : Suffices table highest stack settled tree depth) : 0 < depth := by
  have positive := rank_pos tree
  have flag := settled.toNat_le
  unfold Suffices at suffice
  omega

theorem Suffices.more {settled : Bool} (suffice : Suffices table highest stack settled tree depth) (more : depth ≤ depth') :
    Suffices table highest stack settled tree depth' := Nat.le_trans suffice (Nat.add_le_add_right more _)

variable (bodies : ∀ f ∈ table.users, ∀ body ∈ f.body, body.rank ≤ highest)
include bodies

/-- Renderers that agree where a depth suffices agree below a limit that it leaves room for. -/
theorem below_of_suffices {renderer other : Renderer}
    (lower : ∀ stack settled tree, Stacked table stack → Suffices table highest stack settled tree depth →
      Parallel (watching table swapped) stack (renderer settled tree) (other settled tree) fun _ => True)
    (stacked : Stacked table stack) {limit : Nat} (room : limit + table.free stack * (2 * highest + 2) ≤ depth + 1) :
    Below (watching table swapped) stack limit renderer other := by
  constructor
  · intro settled tree fits
    have rank := fits.rank
    apply lower stack settled tree stacked
    unfold Suffices
    omega
  · intro f body known inline fresh isBody _
    have isUser : f ∈ table.users := List.mem_of_find?_eq_some known
    have rank := bodies f isUser body isBody
    -- One function less may be expanded, which leaves room for its body.
    have fewer := Nat.mul_le_mul_right (2 * highest + 2) (FunctionTable.free_cons isUser fresh)
    rw [Nat.succ_mul] at fewer
    apply lower _ false body (stacked.cons known inline fresh)
    unfold Suffices
    omega

theorem parallel_watched (warranted : Warranted table alarm swapped) (stack : List String) (settled : Bool) (tree : Tree)
    (stacked : Stacked table stack) (suffice : Suffices table highest stack settled tree depth)
    (suffice' : Suffices table highest stack settled tree depth') :
    Parallel (watching table swapped) stack (render depth settled tree) (watched alarm depth' settled tree) fun _ => True := by
  induction depth generalizing stack depth' settled tree with
  | zero => exact absurd suffice.pos (Nat.lt_irrefl 0)
  | succ depth ih =>
    cases depth' with
    | zero => exact absurd suffice'.pos (Nat.lt_irrefl 0)
    | succ depth' =>
      have flag := settled.toNat_le
      have positive := rank_pos tree
      unfold Suffices at suffice suffice'
      have below : Below (watching table swapped) stack (min depth depth' + 1 - table.free stack * (2 * highest + 2))
          (render depth) (watched alarm depth') := by
        have lower stack settled tree (stacked : Stacked table stack)
            (suffice : Suffices table highest stack settled tree (min depth depth')) :=
          ih stack settled tree stacked (suffice.more (Nat.min_le_left _ _)) (suffice.more (Nat.min_le_right depth depth'))
        exact below_of_suffices bodies lower stacked (by omega)
      rintro emitter _ expands rfl
      rw [outcome_watched]
      split
      · rename_i error isAlarm
        obtain ⟨first,related,ends⟩ :=
          warranted emitter tree error expands.functions (expands.inlining ▸ stacked) isAlarm
        rw [render,ends]
        exact ⟨.error (.inr related) rfl, expands⟩
      · exact parallel_construct (guide_watching table) below ⟨by omega, fun _ _ => trivial⟩ emitter emitter expands rfl

end Watching

theorem outcome_selfCall (stacked : Stacked emitter.symbols.functions emitter.inlining)
    (itself : emitter.selfCall? tree = some error) (render : Renderer)
    (settled : Bool) : outcome (construct render settled tree) emitter = (.error error, emitter) := by
  have calls {name : String} {arguments : List Tree} {line : Nat} (isCall : tree.called? = some (name, arguments, line)) :
      outcome (call render name arguments line) emitter = (.error error, emitter) := by
    unfold Emitter.selfCall? at itself
    rw [isCall] at itself
    dsimp only at itself
    unfold call
    rw [outcome_bind_ok (outcome_get emitter)]
    split at itself
    · rename_i f found
      rw [found]
      dsimp only
      unfold userCall
      split at itself
      · rename_i expanded
        obtain ⟨g,known,inline⟩ := stacked.inline f.name (List.contains_iff_mem.mp expanded)
        rw [FunctionTable.find?_name found] at known
        cases known
        split at itself
        · rename_i accepted
          cases itself
          rw [if_neg (by simp [accepted]),if_pos inline]
          unfold inlineCall
          rw [outcome_bind_ok (outcome_get emitter),if_pos expanded]
          rfl
        · rename_i refused
          cases itself
          rw [if_pos (by simpa using refused)]
          rfl
      · cases itself
    · cases itself
  cases tree with
  | call name arguments line => exact calls rfl
  | membership value collection => exact calls rfl
  | _ => cases itself

/-- Whatever is expanded, the depth that is set aside for a tree suffices. -/
theorem exists_highest (table : FunctionTable) : ∃ highest, (∀ f ∈ table.users, ∀ body ∈ f.body, body.rank ≤ highest) ∧
    ∀ emitter : Emitter, emitter.symbols.functions = table → ∀ stack settled tree,
      Suffices table highest stack settled tree (emitter.depth tree) := by
  have highest := foldl_max_le.mp (Nat.le_refl ((table.users.filterMap fun f => f.body.map Tree.rank).foldl max 0))
  refine ⟨_, fun f isUser body isBody => highest.2 body.rank ?_, ?_⟩
  · refine List.mem_filterMap.mpr ⟨f, isUser, ?_⟩
    rw [Option.mem_def.mp isBody,Option.map_some]
  · rintro emitter rfl stack settled tree
    unfold Suffices Emitter.depth
    dsimp only
    obtain ⟨root,bodies⟩ := foldl_max_le.mp (Nat.le_refl
      ((emitter.symbols.functions.users.filterMap fun f => f.body.map Tree.rank).foldl max tree.rank))
    have lower := foldl_max_le.mpr ⟨Nat.zero_le _, bodies⟩
    have fewer := Nat.mul_le_mul (emitter.symbols.functions.free_le stack)
      (Nat.add_le_add_right (Nat.mul_le_mul_left 2 lower) 2)
    rw [Nat.add_mul]
    omega

theorem Alike.eq {result : α → Prop} {first second : Except CompileError α × Emitter}
    (alike : Alike (watching table fun _ _ => False) result first second) : first = second := by
  cases alike with
  | ok known same => exact congrArg _ same
  | error related same =>
    rcases related with ⟨rfl,_⟩ | ⟨⟨⟩⟩
    exact congrArg _ same

theorem Parallel.itself {action other : Emit α} {result : α → Prop}
    (parallel : Parallel (watching table fun _ _ => False) stack action other result) :
    Parallel (watching table fun _ _ => False) stack action action result := by
  rintro emitter _ expands rfl
  obtain ⟨alike,kept⟩ := parallel emitter emitter expands rfl
  rw [← alike.eq] at alike
  exact ⟨alike, kept⟩

theorem Alike.fault_ne {result : α → Prop} {first second : Except CompileError α × Emitter}
    (alike : Alike (watching table fun _ _ => False) result first second)
    (failed : first.1 = .error error) : error.fault ≠ .tooDeep := by
  cases alike with
  | ok known same => cases failed
  | error related same =>
    cases failed
    exact (related.resolve_right id).2

theorem warranted_silent (table : FunctionTable) : Warranted table (fun _ _ => none) fun _ _ => False := by
  rintro emitter tree error _ _ ⟨⟩

theorem warranted_stacks {alarm : Emitter → Tree → Option CompileError}
    (silent : ∀ state tree, state.inlining.Nodup → state.inlining.length ≤ (table.users.filter (·.inline)).length →
      alarm state tree = none) : Warranted table alarm fun _ _ => False := by
  intro emitter tree error _ stacked raised
  rw [silent emitter tree stacked.nodup stacked.length_le] at raised
  cases raised

theorem warranted_selfCall (table : FunctionTable) (stop : Emitter → Tree → CompileError) :
    Warranted table (fun state tree => (state.selfCall? tree).map fun _ => stop state tree)
      fun first second => ∃ state call, Emitter.selfCall? state call = some first ∧ second = stop state call := by
  intro emitter tree error functions stacked raised
  subst functions
  obtain ⟨first,itself,rfl⟩ := Option.map_eq_some_iff.mp raised
  exact ⟨first, ⟨emitter, tree, itself, rfl⟩, outcome_selfCall stacked itself⟩

/-- From a state in which nothing is being expanded, renderings to different depths and
watched ones end alike. -/
theorem alike_watched (start : emitter.inlining = []) {alarm : Emitter → Tree → Option CompileError}
    {swapped : CompileError → CompileError → Prop} (warranted : Warranted emitter.symbols.functions alarm swapped)
    (enough : emitter.depth tree ≤ depth) (enough' : emitter.depth tree ≤ depth') (settled : Bool) :
    Alike (watching emitter.symbols.functions swapped) (fun _ => True) (outcome (render depth settled tree) emitter)
      (outcome (watched alarm depth' settled tree) emitter) := by
  obtain ⟨highest,bodies,spare⟩ := exists_highest emitter.symbols.functions
  have suffice := spare emitter rfl [] settled tree
  have parallel := parallel_watched bodies warranted [] settled tree (.nil _) (suffice.more enough) (suffice.more enough')
  exact (parallel emitter emitter ⟨rfl, start⟩ rfl).1

/-- Rendering to the depth that is set aside in the state at hand. -/
def coded : Renderer := fun settled tree => do render ((← get).depth tree) settled tree

theorem parallel_render_coded {highest : Nat} (bodies : ∀ f ∈ table.users, ∀ body ∈ f.body, body.rank ≤ highest)
    (enough : ∀ emitter : Emitter, emitter.symbols.functions = table → ∀ stack settled tree,
      Suffices table highest stack settled tree (emitter.depth tree)) (stack : List String) (settled : Bool) (tree : Tree)
    (stacked : Stacked table stack) (suffice : Suffices table highest stack settled tree depth) :
    Parallel (watching table fun _ _ => False) stack (render depth settled tree) (coded settled tree) fun _ => True := by
  rintro emitter _ expands rfl
  have parallel := parallel_watched bodies (warranted_silent table) stack settled tree stacked suffice
    (enough emitter expands.functions stack settled tree)
  rw [watched_silent] at parallel
  unfold coded
  rw [outcome_bind_ok (outcome_get emitter)]
  exact parallel emitter emitter expands rfl

theorem parallel_coded (stacked : Stacked table stack) (settled : Bool)
    (tree : Tree) : Parallel (watching table fun _ _ => False) stack (coded settled tree) (construct coded settled tree)
      fun _ => True := by
  obtain ⟨highest,bodies,enough⟩ := exists_highest table
  rintro emitter _ expands rfl
  have suffice := enough emitter expands.functions stack settled tree
  unfold coded
  rw [outcome_bind_ok (outcome_get emitter)]
  cases isDepth : emitter.depth tree with
  | zero =>
    rw [isDepth] at suffice
    exact absurd suffice.pos (Nat.lt_irrefl 0)
  | succ depth =>
    rw [isDepth] at suffice
    have positive := rank_pos tree
    have flag := settled.toNat_le
    unfold Suffices at suffice
    have below : Below (watching table fun _ _ => False) stack (depth + 1 - table.free stack * (2 * highest + 2))
        (render depth) coded := by
      exact below_of_suffices bodies (parallel_render_coded bodies enough) stacked (by omega)
    exact parallel_construct (guide_watching table) below ⟨by omega, fun _ _ => trivial⟩ emitter emitter expands rfl

theorem parallel_code (table : FunctionTable) (tree : Tree) :
    Parallel (watching table fun _ _ => False) [] (code tree) (code tree) fun _ => True :=
  (parallel_coded (.nil table) false tree).itself

theorem below_render (emitter : Emitter) (tree : Tree) : Below (watching emitter.symbols.functions fun _ _ => False) []
    (2 * tree.rank + 1) (render (emitter.depth tree)) (render (emitter.depth tree)) := by
  obtain ⟨highest,bodies,enough⟩ := exists_highest emitter.symbols.functions
  have lower stack settled part (stacked : Stacked emitter.symbols.functions stack)
      (suffice : Suffices emitter.symbols.functions highest stack settled part (emitter.depth tree)) :=
    (parallel_render_coded bodies enough stack settled part stacked suffice).itself
  exact below_of_suffices bodies lower (.nil _) (Nat.add_right_comm _ _ 1 ▸ Nat.succ_le_succ (enough emitter rfl [] false tree))

theorem parallel_folded (table : FunctionTable) (tree : Tree) :
    Parallel (watching table fun _ _ => False) [] (folded tree) (folded tree) fun _ => True := by
  rintro emitter _ expands rfl
  have below := below_render emitter tree
  rw [expands.functions] at below
  have fits : tree.Fits (fun _ => True) (2 * tree.rank + 1 + 1) := ⟨by omega, fun _ _ => trivial⟩
  have settles := (parallel_settle (guide_watching table) below fits).mono fun _ _ => trivial
  unfold folded
  rw [outcome_bind_ok (outcome_get emitter)]
  exact settles emitter emitter expands rfl

/-- `inline function f() { f(true) }` -/
def callsItself : UserFunction :=
  { name := "f", id := 0, inline := true, params := [], required := 0, body := some (.call "f" [.boolean true] 1) }

end Emit
end CalcBasic

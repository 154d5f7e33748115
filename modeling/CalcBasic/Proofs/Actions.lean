import CalcBasic.Diagnostic
import Mathlib.Data.List.Forall2

/-! Runs of actions that may fail and that keep their state when they do. What is
said of a run is said once for each way to put actions together, so that no proof
about reading or emitting opens the monad. -/
namespace CalcBasic

/-- Actions on a state that may end with an error. -/
abbrev Action (σ : Type) := ExceptT CompileError (StateM σ)

namespace Action

variable {σ α β : Type}

/-- What an action returns from a state, and the state it leaves behind. -/
def outcome (action : Action σ α) (state : σ) : Except CompileError α × σ := action.run.run state

theorem outcome_pure (value : α) (state : σ) :
    outcome (pure value) state = (.ok value, state) := rfl

theorem outcome_throw (error : CompileError) (state : σ) :
    outcome (throw error : Action σ α) state = (.error error, state) := rfl

theorem outcome_get (state : σ) : outcome (get : Action σ σ) state = (.ok state, state) := rfl

theorem outcome_modify (change : σ → σ) (state : σ) :
    outcome (modify change : Action σ Unit) state = (.ok (), change state) := rfl

theorem outcome_bind (first : Action σ α) (next : α → Action σ β) (state : σ) :
    outcome (first >>= next) state =
      match outcome first state with
      | (.ok value, after) => outcome (next value) after
      | (.error error, after) => (.error error, after) := by
  simp only [outcome,ExceptT.run_bind,StateT.run_bind]
  rcases StateT.run first.run state with ⟨result,after⟩
  cases result <;> rfl

theorem outcome_bind_ok {first : Action σ α} {next : α → Action σ β} {state after : σ} {value : α}
    (done : outcome first state = (.ok value, after)) :
    outcome (first >>= next) state = outcome (next value) after := by
  rw [outcome_bind,done]

theorem outcome_eq_ok {action : Action σ α} {state : σ} {value : α} (returned : (outcome action state).1 = .ok value) :
    outcome action state = (.ok value, (outcome action state).2) := Prod.ext returned rfl

theorem outcome_bind_eq_ok {first : Action σ α} {next : α → Action σ β} {state after : σ} {value : β}
    (done : outcome (first >>= next) state = (.ok value, after)) :
    ∃ given middle, outcome first state = (.ok given, middle) ∧ outcome (next given) middle = (.ok value, after) := by
  rw [outcome_bind] at done
  rcases reached : outcome first state with ⟨_ | given,middle⟩
  · rw [reached] at done
    cases done
  · rw [reached] at done
    exact ⟨given, middle, rfl, done⟩

/-! ### What every run keeps -/

/-- Every run of the action, whether it succeeds or fails, relates the state
before it to the state after it. -/
def Keeps (kept : σ → σ → Prop) (action : Action σ α) : Prop :=
  ∀ state, kept state (outcome action state).2

section Keeps

variable {kept : σ → σ → Prop} [Std.Refl kept]

theorem keeps_pure (value : α) : Keeps kept (pure value : Action σ α) :=
  fun state => Std.Refl.refl state

theorem keeps_throw (error : CompileError) : Keeps kept (throw error : Action σ α) :=
  fun state => Std.Refl.refl state

theorem keeps_get : Keeps kept (get : Action σ σ) := fun state => Std.Refl.refl state

variable [Trans kept kept kept]

omit [Std.Refl kept] in
theorem keeps_bind {first : Action σ α} {next : α → Action σ β} (start : Keeps kept first)
    (continued : ∀ value, Keeps kept (next value)) : Keeps kept (first >>= next) := by
  intro state
  have before := start state
  rw [outcome_bind]
  generalize outcome first state = reached at before ⊢
  rcases reached with ⟨_ | value,middle⟩
  · exact before
  · exact Trans.trans before (continued value middle)

end Keeps

/-! ### What successful runs return -/

/-- Every run that starts where `holds` and succeeds returns a value with the given
property, and `holds` after it. -/
def Returns (holds : σ → Prop) (action : Action σ α) (result : α → Prop) : Prop :=
  ∀ state value after, holds state → outcome action state = (.ok value, after) → result value ∧ holds after

section Returns

variable {holds : σ → Prop} {result other : α → Prop}

theorem returns_pure {value : α} (known : result value) : Returns holds (pure value) result := by
  intro state value after held done
  rw [outcome_pure] at done
  cases done
  exact ⟨known, held⟩

theorem returns_throw (error : CompileError) : Returns holds (throw error : Action σ α) result := by
  intro state value after held done
  rw [outcome_throw] at done
  cases done

theorem returns_get : Returns holds (get : Action σ σ) holds := by
  intro state value after held done
  rw [outcome_get] at done
  cases done
  exact ⟨held, held⟩

theorem returns_any (action : Action σ α) : Returns (fun _ => True) action fun _ => True :=
  fun _ _ _ _ _ => ⟨trivial, trivial⟩

theorem Returns.mono {action : Action σ α} (returns : Returns holds action result)
    (weaker : ∀ value, result value → other value) : Returns holds action other :=
  fun state value after held done => (returns state value after held done).imp (weaker value) id

theorem returns_bind {first : Action σ α} {next : α → Action σ β} {last : β → Prop}
    (start : Returns holds first result) (continued : ∀ value, result value → Returns holds (next value) last) :
    Returns holds (first >>= next) last := by
  intro state value after held done
  obtain ⟨given,middle,reached,done⟩ := outcome_bind_eq_ok done
  obtain ⟨known,again⟩ := start state given middle held reached
  exact continued given known middle value after again done

theorem returns_mapM {step : α → Action σ β} {each : α → β → Prop} (items : List α)
    (steps : ∀ item ∈ items, Returns holds (step item) (each item)) :
    Returns holds (items.mapM step) (List.Forall₂ each items) := by
  induction items with
  | nil => exact returns_pure .nil
  | cons item rest ih =>
    rw [List.mapM_cons]
    refine returns_bind (steps item (by simp)) fun value first => ?_
    exact returns_bind (ih fun other member => steps other (by simp [member])) fun values later =>
      returns_pure (.cons first later)

theorem returns_of_keeps {kept : σ → σ → Prop} {action : Action σ α} (keeps : Keeps kept action)
    (stays : ∀ before after, kept before after → holds before → holds after) :
    Returns holds action fun _ => True := by
  intro state value after held done
  have moved := keeps state
  rw [done] at moved
  exact ⟨trivial, stays state after moved held⟩

end Returns
end Action
end CalcBasic

import CalcBasic.Proofs.CodeLines
import CalcBasic.Proofs.NumeralForms
import CalcBasic.Proofs.ScalarCode

/-! Texts that last. What an action returns is told by the symbol table of any later
time, since names keep their places from the moment they have one. -/
namespace CalcBasic

namespace Code

theorem break_not_mem_natural (n : Nat) : '\n' ∉ (toString n).toList :=
  fun member => absurd (isDigit_of_mem_natural member) (by decide)

theorem natural_injective {m n : Nat} (same : toString m = toString n) : m = n := by
  have digits := congrArg String.toList same
  rw [Nat.toString_eq_ofList_toDigits,Nat.toString_eq_ofList_toDigits,String.toList_ofList,String.toList_ofList] at digits
  have values := congrArg (Nat.ofDigitChars 10 · 0) digits
  simpa [Nat.ofDigitChars_ten_toDigits] using values

end Code

theorem Symbols.break_not_mem_code (symbols : Symbols) (name : String) : '\n' ∉ (symbols.home name).code.toList := by
  have letters : ∀ letter ∈ alphabet, '\n' ∉ letter.toString.toList := by decide
  cases housed : symbols.home name with
  | letter letter => exact letters letter (home_mem housed)
  | overflow index =>
    have number := Code.break_not_mem_natural index
    simp only [Slot.code,String.toList_append,List.mem_append,number,or_false]
    decide

theorem Symbols.break_not_mem_listName (symbols : Symbols) (name : String) : '\n' ∉ ("∟" ++ (symbols.listName name).1).toList := by
  intro member
  simp only [Symbols.listName,String.toList_append,List.mem_append] at member
  rcases member with mark | lead | inside
  · exact absurd mark (by decide)
  · exact absurd lead (by decide)
  · exact @Number.forall_mem_base36 (· ≠ '\n') (by decide) _ _ inside rfl

/-! ### Temporaries -/

namespace Symbols

/-- The name of a temporary. No program can write it. -/
def temporaryName (k : Nat) : String := "@" ++ toString k

theorem toLower_temporaryName (k : Nat) : (temporaryName k).toLower = temporaryName k := by
  have digits : (toString k).toList.map Char.toLower = (toString k).toList := by
    have same := List.map_congr_left fun c (member : c ∈ (toString k).toList) =>
      Lexeme.toLower_of_isDigit (Code.isDigit_of_mem_natural member)
    rw [same,List.map_id']
  rw [temporaryName,String.toLower,← String.toList_inj,String.toList_map,String.toList_append,List.map_append,digits]
  rfl

theorem temporaryName_injective {j k : Nat} (same : temporaryName j = temporaryName k) : j = k :=
  Code.natural_injective ((String.append_right_inj "@").mp same)

end Symbols

/-! ### Types -/

namespace Symbols

theorem entry?_update (symbols : Symbols) (name other : String) {change : Variable → Variable}
    (named : ∀ v, (change v).name = v.name) : Symbols.entry? (symbols.update name change) other =
      (symbols.entry? other).map fun v => if v.name == name.toLower then change v else v := by
  have same : ((fun v : Variable => v.name == other.toLower) ∘ fun v =>
      if v.name == name.toLower then change v else v) = fun v => v.name == other.toLower := by
    funext v
    simp only [Function.comp_apply]
    split
    · rw [named]
    · rfl
  simp only [ entry?,update,List.find?_map,same]

theorem type_update (symbols : Symbols) (name other : String) {change : Variable → Variable}
    (named : ∀ v, (change v).name = v.name) (typed : ∀ v, (change v).type = v.type) :
    (symbols.update name change).type other = symbols.type other := by
  rw [type,entry?_update symbols name other named,Option.map_map,type]
  congr 2
  funext v
  simp only [Function.comp_apply]
  split
  · exact typed v
  · rfl

theorem type_setType_eq (symbols : Symbols) (name other : String) (type : ValueType) :
    (symbols.setType name type).type other =
      if name.toLower = other.toLower ∧ (symbols.entry? other).isSome then type else symbols.type other := by
  have updated : Symbols.entry? (symbols.setType name type) other =
      (symbols.entry? other).map fun v => if v.name == name.toLower then { v with type } else v :=
    entry?_update symbols name other fun _ => rfl
  rw [Symbols.type,updated,Option.map_map,Symbols.type]
  cases found : symbols.entry? other with
  | none => simp
  | some v =>
    have own : v.name = other.toLower := by simpa using List.find?_some found
    by_cases same : name.toLower = other.toLower
    · simp [own,same]
    · simp [own,same,Ne.symm same]

theorem type_setType (symbols : Symbols) {name other : String} (apart : name.toLower ≠ other.toLower)
    (type : ValueType) : (symbols.setType name type).type other = symbols.type other := by
  rw [type_setType_eq,if_neg fun both => apart both.1]

theorem type_reference (symbols : Symbols) (name other : String) :
    (symbols.reference name).type other = symbols.type other := by
  unfold reference
  split
  · exact type_update symbols name other (fun _ => rfl) fun _ => rfl
  · rename_i absent
    simp only [type, entry?,List.find?_append,List.find?_singleton]
    cases found : symbols.entries.find? (·.name == other.toLower) with
    | some v => rfl
    | none =>
      rw [Option.none_or]
      split <;> rfl

theorem type_temporary (symbols : Symbols) (other : String) : symbols.temporary.2.type other = symbols.type other :=
  type_reference { symbols with temporaries := symbols.temporaries + 1 } _ other

end Symbols

namespace Emit
open CalcBasic.Action Symbols

/-! ### What lasts -/

/-- Successful runs keep the property, and what they return fits the symbol table of
any later time. -/
def Lasts {α : Type} (holds : Emitter → Prop) (action : Emit α) (result : Symbols → α → Prop) : Prop :=
  ∀ emitter value after, holds emitter → outcome action emitter = (.ok value, after) →
    holds after ∧ Grows emitter.symbols after.symbols ∧ ∀ later, Grows after.symbols later → result later value

section Lasts

variable {α β : Type} {holds : Emitter → Prop} {result : Symbols → α → Prop} {last : Symbols → β → Prop}

theorem lasts_pure {value : α} (known : ∀ later, result later value) : Lasts holds (pure value) result := by
  intro emitter value after held done
  cases done
  exact ⟨held, .refl _, fun later _ => known later⟩

theorem lasts_throw (error : CompileError) : Lasts holds (throw error : Emit α) result := by
  intro emitter value after held done
  cases done

theorem lasts_get : Lasts holds (get : Emit Emitter) fun _ emitter => holds emitter := by
  intro emitter value after held done
  cases done
  exact ⟨held, .refl _, fun _ _ => held⟩

theorem lasts_bind {first : Emit α} {next : α → Emit β} (start : Lasts holds first result)
    (continued : ∀ value, Lasts holds (next value) fun later given => result later value → last later given) :
    Lasts holds (first >>= next) last := by
  intro emitter value after held done
  obtain ⟨given,middle,reached,done⟩ := outcome_bind_eq_ok done
  obtain ⟨heldThere,grown,fits⟩ := start emitter given middle held reached
  obtain ⟨heldAfter,further,answers⟩ := continued given middle value after heldThere done
  exact ⟨heldAfter, grown.trans further, fun later beyond => answers later beyond (fits later (further.trans beyond))⟩

/-- What is known of the first result, whatever the symbol table, helps with the rest. -/
theorem lasts_bind_fact {first : Emit α} {next : α → Emit β} {fact : α → Prop}
    (start : Lasts holds first fun _ value => fact value) (continued : ∀ value, fact value → Lasts holds (next value) last) :
    Lasts holds (first >>= next) last := by
  intro emitter value after held done
  obtain ⟨given,middle,reached,done⟩ := outcome_bind_eq_ok done
  obtain ⟨heldThere,grown,known⟩ := start emitter given middle held reached
  obtain ⟨heldAfter,further,answers⟩ := continued given (known middle.symbols (.refl _)) middle value after heldThere done
  exact ⟨heldAfter, grown.trans further, answers⟩

theorem lasts_mapM {step : α → Emit β} {each : Symbols → α → β → Prop} (items : List α)
    (steps : ∀ item ∈ items, Lasts holds (step item) fun later value => each later item value) :
    Lasts holds (items.mapM step) fun later values => List.Forall₂ (each later) items values := by
  induction items with
  | nil => exact lasts_pure fun _ => .nil
  | cons item rest ih =>
    rw [List.mapM_cons]
    refine lasts_bind (steps item (by simp)) fun value => ?_
    refine lasts_bind (ih fun other member => steps other (by simp [member])) fun values => ?_
    exact lasts_pure fun later rest first => .cons first rest

theorem lasts_mapM_singleton {step : α → Emit β} {item : α} (lasts : Lasts holds (step item) last) :
    Lasts holds ([item].mapM step) fun later values => ∃ value, last later value ∧ values = [value] := by
  rw [List.mapM_cons]
  exact lasts_bind lasts fun value => lasts_pure fun _ known => ⟨value, known, rfl⟩

theorem Lasts.mono {other : Symbols → α → Prop} {action : Emit α} (lasts : Lasts holds action result)
    (weaker : ∀ later value, result later value → other later value) : Lasts holds action other := by
  intro emitter value after held done
  obtain ⟨again,grown,fits⟩ := lasts emitter value after held done
  exact ⟨again, grown, fun later beyond => weaker later value (fits later beyond)⟩

/-! ### Up to the last part -/

/-- Like `Lasts`, for an action that ends with a part that keeps nothing. -/
def Leads {α : Type} (holds : Emitter → Prop) (action : Emit α) (final : Emitter → α → Prop) : Prop :=
  ∀ emitter value after, holds emitter → outcome action emitter = (.ok value, after) →
    Grows emitter.symbols after.symbols ∧ final after value

theorem leads_bind {first : Emit α} {next : α → Emit β} {final : Emitter → β → Prop} (start : Lasts holds first result)
    (continued : ∀ value, Leads holds (next value) fun after given => result after.symbols value → final after given) :
    Leads holds (first >>= next) final := by
  intro emitter value after held done
  obtain ⟨given,middle,reached,done⟩ := outcome_bind_eq_ok done
  obtain ⟨heldThere,grown,fits⟩ := start emitter given middle held reached
  obtain ⟨further,ends⟩ := continued given middle value after heldThere done
  exact ⟨grown.trans further, ends (fits after.symbols further)⟩

theorem leads_bind_fact {first : Emit α} {next : α → Emit β} {fact : α → Prop} {final : Emitter → β → Prop}
    (start : Lasts holds first fun _ value => fact value) (continued : ∀ value, fact value → Leads holds (next value) final) :
    Leads holds (first >>= next) final := by
  intro emitter value after held done
  obtain ⟨given,middle,reached,done⟩ := outcome_bind_eq_ok done
  obtain ⟨heldThere,grown,known⟩ := start emitter given middle held reached
  obtain ⟨further,ends⟩ := continued given (known middle.symbols (.refl _)) middle value after heldThere done
  exact ⟨grown.trans further, ends⟩

theorem leads_last {action : Emit α} (moves : Keeps Moves action) (finish : α → β) :
    Leads holds (action >>= fun value => pure (finish value)) fun after given =>
      ∃ value middle, outcome action middle = (.ok value, after) ∧ given = finish value := by
  intro emitter given after held done
  obtain ⟨value,middle,reached,done⟩ := outcome_bind_eq_ok done
  cases done
  have moved := moves emitter
  rw [reached] at moved
  exact ⟨(extends_of_emit _ _ moved.symbols).grows, value, emitter, reached, rfl⟩

theorem Leads.mono {action : Emit α} {final other : Emitter → α → Prop} (leads : Leads holds action final)
    (weaker : ∀ after value, final after value → other after value) : Leads holds action other := by
  intro emitter value after held done
  obtain ⟨grown,ends⟩ := leads emitter value after held done
  exact ⟨grown, weaker after value ends⟩

end Lasts

end Emit
end CalcBasic

import CalcBasic.Proofs.Lasting

/-! Uses of variables. The reader counts a use as soon as it meets a name, before it is
known what becomes of the tokens around it. Still every use that is counted ends up in
the tree, and every place of the tree that names a variable has been counted once. -/
namespace CalcBasic

namespace Tree

def isVariable (name : String) : Tree → Bool
  | .var other => other == name
  | _ => false

def params : Tree → List String
  | .function _ params _ _ => params
  | _ => []

/-- How often the variable stands in the tree, bodies of functions included. -/
def variableCount (name : String) (tree : Tree) : Nat := (tree :: tree.descendants).countP (isVariable name)

/-- How often the name stands in parameter lists of the tree. -/
def parameterCount (name : String) (tree : Tree) : Nat :=
  ((tree :: tree.descendants).flatMap params).count name

def mentions (name : String) (tree : Tree) : Nat := tree.variableCount name + tree.parameterCount name

variable {name : String}

theorem variableCount_eq (tree : Tree) : tree.variableCount name =
    (isVariable name tree).toNat + (tree.children.map (variableCount name)).sum := by
  rw [variableCount,List.countP_cons,descendants_eq,List.countP_flatMap,Nat.add_comm]
  cases isVariable name tree <;> rfl

theorem parameterCount_eq (tree : Tree) : tree.parameterCount name =
    tree.params.count name + (tree.children.map (parameterCount name)).sum := by
  rw [parameterCount,List.flatMap_cons,List.count_append,descendants_eq,List.flatMap_assoc,List.count_flatMap]
  rfl

theorem mentions_eq (tree : Tree) : tree.mentions name =
    (isVariable name tree).toNat + tree.params.count name + (tree.children.map (mentions name)).sum := by
  have both : (tree.children.map (mentions name)).sum =
      (tree.children.map (variableCount name)).sum + (tree.children.map (parameterCount name)).sum :=
    List.sum_map_add
  rw [mentions,variableCount_eq,parameterCount_eq,both]
  omega

theorem mentions_bare {tree : Tree} (bare : tree.isBare = true) :
    tree.mentions name = (tree.children.map (mentions name)).sum := by
  rw [mentions_eq]
  cases tree with
  | var | function => cases bare
  | _ => simp [isVariable,params]

theorem mentions_var (other : String) : (Tree.var other).mentions name = if other = name then 1 else 0 := by
  rw [mentions_eq]
  by_cases same : other = name <;> simp [isVariable,params,same]

end Tree

namespace Symbols

theorem uses_update (symbols : Symbols) (name other : String) {change : Variable → Variable}
    (named : ∀ v, (change v).name = v.name) : (symbols.update name change).uses other =
      ((symbols.entry? other).map fun v => (if v.name == name.toLower then change v else v).uses).getD 0 := by
  rw [uses,entry?_update symbols name other named,Option.map_map]
  rfl

theorem uses_reference (symbols : Symbols) (name other : String) : (symbols.reference name).uses other =
    symbols.uses other + if name.toLower = other.toLower then 1 else 0 := by
  unfold reference
  split
  · rename_i entry found
    refine (uses_update symbols name other (by intro v; rfl)).trans ?_
    rw [uses]
    by_cases same : name.toLower = other.toLower
    · have own : symbols.entry? other = some entry := by rw [← found, entry?, entry?,same]
      have named : entry.name = name.toLower := by simpa using List.find?_some found
      simp [own,named,same]
    · cases present : symbols.entry? other with
      | none => simp [same]
      | some v =>
        have named : v.name = other.toLower := by simpa using List.find?_some present
        have different : v.name ≠ name.toLower := by simpa [named] using Ne.symm same
        simp [different,same]
  · rename_i absent
    simp only [uses, entry?,List.find?_append,List.find?_singleton]
    cases present : symbols.entries.find? (·.name == other.toLower) with
    | some v =>
      have different : name.toLower ≠ other.toLower := by
        intro same
        rw [ entry?,same,present] at absent
        cases absent
      simp [different]
    | none => by_cases same : name.toLower = other.toLower <;> simp [same]

theorem uses_setType (symbols : Symbols) (name other : String) (type : ValueType) :
    (symbols.setType name type).uses other = symbols.uses other := by
  refine (uses_update symbols name other (by intro v; rfl)).trans ?_
  rw [uses]
  congr 2
  funext v
  split <;> rfl

end Symbols

namespace Read
open CalcBasic.Action

/-! ### Counting while reading -/

/-- A successful run adds as many uses of the name as its result mentions it, apart from
those that are `due` since they were counted before the run. -/
def Counts {α : Type} (name : String) (due : Nat) (action : Read α) (mentioned : α → Nat) : Prop :=
  ∀ symbols value after, outcome action symbols = (.ok value, after) →
    after.uses name + due = symbols.uses name + mentioned value

section Counts

variable {α β : Type} {name : String} {due : Nat}

theorem counts_modify {change : Symbols → Symbols} (same : ∀ symbols, (change symbols).uses name = symbols.uses name) :
    Counts name due (modify change : Read Unit) fun _ => due := by
  intro symbols result after done
  cases done
  rw [same]

theorem counts_bind {first : Read α} {next : α → Read β} {given : α → Nat} {mentioned : β → Nat}
    (start : Counts name due first given) (continued : ∀ value, Counts name (given value) (next value) mentioned) :
    Counts name due (first >>= next) mentioned := by
  intro symbols result after done
  obtain ⟨value,middle,reached,done⟩ := outcome_bind_eq_ok done
  have before := start symbols value middle reached
  have later := continued value middle result after done
  omega

theorem counts_reference (other : String) : Counts name due (reference other) fun key =>
    due + (Tree.var key).mentions name.toLower := by
  intro symbols key after done
  cases done
  dsimp only
  rw [Symbols.uses_reference,Tree.mentions_var]
  omega

end Counts

theorem accounts_uses {name : String} (ordinary : name.toLower ≠ selector) :
    Accounts (Tree.mentions name.toLower) (Counts name) where
  expressions := {
    bare := Tree.mentions_bare
    pure same := by
      intro symbols result after done
      cases done
      rw [same]
    fail _ _ := by
      intro symbols result after done
      cases done
    bind := counts_bind
    behind counts := by
      intro symbols value after done
      have counted := counts symbols value after done
      dsimp only
      omega
    look _ each := by
      refine counts_bind (fun symbols result after done => ?_) each
      cases done
      rfl
    remark _ _ _ := counts_modify fun _ => rfl
    reference := counts_reference
    select := counts_modify fun symbols => by
      have lower : selector.toLower = selector := by cbv
      rw [Symbols.uses_reference,lower,if_neg ordinary.symm,Nat.add_zero]
    listType key := counts_modify fun symbols => Symbols.uses_setType symbols key name .list }
  function _ params body _ := by
    have named : (params.map fun param => (Tree.var param).mentions name.toLower).sum = params.count name.toLower := by
      induction params with
      | nil => rfl
      | cons param rest ih =>
        rw [List.map_cons,List.sum_cons,ih,Tree.mentions_var,List.count_cons]
        simp [Nat.add_comm]
    rw [named,Tree.mentions_eq]
    simp [Tree.isVariable,Tree.params]
  remark _ _ := counts_modify fun _ => rfl
  declare _ _ := counts_modify fun _ => rfl
  define _ _ _ _ _ := counts_modify fun _ => rfl

end Read

/-- After a program is read, the number of uses of a variable is the number of places
where the tree names it: as a variable, or as a parameter of a function. -/
theorem uses_eq_places (settings : Settings) (tokens : List Token) (tree : Tree) (symbols : Symbols) (name : String)
    (ordinary : name.toLower ≠ selector) (read : Symbols.read {} settings tokens = (.ok tree, symbols)) :
    symbols.uses name = tree.variableCount name.toLower + tree.parameterCount name.toLower := by
  have counted := (Read.accounts_uses ordinary).program settings.dumpUnknown tokens {} tree symbols read
  have unused : Symbols.uses {} name = 0 := rfl
  rw [unused,Nat.add_zero,Nat.zero_add] at counted
  exact counted

/-- `function f B = a { b }` -/
def defaulted : List Token :=
  [⟨.keyword,"function",1⟩, ⟨.identifier,"f",1⟩, ⟨.identifier,"B",1⟩, ⟨.assign,"=",1⟩, ⟨.identifier,"a",1⟩,
    ⟨.blockOpen,"\x7b",1⟩, ⟨.identifier,"b",1⟩, ⟨.blockClose,"\x7d",1⟩]

theorem uses_eq_places_defaulted : ∃ tree symbols, Symbols.read {} {} defaulted = (.ok tree, symbols) ∧
    "B".toLower ≠ selector ∧ symbols.uses "B" = 4 ∧
      symbols.uses "B" = tree.variableCount "B".toLower + tree.parameterCount "B".toLower := by
  have ordinary : "B".toLower ≠ selector := by decide +kernel
  have counted : (match Symbols.read {} {} defaulted with
      | (.ok _, symbols) => symbols.uses "B"
      | (.error _, _) => 0) = 4 := by
    decide +kernel
  generalize read : Symbols.read {} {} defaulted = result at counted
  rcases result with ⟨_ | tree,symbols⟩
  · cases counted
  · exact ⟨tree, symbols, rfl, ordinary, counted, uses_eq_places {} defaulted tree symbols "B" ordinary read⟩

end CalcBasic

import CalcBasic.Proofs.LoweredCalls
import CalcBasic.Proofs.RangeLoops

/-! The types in force while an assignment is written. The target takes the type of the value
before the value is rendered, so the value reads the target where its new type puts it. The
code is that of the state before the assignment if the value does not mention the target,
or if both types are stored alike. -/
namespace CalcBasic

variable {name text : String} {a b c d : ValueType} {depth : Nat} {settled : Bool}

/-! ### Variables of a tree -/

def Tree.named : Tree → List String
  | .var name => [name]
  | _ => []

/-- The variables that a node names. -/
def Tree.reads : Tree → List String
  | .var name => [name]
  | .function _ params _ inline => if inline then [] else selector :: params
  | _ => []

/-- The variables to which a node may give another type. -/
def Tree.targets : Tree → List String
  | .assign target _ _ _ => target.named
  | .forEach counter collection _ => if collection.isCounted then [] else counter.named ++ collection.named
  | _ => []

/-- The variables that a call names besides its arguments. -/
def UserFunction.reads (f : UserFunction) : List String := if f.inline then f.params else [selector]

def UserFunction.targets (f : UserFunction) : List String := if f.inline then f.params else []

/-- The names that rendering a tree comes upon: in the tree itself, in the bodies that are
expanded in place, in calls, and as temporaries. -/
inductive Touches (own : Tree → List String) (called : UserFunction → List String) (symbols : Symbols) (tree : Tree) :
    String → Prop
  | node {node : Tree} {name : String} (inside : node ∈ tree :: tree.descendants) (member : name ∈ own node) :
      Touches own called symbols tree name
  | body {callee name : String} {f : UserFunction} {body node : Tree} (reached : Reaches symbols.functions tree callee)
      (found : symbols.functions.find? callee = some (.user f)) (inline : f.inline = true) (isBody : f.body = some body)
      (inside : node ∈ body :: body.descendants) (member : name ∈ own node) : Touches own called symbols tree name
  | call {callee name : String} {f : UserFunction} (reached : Reaches symbols.functions tree callee)
      (found : symbols.functions.find? callee = some (.user f)) (member : name ∈ called f) : Touches own called symbols tree name
  | temporary {k : Nat} (coming : symbols.temporaries ≤ k) : Touches own called symbols tree (Symbols.temporaryName k)

/-- Rendering the tree names the variable. -/
def Mentions (symbols : Symbols) (tree : Tree) (name : String) : Prop :=
  ∃ given, Touches Tree.reads UserFunction.reads symbols tree given ∧ given.toLower = name.toLower

/-- Rendering the tree may give the variable another type. -/
def Retypes (symbols : Symbols) (tree : Tree) (name : String) : Prop :=
  ∃ given, Touches Tree.targets UserFunction.targets symbols tree given ∧ given.toLower = name.toLower

/-- What the node asks for is asked for by the tree. -/
structure IsAsked (symbols : Symbols) (tree node : Tree) : Prop where
  callees : ∀ name ∈ node.callees, Reaches symbols.functions tree name
  reads : ∀ name ∈ node.reads, Touches Tree.reads UserFunction.reads symbols tree name
  targets : ∀ name ∈ node.targets, Touches Tree.targets UserFunction.targets symbols tree name

theorem isAsked_throughout (symbols : Symbols) (tree : Tree) : tree.Throughout (IsAsked symbols tree) :=
  fun _ inside => ⟨fun _ asked => .node inside asked, fun _ member => .node inside member, fun _ member => .node inside member⟩

theorem IsAsked.var {symbols : Symbols} {tree : Tree} {name : String}
    (touched : Touches Tree.reads UserFunction.reads symbols tree name) : IsAsked symbols tree (.var name) where
  callees := nofun
  reads _ member := by
    rw [List.mem_singleton.mp member]
    exact touched
  targets := nofun

theorem Tree.isTarget_of_named {settable : String → Prop} {target : Tree} (all : ∀ name ∈ target.named, settable name) :
    target.IsTarget settable := by
  cases target with
  | var name => exact all name (List.mem_singleton_self name)
  | _ => trivial

/-! ### Tables without types -/

namespace Symbols

/-- The table with the types of the variables left out. -/
def bare (symbols : Symbols) : Symbols :=
  { symbols with entries := symbols.entries.map fun v => { v with type := .number } }

theorem entry?_bare (symbols : Symbols) (name : String) :
    Symbols.entry? symbols.bare name = (symbols.entry? name).map fun v => { v with type := .number } := by
  simp only [ entry?,bare,List.find?_map,Function.comp_def]

theorem bare_update (symbols : Symbols) (name : String) {change : Variable → Variable}
    (apart : ∀ v : Variable, change { v with type := .number } = { change v with type := .number }) :
    (symbols.update name change).bare = symbols.bare.update name change := by
  simp only [update,bare,List.map_map,Symbols.mk.injEq,and_true]
  refine List.map_congr_left fun v _ => ?_
  simp only [Function.comp_apply]
  split
  · exact (apart v).symm
  · rfl

theorem bare_setType (symbols : Symbols) (name : String) (type : ValueType) : (symbols.setType name type).bare = symbols.bare := by
  simp only [setType,update,bare,List.map_map,Symbols.mk.injEq,and_true]
  refine List.map_congr_left fun v _ => ?_
  simp only [Function.comp_apply]
  split <;> rfl

theorem reference_bare (symbols : Symbols) (name : String) : symbols.bare.reference name = (symbols.reference name).bare := by
  unfold reference
  rw [entry?_bare]
  cases symbols.entry? name with
  | none => simp [bare]
  | some v => exact (bare_update symbols name fun _ => rfl).symm

theorem temporary_bare (symbols : Symbols) : symbols.bare.temporary = (symbols.temporary.1, symbols.temporary.2.bare) :=
  Prod.ext rfl (reference_bare { symbols with temporaries := symbols.temporaries + 1 } _)

theorem insertByUses_bare (v : Variable) (entries : List Variable) :
    insertByUses { v with type := .number } (entries.map fun w => { w with type := .number }) =
      (insertByUses v entries).map fun w => { w with type := .number } := by
  induction entries with
  | nil => rfl
  | cons w rest ih =>
    simp only [insertByUses,List.map_cons]
    split
    · rw [ih,List.map_cons]
    · rfl

/-- Types do not count for the order of the variables. -/
theorem ranked_bare (entries : List Variable) : ranked (entries.map fun v => { v with type := .number }) = ranked entries := by
  have folded (sorted : List Variable) :
      (entries.map fun v => { v with type := .number }).foldl (fun sorted v => insertByUses v sorted)
        (sorted.map fun v => { v with type := .number }) =
          (entries.foldl (fun sorted v => insertByUses v sorted) sorted).map fun v => { v with type := .number } := by
    induction entries generalizing sorted with
    | nil => rfl
    | cons v rest ih => rw [List.map_cons,List.foldl_cons,List.foldl_cons,insertByUses_bare,ih]
  unfold ranked
  rw [← List.map_nil,folded [],List.map_map]
  rfl

theorem slot_bare (symbols : Symbols) (name : String) :
    symbols.bare.slot name = ((symbols.slot name).1, (symbols.slot name).2.bare) := by
  have same : ranked symbols.bare.entries = ranked symbols.entries := ranked_bare symbols.entries
  unfold slot
  rw [same]
  rfl

theorem textName_bare (symbols : Symbols) (name : String) :
    symbols.bare.textName name = ((symbols.textName name).1, (symbols.textName name).2.bare) := by
  unfold textName
  have same : symbols.bare.texts = symbols.texts := rfl
  rw [same]
  dsimp only
  split <;> rfl

theorem type_textName (symbols : Symbols) (name other : String) :
    (symbols.textName name).2.type other = symbols.type other := by
  unfold textName
  dsimp only
  split <;> rfl

end Symbols

def Emitter.bare (emitter : Emitter) : Emitter := emitter.holding emitter.symbols.bare

/-! ### States of similar types -/

/-- The states differ in the types of variables only. Those that the tree names are stored
alike, and those that it does not retype have the given type. -/
structure Similar (symbols : Symbols) (tree : Tree) (types : String → ValueType) (emitter other : Emitter) : Prop where
  bare : other.bare = emitter.bare
  stored : ∀ name, Touches Tree.reads UserFunction.reads symbols tree name →
    (other.symbols.type name).storage = (emitter.symbols.type name).storage
  kept : ∀ name, ¬ Retypes symbols tree name → emitter.symbols.type name = types name
  later : symbols.temporaries ≤ emitter.symbols.temporaries

section Similar

variable {symbols : Symbols} {tree : Tree} {types : String → ValueType} {emitter other : Emitter}

theorem Similar.symbols_bare (similar : Similar symbols tree types emitter other) :
    other.symbols.bare = emitter.symbols.bare := congrArg Emitter.symbols similar.bare

theorem Similar.functions (similar : Similar symbols tree types emitter other) :
    other.symbols.functions = emitter.symbols.functions := (congrArg Symbols.functions similar.symbols_bare :)

theorem Similar.isSome_entry? (similar : Similar symbols tree types emitter other) (name : String) :
    (Symbols.entry? other.symbols name).isSome = (Symbols.entry? emitter.symbols name).isSome := by
  have same := congrArg (fun symbols => (Symbols.entry? symbols name).isSome) similar.symbols_bare
  simpa only [Symbols.entry?_bare,Option.isSome_map] using same

theorem answers_similar {α : Type} {ask : Symbols → α × Symbols}
    (same : ∀ symbols, ask symbols.bare = ((ask symbols).1, (ask symbols).2.bare))
    (typed : ∀ symbols name, (ask symbols).2.type name = symbols.type name)
    (grows : ∀ symbols, symbols.temporaries ≤ (ask symbols).2.temporaries) : Answers (Similar symbols tree types) ask := by
  intro emitter other similar
  have answered := congrArg ask similar.symbols_bare
  rw [same,same,Prod.mk.injEq] at answered
  refine ⟨answered.1, ?_, fun name touched => ?_, fun name unset => ?_, similar.later.trans (grows _)⟩
  · exact (congrArg₂ Emitter.holding similar.bare answered.2 :)
  · simpa only [Emitter.holding,typed] using similar.stored name touched
  · simpa only [Emitter.holding,typed] using similar.kept name unset

theorem changes_setType (settable : Retypes symbols tree name) {choose : Symbols → ValueType}
    (alike : ∀ {emitter other}, Similar symbols tree types emitter other →
      (choose other.symbols).storage = (choose emitter.symbols).storage) :
    Changes (Similar symbols tree types) fun symbols => symbols.setType name (choose symbols) := by
  intro emitter other similar
  refine ⟨?_, fun given touched => ?_, fun given unset => ?_, similar.later⟩
  · have same := similar.symbols_bare
    rw [← Symbols.bare_setType other.symbols name (choose other.symbols),
      ← Symbols.bare_setType emitter.symbols name (choose emitter.symbols)] at same
    exact (congrArg₂ Emitter.holding similar.bare same :)
  · by_cases same : name.toLower = given.toLower
    · simp only [Emitter.holding]
      rw [← Symbols.type_of_lower _ same,← Symbols.type_of_lower _ same,Symbols.type_setType_self,Symbols.type_setType_self,
        similar.isSome_entry? name]
      split
      · exact alike similar
      · rfl
    · simpa only [Emitter.holding,Symbols.type_setType _ same] using similar.stored given touched
  · have apart : name.toLower ≠ given.toLower := by
      intro same
      obtain ⟨target,touched,isTarget⟩ := settable
      exact unset ⟨target, touched, isTarget.trans same⟩
    simpa only [Emitter.holding,Symbols.type_setType _ apart] using similar.kept given unset

theorem ValueType.storage_join (first : a.storage = b.storage) (second : c.storage = d.storage) :
    (if [a, c].contains .list then ValueType.list else if [a, c].contains .text then .text else .number) =
      if [b, d].contains .list then ValueType.list else if [b, d].contains .text then .text else .number := by
  cases a <;> cases b <;> cases first <;> cases c <;> cases d <;> cases second <;> rfl

theorem ValueType.storage_compare (first : a.storage = b.storage) (second : c.storage = d.storage) :
    (if a == .list || c == .list then ValueType.list else .boolean) = if b == .list || d == .list then .list else .boolean := by
  cases a <;> cases b <;> cases first <;> cases c <;> cases d <;> cases second <;> rfl

theorem Similar.type (similar : Similar symbols tree types emitter other) {part : Tree}
    (covered : part.Throughout (IsAsked symbols tree)) :
    (part.type other.symbols).storage = (part.type emitter.symbols).storage := by
  cases part with
  | arith left op right =>
    have first := similar.type (covered.child (by simp) : left.Throughout _)
    have second := similar.type (covered.child (by simp) : right.Throughout _)
    exact congrArg ValueType.storage (ValueType.storage_join first second)
  | compare left op right =>
    have first := similar.type (covered.child (by simp) : left.Throughout _)
    have second := similar.type (covered.child (by simp) : right.Throughout _)
    exact congrArg ValueType.storage (ValueType.storage_compare first second)
  | var name => exact similar.stored name (covered.root.reads name (List.mem_singleton_self name))
  | call name arguments line => simp only [Tree.type,similar.functions]
  | _ => rfl
termination_by sizeOf part

theorem likeness_similar : Likeness (IsAsked symbols tree) (Retypes symbols tree) (Similar symbols tree types) where
  modern similar := (congrArg Emitter.modern similar.bare :)
  folding similar := (congrArg Emitter.folding similar.bare :)
  program similar := (congrArg Emitter.program similar.bare :)
  inlining similar := (congrArg Emitter.inlining similar.bare :)
  unfolded folding similar :=
    ⟨congrArg (fun emitter => { emitter with folding }) similar.bare, similar.stored, similar.kept, similar.later⟩
  expanding inlining similar :=
    ⟨congrArg (fun emitter => { emitter with inlining }) similar.bare, similar.stored, similar.kept, similar.later⟩
  temporary := answers_similar Symbols.temporary_bare Symbols.type_temporary fun symbols => by
    rw [Symbols.temporaries_temporary]
    exact Nat.le_succ _
  slot name := answers_similar (Symbols.slot_bare · name) (fun _ _ => rfl) fun _ => Nat.le_refl _
  listName name := answers_similar (fun _ => rfl) (fun _ _ => rfl) fun _ => Nat.le_refl _
  textName name := answers_similar (Symbols.textName_bare · name) (Symbols.type_textName · name) fun symbols => by
    unfold Symbols.textName
    dsimp only
    split <;> exact Nat.le_refl _
  remark note _ _ similar := by
    have same := congrArg (·.remark note none) similar.symbols_bare
    exact ⟨(congrArg₂ Emitter.holding similar.bare same :), similar.stored, similar.kept, similar.later⟩
  setList settable := changes_setType settable fun _ => rfl
  setType settable covered := changes_setType settable fun similar => similar.type covered
  stored root similar := similar.stored _ (root.reads _ (List.mem_singleton_self _))
  fresh similar := ⟨.var (.temporary similar.later), _, .temporary similar.later, rfl⟩

theorem guide_similar : Guide (IsAsked symbols tree) (Retypes symbols tree) symbols.functions (Similar symbols tree types)
    fun _ => True where
  likeness := likeness_similar
  plain node isPlain := by
    cases node with
    | var | call | membership | assign | forEach | function => cases isPlain
    | _ => exact ⟨nofun, nofun, nofun⟩
  placeless _ _ := trivial
  found _ similar := by rw [similar.functions]
  faults _ _ := trivial
  helpers root found expands helper isHelper more := by
    refine ⟨fun name member => ?_, nofun, nofun⟩
    rw [List.mem_singleton.mp member]
    exact .expansion (root.callees _ (List.mem_singleton_self _)) found expands isHelper
  params root found inline param member := by
    have reached := root.callees _ (List.mem_singleton_self _)
    refine ⟨.var (.call reached found ?_), param, .call reached found ?_, rfl⟩
    · rwa [UserFunction.reads,if_pos inline]
    · rwa [UserFunction.targets,if_pos inline]
  bodies root found inline isBody node inside := by
    have reached := root.callees _ (List.mem_singleton_self _)
    refine ⟨fun name asked => ?_, fun name member => ?_, fun name member => ?_⟩
    · exact .body reached found inline isBody inside asked
    · exact .body reached found inline isBody inside member
    · exact .body reached found inline isBody inside member
  selects root found outOfLine := by
    refine .var (.call (root.callees _ (List.mem_singleton_self _)) found ?_)
    simp [UserFunction.reads,outOfLine]
  sums root argument := ⟨root.callees, nofun, nofun⟩
  lengths root listed list := ⟨by simpa [Tree.callees,listed] using root.callees, nofun, nofun⟩
  counters _ _ _ := trivial
  retyped root listed := by
    have each := root.targets
    rw [Tree.targets,listed] at each
    exact ⟨Tree.isTarget_of_named fun name member => ⟨name, each name (List.mem_append_left _ member), rfl⟩,
      Tree.isTarget_of_named fun name member => ⟨name, each name (List.mem_append_right _ member), rfl⟩⟩
  assigned root := Tree.isTarget_of_named fun name member => ⟨name, root.targets name member, rfl⟩
  targets _ _ := trivial
  sections _ similar := by rw [similar.functions]
  loads root :=
    ⟨.var (root.reads _ List.mem_cons_self), fun _ member => .var (root.reads _ (List.mem_cons_of_mem _ member))⟩

end Similar

/-! ### Assignments -/

/-- The state in which the variable has taken the type. -/
def Emitter.typing (emitter : Emitter) (name : String) (type : ValueType) : Emitter :=
  emitter.holding (emitter.symbols.setType name type)

theorem similar_typing (emitter : Emitter) (tree : Tree) {type : ValueType}
    (alike : Mentions emitter.symbols tree name → type.storage = (emitter.symbols.type name).storage) :
    Similar emitter.symbols tree (emitter.typing name type).symbols.type (emitter.typing name type) emitter where
  bare := (congrArg (Emitter.holding emitter) (emitter.symbols.bare_setType name type).symm :)
  stored given touched := by
    by_cases same : name.toLower = given.toLower
    · have typed := emitter.symbols.type_setType_self name type
      rw [← Symbols.type_of_lower _ same,← Symbols.type_of_lower _ same,Emitter.typing,Emitter.holding,typed]
      split
      · exact (alike ⟨given, touched, same.symm⟩).symm
      · rename_i absent
        rw [Symbols.type,Option.not_isSome_iff_eq_none.mp absent]
        rfl
    · rw [Emitter.typing,Emitter.holding,Symbols.type_setType _ same]
  kept _ _ := rfl
  later := Nat.le_refl _

open CalcBasic.Action in
theorem Similar.render {tree : Tree} {types : String → ValueType} {emitter other after : Emitter} {symbols : Symbols}
    (similar : Similar symbols tree types emitter other) (functions : emitter.symbols.functions = symbols.functions)
    (done : outcome (Emit.render depth settled tree) emitter = (.ok text, after)) :
    (outcome (Emit.render depth settled tree) other).1 = .ok text ∧
      ∀ name, ¬ Retypes symbols tree name → after.symbols.type name = types name := by
  have tracked := Emit.tracks_render guide_similar trivial depth emitter.inlining settled tree (isAsked_throughout symbols tree)
    emitter other ⟨functions, rfl⟩ similar
  rw [done] at tracked
  exact ⟨tracked.same, tracked.like.kept⟩

open CalcBasic.Action in
theorem outcome_variable {emitter after : Emitter}
    (done : outcome (Emit.render depth settled (.var name)) emitter = (.ok text, after)) :
    outcome (Emit.variableCode name) emitter = (.ok text, after) := by
  cases depth with
  | zero => cases done
  | succ depth => exact done

open CalcBasic.Action in
/-- The target takes the type of the value first, then the value is rendered, and the target
last. Unless the value may give it another one, the target is still of that type. The value
has the code that it has before the assignment, as long as it does not mention the target
or the target is stored as before. -/
theorem assignment_retypes_first (emitter after : Emitter) (depth line : Nat) (settled : Bool) (name text : String)
    (mode : Store) (given : Tree) (whole : (Emit.assignedValue (.var name) mode given).range? = none)
    (done : outcome (Emit.render (depth + 1) settled (.assign (.var name) mode given line)) emitter = (.ok text, after)) :
    let value := Emit.assignedValue (.var name) mode given
    let type := value.type emitter.symbols
    ∃ code place middle, text = Code.trimClosers code ++ "→" ++ place ∧
      outcome (Emit.render depth false value) (emitter.typing name type) = (.ok code, middle) ∧
      outcome (Emit.variableCode name) middle = (.ok place, after) ∧
      (¬ Retypes emitter.symbols value name →
        middle.symbols.type name = if (emitter.symbols.entry? name).isSome then type else .number) ∧
      ((Mentions emitter.symbols value name → type.storage = (emitter.symbols.type name).storage) →
        (outcome (Emit.render depth false value) emitter).1 = .ok code) := by
  intro value type
  have assigned : outcome (Emit.assign (Emit.render depth) (.var name) mode given line) emitter = (.ok text, after) := done
  have stored : outcome (Emit.store (Emit.render depth) (.var name) value) (emitter.typing name type) = (.ok text, after) := by
    unfold Emit.assign at assigned
    dsimp only at assigned
    rwa [whole] at assigned
  unfold Emit.store at stored
  obtain ⟨code,middle,rendered,stored⟩ := outcome_bind_eq_ok stored
  obtain ⟨place,last,placed,stored⟩ := outcome_bind_eq_ok stored
  rw [outcome_pure,Prod.mk.injEq,Except.ok.injEq] at stored
  obtain ⟨rfl,rfl⟩ := stored
  refine ⟨code, place, middle, rfl, rendered, outcome_variable placed, fun unset => ?_, fun alike => ?_⟩
  · have itself : Similar emitter.symbols value (emitter.typing name type).symbols.type (emitter.typing name type)
        (emitter.typing name type) := ⟨rfl, fun _ _ => rfl, fun _ _ => rfl, Nat.le_refl _⟩
    rw [(itself.render rfl rendered).2 name unset]
    exact emitter.symbols.type_setType_self name type
  · exact ((similar_typing emitter value alike).render rfl rendered).1

/-- A number that grows by the sum of a list is read as a number, before and after. -/
theorem assignment_retypes_first_tally :
    let symbols : Symbols := { entries := [⟨"n", 2, .number⟩, ⟨"xs", 1, .list⟩] }
    let start : Emitter := { symbols, modern := true, folding := true, program := "P" }
    let value : Tree := .arith (.var "n") .add (.call "array_sum" [.var "xs"] 1)
    ∃ code place middle after, "A+sum(∟ARR1→A" = Code.trimClosers code ++ "→" ++ place ∧
      (Action.outcome (Emit.render 4 false value) start).1 = .ok code ∧ middle.symbols.type "n" = .number ∧
      Action.outcome (Emit.variableCode "n") middle = (.ok place, after) := by
  intro symbols start value
  let assignment : Tree := .assign (.var "n") (.update .add) (.call "array_sum" [.var "xs"] 1) 1
  have done : Action.outcome (Emit.render 5 false assignment) start =
      (.ok "A+sum(∟ARR1→A", (Action.outcome (Emit.render 5 false assignment) start).2) := Prod.ext (by decide +kernel) rfl
  have unset : ¬ Retypes symbols value "n" := by
    have none : ∀ node ∈ value :: value.descendants, node.targets = [] := by decide +kernel
    rintro ⟨given,touched,same⟩
    cases touched with
    | node inside member =>
      rw [none _ inside] at member
      cases member
    | body reached found => cases FunctionTable.mem_users found
    | call reached found => cases FunctionTable.mem_users found
    | temporary coming =>
      have lower : "n".toLower = "n" := by cbv
      rw [Symbols.toLower_temporaryName,lower,Symbols.temporaryName,← String.toList_inj,String.toList_append] at same
      cases same
  obtain ⟨code,place,middle,split,_,placed,kept,same⟩ :=
    assignment_retypes_first start _ 4 1 false "n" _ (.update .add) _ rfl done
  exact ⟨code, place, middle, _, split, same fun _ => by decide +kernel, (kept unset).trans (by decide +kernel), placed⟩

/-- A list that is replaced by its sum: the sum reads the number that takes the place of the list. -/
theorem replaced_list_not_read :
    (Compilation.ofSource {} "a = [1,2]; a = array_sum(a);").code = .ok "\x7b1,2→∟ARR1\nsum(A→A" ∧
    let symbols : Symbols := { entries := [⟨"a", 3, .list⟩] }
    let start : Emitter := { symbols, modern := true, folding := true, program := "P" }
    let value : Tree := .call "array_sum" [.var "a"] 1
    (Action.outcome (Emit.render 4 false value) start).1 = .ok "sum(∟ARR1)" ∧
      (Action.outcome (Emit.render 5 false (.assign (.var "a") .set value 1)) start).1 = .ok "sum(A→A" := by
  refine ⟨by decide +kernel, ?_, ?_⟩ <;> decide +kernel

end CalcBasic

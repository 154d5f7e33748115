import CalcBasic.Proofs.GuidedRuns

/-! Constructs that are rendered through calls. Membership, loops over lists, complements and
the drawing and random functions ask for builtins by name, as a call in the program does, and
a function of the program hides a builtin of its name from them too. A definition changes
the code of no tree that does not reach its name in one of these ways. -/
namespace CalcBasic
open CalcBasic.Tree (callOf)

/-- The functions that rendering the node asks for. -/
def Tree.callees : Tree → List String
  | .call name _ _ => [name]
  | .membership .. => ["array_sum"]
  | .forEach _ collection _ => if collection.isCounted then [] else ["array_length"]
  | .function name _ _ inline => if inline then [] else [name]
  | _ => []

/-- The functions that rendering a tree may ask for: in the tree itself, for the expansion
of a builtin, or in the body of a function that is expanded in place. -/
inductive Reaches (table : FunctionTable) (tree : Tree) : String → Prop
  | node {node : Tree} {name : String} (inside : node ∈ tree :: tree.descendants) (asked : name ∈ node.callees) :
      Reaches table tree name
  | expansion {name helper : String} {f : Builtin} {expansion : Expansion} (reached : Reaches table tree name)
      (found : table.find? name = some (.builtin f)) (expands : f.expansion = some expansion)
      (asked : helper ∈ expansion.helpers) : Reaches table tree helper
  | body {name callee : String} {f : UserFunction} {body node : Tree} (reached : Reaches table tree name)
      (found : table.find? name = some (.user f)) (inline : f.inline = true) (isBody : f.body = some body)
      (inside : node ∈ body :: body.descendants) (asked : callee ∈ node.callees) : Reaches table tree callee

theorem FunctionTable.user?_of_find? {table other : FunctionTable} {name : String}
    (same : other.find? name = table.find? name) : other.user? name = table.user? name := by
  ext f
  rw [← find?_eq_user_iff,← find?_eq_user_iff,same]

theorem FunctionTable.find?_define (table : FunctionTable) {name callee : String} (apart : callee.toLower ≠ name.toLower)
    (inline : Bool) (params : List String) (required : Nat) (body : Tree) :
    (table.define name inline params required body).2.find? callee = table.find? callee := by
  have declared : (table.declare name inline).2.user? callee = table.user? callee := by
    unfold declare
    split
    · rfl
    · simp [user?,List.find?_append,apart.symm]
  have defined : (table.define name inline params required body).2.user? callee = table.user? callee := by
    rw [← declared]
    unfold define user?
    dsimp only
    rw [List.find?_map]
    have named : ((·.name == callee.toLower) ∘ fun f : UserFunction =>
        if f.name == name.toLower then { f with inline, params, required, body := some body } else f) =
          fun f => f.name == callee.toLower := by
      funext f
      simp only [Function.comp_apply]
      split <;> rfl
    rw [named]
    cases found : (table.declare name inline).2.users.find? (·.name == callee.toLower) with
    | none => rfl
    | some f =>
      have own : f.name = callee.toLower := by simpa using List.find?_some found
      simp [own,apart]
  rw [find?,defined,find?]

/-! ### Symbol tables with other functions -/

/-- The table with other functions. -/
def Symbols.calling (symbols : Symbols) (functions : FunctionTable) : Symbols := { symbols with functions }

def Emitter.calling (emitter : Emitter) (functions : FunctionTable) : Emitter :=
  { emitter with symbols := emitter.symbols.calling functions }

namespace Symbols

variable (symbols : Symbols) (functions : FunctionTable)

theorem reference_calling (name : String) :
    (symbols.calling functions).reference name = (symbols.reference name).calling functions := by
  unfold reference
  have same : Symbols.entry? (symbols.calling functions) name = symbols.entry? name := rfl
  rw [same]
  split <;> rfl

theorem temporary_calling :
    (symbols.calling functions).temporary = (symbols.temporary.1, symbols.temporary.2.calling functions) := by
  unfold temporary
  exact Prod.ext rfl (reference_calling { symbols with temporaries := symbols.temporaries + 1 } functions _)

theorem textName_calling (name : String) :
    (symbols.calling functions).textName name = ((symbols.textName name).1, (symbols.textName name).2.calling functions) := by
  unfold textName
  have same : (symbols.calling functions).texts = symbols.texts := rfl
  rw [same]
  dsimp only
  split <;> rfl

end Symbols

/-- The states differ in their functions only. -/
structure Calls (table other : FunctionTable) (emitter swapped : Emitter) : Prop where
  functions : emitter.symbols.functions = table
  swapped : swapped = emitter.calling other

section Calling

variable {rule : Tree → Prop} {table other : FunctionTable}

theorem answers_calling {α : Type} {ask : Symbols → α × Symbols} (edits : ∀ symbols, Emit.Edit symbols (ask symbols).2)
    (same : ∀ symbols, ask (symbols.calling other) = ((ask symbols).1, (ask symbols).2.calling other)) :
    Answers (Calls table other) ask := by
  rintro emitter _ ⟨functions,rfl⟩
  have answered : ask (emitter.calling other).symbols = _ := same emitter.symbols
  rw [answered]
  exact ⟨rfl, (edits emitter.symbols).functions.trans functions, rfl⟩

theorem changes_calling {change : Symbols → Symbols} (edits : ∀ symbols, Emit.Edit symbols (change symbols))
    (same : ∀ symbols, symbols.functions = table → change (symbols.calling other) = (change symbols).calling other) :
    Changes (Calls table other) change := by
  rintro emitter _ ⟨functions,rfl⟩
  have changed : change (emitter.calling other).symbols = _ := same emitter.symbols functions
  rw [changed]
  exact ⟨(edits emitter.symbols).functions.trans functions, rfl⟩

theorem type_calling (found : ∀ {name arguments line}, rule (.call name arguments line) → other.find? name = table.find? name)
    {symbols : Symbols} (functions : symbols.functions = table) {tree : Tree} (covered : tree.Throughout rule) :
    tree.type (symbols.calling other) = tree.type symbols := by
  cases tree with
  | arith left op right | compare left op right =>
    have inside (child : Tree) (isChild : child ∈ [left, right]) : child.Throughout rule := covered.child isChild
    have first := type_calling found functions (inside left (by simp))
    have second := type_calling found functions (inside right (by simp))
    simp only [Tree.type,first,second]
  | call name arguments line =>
    have same := found covered.root
    rw [← functions] at same
    change other.returnType name = symbols.functions.returnType name
    simp only [FunctionTable.returnType,same]
  | _ => rfl
termination_by sizeOf tree

theorem likeness_calling (named : ∀ name, rule (.var name))
    (found : ∀ {name arguments line}, rule (.call name arguments line) → other.find? name = table.find? name) :
    Likeness rule (fun _ => True) (Calls table other) where
  modern alike := by rw [alike.swapped]; rfl
  folding alike := by rw [alike.swapped]; rfl
  program alike := by rw [alike.swapped]; rfl
  inlining alike := by rw [alike.swapped]; rfl
  unfolded _ alike := ⟨alike.functions, by rw [alike.swapped]; rfl⟩
  expanding _ alike := ⟨alike.functions, by rw [alike.swapped]; rfl⟩
  temporary := answers_calling Emit.Edit.temporary fun symbols => symbols.temporary_calling other
  slot name := answers_calling (Emit.Edit.slot · name) fun _ => rfl
  listName name := answers_calling (Emit.Edit.listName · name) fun _ => rfl
  textName name := answers_calling (Emit.Edit.textName · name) fun symbols => symbols.textName_calling other name
  remark note := changes_calling (Emit.Edit.remark · note) fun _ _ => rfl
  setList _ := changes_calling (Emit.Edit.setType · _ _) fun _ _ => rfl
  setType {name value} _ covered := by
    refine changes_calling (fun symbols => Emit.Edit.setType symbols _ _) fun symbols functions => ?_
    rw [type_calling found functions covered]
    rfl
  stored _ alike := by rw [alike.swapped]; rfl
  fresh _ := ⟨named _, trivial⟩

end Calling

/-- Tables that agree on what a tree reaches cannot be told apart by rendering it. -/
theorem guide_reaches {table other : FunctionTable} {tree : Tree}
    (agree : ∀ name, Reaches table tree name → other.find? name = table.find? name) :
    Guide (fun node => ∀ name ∈ node.callees, Reaches table tree name) (fun _ => True) table (Calls table other) fun _ => True where
  likeness := likeness_calling nofun fun root => agree _ (root _ (List.mem_singleton_self _))
  plain node isPlain := by
    cases node with
    | var | call | membership | assign | forEach | function => cases isPlain
    | _ => exact nofun
  placeless _ _ := trivial
  found root alike := by
    rw [alike.swapped,alike.functions]
    exact agree _ (root _ (List.mem_singleton_self _))
  faults _ _ := trivial
  helpers root found expands helper isHelper more name member := by
    rw [List.mem_singleton.mp member]
    exact .expansion (root _ (List.mem_singleton_self _)) found expands isHelper
  params _ _ _ _ _ := ⟨nofun, trivial⟩
  bodies root found inline isBody node inside name asked :=
    .body (root _ (List.mem_singleton_self _)) found inline isBody inside asked
  selects _ _ _ := nofun
  sums root argument := root
  lengths root listed list := by
    simpa [Tree.callees,listed] using root
  counters _ _ _ := trivial
  retyped _ _ := ⟨Tree.isTarget_of_forall (fun _ => trivial) _, Tree.isTarget_of_forall (fun _ => trivial) _⟩
  assigned _ := Tree.isTarget_of_forall (fun _ => trivial) _
  targets _ _ := trivial
  sections root alike := by
    rw [alike.swapped,alike.functions]
    exact FunctionTable.user?_of_find? (agree _ (root _ (List.mem_singleton_self _)))
  loads _ := ⟨nofun, fun _ _ => nofun⟩

theorem emit_calling (symbols : Symbols) (settings : Settings) {tree : Tree} {other : FunctionTable}
    (agree : ∀ name, Reaches symbols.functions tree name → other.find? name = symbols.functions.find? name) :
    (symbols.calling other).emit settings (Emit.program tree) =
      ((symbols.emit settings (Emit.program tree)).1, (symbols.emit settings (Emit.program tree)).2.calling other) := by
  let start : Emitter := { symbols, modern := settings.modern, folding := settings.simplify, program := settings.programName }
  have covered : tree.Throughout fun node => ∀ name ∈ node.callees, Reaches symbols.functions tree name :=
    fun node inside name asked => .node inside asked
  have tracked := Emit.tracks_program (guide_reaches agree) trivial nofun covered start (start.calling other) ⟨rfl, rfl⟩ ⟨rfl, rfl⟩
  exact Prod.ext tracked.same (congrArg Emitter.symbols tracked.like.swapped)

namespace Emit
open CalcBasic.Action

variable {name text target : String} {after emitter : Emitter} {depth : Nat} {list : Tree}

/-! ### Calls by name -/

theorem outcome_call_builtin {f : Builtin} (undefined : emitter.symbols.functions.user? name = none)
    (isBuiltin : Builtin.find? name = some f) (render : Renderer) (arguments : List Tree) (line : Nat) :
    outcome (call render name arguments line) emitter = outcome (builtinCall render name f arguments line) emitter := by
  have found : emitter.symbols.functions.find? name = some (.builtin f) := by
    rw [FunctionTable.find?,undefined,isBuiltin]
    rfl
  unfold call
  rw [outcome_bind_ok (outcome_get emitter),found]

theorem outcome_call_user {f : UserFunction} (defined : emitter.symbols.functions.user? name = some f) (render : Renderer)
    (arguments : List Tree) (line : Nat) :
    outcome (call render name arguments line) emitter = outcome (userCall render name f arguments line) emitter := by
  have found : emitter.symbols.functions.find? name = some (.user f) := by
    rw [FunctionTable.find?,defined]
    rfl
  unfold call
  rw [outcome_bind_ok (outcome_get emitter),found]

/-- A builtin that is written with its arguments in parentheses, as many as there are. -/
def IsWritten (name target : String) (count : Nat) : Prop :=
  ∃ f, Builtin.find? name = some f ∧ f.target = target ∧ f.parens = true ∧ f.expansion = none ∧ f.arity.accepts count = true

theorem outcome_call_written {arguments : List Tree} (undefined : emitter.symbols.functions.user? name = none)
    (written : IsWritten name target arguments.length) (filled : arguments ≠ []) (render : Renderer) (line : Nat) :
    outcome (call render name arguments line) emitter =
      outcome (do return target ++ "(" ++ ",".intercalate (← renderAll render arguments) ++ ")") emitter := by
  obtain ⟨f,isBuiltin,isTarget,parens,whole,accepted⟩ := written
  rw [outcome_call_builtin undefined isBuiltin]
  simp only [builtinCall,whole,accepted,Bool.not_true,Bool.false_eq_true,if_false,List.isEmpty_iff,filled,parens,if_true,isTarget]

theorem outcome_call_single (undefined : emitter.symbols.functions.user? name = none) (written : IsWritten name target 1)
    (render : Renderer) (argument : Tree) (line : Nat) : outcome (call render name [argument] line) emitter =
      outcome (do return target ++ "(" ++ (← render false argument) ++ ")") emitter := by
  rw [outcome_call_written undefined written (List.cons_ne_nil _ _)]
  simp only [renderAll,List.mapM_cons,List.mapM_nil,bind_assoc,pure_bind,String.intercalate_singleton]

theorem isWritten_sum : IsWritten "array_sum" "sum" 1 :=
  ⟨.returning .number (.function "array_sum" "sum" (.exactly [1]) "array" "Sum of elements"), by cbv, rfl, rfl, rfl, rfl⟩

theorem isWritten_dim : IsWritten "array_length" "dim" 1 :=
  ⟨.returning .number (.function "array_length" "dim" (.exactly [1]) "array" "Number of elements"), by cbv, rfl, rfl, rfl, rfl⟩

theorem isWritten_not : IsWritten "not" "not" 1 :=
  ⟨.returning .boolean (.function "not" "not" (.exactly [1]) "bool" "Logical not"), by cbv, rfl, rfl, rfl, rfl⟩

theorem isWritten_line {count : Nat} (fits : count = 4 ∨ count = 5) : IsWritten "draw_line" "Line" count := by
  refine ⟨.function "draw_line" "Line" (.exactly [4, 5]) "draw" "Line between two points", by cbv, rfl, rfl, rfl, ?_⟩
  rcases fits with rfl | rfl <;> rfl

/-! ### Loops over lists -/

theorem outcome_length (undefined : emitter.symbols.functions.user? "array_length" = none)
    (done : outcome (render depth false (callOf "array_length" [list] 0)) emitter = (.ok text, after)) :
    ∃ code, text = "dim(" ++ code ++ ")" := by
  have lower : "array_length".toLower = "array_length" := by cbv
  cases depth with
  | zero => cases done
  | succ depth =>
    have called : outcome (call (render depth) "array_length" [list] 0) emitter = (.ok text, after) := by
      rwa [callOf,lower] at done
    rw [outcome_call_single undefined isWritten_dim] at called
    obtain ⟨code,_,_,finished⟩ := outcome_bind_eq_ok called
    rw [outcome_pure] at finished
    exact ⟨code, (Except.ok.inj (Prod.mk.inj finished).1).symm⟩

theorem outcome_measure {target : Tree} (undefined : emitter.symbols.functions.user? "array_length" = none)
    (done : outcome (storeTyped (render depth) target (callOf "array_length" [list] 0)) emitter = (.ok text, after)) :
    ∃ code place, text = Code.trimClosers ("dim(" ++ code ++ ")") ++ "→" ++ place := by
  unfold storeTyped store at done
  obtain ⟨_,typed,taken,done⟩ := outcome_bind_eq_ok done
  obtain ⟨length,_,measured,done⟩ := outcome_bind_eq_ok done
  obtain ⟨place,_,_,done⟩ := outcome_bind_eq_ok done
  have moves := keeps_takeType target (callOf "array_length" [list] 0) emitter
  rw [taken] at moves
  obtain ⟨code,rfl⟩ := outcome_length (by rw [moves.symbols.functions,undefined]) measured
  rw [outcome_pure] at done
  exact ⟨code, place, (Except.ok.inj (Prod.mk.inj done).1).symm⟩

theorem outcome_listLoop {counter collection body : Tree} (undefined : emitter.symbols.functions.user? "array_length" = none)
    (done : outcome (listLoop (render depth) counter collection body) emitter = (.ok text, after)) :
    ∃ setup list place index bound load code, text = Code.joinLines [setup,
      Code.trimClosers ("dim(" ++ list ++ ")") ++ "→" ++ place, "For(" ++ index ++ ",1," ++ bound, load, code, "End"] := by
  unfold listLoop at done
  obtain ⟨⟨setup,list⟩,prepared,filled,done⟩ := outcome_bind_eq_ok done
  obtain ⟨length,first,named,done⟩ := outcome_bind_eq_ok done
  obtain ⟨index,second,counted,done⟩ := outcome_bind_eq_ok done
  obtain ⟨measure,_,measured,done⟩ := outcome_bind_eq_ok done
  obtain ⟨place,_,_,done⟩ := outcome_bind_eq_ok done
  obtain ⟨bound,_,_,done⟩ := outcome_bind_eq_ok done
  obtain ⟨load,_,_,done⟩ := outcome_bind_eq_ok done
  obtain ⟨code,_,_,done⟩ := outcome_bind_eq_ok done
  have moves := moves_pervade.loopList (keeps_render depth) collection emitter
  have next := keeps_temporary prepared
  have last := keeps_temporary first
  rw [filled] at moves
  rw [named] at next
  rw [counted] at last
  have kept : second.symbols.functions = emitter.symbols.functions := by
    rw [last.symbols.functions,next.symbols.functions,moves.symbols.functions]
  obtain ⟨inside,target,rfl⟩ := outcome_measure (by rw [kept,undefined]) measured
  rw [outcome_pure] at done
  exact ⟨setup, inside, target, place, bound, load, code, (Except.ok.inj (Prod.mk.inj done).1).symm⟩

/-! ### All constructs -/

/-- How constructs are written whose builtins the program does not define, and what they call otherwise. -/
structure Lowers (emitter : Emitter) : Prop where
  membership : emitter.symbols.functions.user? "array_sum" = none → ∀ render settled value collection,
    outcome (construct render settled (.membership value collection)) emitter =
      outcome (do return "sum(" ++ (← render false (.compare value .eq collection)) ++ ")") emitter
  loop : emitter.symbols.functions.user? "array_length" = none → ∀ depth settled counter collection body text after,
    collection.isCounted = false →
    outcome (render depth settled (.forEach counter collection body)) emitter = (.ok text, after) →
      ∃ setup list place index bound load code, text = Code.joinLines [setup,
        Code.trimClosers ("dim(" ++ list ++ ")") ++ "→" ++ place, "For(" ++ index ++ ",1," ++ bound, load, code, "End"]
  complement : emitter.symbols.functions.user? "not" = none → ∀ render settled operand line,
    outcome (construct render settled (callOf "not" [operand] line)) emitter =
      outcome (do return "not(" ++ (← render false operand) ++ ")") emitter
  random : emitter.symbols.functions.user? "random" = none → ∀ render settled line,
    outcome (construct render settled (callOf "random" [] line)) emitter = (.ok "rand", emitter)
  segment : emitter.symbols.functions.user? "draw_line" = none → ∀ render settled points line,
    points.length = 4 ∨ points.length = 5 → outcome (construct render settled (callOf "draw_line" points line)) emitter =
      outcome (do return "Line(" ++ ",".intercalate (← renderAll render points) ++ ")") emitter
  expansion : ∀ name f expansion, emitter.symbols.functions.user? name = none → Builtin.find? name = some f →
    f.expansion = some expansion → ∀ render settled arguments line,
      outcome (construct render settled (.call name arguments line)) emitter =
        outcome (render false (expansion.expand arguments line)) emitter
  /-- A function of the program takes the place of the builtin. -/
  hidden : ∀ name f, emitter.symbols.functions.user? name = some f → ∀ render settled arguments line,
    outcome (construct render settled (.call name arguments line)) emitter =
      outcome (userCall render name f arguments line) emitter
  captured : ∀ f, emitter.symbols.functions.user? "array_sum" = some f → ∀ render settled value collection,
    outcome (construct render settled (.membership value collection)) emitter =
      outcome (userCall render "array_sum" f [.compare value .eq collection] 0) emitter

theorem lowers (emitter : Emitter) : Lowers emitter where
  membership undefined render settled value collection := outcome_call_single undefined isWritten_sum render _ 0
  loop undefined depth settled counter collection body text after listed done := by
    cases depth with
    | zero => cases done
    | succ depth =>
      have entered : outcome (forEach (render depth) counter collection body) emitter = (.ok text, after) := done
      unfold forEach at entered
      split at entered
      · rename_i simple
        rw [Tree.isCounted,simple] at listed
        cases listed
      · exact outcome_listLoop undefined entered
  complement undefined render settled operand line := by
    have lower : "not".toLower = "not" := by cbv
    rw [callOf,lower]
    exact outcome_call_single undefined isWritten_not render operand line
  random undefined render settled line := by
    have lower : "random".toLower = "random" := by cbv
    have isBuiltin : Builtin.find? "random" =
        some (.command "random" "rand" (.exactly [0]) "math" "Random number in [0, 1)") := by cbv
    rw [callOf,lower]
    exact outcome_call_builtin undefined isBuiltin render [] line
  segment undefined render settled points line fits := by
    have lower : "draw_line".toLower = "draw_line" := by cbv
    have filled : points ≠ [] := by
      rintro rfl
      simp at fits
    rw [callOf,lower]
    exact outcome_call_written undefined (isWritten_line fits) filled render line
  expansion name f expansion undefined isBuiltin expands render settled arguments line := by
    have called := outcome_call_builtin undefined isBuiltin render arguments line
    unfold builtinCall at called
    rwa [expands] at called
  hidden name f defined render settled arguments line := outcome_call_user defined render arguments line
  captured f defined render settled value collection := outcome_call_user defined render _ 0

end Emit

/-- Only comparisons are complemented without a call. -/
theorem Tree.negated_cases (condition : Tree) : condition.negated = callOf "not" [condition] 0 ∨
    ∃ left op right complement, condition = .compare left op right ∧ op.complement? = some complement ∧
      condition.negated = .compare left complement right := by
  cases condition with
  | compare left op right =>
    cases found : op.complement? with
    | none =>
      left
      rw [negated,found]
    | some complement =>
      right
      refine ⟨left, op, right, complement, rfl, found, ?_⟩
      rw [negated,found]
  | _ => exact .inl rfl

open CalcBasic.Action in
/-- Emission asks for functions by the names that a tree reaches, and no definition of another
name changes its code. As long as a program leaves the builtins alone that a construct is
rendered through, it is written with them; once it defines a function of that name, the
construct calls the function. -/
theorem constructs_resolve_by_name (symbols : Symbols) (settings : Settings) (tree : Tree) :
    (∀ name inline params required body,
      (∀ callee, Reaches symbols.functions tree callee → callee.toLower ≠ name.toLower) →
      ((symbols.define name inline params required body).2.emit settings (Emit.program tree)).1 =
        (symbols.emit settings (Emit.program tree)).1) ∧
    (∀ other : FunctionTable,
      (∀ callee, Reaches symbols.functions tree callee → other.find? callee = symbols.functions.find? callee) →
      (symbols.calling other).emit settings (Emit.program tree) =
        ((symbols.emit settings (Emit.program tree)).1, (symbols.emit settings (Emit.program tree)).2.calling other)) ∧
    (∀ emitter, Emit.Lowers emitter) ∧
    (∀ condition : Tree, condition.negated = callOf "not" [condition] 0 ∨
      ∃ left op right complement, condition = .compare left op right ∧ op.complement? = some complement ∧
        condition.negated = .compare left complement right) ∧
    ∀ param value line, (outcome (Read.defaultGuard param value line) symbols).1 =
      .ok (.branch (callOf "not" [.var param.toLower] line)
        (.block [.assign (.var param.toLower) .set value line]) none) := by
  refine ⟨?_, fun other agree => emit_calling symbols settings agree, Emit.lowers, Tree.negated_cases, fun _ _ _ => rfl⟩
  intro name inline params required body apart
  have agree callee (reached : Reaches symbols.functions tree callee) :=
    symbols.functions.find?_define (apart callee reached) inline params required body
  exact congrArg (·.1) (emit_calling symbols settings agree)

/-- `x = v in l` -/
def asksForSum : Tree := .assign (.var "x") .set (.membership (.var "v") (.listVar "l")) 1

theorem reaches_asksForSum {name : String} (reached : Reaches {} asksForSum name) : name = "array_sum" := by
  have asked : (asksForSum :: asksForSum.descendants).flatMap Tree.callees = ["array_sum"] := by decide +kernel
  induction reached with
  | node inside called => exact List.mem_singleton.mp (asked ▸ List.mem_flatMap_of_mem inside called)
  | expansion reached found expands called ih =>
    obtain ⟨sum,isBuiltin,_,_,whole,_⟩ := Emit.isWritten_sum
    rw [ih] at found
    rw [FunctionTable.builtin_of_find? found] at isBuiltin
    cases isBuiltin
    rw [whole] at expands
    cases expands
  | body reached found => exact absurd (FunctionTable.mem_users found) List.not_mem_nil

theorem constructs_resolve_by_name_asksForSum :
    (∀ callee, Reaches {} asksForSum callee → callee.toLower ≠ "array_max".toLower) ∧
      (((({} : Symbols).define "array_max" false [] 0 (.native "0")).2.emit {} (Emit.program asksForSum)).1).toOption =
        some "sum(A=∟ARR1→B" := by
  have apart : ∀ callee, Reaches {} asksForSum callee → callee.toLower ≠ "array_max".toLower := by
    intro callee reached
    rw [reaches_asksForSum reached]
    decide +kernel
  refine ⟨apart, ?_⟩
  rw [(constructs_resolve_by_name {} {} asksForSum).1 "array_max" false [] 0 (.native "0") apart]
  decide +kernel

/-- A function of the program is called in place of the sum. -/
theorem membership_captured :
    (compile {} "function array_sum(a) \x7b return a \x7d\nx = 1 in [1,2,3];").toOption.map Compiled.code =
      some ("If B=0:Then\n-1→B\n∟ARG0(1)→A\nA\nReturn\nEnd\n-1→B\n" ++
        "\x7b1=\x7b1,2,3→∟ARG0:0→B:prgmTIADV:Ans→C") := by
  decide +kernel

end CalcBasic

import CalcBasic.Proofs.RankedTrees

/-! Rules for nodes. A rule says which functions and variables a tree may ask for, so that
states that agree on those are not told apart, and the errors that a rendering may end with. -/
namespace CalcBasic

/-- Rendering the node itself asks for no function or variable and ends with no error on a line. -/
def Tree.isPlain : Tree → Bool
  | .var _ | .call .. | .membership .. | .assign .. | .forEach .. | .function .. => false
  | _ => true

/-- Every node of the bounds and the step keeps to the rule. -/
structure Range.Throughout (rule : Tree → Prop) (range : Range) : Prop where
  start : range.start.Throughout rule
  stop : range.stop.Throughout rule
  step : range.step.Throughout rule

theorem Tree.Throughout.range {rule : Tree → Prop} {tree : Tree} {range : Range} (all : tree.Throughout rule)
    (isRange : tree.range? = some range) : range.Throughout rule := by
  have parts {start stop step : Tree} {inclusive standalone : Bool}
      (all : (Tree.range start stop step inclusive standalone).Throughout rule) :
      Range.Throughout rule ⟨start, stop, step, inclusive⟩ :=
    ⟨all.child (by simp), all.child (by simp), all.child (by simp)⟩
  unfold range? at isRange
  split at isRange
  · cases isRange
    exact parts all
  · cases isRange
    exact parts (all.child (List.mem_singleton_self _))
  · cases isRange

/-- The names that an expansion calls. -/
def Expansion.helpers : Expansion → List String
  | .path => ["draw_line"]
  | .shape => ["draw_path", "draw_line"]
  | .between => ["random"]
  | .oneLine => []

/-- The loop runs through numbers, not over a list. -/
def Tree.isCounted (collection : Tree) : Bool := (collection.range?.filter Range.hasSimpleBounds).isSome

/-- The faults that a call may end with, by the function that it reaches. -/
inductive CallFault (table : FunctionTable) (name : String) (count : Nat) : Fault → Prop
  | unknown (absent : table.find? name = none) : CallFault table name count (.unknownFunction name)
  | builtinCount {f : Builtin} (found : table.find? name = some (.builtin f)) (whole : f.expansion = none)
      (refused : f.arity.accepts count = false) : CallFault table name count (.argumentCount name count f.arity.describe)
  | userCount {f : UserFunction} (found : table.find? name = some (.user f)) (refused : f.accepts count = false) :
      CallFault table name count (.argumentCount name count f.describeArity)
  | itself {f : UserFunction} (found : table.find? name = some (.user f)) (inline : f.inline = true) :
      CallFault table name count (.inlinedIntoItself name)
  | bodiless {f : UserFunction} (found : table.find? name = some (.user f)) (inline : f.inline = true)
      (absent : f.body = none) : CallFault table name count (.bodiless name)

/-- Truth values are stored as numbers. -/
def ValueType.storage : ValueType → ValueType
  | .boolean => .number
  | type => type

/-- The emitter with another symbol table. -/
def Emitter.holding (emitter : Emitter) (symbols : Symbols) : Emitter := { emitter with symbols }

/-- Both states give the same answer and stay alike. -/
def Answers (like : Emitter → Emitter → Prop) {α : Type} (ask : Symbols → α × Symbols) : Prop :=
  ∀ ⦃emitter other : Emitter⦄, like emitter other → (ask other.symbols).1 = (ask emitter.symbols).1 ∧
    like (emitter.holding (ask emitter.symbols).2) (other.holding (ask other.symbols).2)

/-- Both states stay alike. -/
def Changes (like : Emitter → Emitter → Prop) (change : Symbols → Symbols) : Prop :=
  ∀ ⦃emitter other : Emitter⦄, like emitter other →
    like (emitter.holding (change emitter.symbols)) (other.holding (change other.symbols))

/-- A variable may be given another type only if it is settable. -/
def Tree.IsTarget (settable : String → Prop) : Tree → Prop
  | .var name => settable name
  | _ => True

theorem Tree.isTarget_of_forall {settable : String → Prop} (all : ∀ name, settable name) (target : Tree) :
    target.IsTarget settable := by
  cases target with
  | var name => exact all name
  | _ => trivial

/-- States that cannot be told apart by what the rule lets emission ask of them. -/
structure Likeness (rule : Tree → Prop) (settable : String → Prop) (like : Emitter → Emitter → Prop) : Prop where
  modern : ∀ {emitter other}, like emitter other → other.modern = emitter.modern
  folding : ∀ {emitter other}, like emitter other → other.folding = emitter.folding
  program : ∀ {emitter other}, like emitter other → other.program = emitter.program
  inlining : ∀ {emitter other}, like emitter other → other.inlining = emitter.inlining
  unfolded : ∀ {emitter other} folding, like emitter other → like { emitter with folding } { other with folding }
  expanding : ∀ {emitter other} inlining, like emitter other → like { emitter with inlining } { other with inlining }
  temporary : Answers like Symbols.temporary
  slot : ∀ name, Answers like (·.slot name)
  listName : ∀ name, Answers like (·.listName name)
  textName : ∀ name, Answers like (·.textName name)
  remark : ∀ note, Changes like (·.remark note none)
  setList : ∀ {name}, settable name → Changes like (·.setType name .list)
  setType : ∀ {name} {value : Tree}, settable name → value.Throughout rule →
    Changes like fun symbols => symbols.setType name (value.type symbols)
  stored : ∀ {emitter other name}, rule (.var name) → like emitter other →
    (other.symbols.type name).storage = (emitter.symbols.type name).storage
  fresh : ∀ {emitter other}, like emitter other →
    rule (.var emitter.symbols.temporary.1) ∧ settable emitter.symbols.temporary.1

theorem likeness_eq {rule : Tree → Prop} (named : ∀ name, rule (.var name)) : Likeness rule (fun _ => True) Eq where
  modern := by rintro _ _ rfl; rfl
  folding := by rintro _ _ rfl; rfl
  program := by rintro _ _ rfl; rfl
  inlining := by rintro _ _ rfl; rfl
  unfolded := by rintro _ _ _ rfl; rfl
  expanding := by rintro _ _ _ rfl; rfl
  temporary := by rintro _ _ rfl; exact ⟨rfl, rfl⟩
  slot _ := by rintro _ _ rfl; exact ⟨rfl, rfl⟩
  listName _ := by rintro _ _ rfl; exact ⟨rfl, rfl⟩
  textName _ := by rintro _ _ rfl; exact ⟨rfl, rfl⟩
  remark _ := by rintro _ _ rfl; rfl
  setList _ := by rintro _ _ rfl; rfl
  setType _ _ := by rintro _ _ rfl; rfl
  stored _ := by rintro rfl; rfl
  fresh _ := ⟨named _, trivial⟩

/-- A rule under which states cannot be told apart, and the errors that rendering may end with. -/
structure Guide (rule : Tree → Prop) (settable : String → Prop) (table : FunctionTable)
    (like : Emitter → Emitter → Prop) (allowed : CompileError → Prop) : Prop where
  likeness : Likeness rule settable like
  plain : ∀ tree : Tree, tree.isPlain = true → rule tree
  placeless : ∀ fault, fault ≠ .tooDeep → allowed ⟨fault, none⟩
  found : ∀ {name arguments line emitter other}, rule (.call name arguments line) → like emitter other →
    other.symbols.functions.find? name = emitter.symbols.functions.find? name
  faults : ∀ {name arguments line fault}, rule (.call name arguments line) →
    CallFault table name arguments.length fault → allowed ⟨fault, some line⟩
  helpers : ∀ {name arguments line f expansion}, rule (.call name arguments line) →
    table.find? name = some (.builtin f) → f.expansion = some expansion →
      ∀ helper ∈ expansion.helpers, ∀ more, rule (.call helper more line)
  params : ∀ {name arguments line f}, rule (.call name arguments line) → table.find? name = some (.user f) →
    f.inline = true → ∀ param ∈ f.params, rule (.var param) ∧ settable param
  bodies : ∀ {name arguments line f body}, rule (.call name arguments line) → table.find? name = some (.user f) →
    f.inline = true → f.body = some body → body.Throughout rule
  selects : ∀ {name arguments line f}, rule (.call name arguments line) → table.find? name = some (.user f) →
    f.inline = false → rule (.var selector)
  sums : ∀ {value collection}, rule (.membership value collection) → ∀ argument, rule (.call "array_sum" [argument] 0)
  lengths : ∀ {counter collection body}, rule (.forEach counter collection body) → collection.isCounted = false →
    ∀ list, rule (.call "array_length" [list] 0)
  counters : ∀ {counter collection body}, rule (.forEach counter collection body) → collection.isCounted = false →
    counter.isAssignable = false → allowed ⟨.notAssignable, some 0⟩
  retyped : ∀ {counter collection body}, rule (.forEach counter collection body) → collection.isCounted = false →
    counter.IsTarget settable ∧ collection.IsTarget settable
  assigned : ∀ {target mode value line}, rule (.assign target mode value line) → target.IsTarget settable
  targets : ∀ {target mode value line}, rule (.assign target mode value line) → target.isAssignable = false →
    allowed ⟨.notAssignable, some line⟩
  sections : ∀ {name params body emitter other}, rule (.function name params body false) → like emitter other →
    other.symbols.functions.user? name = emitter.symbols.functions.user? name
  loads : ∀ {name params body}, rule (.function name params body false) →
    rule (.var selector) ∧ ∀ param ∈ params, rule (.var param)

section Guided

variable {rule : Tree → Prop} {settable : String → Prop} {table : FunctionTable} {like : Emitter → Emitter → Prop}
  {allowed : CompileError → Prop} (guide : Guide rule settable table like allowed)
include guide

theorem Guide.throughout {tree : Tree} (plain : tree.isPlain = true)
    (children : ∀ child ∈ tree.children, child.Throughout rule) : tree.Throughout rule :=
  Tree.throughout_iff.mpr ⟨guide.plain tree plain, children⟩

theorem Guide.throughout_number (value : Float) : (Tree.number value).Throughout rule :=
  guide.throughout rfl nofun

theorem Guide.throughout_arith {left right : Tree} {op : Arith}
    (first : left.Throughout rule) (second : right.Throughout rule) : (Tree.arith left op right).Throughout rule :=
  guide.throughout rfl (by simp [first,second])

theorem Guide.throughout_element {base index : Tree}
    (first : base.Throughout rule) (second : index.Throughout rule) : (Tree.element base index).Throughout rule :=
  guide.throughout rfl (by simp [first,second])

theorem Guide.throughout_lastValue {range : Range} (covered : range.Throughout rule) :
    range.lastValue.Throughout rule := by
  unfold Range.lastValue
  split
  · exact covered.stop
  · split <;> exact guide.throughout_arith covered.stop (guide.throughout_number 1)

theorem Guide.throughout_expand {name : String} {arguments : List Tree} {line : Nat}
    {f : Builtin} {expansion : Expansion} (root : rule (.call name arguments line))
    (found : table.find? name = some (.builtin f)) (expands : f.expansion = some expansion)
    (covered : ∀ argument ∈ arguments, argument.Throughout rule) : (expansion.expand arguments line).Throughout rule := by
  have helper {callee : String} (isHelper : callee ∈ expansion.helpers) (lower : callee.toLower = callee) {more : List Tree}
      (inside : more ⊆ arguments) : (Tree.callOf callee more line).Throughout rule := by
    rw [Tree.callOf,lower]
    exact Tree.throughout_iff.mpr ⟨guide.helpers root found expands _ isHelper more, fun child isChild => covered child (inside isChild)⟩
  have bounds (place : Nat) (value : Float) : (arguments[place]?.getD (.number value)).Throughout rule := by
    cases given : arguments[place]? with
    | none => exact guide.throughout_number value
    | some bound => exact covered bound (List.mem_of_getElem? given)
  cases expansion with
  | path =>
    refine guide.throughout rfl fun statement member => ?_
    obtain ⟨segment,isSegment,rfl⟩ := List.mem_map.mp member
    exact helper (by simp [Expansion.helpers]) (by cbv) (Expansion.segments_subset isSegment)
  | shape =>
    refine guide.throughout rfl fun statement member => ?_
    rcases List.mem_pair.mp member with rfl | rfl
    · exact helper (by simp [Expansion.helpers]) (by cbv) (List.Subset.refl _)
    · refine helper (by simp [Expansion.helpers]) (by cbv) fun point inside => ?_
      rcases List.mem_append.mp inside with last | first
      · exact List.mem_of_mem_drop last
      · exact List.mem_of_mem_take first
  | between =>
    have random : (Tree.callOf "random" [] line).Throughout rule :=
      helper (by simp [Expansion.helpers]) (by cbv) (List.nil_subset _)
    exact guide.throughout_arith (bounds 0 0)
      (guide.throughout_arith random (guide.throughout_arith (bounds 1 1) (bounds 0 0)))
  | oneLine => exact guide.throughout rfl covered

end Guided

end CalcBasic

import CalcBasic.Proofs.NodeRules

/-! Emitting the same tree twice, with two renderers and from two states. A tree is rendered through
trees of lower rank and through the bodies of functions that are not being expanded yet; where the
renderers agree on those and the states on what the tree may ask for, the runs end alike. -/
namespace CalcBasic

/-- The tree keeps to the rule, and its rank is below a limit. -/
structure Tree.Fits (rule : Tree → Prop) (limit : Nat) (tree : Tree) : Prop where
  rank : 2 * tree.rank < limit
  covered : tree.Throughout rule

namespace Tree.Fits

variable {rule : Tree → Prop} {limit : Nat} {tree : Tree}

theorem more (fits : tree.Fits rule limit) : tree.Fits rule (limit + 1) := ⟨Nat.lt_succ_of_lt fits.rank, fits.covered⟩

theorem child (fits : tree.Fits rule (limit + 2)) {child : Tree} (isChild : child ∈ tree.children) : child.Fits rule limit := by
  have weight := tree.weight_pos
  have lower := rank_child isChild
  have whole := fits.rank
  exact ⟨by omega, fits.covered.child isChild⟩

theorem leaf (room : 2 < limit) (bare : tree.weight = 1 ∧ tree.children = []) (root : rule tree) : tree.Fits rule limit :=
  ⟨by rwa [rank_leaf bare.2,bare.1], throughout_iff.mpr ⟨root, by rw [bare.2]; exact nofun⟩⟩

theorem var (room : 2 < limit) {name : String} (named : rule (.var name)) : (Tree.var name).Fits rule limit :=
  leaf room ⟨rfl, rfl⟩ named

end Tree.Fits

namespace Emit
open CalcBasic.Action

variable {params : List String} {left right condition tree value body target collection counter : Tree} {f : UserFunction}
  {name : String} {line : Nat} {arguments : List Tree} {range : Range}

/-- What two runs may be told apart by: the functions of the program, the nodes and the variables
that are asked for, the states that are alike, the errors that both may end with, and errors of the
first for which the second may end with others. -/
structure Frame where
  table : FunctionTable
  rule : Tree → Prop
  settable : String → Prop
  like : Emitter → Emitter → Prop
  allowed : CompileError → Prop
  swapped : CompileError → CompileError → Prop

/-- Two runs end alike, with the same value or with an error each. -/
inductive Alike (frame : Frame) {α : Type} (result : α → Prop) :
    Except CompileError α × Emitter → Except CompileError α × Emitter → Prop
  | ok {value : α} {after after' : Emitter} (known : result value) (like : frame.like after after') :
      Alike frame result (.ok value, after) (.ok value, after')
  | error {first second : CompileError} {after after' : Emitter}
      (related : second = first ∧ frame.allowed first ∨ frame.swapped first second) (like : frame.like after after') :
      Alike frame result (.error first, after) (.error second, after')

/-- The functions of the program, and those of them that are being expanded. -/
structure Expands (table : FunctionTable) (stack : List String) (emitter : Emitter) : Prop where
  functions : emitter.symbols.functions = table
  inlining : emitter.inlining = stack

theorem Expands.of_moves {table : FunctionTable} {stack : List String} {before after : Emitter}
    (expands : Expands table stack before) (moves : Moves before after) : Expands table stack after :=
  ⟨moves.symbols.functions.trans expands.functions, moves.inlining.trans expands.inlining⟩

/-- Two actions end alike from all states that are alike, with the given functions and expansions. -/
def Parallel (frame : Frame) (stack : List String) {α : Type} (action other : Emit α) (result : α → Prop) : Prop :=
  ∀ emitter state, Expands frame.table stack emitter → frame.like emitter state →
    Alike frame result (outcome action emitter) (outcome other state) ∧ Expands frame.table stack (outcome action emitter).2

section Runs

variable {frame : Frame} {stack : List String} {α β : Type} {result : α → Prop}

theorem parallel_pure {value : α} (known : result value) : Parallel frame stack (pure value) (pure value) result :=
  fun _ _ expands like => ⟨.ok known like, expands⟩

theorem parallel_fail {fault : Fault} {line : Option Nat} (admitted : frame.allowed ⟨fault, line⟩) :
    Parallel frame stack (fail fault line : Emit α) (fail fault line) result :=
  fun _ _ expands like => ⟨.error (.inl ⟨rfl, admitted⟩) like, expands⟩

theorem parallel_bind {action other : Emit α} {next following : α → Emit β} {last : β → Prop}
    (start : Parallel frame stack action other result)
    (continued : ∀ value, result value → Parallel frame stack (next value) (following value) last) :
    Parallel frame stack (action >>= next) (other >>= following) last := by
  intro emitter state expands like
  obtain ⟨alike,kept⟩ := start emitter state expands like
  rw [outcome_bind,outcome_bind]
  generalize outcome action emitter = reached at alike kept
  generalize outcome other state = reached' at alike
  cases alike with
  | ok known like => exact continued _ known _ _ kept like
  | error related like => exact ⟨.error related like, kept⟩

theorem parallel_look {next following : Emitter → Emit α}
    (same : ∀ emitter state, frame.like emitter state → following state = following emitter)
    (each : ∀ emitter, Expands frame.table stack emitter → Parallel frame stack (next emitter) (following emitter) result) :
    Parallel frame stack (get >>= next) (get >>= following) result := by
  intro emitter state expands like
  rw [outcome_bind_ok (outcome_get emitter),outcome_bind_ok (outcome_get state),same emitter state like]
  exact each emitter expands emitter state expands like

theorem Parallel.mono {action other : Emit α} {weaker : α → Prop} (parallel : Parallel frame stack action other result)
    (imply : ∀ value, result value → weaker value) : Parallel frame stack action other weaker := by
  intro emitter state expands like
  obtain ⟨alike,kept⟩ := parallel emitter state expands like
  refine ⟨?_, kept⟩
  generalize outcome action emitter = reached at alike
  generalize outcome other state = reached' at alike
  cases alike with
  | ok known like => exact .ok (imply _ known) like
  | error related like => exact .error related like

theorem parallel_mapM {step following : α → Emit β} (items : List α)
    (each : ∀ item ∈ items, Parallel frame stack (step item) (following item) fun _ => True) :
    Parallel frame stack (items.mapM step) (items.mapM following) fun _ => True := by
  induction items with
  | nil => exact parallel_pure trivial
  | cons item rest ih =>
    rw [List.mapM_cons,List.mapM_cons]
    exact parallel_bind (each item (by simp)) fun value _ =>
      parallel_bind (ih fun other member => each other (by simp [member])) fun values _ => parallel_pure trivial

theorem parallel_query {ask : Symbols → α × Symbols} (edits : ∀ symbols, Edit symbols (ask symbols).2)
    (answers : Answers frame.like ask) (known : ∀ emitter state, frame.like emitter state → result (ask emitter.symbols).1) :
    Parallel frame stack (query ask) (query ask) result := by
  intro emitter state expands like
  obtain ⟨same,after⟩ := answers like
  refine ⟨?_, expands.of_moves (keeps_query edits emitter)⟩
  change Alike frame result (.ok (ask emitter.symbols).1, _) (.ok (ask state.symbols).1, _)
  rw [same]
  exact .ok (known emitter state like) after

theorem parallel_update {change : Symbols → Symbols} (edits : ∀ symbols, Edit symbols (change symbols))
    (changes : Changes frame.like change) : Parallel frame stack (update change) (update change) fun _ => True :=
  fun emitter _ expands like => ⟨.ok trivial (changes like), expands.of_moves (keeps_update edits emitter)⟩

variable (likeness : Likeness frame.rule frame.settable frame.like)
include likeness

theorem parallel_remark (note : Remark) : Parallel frame stack (remark note) (remark note) fun _ => True :=
  parallel_update (Edit.remark · note) (likeness.remark note)

theorem parallel_temporary :
    Parallel frame stack temporary temporary fun name => frame.rule (.var name) ∧ frame.settable name :=
  parallel_query Edit.temporary likeness.temporary fun _ _ like => likeness.fresh like

theorem parallel_unfolded {action other : Emit α} (inner : Parallel frame stack action other result) :
    Parallel frame stack (unfolded action) (unfolded other) result := by
  intro emitter state expands like
  obtain ⟨alike,kept⟩ := inner { emitter with folding := false } { state with folding := false }
    ⟨expands.functions, expands.inlining⟩ (likeness.unfolded false like)
  rw [outcome_unfolded,outcome_unfolded,likeness.folding like]
  generalize outcome action { emitter with folding := false } = reached at alike kept
  generalize outcome other { state with folding := false } = reached' at alike
  refine ⟨?_, kept.functions, kept.inlining⟩
  cases alike with
  | ok known like => exact .ok known (likeness.unfolded _ like)
  | error related like => exact .error related (likeness.unfolded _ like)

theorem parallel_expanding {action other : Emit α} (inner : Parallel frame (name :: stack) action other result) :
    Parallel frame stack (expanding name action) (expanding name other) result := by
  intro emitter state expands like
  have below : Expands frame.table (name :: stack) { emitter with inlining := name :: emitter.inlining } :=
    ⟨expands.functions, congrArg (name :: ·) expands.inlining⟩
  obtain ⟨alike,kept⟩ := inner _ { state with inlining := name :: emitter.inlining } below (likeness.expanding _ like)
  rw [outcome_expanding,outcome_expanding,likeness.inlining like]
  generalize outcome action { emitter with inlining := name :: emitter.inlining } = reached at alike kept
  generalize outcome other { state with inlining := name :: emitter.inlining } = reached' at alike
  refine ⟨?_, kept.functions, expands.inlining⟩
  cases alike with
  | ok known like => exact .ok known (likeness.expanding _ like)
  | error related like => exact .error related (likeness.expanding _ like)

theorem parallel_listCode (name : String) : Parallel frame stack (listCode name) (listCode name) fun _ => True :=
  parallel_bind (parallel_query (Edit.listName · name) (likeness.listName name) fun _ _ _ => trivial) fun _ (_ : True) =>
    parallel_pure trivial

theorem parallel_scalarCode (name : String) : Parallel frame stack (scalarCode name) (scalarCode name) fun _ => True := by
  unfold scalarCode
  refine parallel_bind (parallel_query (Edit.slot · name) (likeness.slot name) fun _ _ _ => trivial) fun answer (_ : True) => ?_
  split
  · exact parallel_pure trivial
  · exact parallel_bind (parallel_listCode likeness overflowList) fun _ _ => parallel_pure trivial

end Runs

/-! ### Actions without a renderer -/

section Guided

variable {frame : Frame} {stack : List String}
  (guide : Guide frame.rule frame.settable frame.table frame.like frame.allowed)
include guide

theorem parallel_textCode (name : String) : Parallel frame stack (textCode name) (textCode name) fun _ => True := by
  unfold textCode
  refine parallel_bind (parallel_query (Edit.textName · name) (guide.likeness.textName name) fun _ _ _ => trivial)
    fun answer (_ : True) => ?_
  split
  · exact parallel_pure trivial
  · exact parallel_fail (guide.placeless _ (by simp))

theorem parallel_variableCode (named : frame.rule (.var name)) :
    Parallel frame stack (variableCode name) (variableCode name) fun _ => True := by
  unfold variableCode
  refine parallel_look (fun emitter state like => ?_) fun emitter _ => ?_
  · have same := guide.likeness.stored named like
    cases here : emitter.symbols.type name <;> cases there : state.symbols.type name <;>
      rw [here,there] at same <;> first | rfl | cases same
  · split
    · exact parallel_listCode guide.likeness name
    · exact parallel_textCode guide name
    · exact parallel_scalarCode guide.likeness name
    · exact parallel_scalarCode guide.likeness name

theorem parallel_takeType (isTarget : target.IsTarget frame.settable) (covered : value.Throughout frame.rule) :
    Parallel frame stack (takeType target value) (takeType target value) fun _ => True := by
  unfold takeType
  split
  · exact parallel_update (fun symbols => Edit.setType symbols _ _) (guide.likeness.setType isTarget covered)
  · exact parallel_pure trivial

theorem parallel_rangeValues (range : Range) : Parallel frame stack (rangeValues range) (rangeValues range) fun _ => True := by
  unfold rangeValues
  split
  · exact parallel_pure trivial
  · exact parallel_fail (guide.placeless _ (by simp))
  · exact parallel_fail (guide.placeless _ (by simp))

theorem parallel_resetSelector (named : frame.rule (.var selector)) :
    Parallel frame stack resetSelector resetSelector fun _ => True :=
  parallel_bind (parallel_variableCode guide named) fun _ _ => parallel_pure trivial

theorem parallel_loadParams (f : UserFunction) (named : ∀ param ∈ params, frame.rule (.var param)) :
    Parallel frame stack (loadParams f params) (loadParams f params) fun _ => True := by
  refine parallel_mapM _ fun bound member => parallel_bind (parallel_variableCode guide (named bound.1 ?_)) fun _ _ =>
    parallel_pure trivial
  exact List.fst_mem_of_mem_zipIdx member

/-! ### Constructs -/

omit guide in
/-- The renderers agree below a limit, and on the bodies of functions that are not being
expanded. A tree whose root has been through folding counts for one less. -/
structure Below (frame : Frame) (stack : List String) (limit : Nat) (render other : Renderer) : Prop where
  trees : ∀ settled tree, tree.Fits frame.rule (limit + settled.toNat) →
    Parallel frame stack (render settled tree) (other settled tree) fun _ => True
  bodies : ∀ f body, frame.table.users.find? (·.name == f.name) = some f → f.inline = true → f.name ∉ stack →
    f.body = some body → body.Throughout frame.rule →
      Parallel frame (f.name :: stack) (render false body) (other false body) fun _ => True

variable {limit : Nat} {render other : Renderer} (below : Below frame stack limit render other)
include below

theorem parallel_settle (fits : tree.Fits frame.rule (limit + 1)) :
    Parallel frame stack (settle render tree) (settle other tree) (Tree.Fits frame.rule (limit + 1)) := by
  have inner := parallel_unfolded guide.likeness (below.trees true tree fits)
  have literal (value : Constant) (short : value.code?.isSome = true) : value.tree.Fits frame.rule (limit + 1) := by
    have positive := rank_pos tree
    have room := fits.rank
    cases value with
    | number | boolean => exact .leaf (by omega) ⟨rfl, rfl⟩ (guide.plain _ rfl)
    | text | list => cases short
  unfold settle
  refine parallel_look (fun emitter state like => ?_) fun emitter _ => ?_
  · rw [guide.likeness.folding like]
  split
  · split
    · rename_i value _
      refine parallel_bind inner fun code _ => parallel_pure ?_
      split
      · rename_i shorter
        obtain ⟨code,written,_⟩ := (Option.any_eq_true _ _).mp shorter
        exact literal value (by rw [written]; rfl)
      · exact fits
    · exact parallel_pure fits
    · dsimp only
      split
      · exact parallel_bind inner fun _ _ => parallel_bind (parallel_remark guide.likeness _) fun _ _ => parallel_pure fits
      · exact parallel_pure fits
  · exact parallel_pure fits

theorem parallel_operand (outer : Operator) (right : Bool) (fits : tree.Fits frame.rule limit) :
    Parallel frame stack (operand render outer right tree) (operand other outer right tree) fun _ => True :=
  parallel_bind (parallel_settle guide below fits.more) fun settled fits =>
    parallel_bind (below.trees true settled fits) fun _ _ =>
      parallel_look (fun _ _ like => by rw [guide.likeness.modern like]) fun _ _ => parallel_pure trivial

theorem parallel_arithmetic (op : Arith) (first : left.Fits frame.rule limit) (second : right.Fits frame.rule limit) :
    Parallel frame stack (arithmetic render left op right) (arithmetic other left op right) fun _ => True := by
  unfold arithmetic
  refine parallel_look (fun emitter state like => ?_) fun emitter _ => ?_
  · rw [guide.likeness.modern like]
  split
  · exact parallel_bind (below.trees false left first) fun _ _ =>
      parallel_bind (below.trees false right second) fun _ _ => parallel_pure trivial
  · exact parallel_bind (parallel_operand guide below _ false first) fun _ _ =>
      parallel_bind (parallel_operand guide below _ true second) fun _ _ => parallel_pure trivial

theorem parallel_comparison (op : Comparison) (first : left.Fits frame.rule limit) (second : right.Fits frame.rule limit) :
    Parallel frame stack (comparison render left op right) (comparison other left op right) fun _ => True :=
  parallel_bind (parallel_operand guide below _ false first) fun _ _ =>
    parallel_bind (parallel_operand guide below _ true second) fun _ _ => parallel_pure trivial

omit guide in
theorem parallel_renderAll {trees : List Tree} (fits : ∀ tree ∈ trees, tree.Fits frame.rule limit) :
    Parallel frame stack (renderAll render trees) (renderAll other trees) fun _ => True :=
  parallel_mapM trees fun tree member => below.trees false tree (fits tree member)

theorem parallel_listItem {item : Tree} (fits : item.Fits frame.rule limit) :
    Parallel frame stack (listItem render item) (listItem other item) fun _ => True := by
  unfold listItem
  split
  · split
    · exact below.trees false _ fits
    · exact parallel_fail (guide.placeless _ (by simp))
  · exact below.trees false item fits

theorem parallel_listLiteral {items : List Tree} (fits : ∀ item ∈ items, item.Fits frame.rule limit) :
    Parallel frame stack (listLiteral render items) (listLiteral other items) fun _ => True := by
  unfold listLiteral
  split
  · exact parallel_bind (parallel_rangeValues guide _) fun _ _ => parallel_pure trivial
  · exact parallel_bind (parallel_mapM items fun item member => parallel_listItem guide below (fits item member)) fun _ _ =>
      parallel_pure trivial

omit guide in
theorem parallel_store (first : target.Fits frame.rule limit) (second : value.Fits frame.rule limit) :
    Parallel frame stack (store render target value) (store other target value) fun _ => True :=
  parallel_bind (below.trees false value second) fun _ _ =>
    parallel_bind (below.trees false target first) fun _ _ => parallel_pure trivial

theorem parallel_storeTyped (isTarget : target.IsTarget frame.settable) (first : target.Fits frame.rule limit)
    (second : value.Fits frame.rule limit) :
    Parallel frame stack (storeTyped render target value) (storeTyped other target value) fun _ => True :=
  parallel_bind (parallel_takeType guide isTarget second.covered) fun _ _ => parallel_store below first second

theorem parallel_countedLoop (first : counter.Fits frame.rule limit) (isRange : tree.range? = some range)
    (fits : tree.Fits frame.rule limit) :
    Parallel frame stack (countedLoop render counter range) (countedLoop other counter range) fun _ => True := by
  obtain ⟨start,stop,step⟩ := Tree.rank_range? isRange
  have last := range.rank_lastValue
  have whole := fits.rank
  have covered := fits.covered.range isRange
  unfold countedLoop
  refine parallel_bind (below.trees false counter first) fun _ _ => ?_
  refine parallel_bind (below.trees false range.start ⟨by rw [Bool.toNat_false]; omega, covered.start⟩) fun _ _ => ?_
  refine parallel_bind (below.trees false range.lastValue ⟨by rw [Bool.toNat_false]; omega, guide.throughout_lastValue covered⟩)
    fun _ _ => ?_
  refine parallel_bind (parallel_settle guide below ⟨by omega, covered.step⟩) fun step fits => ?_
  dsimp only
  split
  · exact parallel_pure trivial
  · exact parallel_bind (below.trees true step fits) fun _ _ => parallel_pure trivial

theorem parallel_fillList (isRange : tree.range? = some range) (fits : tree.Fits frame.rule limit) :
    Parallel frame stack (fillList render range) (fillList other range) (Tree.Fits frame.rule 3 ·.2) := by
  obtain ⟨start,_,_⟩ := Tree.rank_range? isRange
  have positive := rank_pos range.start
  have whole := fits.rank
  have room : 2 < limit := by omega
  have number (value : Float) : (Tree.number value).Fits frame.rule limit := .leaf room ⟨rfl, rfl⟩ (guide.plain _ rfl)
  unfold fillList
  refine parallel_bind (parallel_temporary guide.likeness) fun list known => ?_
  obtain ⟨first,isList⟩ := known
  refine parallel_bind (parallel_temporary guide.likeness) fun count known => ?_
  obtain ⟨second,isCount⟩ := known
  refine parallel_bind (parallel_temporary guide.likeness) fun counter known => ?_
  have place := Tree.Fits.var room first
  have place' := Tree.Fits.var room second
  have place'' := Tree.Fits.var room known.1
  refine parallel_bind (parallel_storeTyped guide below isList place ⟨?_, ?_⟩) fun _ _ => ?_
  · have single := @Tree.rank_le (.list [.number 0]) 1 fun child isChild => by
      rw [List.mem_singleton.mp isChild,Tree.rank_number]
    have weight : (Tree.list [.number 0]).weight = 1 := rfl
    omega
  · exact guide.throughout rfl (by simp [guide.throughout_number])
  refine parallel_bind (parallel_storeTyped guide below isCount place' (number 0)) fun _ _ => ?_
  refine parallel_bind (parallel_countedLoop guide below place'' isRange fits) fun _ _ => ?_
  refine parallel_bind (parallel_storeTyped guide below isCount place' ⟨?_, ?_⟩) fun _ _ => ?_
  · rw [rank_arith,Tree.rank_var,Tree.rank_number]
    omega
  · exact guide.throughout_arith place'.covered (number 1).covered
  refine parallel_bind (parallel_storeTyped guide below trivial ⟨?_, ?_⟩ place'') fun _ _ => parallel_pure (.var (by decide) first)
  · rw [Tree.rank_element,Tree.rank_var,Tree.rank_var]
    omega
  · exact guide.throughout_element place.covered place'.covered

theorem parallel_fillAtRunTime? (isRange : tree.range? = some range) (fits : tree.Fits frame.rule limit) :
    Parallel frame stack (fillAtRunTime? render range) (fillAtRunTime? other range)
      fun filled => ∀ list ∈ filled, list.2.Fits frame.rule 3 := by
  have fill := parallel_bind (parallel_fillList guide below isRange fits) fun filled known =>
    (parallel_pure (by simpa using known) : Parallel frame stack (pure (some filled)) (pure (some filled))
      fun filled => ∀ list ∈ filled, list.2.Fits frame.rule 3)
  unfold fillAtRunTime?
  split
  · exact parallel_pure (by simp)
  · exact fill
  · exact parallel_bind (parallel_remark guide.likeness _) fun _ _ => fill

theorem parallel_assign {mode : Store} (isTarget : target.IsTarget frame.settable)
    (admitted : target.isAssignable = false → frame.allowed ⟨.notAssignable, some line⟩) (first : target.Fits frame.rule limit)
    (second : (assignedValue target mode value).Fits frame.rule limit) :
    Parallel frame stack (assign render target mode value line) (assign other target mode value line) fun _ => True := by
  unfold assign
  split
  · rename_i unassignable
    exact parallel_fail (admitted (by simpa using unassignable))
  · dsimp only
    refine parallel_bind (parallel_takeType guide isTarget second.covered) fun _ _ => ?_
    split
    · exact parallel_store below first second
    · rename_i range isRange
      refine parallel_bind (parallel_fillAtRunTime? guide below isRange second) fun filled known => ?_
      split
      · exact parallel_store below first second
      · rename_i setup list
        have short : list.Fits frame.rule 3 := known (setup, list) rfl
        have positive := rank_pos target
        have room := first.rank
        have brief := short.rank
        exact parallel_bind (below.trees false list ⟨by rw [Bool.toNat_false]; omega, short.covered⟩) fun _ _ =>
          parallel_bind (below.trees false target first) fun _ _ => parallel_pure trivial

theorem parallel_branch {otherwise : Option Tree} (test : condition.Fits frame.rule limit) (inside : body.Fits frame.rule limit)
    (outside : ∀ rest ∈ otherwise, rest.Fits frame.rule limit) :
    Parallel frame stack (branch render condition body otherwise) (branch other condition body otherwise) fun _ => True := by
  unfold branch
  refine parallel_bind (parallel_settle guide below test.more) fun condition fits => ?_
  split
  · exact below.trees false body inside
  · exact below.trees false _ (outside _ rfl)
  · exact parallel_pure trivial
  · refine parallel_bind (below.trees true condition fits) fun _ _ => ?_
    refine parallel_bind (below.trees false body inside) fun code _ => ?_
    split
    · exact parallel_bind (below.trees false _ (outside _ rfl)) fun _ _ => parallel_pure trivial
    · split
      · exact parallel_pure trivial
      · exact parallel_pure trivial

omit guide in
theorem parallel_loop (untilTrue : Bool) (test : condition.Fits frame.rule limit) (inside : body.Fits frame.rule limit) :
    Parallel frame stack (loop render condition body untilTrue) (loop other condition body untilTrue) fun _ => True :=
  parallel_bind (below.trees false condition test) fun _ _ =>
    parallel_bind (below.trees false body inside) fun _ _ => parallel_pure trivial

theorem parallel_loopList (isTarget : collection.IsTarget frame.settable) (fits : collection.Fits frame.rule limit) :
    Parallel frame stack (loopList render collection) (loopList other collection) (Tree.Fits frame.rule 3 ·.2) := by
  have positive := rank_pos collection
  have whole := fits.rank
  unfold loopList
  split
  · rename_i range isRange
    exact parallel_fillList guide below isRange fits
  · rename_i name _
    exact parallel_bind (parallel_update (Edit.setType · name .list) (guide.likeness.setList isTarget)) fun _ _ =>
      parallel_pure (.leaf (by decide) ⟨rfl, rfl⟩ fits.covered.root)
  · exact parallel_pure (.leaf (by decide) ⟨rfl, rfl⟩ fits.covered.root)
  · refine parallel_bind (parallel_temporary guide.likeness) fun copy known => ?_
    exact parallel_bind (parallel_storeTyped guide below known.2 (.var (by omega) known.1) fits) fun _ _ =>
      parallel_pure (.var (by decide) known.1)

theorem parallel_listLoop (room : 10 < limit) (isTarget : counter.IsTarget frame.settable ∧ collection.IsTarget frame.settable)
    (length : ∀ list : Tree, frame.rule (.call "array_length" [list] 0))
    (admitted : counter.isAssignable = false → frame.allowed ⟨.notAssignable, some 0⟩) (first : counter.Fits frame.rule limit)
    (second : collection.Fits frame.rule limit) (inside : body.Fits frame.rule limit) :
    Parallel frame stack (listLoop render counter collection body) (listLoop other counter collection body) fun _ => True := by
  have lower : "array_length".toLower = "array_length" := by cbv
  unfold listLoop
  refine parallel_bind (parallel_loopList guide below isTarget.2 second) fun prepared known => ?_
  obtain ⟨setup,list⟩ := prepared
  have brief : 2 * list.rank < 3 := known.rank
  refine parallel_bind (parallel_temporary guide.likeness) fun bound named => ?_
  obtain ⟨last,isBound⟩ := named
  refine parallel_bind (parallel_temporary guide.likeness) fun index named => ?_
  have end' := Tree.Fits.var (Nat.lt_trans (by decide) room) last
  have place := Tree.Fits.var (Nat.lt_trans (by decide) room) named.1
  refine parallel_bind (parallel_storeTyped guide below isBound end' ⟨?_, ?_⟩) fun _ _ => ?_
  · have measured : (Tree.callOf "array_length" [list] 0).rank ≤ 4 + 1 := by
      refine Expansion.rank_callOf Expansion.weight_arrayLength (fun argument only => ?_) 0
      rw [List.mem_singleton.mp only]
      omega
    omega
  · rw [Tree.callOf,lower]
    exact Tree.throughout_iff.mpr ⟨length list, by simpa [Tree.children] using known.covered⟩
  refine parallel_bind (below.trees false _ place) fun _ _ => ?_
  refine parallel_bind (below.trees false _ end') fun _ _ => ?_
  refine parallel_bind (parallel_assign guide below isTarget.1 admitted first ⟨?_, ?_⟩) fun _ _ => ?_
  · rw [assignedValue,Tree.rank_element,Tree.rank_var]
    omega
  · exact guide.throughout_element known.covered place.covered
  exact parallel_bind (below.trees false body inside) fun _ _ => parallel_pure trivial

theorem parallel_forEach (fits : (Tree.forEach counter collection body).Fits frame.rule (limit + 2)) :
    Parallel frame stack (forEach render counter collection body) (forEach other counter collection body) fun _ => True := by
  have first : counter.Fits frame.rule limit := fits.child (by simp)
  have second : collection.Fits frame.rule limit := fits.child (by simp)
  have inside : body.Fits frame.rule limit := fits.child (by simp)
  have whole := fits.rank
  have lower := @Tree.rank_child (.forEach counter collection body) counter (by simp)
  have positive := rank_pos counter
  simp only [Tree.weight] at lower
  unfold forEach
  split
  · rename_i range simple
    have isRange := (Option.filter_eq_some_iff.mp simple).1
    exact parallel_bind (parallel_countedLoop guide below first isRange second) fun _ _ =>
      parallel_bind (below.trees false body inside) fun _ _ => parallel_pure trivial
  · rename_i notSimple
    have listed : collection.isCounted = false := by rw [Tree.isCounted,notSimple]; rfl
    have root := fits.covered.root
    exact parallel_listLoop guide below (by omega) (guide.retyped root listed) (guide.lengths root listed)
      (guide.counters root listed) first second inside

/-! ### Calls and functions -/

theorem parallel_builtinCall {f : Builtin} (root : frame.rule (.call name arguments line))
    (found : frame.table.find? name = some (.builtin f)) (fits : ∀ argument ∈ arguments, argument.Fits frame.rule limit)
    (expanded : ∀ expansion ∈ f.expansion, 2 * (expansion.expand arguments line).rank < limit) :
    Parallel frame stack (builtinCall render name f arguments line) (builtinCall other name f arguments line) fun _ => True := by
  unfold builtinCall
  split
  · rename_i expansion expands
    have covered := guide.throughout_expand root found expands fun argument member => (fits argument member).covered
    exact below.trees false _ ⟨expanded expansion expands, covered⟩
  · rename_i whole
    split
    · rename_i refused
      exact parallel_fail (guide.faults root (.builtinCount found whole (by simpa using refused)))
    · split
      · exact parallel_pure trivial
      · exact parallel_bind (parallel_renderAll below fits) fun _ _ => parallel_pure trivial

theorem parallel_inlineCall {padded : List Tree} (root : frame.rule (.call name arguments line))
    (found : frame.table.find? name = some (.user f)) (inline : f.inline = true) (room : 2 < limit)
    (fits : ∀ argument ∈ padded, argument.Fits frame.rule limit) :
    Parallel frame stack (inlineCall render name f padded line) (inlineCall other name f padded line) fun _ => True := by
  unfold inlineCall
  refine parallel_look (fun emitter state like => ?_) fun emitter expands => ?_
  · rw [guide.likeness.inlining like]
  rw [expands.inlining]
  split
  · exact parallel_fail (guide.faults root (.itself found inline))
  · rename_i absent
    have fresh : f.name ∉ stack := fun member => absent (List.contains_iff_mem.mpr member)
    split
    · rename_i bodiless
      exact parallel_fail (guide.faults root (.bodiless found inline bodiless))
    · rename_i body isBody
      refine parallel_bind (parallel_mapM _ fun bound member => ?_) fun _ _ => ?_
      · obtain ⟨isParam,isArgument⟩ := List.of_mem_zip member
        obtain ⟨named,isSettable⟩ := guide.params root found inline bound.1 isParam
        exact parallel_assign guide below isSettable (by simp [Tree.isAssignable]) (.var room named) (fits bound.2 isArgument)
      · have inner := below.bodies f body (FunctionTable.find?_name found) inline fresh isBody (guide.bodies root found inline isBody)
        exact parallel_bind (parallel_expanding guide.likeness inner) fun _ _ => parallel_pure trivial

theorem parallel_sectionCall (named : frame.rule (.var selector)) (f : UserFunction)
    (fits : ∀ argument ∈ arguments, argument.Fits frame.rule limit) :
    Parallel frame stack (sectionCall render f arguments) (sectionCall other f arguments) fun _ => True := by
  have leave (pass : List String) (_ : True) : let leaving : Emit String := do
        let place ← variableCode selector
        let select := toString f.id ++ "→" ++ place
        return ":".intercalate (pass ++ [select, "prgm" ++ (← get).program, "Ans"])
      Parallel frame stack leaving leaving fun _ => True :=
    parallel_bind (parallel_variableCode guide named) fun _ _ =>
      parallel_look (fun _ _ like => by rw [guide.likeness.program like]) fun _ _ => parallel_pure trivial
  unfold sectionCall
  dsimp only
  split
  · exact parallel_bind (parallel_pure trivial) leave
  · exact parallel_bind (parallel_listLiteral guide below fits) fun _ _ => parallel_bind (parallel_pure trivial) leave

theorem parallel_userCall (root : frame.rule (.call name arguments line)) (found : frame.table.find? name = some (.user f))
    (room : 2 < limit) (fits : ∀ argument ∈ arguments, argument.Fits frame.rule limit) :
    Parallel frame stack (userCall render name f arguments line) (userCall other name f arguments line) fun _ => True := by
  have padded : ∀ argument ∈ arguments ++ List.replicate (f.params.length - arguments.length) (Tree.number 0),
      argument.Fits frame.rule limit :=
    forall_mem_padded fits (.leaf room ⟨rfl, rfl⟩ (guide.plain _ rfl)) _
  unfold userCall
  split
  · rename_i refused
    exact parallel_fail (guide.faults root (.userCount found (by simpa using refused)))
  · dsimp only
    split
    · rename_i inline
      exact parallel_inlineCall guide below root found inline room padded
    · rename_i outOfLine
      exact parallel_sectionCall guide below (guide.selects root found (by simpa using outOfLine)) f padded

theorem parallel_call (root : frame.rule (.call name arguments line)) (room : 2 < limit)
    (fits : ∀ argument ∈ arguments, argument.Fits frame.rule limit)
    (expanded : ∀ f expansion, Builtin.find? name = some f → f.expansion = some expansion →
      2 * (expansion.expand arguments line).rank < limit) :
    Parallel frame stack (call render name arguments line) (call other name arguments line) fun _ => True := by
  unfold call
  refine parallel_look (fun emitter state like => ?_) fun emitter expands => ?_
  · rw [guide.found root like]
  rw [expands.functions]
  split
  · rename_i absent
    exact parallel_fail (guide.faults root (.unknown absent))
  · rename_i f found
    exact parallel_builtinCall guide below root found fits fun expansion => expanded f expansion (FunctionTable.builtin_of_find? found)
  · rename_i found
    exact parallel_userCall guide below root found room fits

theorem parallel_membership (fits : (Tree.membership value collection).Fits frame.rule (limit + 2)) :
    Parallel frame stack (membership render value collection) (membership other value collection) fun _ => True := by
  have inside : ∀ child ∈ [value,collection], child.rank + 2 ≤ (Tree.membership value collection).rank := fun child member =>
    @Tree.rank_child (.membership value collection) child member
  have first := inside value (by simp)
  have second := inside collection (by simp)
  have whole := fits.rank
  have kept : (Builtin.find? "array_sum").bind Builtin.expansion = none := by cbv
  refine parallel_call guide below (guide.sums fits.covered.root _) (by omega) (fun argument only => ?_) fun f expansion found expands => ?_
  · rw [List.mem_singleton.mp only]
    refine ⟨?_, guide.throughout rfl fun child isChild => fits.covered.child isChild⟩
    rw [rank_compare]
    omega
  · rw [found,Option.bind_some,expands] at kept
    cases kept

theorem parallel_function {inline : Bool} (fits : (Tree.function name params body inline).Fits frame.rule (limit + 2)) :
    Parallel frame stack (function render name params body inline) (function other name params body inline) fun _ => True := by
  unfold function
  split
  · exact parallel_pure trivial
  · rename_i outOfLine
    obtain rfl : inline = false := by simpa using outOfLine
    obtain ⟨chosen,loaded⟩ := guide.loads fits.covered.root
    refine parallel_look (fun emitter state like => ?_) fun emitter expands => ?_
    · rw [guide.sections fits.covered.root like]
    split
    · exact parallel_fail (guide.placeless _ (by simp))
    · refine parallel_bind (parallel_variableCode guide chosen) fun _ _ => ?_
      refine parallel_bind (parallel_resetSelector guide chosen) fun _ _ => ?_
      refine parallel_bind (parallel_loadParams guide _ loaded) fun _ _ => ?_
      exact parallel_bind (below.trees false body (fits.child (by simp))) fun _ _ => parallel_pure trivial

theorem parallel_construct {settled : Bool} (fits : tree.Fits frame.rule (limit + settled.toNat + 1)) :
    Parallel frame stack (construct render settled tree) (construct other settled tree) fun _ => True := by
  have fits' : tree.Fits frame.rule (limit + 2) :=
    ⟨Nat.lt_of_lt_of_le fits.rank (by have := settled.toNat_le; omega), fits.covered⟩
  have inside {child : Tree} (isChild : child ∈ tree.children) : child.Fits frame.rule limit := fits'.child isChild
  have operation {action action' : Emit String} (inner : Parallel frame stack action action' fun _ => True) :
      Parallel frame stack (if settled = true then action else do render true (← settle render tree))
        (if settled = true then action' else do other true (← settle other tree)) fun _ => True := by
    cases settled with
    | true => exact inner
    | false => exact parallel_bind (parallel_settle guide below fits) fun tree fits => below.trees true tree fits
  cases tree with
  | number | boolean | text => exact parallel_pure trivial
  | list items => exact parallel_listLiteral guide below fun item member => inside member
  | var name => exact parallel_variableCode guide fits.covered.root
  | listVar name => exact parallel_listCode guide.likeness name
  | textVar name => exact parallel_textCode guide name
  | commas items | block items | line items =>
    exact parallel_bind (parallel_renderAll below fun item member => inside member) fun _ _ => parallel_pure trivial
  | range start stop step inclusive standalone =>
    exact parallel_bind (parallel_rangeValues guide _) fun _ _ => parallel_pure trivial
  | assign target mode value line =>
    have first := inside (show target ∈ _ by simp)
    have second := inside (show value ∈ _ by simp)
    refine parallel_assign guide below (guide.assigned fits.covered.root) (guide.targets fits.covered.root) first ?_
    cases mode with
    | set => exact second
    | update op =>
      have inTarget := @Tree.rank_child (.assign target (.update op) value line) target (by simp)
      have inValue := @Tree.rank_child (.assign target (.update op) value line) value (by simp)
      have whole := fits'.rank
      simp only [Tree.weight] at inTarget inValue
      refine ⟨?_, guide.throughout_arith first.covered second.covered⟩
      rw [assignedValue,rank_arith]
      omega
  | element base index =>
    exact parallel_bind (below.trees false base (inside (by simp))) fun _ _ =>
      parallel_bind (below.trees false index (inside (by simp))) fun _ _ => parallel_pure trivial
  | arith left op right =>
    exact operation (parallel_arithmetic guide below op (inside (by simp)) (inside (by simp)))
  | compare left op right =>
    exact operation (parallel_comparison guide below op (inside (by simp)) (inside (by simp)))
  | call name arguments line =>
    have weight := Tree.weight_call name arguments line
    have whole := fits'.rank
    refine parallel_call guide below fits.covered.root ?_ (fun argument member => inside member) fun f expansion found expands => ?_
    · rw [Tree.rank_eq] at whole
      omega
    · have lower := Expansion.rank_expand found expands arguments line
      omega
  | membership value collection => exact parallel_membership guide below fits'
  | branch condition body otherwise =>
    refine parallel_branch guide below (inside ?_) (inside ?_) fun rest isRest => inside ?_
    · cases otherwise <;> simp
    · cases otherwise <;> simp
    · rw [Option.mem_def.mp isRest]
      simp
  | forEach counter collection body => exact parallel_forEach guide below fits'
  | loop condition body untilTrue =>
    exact parallel_loop below untilTrue (inside (by simp)) (inside (by simp))
  | function name params body inline => exact parallel_function guide below fits'
  | native code => exact parallel_look (fun _ _ like => by rw [guide.likeness.inlining like]) fun _ _ => parallel_pure trivial

/-! ### Programs -/

omit below in
theorem parallel_layOut (chosen : frame.rule (.var selector)) {statements : List Tree}
    (each : ∀ tree ∈ statements, Parallel frame stack (code tree) (code tree) fun _ => True) :
    Parallel frame stack (layOut statements) (layOut statements) fun _ => True := by
  unfold layOut
  refine parallel_bind (parallel_mapM _ fun tree member => parallel_bind (each tree member) fun _ _ => parallel_pure trivial)
    fun codes _ => ?_
  dsimp only
  split
  · exact parallel_pure trivial
  · exact parallel_bind (parallel_resetSelector guide chosen) fun _ _ => parallel_pure trivial

omit below in
theorem parallel_program (chosen : frame.rule (.var selector))
    (each : ∀ part : Tree, part = tree ∨ part ∈ tree.children → Parallel frame stack (code part) (code part) fun _ => True) :
    Parallel frame stack (program tree) (program tree) fun _ => True := by
  unfold program
  split
  · exact parallel_bind (parallel_layOut guide chosen fun part member => each part (.inr member)) fun _ _ => parallel_pure trivial
  · exact parallel_bind (each tree (.inl rfl)) fun _ _ => parallel_pure trivial

end Guided
end Emit
end CalcBasic

import CalcBasic.Proofs.Subtrees
import CalcBasic.Proofs.VariantReading

/-! Where reading puts its lines. All lines that reading sets down, in trees, in remarks and in
the errors it ends with, are lines of tokens. Complements of conditions alone have none. -/
namespace CalcBasic
open List

/-- The builtins that trees without a token of their own call. -/
def unwrittenCalls : List String := ["not", "array_sum", "array_length"]

/-- The node is on one of the lines, if it is on any. -/
def Tree.OnLine (lines : Nat → Prop) : Tree → Prop
  | .call name arguments place => lines place ∨ place = 0 ∧ name ∈ unwrittenCalls ∧ arguments.length = 1
  | .assign _ _ _ place => lines place
  | _ => True

/-- All nodes of the tree are on lines among these, if they are on any. -/
abbrev Tree.Lined (lines : Nat → Prop) (tree : Tree) : Prop := tree.Throughout (OnLine lines)

/-- Each token is on one of the lines. -/
def OnLines (lines : Nat → Prop) (tokens : List Token) : Prop := ∀ token ∈ tokens, lines token.line

variable {lines : Nat → Prop}

theorem OnLines.subset {tokens part : List Token} (placed : OnLines lines tokens) (inside : part ⊆ tokens) :
    OnLines lines part := fun token member => placed token (inside member)

namespace Tree

theorem onLine_of_children {tree : Tree} (free : tree.kind ≠ .call ∧ tree.kind ≠ .assign)
    (children : ∀ child ∈ tree.children, child.Lined lines) : tree.Lined lines := by
  refine throughout_iff.mpr ⟨?_, children⟩
  cases tree with
  | call => exact absurd rfl free.1
  | assign => exact absurd rfl free.2
  | _ => trivial

theorem onLine_leaf {tree : Tree} (free : tree.kind ≠ .call ∧ tree.kind ≠ .assign) (leaf : tree.children = []) :
    tree.Lined lines :=
  onLine_of_children free (by rw [leaf]; exact nofun)

theorem onLine_call (name : String) {arguments : List Tree} {place : Nat} (placed : lines place)
    (children : ∀ argument ∈ arguments, argument.Lined lines) :
    (callOf name arguments place).Lined lines :=
  throughout_iff.mpr ⟨.inl placed, children⟩

theorem onLine_pair {tree first second : Tree} (free : tree.kind ≠ .call ∧ tree.kind ≠ .assign)
    (isPair : tree.children = [first, second]) (left : first.Lined lines)
    (right : second.Lined lines) : tree.Lined lines :=
  onLine_of_children free (by rw [isPair]; simp [left,right])

theorem onLine_negated {condition : Tree} (placed : condition.Lined lines) :
    condition.negated.Lined lines := by
  have lower : "not".toLower = "not" := by decide +kernel
  have complement : (callOf "not" [condition] 0).Lined lines := by
    refine throughout_iff.mpr ⟨?_, by simpa [callOf,children] using placed⟩
    rw [callOf,lower]
    exact .inr ⟨rfl, by simp [unwrittenCalls], rfl⟩
  cases condition with
  | compare left op right =>
    rw [negated]
    split
    · exact onLine_pair (by simp) rfl (placed.child (by simp)) (placed.child (by simp))
    · exact complement
  | _ => exact complement

end Tree

namespace Read
open CalcBasic.Action

variable {symbols : Symbols} {tokens : List Token}

/-- All lines in the table are among the lines. -/
structure Placed (lines : Nat → Prop) (symbols : Symbols) : Prop where
  remarks : ∀ diagnostic ∈ symbols.diagnostics, ∀ line ∈ diagnostic.line, lines line
  bodies : ∀ f ∈ symbols.functions.users, ∀ body ∈ f.body, body.Lined lines

/-- Every run keeps to the lines, and ends with such a value or with an error on one of them. -/
def Places (lines : Nat → Prop) {α : Type} (action : Read α) (result : α → Prop) : Prop :=
  ∀ symbols, Placed lines symbols → Placed lines (outcome action symbols).2 ∧
    (∀ value, (outcome action symbols).1 = .ok value → result value) ∧
    ∀ error, (outcome action symbols).1 = .error error → ∀ line ∈ error.line, lines line

section Runs

variable {α β : Type} {result : α → Prop}

theorem places_pure {value : α} (known : result value) : Places lines (pure value) result := by
  intro symbols placed
  refine ⟨placed, ?_, nofun⟩
  rintro _ ⟨⟩
  exact known

theorem places_fail {line : Nat} (known : lines line) (fault : Fault) : Places lines (fail fault line : Read α) result := by
  intro symbols placed
  refine ⟨placed, nofun, ?_⟩
  rintro _ ⟨⟩ _ ⟨⟩
  exact known

theorem places_get : Places lines (get : Read Symbols) fun _ => True :=
  fun _ placed => ⟨placed, fun _ _ => trivial, nofun⟩

theorem places_modify {change : Symbols → Symbols} (each : ∀ symbols, Placed lines symbols → Placed lines (change symbols)) :
    Places lines (modify change : Read Unit) fun _ => True :=
  fun symbols placed => ⟨each symbols placed, fun _ _ => trivial, nofun⟩

theorem places_bind {first : Read α} {next : α → Read β} {last : β → Prop} (start : Places lines first result)
    (continued : ∀ value, result value → Places lines (next value) last) : Places lines (first >>= next) last := by
  intro symbols placed
  obtain ⟨kept,ok,error⟩ := start symbols placed
  rw [outcome_bind]
  rcases reached : outcome first symbols with ⟨_ | value,after⟩
  · rw [reached] at kept error
    exact ⟨kept, nofun, fun failed isFailed => error failed (congrArg Except.error (Except.error.inj isFailed))⟩
  · rw [reached] at kept ok
    exact continued value (ok value rfl) after kept

theorem Places.mono {action : Read α} {weaker : α → Prop} (places : Places lines action result)
    (imply : ∀ value, result value → weaker value) : Places lines action weaker := by
  intro symbols placed
  obtain ⟨kept,ok,error⟩ := places symbols placed
  exact ⟨kept, fun value returned => imply value (ok value returned), error⟩

theorem places_forIn {step : α → β → Read (ForInStep β)} (items : List α) (start : β)
    (steps : ∀ item ∈ items, ∀ value, Places lines (step item value) fun _ => True) :
    Places lines (forIn items start step) fun _ => True := by
  induction items generalizing start with
  | nil => exact places_pure trivial
  | cons item rest ih =>
    rw [forIn_cons]
    refine places_bind (steps item mem_cons_self start) fun next _ => ?_
    cases next with
    | done value => exact places_pure trivial
    | «yield» value => exact ih value fun other member => steps other (mem_cons_of_mem item member)

end Runs

/-! ### Edits of the table -/

theorem Placed.reference (placed : Placed lines symbols) (name : String) : Placed lines (symbols.reference name) := by
  unfold Symbols.reference
  split
  · exact ⟨placed.remarks, placed.bodies⟩
  · exact ⟨placed.remarks, placed.bodies⟩

theorem Placed.remark (placed : Placed lines symbols) (note : Remark) {line : Option Nat}
    (known : ∀ number ∈ line, lines number) : Placed lines (symbols.remark note line) := by
  refine ⟨fun diagnostic member => ?_, placed.bodies⟩
  rcases mem_append.mp member with earlier | last
  · exact placed.remarks diagnostic earlier
  · rw [mem_singleton.mp last]
    exact known

theorem Placed.declare (placed : Placed lines symbols) (name : String) (inline : Bool) :
    Placed lines (symbols.declare name inline).2 := by
  refine ⟨placed.remarks, fun f isUser body isBody => ?_⟩
  change f ∈ (symbols.functions.declare name inline).2.users at isUser
  unfold FunctionTable.declare at isUser
  split at isUser
  · exact placed.bodies f isUser body isBody
  · rcases mem_append.mp isUser with earlier | last
    · exact placed.bodies f earlier body isBody
    · rw [mem_singleton.mp last] at isBody
      cases isBody

theorem Placed.define (placed : Placed lines symbols) (name : String) (inline : Bool) (params : List String) (required : Nat)
    {body : Tree} (known : body.Lined lines) :
    Placed lines (symbols.define name inline params required body).2 := by
  refine ⟨placed.remarks, fun f isUser inner isBody => ?_⟩
  obtain ⟨g,isDeclared,rfl⟩ := mem_map.mp isUser
  split at isBody
  · cases isBody
    exact known
  · exact (placed.declare name inline).bodies g isDeclared inner isBody

theorem places_remark (note : Remark) {line : Nat} (known : lines line) : Places lines (remark note (some line)) fun _ => True :=
  places_modify fun _ placed => placed.remark note (by simpa using known)

theorem places_reference (name : String) : Places lines (reference name) fun _ => True :=
  places_bind (places_modify fun _ placed => placed.reference name) fun _ _ => places_pure trivial

/-! ### Expressions -/

variable (markUnknown : Bool)

theorem places_unknown (placed : OnLines lines tokens) : Places lines (unknown markUnknown tokens) (Tree.Lined lines) := by
  have head : ∀ number ∈ tokens.head?.map Token.line, lines number := by
    intro number isLine
    obtain ⟨first,isHead,rfl⟩ := Option.map_eq_some_iff.mp isLine
    exact placed first (mem_of_head? isHead)
  refine places_bind (places_modify fun _ before => before.remark _ head) fun _ _ => places_pure ?_
  split <;> exact Tree.onLine_leaf (by simp) rfl

theorem places_number {token : Token} (known : lines token.line) :
    Places lines (number token) (Tree.Lined lines) := by
  unfold number
  split
  · exact places_pure (Tree.onLine_leaf (by simp) rfl)
  · exact places_fail known _

theorem places_callTree {name : Token} (known : lines name.line) {arguments : List Tree}
    (placed : ∀ argument ∈ arguments, argument.Lined lines) :
    Places lines (callTree name arguments) (Tree.Lined lines) := by
  have finish : Places lines (pure (Tree.callOf name.text arguments name.line)) (Tree.Lined lines) :=
    places_pure (Tree.onLine_call name.text known placed)
  unfold callTree
  refine places_bind places_get fun symbols _ => ?_
  split
  · split
    · exact finish
    · exact places_bind (places_modify fun _ before => before.reference selector) fun _ _ => finish
  · exact finish

theorem lined_listItem {tree : Tree} (placed : tree.Lined lines) : (listItem tree).Lined lines := by
  unfold listItem
  split
  · exact Tree.onLine_of_children (by simp) fun child isChild => placed.child isChild
  · exact placed

theorem lined_operationTree {left right : Tree} (op : Operator) (first : left.Lined lines) (second : right.Lined lines) :
    (operationTree left op right).Lined lines := by
  cases op with
  | arith op => exact Tree.onLine_pair (by simp [operationTree]) rfl first second
  | compare op => exact Tree.onLine_pair (by simp [operationTree]) rfl first second

/-- Reading an expression puts lines only where its tokens have them. No second reading is looked at. -/
theorem pairs_places_expressions : PairsExpressions markUnknown id id (OnLines lines) (fun tree _ => tree.Lined lines)
    (fun trees _ => ∀ tree ∈ trees, tree.Lined lines) fun related action _ =>
      Places lines action fun value => ∃ other, related value other where
  rewording := ⟨fun _ => rfl, fun _ => rfl, fun _ _ _ => rfl⟩
  verbatim _ := ⟨rfl, rfl⟩
  part placed inside := placed.subset inside.subset
  pure known := places_pure ⟨_, known⟩
  bind start continued := places_bind start fun value ⟨other,known⟩ => continued value other known
  remark note _ _ placed := (places_remark note (placed _ mem_cons_self)).mono fun _ _ => ⟨(), trivial⟩
  fail _ _ _ _ placed := places_fail (placed _ mem_cons_self) _
  unknown _ placed := (places_unknown markUnknown placed).mono fun tree known => ⟨tree, known⟩
  number placed := (places_number (placed _ mem_cons_self)).mono fun tree known => ⟨tree, known⟩
  reference name := (places_reference name.text).mono fun key _ => ⟨key, rfl⟩
  listType _ := by
    refine Places.mono (places_modify ?_) fun _ _ => ⟨(), trivial⟩
    exact fun _ before => ⟨before.remarks, before.bodies⟩
  callTree placed known := (places_callTree (placed _ mem_cons_self) known).mono fun tree lined => ⟨tree, lined⟩
  shape _ each := by
    rw [expression_eq]
    exact places_bind places_get fun symbols _ => each symbols.functions
  nil := by simp
  cons one more := forall_mem_cons.mpr ⟨one, more⟩
  leaf {one} free childless := by
    refine Tree.onLine_leaf ⟨free, fun isAssign => ?_⟩ childless
    cases one <;> cases isAssign
    cases childless
  item := lined_listItem
  items known := Tree.onLine_of_children (by simp) known
  membership value collection := Tree.onLine_pair (by simp) rfl value collection
  range _ start stop step := Tree.onLine_of_children (by simp) (by simp [start,stop,step])
  operation := lined_operationTree
  element base index := Tree.onLine_pair (by simp) rfl base index
  complement placed known := Tree.onLine_call "not" (placed _ mem_cons_self) (by simpa using known)

/-! ### Statements -/

theorem places_checkBody {code : Body} (known : ∀ bracket ∈ code.unclosed, lines bracket.line) :
    Places lines (checkBody code) fun _ => True := by
  unfold checkBody
  split
  · rename_i bracket isUnclosed
    exact places_remark _ (known bracket isUnclosed)
  · exact places_pure trivial

theorem places_functionTree (name : Token) (inline : Bool) {parameters : Parameters} {statements : List Tree}
    (guarded : ∀ guard ∈ parameters.guards, guard.Lined lines) (lined : ∀ tree ∈ statements, tree.Lined lines) :
    Places lines (functionTree name inline parameters statements) (Tree.Lined lines) := by
  have body : (Tree.block (parameters.guards ++ statements)).Lined lines := by
    refine Tree.onLine_of_children (by simp) fun child isChild => ?_
    rcases mem_append.mp isChild with guard | statement
    · exact guarded child guard
    · exact lined child statement
  have finish : Places lines (do
      modify fun symbols => (symbols.define name.text inline parameters.names parameters.required
        (.block (parameters.guards ++ statements))).2
      return .function name.text.toLower parameters.names (.block (parameters.guards ++ statements)) inline) (Tree.Lined lines) := by
    refine places_bind (places_modify fun _ before => before.define _ _ _ _ body) fun _ _ => places_pure ?_
    exact Tree.onLine_of_children (by simp) (by simpa [Tree.children] using body)
  unfold functionTree
  dsimp only
  split
  · exact finish
  · exact places_bind (places_modify fun _ before => before.reference selector) fun _ _ => finish

theorem onLines_fromAsMembership (placed : OnLines lines tokens) : OnLines lines (fromAsMembership tokens) := by
  unfold fromAsMembership
  split
  · rename_i first second rest
    split
    · have known := placed first mem_cons_self
      intro token member
      simp only [cons_append,mem_cons,mem_append,not_mem_nil,or_false] at member
      rcases member with rfl | rfl | rfl | inside | rfl
      · exact known
      · exact known
      · exact known
      · exact placed token (by simp [inside])
      · exact known
    · exact placed
  · exact placed

theorem places_loopHeader {head : Token} (known : lines head.line) {condition : List Token} (placed : OnLines lines condition) :
    Places lines (loopHeader markUnknown head condition) fun header => header.1.Lined lines ∧ header.2.Lined lines := by
  unfold loopHeader
  refine places_bind ((pairs_places_expressions markUnknown).expression (onLines_fromAsMembership placed)) fun tree ⟨_,lined⟩ => ?_
  split
  · exact places_pure ⟨lined.child (by simp), lined.child (by simp)⟩
  · exact places_fail known _

theorem pairs_places : Pairs markUnknown id id (OnLines lines) (fun tree _ => tree.Lined lines)
    (fun trees _ => ∀ tree ∈ trees, tree.Lined lines) (fun tree _ => ∀ inner ∈ tree, inner.Lined lines)
    fun related action _ => Places lines action fun value => ∃ other, related value other where
  toPairsExpressions := pairs_places_expressions markUnknown
  append first later := forall_mem_append.mpr ⟨first, later⟩
  none := by simp
  some known := by simpa using known
  toList known tree member := known tree (Option.mem_toList.mp member)
  block known := Tree.onLine_of_children (by simp) known
  assign _ _ placed target value :=
    Tree.throughout_iff.mpr ⟨placed _ mem_cons_self, by simp [target,value]⟩
  loop _ condition code := Tree.onLine_pair (by simp) rfl condition code
  branch {condition _ code _ last _} negative test inside final := by
    have tested : (if negative then condition.negated else condition).Lined lines := by
      cases negative with
      | true => exact Tree.onLine_negated test
      | false => exact test
    cases last with
    | none => exact Tree.onLine_pair (by simp) rfl tested inside
    | some other =>
      have otherLined := final other rfl
      exact Tree.onLine_of_children (by simp) (by simp [tested,inside,otherLined])
  checkBody {code} _ placed := by
    have bracket := (Body.of_within code).2.2
    exact (places_checkBody fun token isUnclosed => placed token (bracket token isUnclosed)).mono fun _ _ => ⟨(), trivial⟩
  remarks {name header} placed := by
    refine (places_forIn _ _ fun note member _ => ?_).mono fun _ _ => ⟨(), trivial⟩
    obtain ⟨token,isToken,isLine⟩ := (ParameterList.of_within name header).2 note member
    rw [isLine]
    exact places_bind (places_remark _ (placed token isToken)) fun _ _ => places_pure trivial
  loopHeader {head condition} placed := by
    have inside := placed.subset (subset_cons_self head condition)
    refine (places_loopHeader markUnknown (placed head mem_cons_self) inside).mono fun read known => ⟨read, ?_⟩
    intro code _ lined
    exact Tree.onLine_of_children (by simp) (by simp [known.1,known.2,lined])
  functionTree _ _ header lined := (places_functionTree _ _ header.guards lined).mono fun tree known => ⟨tree, known⟩
  leave _ _ each := by
    rw [ofOutline_leave]
    exact places_bind places_get fun symbols _ => each symbols.functions

/-! ### Programs -/

theorem places_declareFunctions (previous : Option Token) (tokens : List Token) :
    Places lines (declareFunctions previous tokens) fun _ => True := by
  induction tokens generalizing previous with
  | nil => exact places_pure trivial
  | cons token rest ih =>
    unfold declareFunctions
    dsimp only
    split
    · split
      · split
        · exact places_bind (places_modify fun _ placed => placed.declare _ _) fun _ _ => ih (some token)
        · exact ih _
      · exact ih (some token)
    · exact ih _

theorem places_program (placed : OnLines lines tokens) : Places lines (program markUnknown tokens) (Tree.Lined lines) := by
  have kept : OnLines lines (tokens.filter (·.tag != .whitespace)) := placed.subset filter_sublist.subset
  refine places_bind (places_declareFunctions none _) fun _ _ => ?_
  have pairs := @pairs_places lines markUnknown
  refine places_bind (pairs.readings.block _ kept _ (.of_map pairs.rewording _)) fun _ known => ?_
  obtain ⟨_,lined⟩ := known
  exact places_pure (Tree.onLine_of_children (by simp) lined)

end Read
end CalcBasic

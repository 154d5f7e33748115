import CalcBasic.Proofs.CodeStatements
import CalcBasic.Proofs.OperandText
import CalcBasic.Proofs.RankedTrees

/-! Blocks of emitted programs. Expressions are emitted as code that opens and closes no
block wherever it is spliced in, and statements as code whose blocks are closed. -/
namespace CalcBasic

/-! ### Trees in their places -/

namespace Tree

def isLine : Tree → Bool
  | .line _ => true
  | _ => false

def isReturn : Tree → Bool
  | .native code => code == returnMarker
  | _ => false

def isStatement : Tree → Bool
  | .assign .. | .block _ | .branch .. | .forEach .. | .loop .. | .function .. | .line _ => true
  | _ => false

/-- The subtrees that do not stand where a statement may. -/
def operands : Tree → List Tree
  | .block _ | .line _ | .function .. => []
  | .branch condition _ _ => [condition]
  | .forEach counter collection _ => [counter, collection]
  | .loop condition _ _ => [condition]
  | other => other.children

/-- Texts do not end where they should not, native code is empty or leaves a function,
builtins that are called do not expand, and there is no line within a line. -/
def isContained (table : FunctionTable) : Tree → Bool
  | .text value => value.toList.all fun c => c != '\n' && c != '→' && c != '"'
  | .native code => code == "" || code == returnMarker
  | .call name _ _ =>
    match table.find? name with
    | some (.builtin f) => f.expansion.isNone
    | _ => true
  | .line statements => statements.all fun statement => !statement.somewhere isLine
  | _ => true

def isOrderlyNode (table : FunctionTable) (tree : Tree) : Bool :=
  tree.operands.all (!·.isStatement) && tree.isContained table

/-- Statements stand only where statements may. -/
def isOrderly (table : FunctionTable) (tree : Tree) : Bool := tree.everywhere (isOrderlyNode table)

/-- An expression, which stands for no statements. It leaves no function if it is `returnless`. -/
structure IsExpression (table : FunctionTable) (returnless : Prop) (tree : Tree) : Prop where
  orderly : tree.isOrderly table = true
  value : tree.isStatement = false
  kept : returnless → tree.somewhere isReturn = false

variable {table : FunctionTable} {returnless : Prop} {tree : Tree}

theorem isOrderly_iff : tree.isOrderly table = true ↔
    tree.isOrderlyNode table = true ∧ ∀ child ∈ tree.children, child.isOrderly table = true :=
  everywhere_iff

theorem isExpression_operand (orderly : tree.isOrderly table = true) {child : Tree} (isChild : child ∈ tree.children)
    (isOperand : child ∈ tree.operands) (kept : returnless → child.somewhere isReturn = false) :
    child.IsExpression table returnless := by
  obtain ⟨node,each⟩ := isOrderly_iff.mp orderly
  rw [isOrderlyNode,Bool.and_eq_true,List.all_eq_true] at node
  exact ⟨each child isChild, by simpa using node.1 child isOperand, kept⟩

theorem somewhere_child {found : Tree → Bool} (absent : tree.somewhere found = false) {child : Tree}
    (isChild : child ∈ tree.children) : child.somewhere found = false := by
  rw [somewhere_eq,Bool.or_eq_false_iff,List.any_eq_false] at absent
  exact Bool.eq_false_iff.mpr (absent.2 child isChild)

theorem IsExpression.child (expression : tree.IsExpression table returnless) {child : Tree}
    (isChild : child ∈ tree.children) :
    child.IsExpression table returnless := by
  refine isExpression_operand expression.orderly isChild ?_ fun none => somewhere_child (expression.kept none) isChild
  have value := expression.value
  cases tree with
  | assign | block | branch | forEach | loop | function | line => cases value
  | _ => exact isChild

theorem isExpression_leaf (value : tree.isStatement = false) (node : tree.isOrderlyNode table = true)
    (none : tree.children = []) (kept : tree.isReturn = false) : tree.IsExpression table returnless := by
  refine ⟨isOrderly_iff.mpr ⟨node, by rw [none]; nofun⟩, value, fun _ => ?_⟩
  rw [somewhere_eq,none,kept]
  rfl

theorem isExpression_var (name : String) : (Tree.var name).IsExpression table returnless := isExpression_leaf rfl rfl rfl rfl

theorem isExpression_number (value : Float) : (Tree.number value).IsExpression table returnless :=
  isExpression_leaf rfl rfl rfl rfl

theorem isExpression_seed : (Tree.list [.number 0]).IsExpression table returnless := by
  have isZero : (Tree.number 0).IsExpression table returnless := isExpression_number 0
  refine ⟨isOrderly_iff.mpr ⟨rfl, fun child isChild => ?_⟩, rfl, fun none => ?_⟩
  · rw [List.mem_singleton.mp isChild]
    exact isZero.orderly
  · rw [somewhere_eq]
    simp [isReturn,isZero.kept none]

theorem isExpression_pair {left right : Tree} (value : tree.isStatement = false) (contained : tree.isContained table = true)
    (pair : tree.children = [left,right]) (kept : tree.isReturn = false) (isLeft : left.IsExpression table returnless)
    (isRight : right.IsExpression table returnless) :
    tree.IsExpression table returnless := by
  have operands : tree.operands = [left,right] := by
    rw [← pair]
    cases tree with
    | assign | block | branch | forEach | loop | function | line => cases value
    | _ => rfl
  refine ⟨isOrderly_iff.mpr ⟨?_, ?_⟩, value, fun none => ?_⟩
  · simp [isOrderlyNode,operands,contained,isLeft.value,isRight.value]
  · rw [pair]
    simp [isLeft.orderly,isRight.orderly]
  · rw [somewhere_eq,pair]
    simp [kept,isLeft.kept none,isRight.kept none]

theorem isExpression_range (expression : tree.IsExpression table returnless) {range : Range}
    (isRange : tree.range? = some range) :
    range.start.IsExpression table returnless ∧ range.stop.IsExpression table returnless ∧
      range.step.IsExpression table returnless := by
  have parts {start stop step : Tree} {inclusive standalone : Bool}
      (expression : (Tree.range start stop step inclusive standalone).IsExpression table returnless) :
      start.IsExpression table returnless ∧ stop.IsExpression table returnless ∧ step.IsExpression table returnless :=
    ⟨expression.child (by simp), expression.child (by simp), expression.child (by simp)⟩
  unfold range? at isRange
  split at isRange
  · cases isRange
    exact parts expression
  · cases isRange
    exact parts (expression.child (List.mem_singleton_self _))
  · cases isRange

theorem isExpression_lastValue {range : Range} (isStop : range.stop.IsExpression table returnless) :
    range.lastValue.IsExpression table returnless := by
  unfold Range.lastValue
  split
  · exact isStop
  · split <;> exact isExpression_pair rfl rfl rfl rfl isStop (isExpression_number 1)

theorem isOrderly_assign {target value : Tree} {mode : Store} {line : Nat} (isTarget : target.IsExpression table returnless)
    (isValue : value.IsExpression table returnless) : (Tree.assign target mode value line).isOrderly table = true := by
  refine isOrderly_iff.mpr ⟨?_, ?_⟩
  · simp [isOrderlyNode,operands,isContained,isTarget.value,isValue.value]
  · simp [isTarget.orderly,isValue.orderly]

theorem isContained_call {name : String} (kept : (Builtin.find? name).bind Builtin.expansion = none) (arguments : List Tree)
    (line : Nat) : (Tree.call name arguments line).isContained table = true := by
  rw [isContained]
  split
  · rename_i f found
    rw [FunctionTable.builtin_of_find? found,Option.bind_some] at kept
    rw [kept]
    rfl
  · rfl

theorem isExpression_length {list : Tree} (isList : list.IsExpression table returnless) :
    (callOf "array_length" [list] 0).IsExpression table returnless := by
  have kept : (Builtin.find? "array_length".toLower).bind Builtin.expansion = none := by cbv
  refine ⟨isOrderly_iff.mpr ⟨?_, ?_⟩, rfl, fun none => ?_⟩
  · have contained := @isContained_call table _ kept [list] 0
    simp [isOrderlyNode,callOf,operands,isList.value,contained]
  · simp [callOf,isList.orderly]
  · rw [somewhere_eq]
    simp [callOf,isReturn,isList.kept none]

end Tree

namespace Emit
open CalcBasic.Action Code

variable {α : Type} {line : Nat} {mode : Store} {condition tree value body collection target counter : Tree}
  {statements arguments : List Tree} {name : String} {range : Range}

/-- The functions are those of the table, and the program can be called by its name. -/
structure Running (table : FunctionTable) (emitter : Emitter) : Prop where
  functions : emitter.symbols.functions = table
  plain : ∀ c ∈ emitter.program.toList, isPlain c = true

variable {table : FunctionTable} {returnless : Prop}

theorem runs_of_moves {action : Emit α} (moves : Keeps Moves action) : Returns (Running table) action fun _ => True :=
  returns_of_keeps moves fun before after moved running =>
    ⟨moved.symbols.functions.trans running.functions, by rw [moved.program]; exact running.plain⟩

/-- Every successful run gives code of expressions. -/
abbrev Splices (table : FunctionTable) (returnless : Prop) (action : Emit String) : Prop :=
  Returns (Running table) action (Inert returnless)

theorem returns_each {holds : Emitter → Prop} {β : Type} {step : α → Emit β} {items : List α} {result : β → Prop}
    (each : ∀ item ∈ items, Returns holds (step item) result) :
    Returns holds (items.mapM step) fun values => ∀ value ∈ values, result value := by
  induction items with
  | nil => exact returns_pure nofun
  | cons item rest ih =>
    rw [List.mapM_cons]
    refine returns_bind (each item (by simp)) fun value known => ?_
    refine returns_bind (ih fun other member => each other (by simp [member])) fun values others => returns_pure ?_
    rw [List.forall_mem_cons]
    exact ⟨known, others⟩

theorem Builtin.inert_target : ∀ f ∈ Builtin.catalogue, Inert returnless (f.target ++ "(") ∧
    Inert returnless (f.target ++ " ") ∧
    (f.arity.accepts 0 = true → Inert returnless f.target) := by
  have checked : ∀ f ∈ Builtin.catalogue, isInert (f.target ++ "(") = true ∧ isInert (f.target ++ " ") = true ∧
      (f.arity.accepts 0 = true → isInert f.target = true) := by decide +kernel
  intro f listed
  obtain ⟨bracket,space,alone⟩ := checked f listed
  exact ⟨inert_of_isInert bracket, inert_of_isInert space, fun accepted => inert_of_isInert (alone accepted)⟩

/-! ### Names and numbers -/

theorem isSafe_of_isDigit {c : Char} (digit : c.isDigit = true) : isSafe c = true := by
  have letters : ∀ other ∈ "FWRTEI".toList ++ "ohelnf".toList, other.isDigit = false := by decide
  have absent : c ∉ "FWRTEI".toList ++ "ohelnf".toList := by
    intro member
    rw [letters c member] at digit
    cases digit
  rw [List.mem_append,not_or] at absent
  simp only [isSafe,isLater,Bool.and_eq_true,Bool.not_eq_true',List.contains_eq_mem,decide_eq_false_iff_not]
  exact absent

theorem inert_return (returning : ¬ returnless) : Inert returnless Tree.returnMarker := by
  have chars : ∀ c ∈ Tree.returnMarker.toList, isPlain c = true := by decide
  exact inert_of_isPlain chars (calm_of_isCalm (by decide)) fun none => absurd none returning

theorem isWord_natural (n : Nat) : IsWord (toString n) := by
  refine isWord_of_isSafe (fun c member => ⟨isPlain_of_isDigit (isDigit_of_mem_natural member), ?_⟩)
    fun c first => isSafe_of_isDigit (isDigit_of_mem_natural (List.mem_of_head? first))
  rintro rfl
  exact absurd (isDigit_of_mem_natural member) (by decide)

theorem inert_natural (n : Nat) : Inert returnless (toString n) := (isWord_natural n).inert

theorem inert_number (value : Float) : Inert returnless (Number.code value) := by
  have decimal (d : Number.Decimal) : IsWord d.text := by
    have numeric {c : Char} (member : c ∈ d.text.toList) : c.isDigit = true ∨ c = '.' :=
      (Number.Decimal.text_numeric d).2 c member
    refine isWord_of_isSafe (fun c member => ?_) fun c first => ?_
    · rcases numeric member with digit | rfl
      · exact ⟨isPlain_of_isDigit digit, by rintro rfl; exact absurd digit (by decide)⟩
      · exact ⟨rfl, by decide⟩
    · rcases numeric (List.mem_of_head? first) with digit | rfl
      · exact isSafe_of_isDigit digit
      · rfl
  have signed (negative : Bool) {magnitude : String} (inert : Inert returnless magnitude) :
      Inert returnless (if negative = true then "-" ++ magnitude else magnitude) := by
    cases negative with
    | true => exact (inert_of_isInert (by decide)).append inert
    | false => exact inert
  unfold Number.code Number.text
  split
  · exact inert_of_isInert (by decide)
  · refine signed _ ?_
    split
    · exact inert_of_isInert (by decide)
    · split
      · exact inert_of_isInert (by decide)
      · exact (decimal _).inert

theorem inert_program (plain : ∀ c ∈ name.toList, isPlain c = true) : Inert False ("prgm" ++ name) := by
  have chars : ("prgm" ++ name).toList = 'p' :: ("rgm".toList ++ name.toList) := String.toList_append
  have lead : ∀ c ∈ 'p' :: "rgm".toList, isPlain c = true := by decide
  refine inert_of_isPlain (fun c member => ?_) ?_ nofun
  · rw [chars,← List.cons_append,List.mem_append] at member
    rcases member with early | late
    · exact lead c early
    · exact plain c late
  · rw [chars]
    exact calm_of_isSafe (by decide) _

theorem isWord_list {lead : String} (letters : ∀ c ∈ lead.toList, isPlain c = true ∧ c ≠ 'n')
    (safe : ∃ c, lead.toList.head? = some c ∧ isSafe c = true) (n : Nat) : IsWord (lead ++ Number.base36 n) := by
  obtain ⟨c,first,isSafe⟩ := safe
  refine isWord_of_isSafe (fun d member => ?_) fun d head => ?_
  · rw [String.toList_append,List.mem_append] at member
    rcases member with early | late
    · exact letters d early
    · exact @Number.forall_mem_base36 (fun d => isPlain d = true ∧ d ≠ 'n') (by decide) n d late
  · rw [String.toList_append,List.head?_append,first] at head
    cases head
    exact isSafe

theorem isWord_argumentList (f : UserFunction) : IsWord ("∟" ++ f.argumentList) := by
  rw [UserFunction.argumentList,← String.append_assoc]
  exact isWord_list (by decide) ⟨'∟', by decide, by decide⟩ f.id

theorem isWord_name {code : String} (name : IsName code) : IsWord code := by
  have letters : ∀ letter ∈ alphabet, isPlain letter = true ∧ letter ≠ 'n' := by decide
  have list (n : Nat) : IsWord ("∟" ++ ("ARR" ++ Number.base36 n)) := by
    rw [← String.append_assoc]
    exact isWord_list (by decide) ⟨'∟', by decide, by decide⟩ n
  have opened : IsWord "(" := ⟨by decide, calm_of_isCalm (by decide)⟩
  have closed : IsWord ")" := ⟨by decide, calm_of_isCalm (by decide)⟩
  cases name with
  | @letter letter known =>
    have chars : letter.toString.toList = [letter] := String.toList_singleton letter
    refine ⟨?_, ?_⟩
    · rw [chars]
      simpa using letters letter known
    · rw [chars]
      exact calm_letter known
  | text n =>
    have word : IsWord "Str" := ⟨by decide, calm_of_isCalm (by decide)⟩
    exact word.append (isWord_natural n)
  | list n => exact list n
  | cell n index => exact (((list n).append opened).append (isWord_natural index)).append closed

theorem runs_of_returns {α : Type} {action : Emit α} {result : α → Prop} (returns : Returns (fun _ => True) action result)
    (moves : Keeps Moves action) : Returns (Running table) action result := by
  intro emitter value after running done
  exact ⟨(returns emitter value after trivial done).1, (runs_of_moves moves emitter value after running done).2⟩

theorem splices_name {action : Emit String} (names : Names action) (moves : Keeps Moves action) :
    Splices table returnless action :=
  (runs_of_returns names moves).mono fun _ name => (isWord_name name).inert

theorem splices_variableCode (returnless : Prop) (name : String) : Splices table returnless (variableCode name) :=
  splices_name (names_variableCode name) (keeps_variableCode name)

theorem returns_resetSelector (returnless : Prop) : Returns (fun _ => True) resetSelector (Inert returnless) :=
  returns_bind (names_variableCode selector) fun place name =>
    returns_pure ((inert_of_isInert (by decide)).append (isWord_name name).inert)

theorem returns_loadParams (returnless : Prop) (f : UserFunction) (params : List String) :
    Returns (fun _ => True) (loadParams f params) fun codes => ∀ code ∈ codes, Inert returnless code := by
  refine returns_each fun bound _ => returns_bind (names_variableCode bound.1) fun place name => returns_pure ?_
  have opened : Inert returnless "(" := inert_of_isInert (by decide)
  have stored : Inert returnless ")→" := inert_of_isInert (by decide)
  have index : Inert returnless (toString (bound.2 + 1)) := inert_natural _
  exact ((((isWord_argumentList f).inert.append opened).append index).append stored).append (isWord_name name).inert

theorem splices_resetSelector (returnless : Prop) : Splices table returnless resetSelector :=
  runs_of_returns (returns_resetSelector returnless) (moves_pervade.resetSelector)

theorem splices_loadParams (returnless : Prop) (f : UserFunction) (params : List String) :
    Returns (Running table) (loadParams f params) fun codes => ∀ code ∈ codes, Inert returnless code :=
  runs_of_returns (returns_loadParams returnless f params) (keeps_loadParams f params)

theorem inert_remainder {a b : String} (inertLeft : Inert returnless a) (inertRight : Inert returnless b) :
    Inert returnless (remainder a b) := by
  have opened : Inert returnless "*(" := inert_of_isInert (by decide)
  have whole : Inert returnless "<0)+iPart(" := inert_of_isInert (by decide)
  have part : Inert returnless "*fPart(" := inert_of_isInert (by decide)
  have slash : Inert returnless "/" := inert_of_isInert (by decide)
  have closed : Inert returnless "))" := inert_of_isInert (by decide)
  exact (((((((((inertRight.append opened).append inertLeft).append whole).append inertRight).append part).append
    inertLeft).append slash).append inertRight).append closed)

theorem phrasing_expressions : Phrasing (Running table) (Tree.IsExpression table returnless) (fun _ => false)
    (fun _ => Inert returnless) where
  moves before after moved running :=
    ⟨moved.symbols.functions.trans running.functions, by rw [moved.program]; exact running.plain⟩
  child expression _ isChild := expression.child isChild
  made _ _ := (List.any_eq_false.mpr (by simp)).symm
  literal {_ value _} _ _ written := by
    cases value with
    | number | boolean => exact ⟨Tree.isExpression_leaf rfl rfl rfl rfl, rfl⟩
    | text | list => cases written
  counted _ := rfl
  text expression := by
    have node := (Tree.isOrderly_iff.mp expression.orderly).1
    rw [Tree.isOrderlyNode,Bool.and_eq_true,Tree.isContained] at node
    exact inert_quoted fun c member => by simpa [and_assoc] using List.all_eq_true.mp node.2 c member
  name known := (isWord_name known).inert
  number := inert_number
  mark {mark} isMark := by
    have inert : ∀ mark ∈ joiners, isInert mark = true := by decide
    exact inert_of_isInert (inert mark isMark)
  beside first second := first.append second
  wrapped inert := ((inert_of_isInert (by decide)).append inert).append (inert_of_isInert (by decide))
  braced inert := ((inert_of_isInert (by decide)).append inert).append (inert_of_isInert (by decide))
  remainder := inert_remainder
  modulo first second := by
    have opened : Inert returnless "remainder(" := inert_of_isInert (by decide)
    have comma : Inert returnless "," := inert_of_isInert (by decide)
    exact (((opened.append first).append comma).append second).append (inert_of_isInert (by decide))

section Rendering

variable {render : Renderer}

/-- Renders expressions to code of expressions and statements to code of statements. -/
structure WritesBlocks (table : FunctionTable) (render : Renderer) : Prop where
  moves : ∀ settled tree, Keeps Moves (render settled tree)
  expressions : ∀ {returnless : Prop} (settled : Bool) (tree : Tree), tree.IsExpression table returnless →
    Splices table returnless (render settled tree)
  statements : ∀ settled tree, tree.isOrderly table = true →
    Returns (Running table) (render settled tree) (Whole (tree.somewhere Tree.isLine = false))

variable (blocks : WritesBlocks table render)
include blocks

/-! ### Expressions -/

theorem WritesBlocks.phrases : Phrases (Running table) (Tree.IsExpression table returnless) (fun _ => false)
    (fun _ => Inert returnless) render := ⟨blocks.moves, blocks.expressions⟩

theorem runs_settle (expression : tree.IsExpression table returnless) :
    Returns (Running table) (settle render tree) (Tree.IsExpression table returnless) :=
  (phrasing_expressions.settle blocks.phrases expression).mono fun _ known => known.1

/-! ### Calls -/

theorem splices_builtinCall (name : String) {f : Builtin} (listed : f ∈ Builtin.catalogue) (direct : f.expansion = none)
    (each : ∀ argument ∈ arguments, argument.IsExpression table returnless) (line : Nat) :
    Splices table returnless (builtinCall render name f arguments line) := by
  obtain ⟨bracket,space,alone⟩ := @Builtin.inert_target returnless f listed
  unfold builtinCall
  rw [direct]
  dsimp only
  split
  · exact returns_throw _
  · rename_i accepted
    split
    · rename_i none
      rw [List.isEmpty_iff.mp none] at accepted
      exact returns_pure (alone (by simpa using accepted))
    · refine returns_bind (phrasing_expressions.renderAll blocks.phrases each) fun codes list => returns_pure ?_
      split
      · exact (bracket.append list).append (inert_of_isInert (by decide))
      · exact space.append list

theorem splices_sectionCall (f : UserFunction) (each : ∀ argument ∈ arguments, argument.IsExpression table returnless) :
    Splices table returnless (sectionCall render f arguments) := by
  have leave (pass : List String) (inert : ∀ code ∈ pass, Inert returnless code) : Splices table returnless (do
      let place ← variableCode selector
      let select := toString f.id ++ "→" ++ place
      return ":".intercalate (pass ++ [select, "prgm" ++ (← get).program, "Ans"])) := by
    refine returns_bind (splices_variableCode returnless selector) fun place inertPlace =>
      returns_bind returns_get fun emitter running => returns_pure ?_
    have select : Inert returnless (toString f.id ++ "→" ++ place) :=
      ((inert_natural f.id).append (inert_of_isInert (by decide))).append inertPlace
    have lead : Inert False (":".intercalate (pass ++ [toString f.id ++ "→" ++ place, "prgm" ++ emitter.program])) := by
      refine inert_intercalate (inert_of_isInert (by decide)) fun code member => ?_
      simp only [List.mem_append,List.mem_cons,List.not_mem_nil,or_false] at member
      rcases member with passed | rfl | rfl
      · exact (inert code passed).weaken
      · exact select.weaken
      · exact inert_program running.plain
    have split : pass ++ [toString f.id ++ "→" ++ place, "prgm" ++ emitter.program, "Ans"] =
        pass ++ [toString f.id ++ "→" ++ place, "prgm" ++ emitter.program] ++ ["Ans"] := by simp
    rw [split,String.intercalate_append_of_ne_nil (by simp) (by simp),String.intercalate_singleton,String.append_assoc]
    exact lead.before (inert_of_isInert (by decide : isInert (":" ++ "Ans") = true)) (by decide)
  unfold sectionCall
  dsimp only
  split
  · exact returns_bind (returns_pure nofun) leave
  · refine returns_bind (phrasing_expressions.listLiteral blocks.phrases each) fun list inert => returns_bind (returns_pure ?_) leave
    intro code member
    rw [List.mem_singleton.mp member]
    have split : Code.trimClosers list ++ "→∟" ++ f.argumentList = Code.trimClosers list ++ "→" ++ ("∟" ++ f.argumentList) := by
      simp [← String.toList_inj]
    rw [split]
    exact inert.store (isWord_argumentList f).inert

omit blocks in
/-- Where no function is expanded in place a call is built in or enters a section. -/
theorem runs_call {result : String → Prop} (sections : ∀ f ∈ table.users, f.inline = false)
    (direct : (Tree.call name arguments line).isContained table = true)
    (builtin : ∀ f ∈ Builtin.catalogue, f.expansion = none →
      Returns (Running table) (builtinCall render name f arguments line) result)
    (entered : ∀ f count,
      Returns (Running table) (sectionCall render f (arguments ++ List.replicate count (.number 0))) result) :
    Returns (Running table) (call render name arguments line) result := by
  unfold call
  refine returns_bind returns_get fun emitter running => ?_
  rw [running.functions]
  split
  · exact returns_throw _
  · rename_i f found
    simp only [Tree.isContained,found,Option.isNone_iff_eq_none] at direct
    exact builtin f (FunctionTable.mem_catalogue found) direct
  · rename_i f found
    unfold userCall
    split
    · exact returns_throw _
    · dsimp only
      rw [if_neg (by simp [sections f (FunctionTable.mem_users found)])]
      exact entered f _

theorem splices_call (sections : ∀ f ∈ table.users, f.inline = false)
    (direct : (Tree.call name arguments line).isContained table = true)
    (each : ∀ argument ∈ arguments, argument.IsExpression table returnless) :
    Splices table returnless (call render name arguments line) :=
  runs_call sections direct (fun _ listed kept => splices_builtinCall blocks name listed kept each line)
    fun f count => splices_sectionCall blocks f (forall_mem_padded each (Tree.isExpression_number 0) count)

theorem splices_membership (sections : ∀ f ∈ table.users, f.inline = false) (isValue : value.IsExpression table returnless)
    (isCollection : collection.IsExpression table returnless) :
    Splices table returnless (membership render value collection) := by
  have kept : (Builtin.find? "array_sum").bind Builtin.expansion = none := by cbv
  refine splices_call blocks sections (Tree.isContained_call kept _ 0) fun argument only => ?_
  rw [List.mem_singleton.mp only]
  exact Tree.isExpression_pair rfl rfl rfl rfl isValue isCollection

/-! ### Assignments, branches and loops -/

theorem splices_store (isTarget : target.IsExpression table returnless) (isValue : value.IsExpression table returnless) :
    Splices table returnless (store render target value) :=
  returns_bind (blocks.expressions false value isValue) fun _ inert =>
    returns_bind (blocks.expressions false target isTarget) fun _ inertPlace => returns_pure (inert.store inertPlace)

theorem splices_storeTyped (isTarget : target.IsExpression table returnless)
    (isValue : value.IsExpression table returnless) : Splices table returnless (storeTyped render target value) :=
  returns_bind (runs_of_moves (keeps_takeType target value)) fun _ _ => splices_store blocks isTarget isValue

theorem runs_countedLoop (isCounter : counter.IsExpression table returnless) (expression : tree.IsExpression table returnless)
    (isRange : tree.range? = some range) :
    Returns (Running table) (countedLoop render counter range) fun header => ∃ code, header = "For(" ++ code ∧
      Inert returnless code := by
  obtain ⟨isStart,isStop,isStep⟩ := Tree.isExpression_range expression isRange
  have comma : Inert returnless "," := inert_of_isInert (by decide)
  unfold countedLoop
  refine returns_bind (blocks.expressions false counter isCounter) fun place inertPlace => ?_
  refine returns_bind (blocks.expressions false range.start isStart) fun start inertStart => ?_
  refine returns_bind (blocks.expressions false range.lastValue (Tree.isExpression_lastValue isStop)) fun stop inertStop => ?_
  refine returns_bind (runs_settle blocks isStep) fun step isStep => ?_
  have bounds := (((inertPlace.append comma).append inertStart).append comma).append inertStop
  dsimp only
  split
  · exact returns_pure ⟨_, by simp only [String.append_assoc], bounds⟩
  · refine returns_bind (blocks.expressions true step isStep) fun size inertStep => returns_pure ?_
    exact ⟨_, by simp only [String.append_assoc], (bounds.append comma).append inertStep⟩

theorem runs_fillList (expression : tree.IsExpression table returnless) (isRange : tree.range? = some range) (lineless : Prop) :
    Returns (Running table) (fillList render range) fun filled => Whole lineless filled.1 ∧
      filled.2.IsExpression table returnless := by
  have isVar (name : String) : (Tree.var name).IsExpression table returnless := Tree.isExpression_var name
  have isZero : (Tree.number 0).IsExpression table returnless := Tree.isExpression_number 0
  unfold fillList
  refine returns_bind (runs_of_moves keeps_temporary) fun list _ => ?_
  refine returns_bind (runs_of_moves keeps_temporary) fun count _ => ?_
  refine returns_bind (runs_of_moves keeps_temporary) fun counter _ => ?_
  refine returns_bind (splices_storeTyped blocks (isVar list) Tree.isExpression_seed) fun create inertCreate => ?_
  refine returns_bind (splices_storeTyped blocks (isVar count) isZero) fun reset inertReset => ?_
  refine returns_bind (runs_countedLoop blocks (isVar counter) expression isRange) fun header head => ?_
  refine returns_bind (splices_storeTyped blocks (isVar count)
    (Tree.isExpression_pair rfl rfl rfl rfl (isVar count) (Tree.isExpression_number 1))) fun next inertNext => ?_
  refine returns_bind (splices_storeTyped blocks (Tree.isExpression_pair rfl rfl rfl rfl (isVar list) (isVar count))
    (isVar counter)) fun fill inertFill => returns_pure ⟨?_, isVar list⟩
  obtain ⟨bounds,rfl,inertBounds⟩ := head
  have body : Marked lineless [] (joinLines [next,fill]) :=
    (inertNext.marked.cons (inertFill.marked.cons markedAll_nil)).join (lines_joinLines _)
  have head : Marked lineless [.loop] ("For(" ++ bounds) := marked_head (by decide) inertBounds
  have all := inertCreate.marked.cons (inertReset.marked.cons (head.cons (body.cons (marked_end.cons markedAll_nil))))
  exact (all.join (lines_intercalate _)).whole (.loop .nil .nil)

omit blocks in
theorem runs_filled {result : String × Tree → Prop} (filling : Returns (Running table) (fillList render range) result) :
    Returns (Running table) (fillAtRunTime? render range) fun filled => ∀ pair ∈ filled, result pair := by
  have filled : Returns (Running table) (do return some (← fillList render range)) fun filled =>
      ∀ pair ∈ filled, result pair := by
    refine returns_bind filling fun pair known => returns_pure ?_
    rintro _ ⟨⟩
    exact known
  unfold fillAtRunTime?
  split
  · exact returns_pure nofun
  · exact filled
  · exact returns_bind (runs_of_moves (keeps_remark _)) fun _ _ => filled

omit blocks in
theorem isExpression_assignedValue (isTarget : target.IsExpression table returnless)
    (isValue : value.IsExpression table returnless) : (assignedValue target mode value).IsExpression table returnless := by
  cases mode with
  | set => exact isValue
  | update op => exact Tree.isExpression_pair rfl rfl rfl rfl isTarget isValue

omit blocks in
theorem isExpression_assigned (orderly : (Tree.assign target mode value line).isOrderly table = true) :
    target.IsExpression table False ∧ (assignedValue target mode value).IsExpression table False := by
  have operand {child : Tree} (isOperand : child ∈ [target,value]) : child.IsExpression table False :=
    Tree.isExpression_operand orderly isOperand isOperand nofun
  exact ⟨operand (by simp), isExpression_assignedValue (operand (by simp)) (operand (by simp))⟩

omit blocks in
/-- An assignment stores its value, or a list that a loop has filled before. -/
theorem runs_assigned {result : String → Prop}
    (stored : Returns (Running table) (store render target (assignedValue target mode value)) result)
    (filled : ∀ {range}, (assignedValue target mode value).range? = some range →
      Returns (Running table) (fillList render range) fun (setup,list) => Returns (Running table) (do
        let code ← render false list
        let place ← render false target
        return setup ++ "\n" ++ code ++ "→" ++ place) result) :
    Returns (Running table) (assign render target mode value line) result := by
  unfold assign
  split
  · exact returns_throw _
  · refine returns_bind (runs_of_moves (keeps_takeType target _)) fun _ _ => ?_
    split
    · exact stored
    · rename_i range isRange
      refine returns_bind (runs_filled (filled isRange)) fun pair known => ?_
      split
      · exact stored
      · rename_i setup list
        exact known (setup,list) rfl

theorem runs_assign (orderly : (Tree.assign target mode value line).isOrderly table = true) (lineless : Prop) :
    Returns (Running table) (assign render target mode value line) (Whole lineless) := by
  obtain ⟨isTarget,isAssigned⟩ := isExpression_assigned orderly
  refine runs_assigned ((splices_store blocks isTarget isAssigned).mono fun _ inert => inert.whole) fun isRange => ?_
  refine (runs_fillList blocks isAssigned isRange lineless).mono fun (setup,list) ⟨whole,isList⟩ => ?_
  refine returns_bind (blocks.expressions false list isList) fun code inert => ?_
  refine returns_bind (blocks.expressions false target isTarget) fun place inertPlace => returns_pure ?_
  have arrow : Inert False "→" := inert_of_isInert (by decide)
  have last := (inert.append arrow).append inertPlace
  have framed := (whole.marked.break last.marked).whole (whole.balanced.append .nil)
  simpa only [String.append_assoc] using framed

theorem runs_body {child : Tree} (orderly : tree.isOrderly table = true) (isChild : child ∈ tree.children) :
    Returns (Running table) (render false child) (Whole (tree.somewhere Tree.isLine = false)) := by
  have isOrderly := (Tree.isOrderly_iff.mp orderly).2 child isChild
  exact (blocks.statements false child isOrderly).mono fun code whole =>
    whole.mono fun known => Tree.somewhere_child known isChild

theorem runs_branch {otherwise : Option Tree} (orderly : (Tree.branch condition body otherwise).isOrderly table = true) :
    Returns (Running table) (branch render condition body otherwise)
      (Whole ((Tree.branch condition body otherwise).somewhere Tree.isLine = false)) := by
  have isCondition : condition.IsExpression table False :=
    Tree.isExpression_operand orderly (by cases otherwise <;> simp) (by simp [Tree.operands]) nofun
  have inner := runs_body blocks orderly (show body ∈ _ by cases otherwise <;> simp)
  have second : ∀ other ∈ otherwise, Returns (Running table) (render false other)
      (Whole ((Tree.branch condition body otherwise).somewhere Tree.isLine = false)) := by
    rintro other ⟨⟩
    exact runs_body blocks orderly (by simp)
  generalize ((Tree.branch condition body otherwise).somewhere Tree.isLine = false) = lineless at inner second ⊢
  unfold branch
  refine returns_bind (runs_settle blocks isCondition) fun condition isCondition => ?_
  split
  · exact inner
  · exact second _ rfl
  · exact returns_pure whole_empty
  · refine returns_bind (blocks.expressions true condition isCondition) fun test inert => ?_
    refine returns_bind inner fun code whole => ?_
    split
    · exact returns_bind (second _ rfl) fun rest other => returns_pure (whole_choice inert whole other)
    · split
      · exact returns_pure (whole_test inert whole)
      · exact returns_pure (whole_branch inert whole)

theorem runs_loop {untilTrue : Bool} (orderly : (Tree.loop condition body untilTrue).isOrderly table = true) :
    Returns (Running table) (loop render condition body untilTrue)
      (Whole ((Tree.loop condition body untilTrue).somewhere Tree.isLine = false)) := by
  have isCondition : condition.IsExpression table False :=
    Tree.isExpression_operand orderly (by simp) (by simp [Tree.operands]) nofun
  refine returns_bind (blocks.expressions false condition isCondition) fun test inert => ?_
  refine returns_bind (runs_body blocks orderly (by simp)) fun code whole => returns_pure ?_
  cases untilTrue with
  | true => exact whole_loop (marked_head (by decide) inert) whole
  | false => exact whole_loop (marked_head (by decide) inert) whole

theorem runs_loopList (expression : collection.IsExpression table False) (lineless : Prop) :
    Returns (Running table) (loopList render collection) fun prepared =>
      Whole lineless prepared.1 ∧ prepared.2.IsExpression table False := by
  unfold loopList
  split
  · rename_i range isRange
    exact runs_fillList blocks expression isRange lineless
  · refine returns_bind (runs_of_moves (keeps_update fun symbols => Edit.setType symbols _ _)) fun _ _ => ?_
    exact returns_pure ⟨whole_empty, expression⟩
  · exact returns_pure ⟨whole_empty, expression⟩
  · refine returns_bind (runs_of_moves keeps_temporary) fun copy _ => ?_
    refine returns_bind (splices_storeTyped blocks (Tree.isExpression_var copy) expression) fun setup inert => ?_
    exact returns_pure ⟨inert.whole, Tree.isExpression_var copy⟩

omit blocks in
theorem isExpression_counted (orderly : (Tree.forEach counter collection body).isOrderly table = true) :
    counter.IsExpression table False ∧ collection.IsExpression table False :=
  ⟨Tree.isExpression_operand orderly (by simp) (by simp [Tree.operands]) nofun,
    Tree.isExpression_operand orderly (by simp) (by simp [Tree.operands]) nofun⟩

theorem runs_listLoop (orderly : (Tree.forEach counter collection body).isOrderly table = true) :
    Returns (Running table) (listLoop render counter collection body)
      (Whole ((Tree.forEach counter collection body).somewhere Tree.isLine = false)) := by
  obtain ⟨isCounter,isCollection⟩ := isExpression_counted orderly
  have inner := runs_body blocks orderly (show body ∈ _ by simp)
  have isVar (name : String) : (Tree.var name).IsExpression table False := Tree.isExpression_var name
  generalize ((Tree.forEach counter collection body).somewhere Tree.isLine = false) = lineless at inner ⊢
  unfold listLoop
  refine returns_bind (runs_loopList blocks isCollection lineless) fun prepared known => ?_
  obtain ⟨setup,list⟩ := prepared
  obtain ⟨wholeSetup,isList⟩ := known
  refine returns_bind (runs_of_moves keeps_temporary) fun length _ => ?_
  refine returns_bind (runs_of_moves keeps_temporary) fun index _ => ?_
  refine returns_bind (splices_storeTyped blocks (isVar length) (Tree.isExpression_length isList)) fun measure inertMeasure => ?_
  refine returns_bind (blocks.expressions false _ (isVar index)) fun place inertPlace => ?_
  refine returns_bind (blocks.expressions false _ (isVar length)) fun bound inertBound => ?_
  have isElement : (Tree.element list (.var index)).IsExpression table False :=
    Tree.isExpression_pair rfl rfl rfl rfl isList (isVar index)
  refine returns_bind (runs_assign blocks (Tree.isOrderly_assign isCounter isElement) lineless) fun load wholeLoad => ?_
  refine returns_bind inner fun code whole => returns_pure ?_
  have middle : Inert False ",1," := inert_of_isInert (by decide)
  have head : Marked lineless [.loop] ("For(" ++ (place ++ ",1," ++ bound)) :=
    marked_head (by decide) ((inertPlace.append middle).append inertBound)
  have all := wholeSetup.marked.cons (inertMeasure.marked.cons (head.cons (wholeLoad.marked.cons (whole.marked.cons
    (marked_end.cons markedAll_nil)))))
  have framed := (all.join (lines_joinLines _)).whole (by
    have inside := wholeLoad.balanced.append whole.balanced
    simpa using wholeSetup.balanced.append (.loop inside .nil))
  simpa only [String.append_assoc] using framed

theorem runs_forEach (orderly : (Tree.forEach counter collection body).isOrderly table = true) :
    Returns (Running table) (forEach render counter collection body)
      (Whole ((Tree.forEach counter collection body).somewhere Tree.isLine = false)) := by
  obtain ⟨isCounter,isCollection⟩ := isExpression_counted orderly
  unfold forEach
  split
  · rename_i range bounded
    have isRange := (Option.filter_eq_some_iff.mp bounded).1
    refine returns_bind (runs_countedLoop blocks isCounter isCollection isRange) fun header head => ?_
    refine returns_bind (runs_body blocks orderly (show body ∈ _ by simp)) fun code whole => returns_pure ?_
    obtain ⟨bounds,rfl,inert⟩ := head
    split
    · have closed : Inert False (bounds ++ ")") := inert.append (inert_of_isInert (by decide))
      have framed := whole_loop (marked_head (show "For(".toList ∈ loopHeads by decide) closed) whole
      have split : "For(" ++ bounds ++ ")\n" ++ code ++ "\nEnd" = "For(" ++ (bounds ++ ")") ++ "\n" ++ code ++ "\nEnd" := by
        simp [← String.toList_inj]
      rw [split]
      exact framed
    · exact whole_loop (marked_head (by decide) inert) whole
  · exact runs_listLoop blocks orderly

/-! ### Functions and lines -/

theorem runs_function {params : List String} {inline : Bool}
    (orderly : (Tree.function name params body inline).isOrderly table = true) :
    Returns (Running table) (function render name params body inline)
      (Whole ((Tree.function name params body inline).somewhere Tree.isLine = false)) := by
  have inner := runs_body blocks orderly (show body ∈ _ by simp)
  generalize ((Tree.function name params body inline).somewhere Tree.isLine = false) = lineless at inner ⊢
  unfold function
  split
  · exact returns_pure whole_empty
  · refine returns_bind returns_get fun emitter _ => ?_
    split
    · exact returns_throw _
    · rename_i f _
      refine returns_bind (splices_variableCode False selector) fun place inertPlace => ?_
      refine returns_bind (splices_resetSelector False) fun reset inertReset => ?_
      refine returns_bind (splices_loadParams False f params) fun load inertLoad => ?_
      refine returns_bind inner fun code whole => returns_pure ?_
      have test := (inertPlace.append (inert_of_isInert (by decide : isInert "=" = true))).append (inert_natural f.id)
      have opened : Marked lineless [.branch] ("If " ++ place ++ "=" ++ toString f.id ++ ":Then") := by
        simpa only [String.append_assoc] using (marked_then test : Marked lineless _ _)
      have left (ends : Bool) : MarkedAll lineless [] (if ends = true then [] else [Tree.returnMarker]) := by
        refine @markedAll_inert _ False _ fun piece member => ?_
        cases ends with
        | true => cases member
        | false =>
          rw [List.mem_singleton.mp member]
          exact inert_return (by simp)
      have all := ((((opened.cons (inertReset.marked.cons markedAll_nil)).append (markedAll_inert inertLoad)).append
        (whole.marked.cons markedAll_nil)).append (left (Tree.returnMarker.toList.isSuffixOf code.toList))).append
        (marked_end.cons markedAll_nil)
      refine (all.join (lines_joinLines _)).whole ?_
      simpa using Balanced.branch whole.balanced .nil

theorem runs_line (orderly : (Tree.line statements).isOrderly table = true) :
    Returns (Running table) (do return Code.joinStatements (← renderAll render statements))
      (Whole ((Tree.line statements).somewhere Tree.isLine = false)) := by
  obtain ⟨node,children⟩ := Tree.isOrderly_iff.mp orderly
  rw [Tree.isOrderlyNode,Bool.and_eq_true] at node
  obtain ⟨_,apart⟩ := node
  rw [Tree.isContained,List.all_eq_true] at apart
  have each : Returns (Running table) (renderAll render statements) fun codes =>
      ∀ code ∈ codes, Whole True code := by
    refine returns_each fun statement member => ?_
    have lineless : statement.somewhere Tree.isLine = false := by simpa using apart statement member
    exact (blocks.statements false statement (children statement member)).mono fun code whole =>
      whole.mono fun _ => lineless
  refine returns_bind each fun codes whole => returns_pure ⟨?_, ?_⟩
  · rw [marks_joinStatements fun code member => ((whole code member).joinable trivial).ended,List.flatMap_def]
    refine Balanced.flatten fun found member => ?_
    obtain ⟨code,isCode,rfl⟩ := List.mem_map.mp member
    exact (whole code isCode).balanced
  · intro none
    rw [Tree.somewhere_eq] at none
    cases none

variable (sections : ∀ f ∈ table.users, f.inline = false)
include sections

theorem splices_construct (settled : Bool) (expression : tree.IsExpression table returnless) :
    Splices table returnless (construct render settled tree) := by
  have inside {child : Tree} (isChild : child ∈ tree.children) : child.IsExpression table returnless :=
    expression.child isChild
  have contained : tree.isContained table = true := by
    have node := (Tree.isOrderly_iff.mp expression.orderly).1
    rw [Tree.isOrderlyNode,Bool.and_eq_true] at node
    exact node.2
  refine phrasing_expressions.construct blocks.phrases settled expression fun special => ?_
  cases tree with
  | call name arguments line => exact splices_call blocks sections contained fun argument member => inside member
  | membership value collection =>
    exact splices_membership blocks sections (inside (by simp)) (inside (by simp))
  | native code =>
    rw [Tree.isContained,Bool.or_eq_true,beq_iff_eq,beq_iff_eq] at contained
    refine returns_bind returns_get fun emitter _ => returns_pure ?_
    split
    · exact inert_empty
    · rcases contained with rfl | rfl
      · exact inert_empty
      · exact inert_return fun none => absurd (expression.kept none) (by rw [Tree.somewhere_eq]; simp [Tree.isReturn])
  | assign | block | branch | forEach | loop | function | line => cases expression.value
  | _ => cases special

theorem runs_construct (settled : Bool) (orderly : tree.isOrderly table = true) :
    Returns (Running table) (construct render settled tree) (Whole (tree.somewhere Tree.isLine = false)) := by
  cases statement : tree.isStatement with
  | false =>
    have expression : tree.IsExpression table False := ⟨orderly, statement, nofun⟩
    exact (splices_construct blocks sections settled expression).mono fun code inert => inert.whole
  | true =>
    cases tree with
    | assign target mode value line => exact runs_assign blocks orderly _
    | block statements =>
      exact returns_bind (returns_each fun statement member => runs_body blocks orderly member) fun codes whole =>
        returns_pure (whole_joinLines whole)
    | branch condition body otherwise => exact runs_branch blocks orderly
    | forEach counter collection body => exact runs_forEach blocks orderly
    | loop condition body untilTrue => exact runs_loop blocks orderly
    | function name params body inline => exact runs_function blocks orderly
    | line statements => exact runs_line blocks orderly
    | _ => cases statement

end Rendering

section Programs

variable (sections : ∀ f ∈ table.users, f.inline = false)
include sections

theorem writesBlocks_render (depth : Nat) :
    WritesBlocks table (render depth) := by
  induction depth with
  | zero => exact ⟨keeps_render 0, fun _ _ _ => returns_throw _, fun _ _ _ => returns_throw _⟩
  | succ depth lower =>
    exact ⟨keeps_render (depth + 1), fun settled tree expression => splices_construct lower sections settled expression,
      fun settled tree orderly => runs_construct lower sections settled orderly⟩

theorem runs_code (orderly : tree.isOrderly table = true) :
    Returns (Running table) (code tree) (Whole (tree.somewhere Tree.isLine = false)) :=
  returns_bind returns_get fun _ _ => (writesBlocks_render sections _).statements false tree orderly

theorem runs_layOut (orderly : ∀ tree ∈ statements, tree.isOrderly table = true) :
    Returns (Running table) (layOut statements) (Whole False) := by
  have pieces : Returns (Running table) (statements.mapM fun tree => return (hasSection tree, ← code tree))
      fun pieces => ∀ piece ∈ pieces, Whole False piece.2 :=
    returns_each fun tree member =>
      returns_bind (runs_code sections (orderly tree member)) fun code whole => returns_pure (whole.mono nofun)
  unfold layOut
  refine returns_bind pieces fun codes whole => ?_
  have each (keep : Bool × String → Bool) : ∀ code ∈ (codes.filter keep).map (·.2), Whole False code := by
    intro code member
    obtain ⟨piece,kept,rfl⟩ := List.mem_map.mp member
    exact whole piece (List.mem_of_mem_filter kept)
  dsimp only
  split
  · exact returns_pure (whole_joinLines (each _))
  · refine returns_bind (splices_resetSelector False) fun reset inert => returns_pure (whole_joinLines fun code member => ?_)
    simp only [List.mem_append,List.mem_singleton] at member
    rcases member with (early | rfl) | late
    · exact each _ code early
    · exact inert.whole
    · exact each _ code late

theorem runs_program (orderly : tree.isOrderly table = true) :
    Returns (Running table) (program tree) fun code => Balanced (marks code) := by
  have trimmed {text : String} (whole : Whole False text) : Balanced (marks (trimBreaks text)) := by
    rw [marks_trimBreaks]
    exact whole.balanced
  unfold program
  split
  · exact returns_bind (runs_layOut sections (Tree.isOrderly_iff.mp orderly).2) fun text whole => returns_pure (trimmed whole)
  · exact returns_bind (runs_code sections orderly) fun text whole => returns_pure (trimmed (whole.mono nofun))

end Programs

end Emit

/-- The loops and branches of an emitted program are closed in order, and each alternative
belongs to one branch. -/
theorem program_balanced (emitter : Emitter) (tree : Tree) (code : String)
    (sections : ∀ f ∈ emitter.symbols.functions.users, f.inline = false)
    (named : ∀ c ∈ emitter.program.toList, Code.isPlain c = true)
    (orderly : tree.isOrderly emitter.symbols.functions = true)
    (emitted : (Action.outcome (Emit.program tree) emitter).1 = .ok code) : Code.Balanced (Code.marks code) :=
  (Emit.runs_program sections orderly emitter code _ ⟨rfl, named⟩ (Action.outcome_eq_ok emitted)).1

/-- A function with a branch on a text, called from a loop. -/
def calledInLoop : Tree :=
  .block [.function "f" [] (.block [.branch (.text "a:End") (.block []) (some (.block []))]) false,
    .loop (.var "x") (.line [.call "f" [] 1]) false]

theorem calledInLoop_balanced :
    let emitter : Emitter :=
      { symbols := { functions := ⟨[⟨"f", 0, false, [], 0, none⟩]⟩ }, modern := true, folding := true, program := "P" }
    let code := "If A=0:Then\n-1→A\nIf \"a:End\":Then\nElse\nEnd\nReturn\nEnd\n-1→A\nWhile B\n0→A:prgmP:Ans\nEnd"
    (Action.outcome (Emit.program calledInLoop) emitter).1 = .ok code ∧ Code.Balanced (Code.marks code) := by
  intro emitter code
  have sections : ∀ f ∈ emitter.symbols.functions.users, f.inline = false := by
    intro f member
    rw [List.mem_singleton.mp member]
  have orderly : calledInLoop.isOrderly emitter.symbols.functions = true := by decide +kernel
  have emitted : (Action.outcome (Emit.program calledInLoop) emitter).1 = .ok code := by decide +kernel
  exact ⟨emitted, program_balanced emitter calledInLoop code sections (by decide) orderly emitted⟩

/-- A line as a condition: its text is not closed and takes in the start of the branch. -/
theorem line_as_condition_unbalanced : ∃ code : String,
    (Action.outcome (Emit.program (.branch (.line [.text "a"]) (.block []) none))
      { symbols := {}, modern := true, folding := true, program := "P" }).1 = .ok code ∧
        ¬ Code.Balanced (Code.marks code) := by
  refine ⟨"If \"a:Then\n\nEnd", by decide +kernel, fun balanced => ?_⟩
  have found : Code.marks "If \"a:Then\n\nEnd" = [.close] := by decide
  rw [found] at balanced
  cases balanced

end CalcBasic

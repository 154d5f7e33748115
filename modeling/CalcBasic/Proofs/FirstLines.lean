import CalcBasic.Proofs.SectionEnds

/-! The first lines of emitted statements. An expression leaves some code, and the first line
of a statement other than a conditional is not a test for the line after it. -/
namespace CalcBasic

namespace Code

variable {returnless : Prop}

/-- A test for the next line alone. -/
def isTest (line : String) : Bool := testHead.isPrefixOf line.toList && !":Then".toList.isSuffixOf line.toList

/-- The first line is no test. -/
def Opens (code : String) : Prop := ∃ first rest, lines code = first :: rest ∧ isTest first = false

variable {code more : String}

theorem Opens.of_lines {others : List String} (opens : Opens code) (same : lines more = lines code ++ others) :
    Opens more := by
  obtain ⟨first,rest,split,block⟩ := opens
  exact ⟨first, rest ++ others, by rw [same,split,List.cons_append], block⟩

theorem Opens.join (opens : Opens code) (codes : List String) : Opens (joinLines (code :: codes)) :=
  opens.of_lines ((lines_joinLines _).trans List.flatMap_cons)

theorem Opens.break (opens : Opens code) : Opens (code ++ "\n" ++ more) := opens.of_lines (lines_break code more)

theorem opens_char {c : Char} {rest : List Char} (text : code.toList = c :: rest) (within : c ≠ '\n') (other : c ≠ 'I') :
    Opens code := by
  obtain ⟨line,others,split⟩ := List.exists_cons_of_ne_nil (List.splitOnP_ne_nil (· == '\n') rest)
  refine ⟨String.ofList (c :: line), ((others.filter (!·.isEmpty)).map String.ofList), ?_, ?_⟩
  · rw [lines_eq,text,List.splitOn_eq_splitOnP,List.splitOnP_cons_eq_if_modifyHead]
    simp [within,split]
  · simp [isTest,testHead,other.symm]

theorem isTest_then (test : String) : isTest (test ++ ":Then") = false := by
  rw [isTest,Bool.and_eq_false_iff,Bool.not_eq_false',List.isSuffixOf_iff_suffix]
  exact .inr ⟨test.toList, by simp⟩

theorem Inert.not_test (inert : Inert returnless code) : ¬ testHead <+: code.toList := by
  rintro ⟨rest,text⟩
  obtain ⟨first,others,split⟩ := List.exists_cons_of_ne_nil (show statements false rest ≠ [] by
    obtain ⟨earlier,last,all,_⟩ := statements_append false rest
    simp [all])
  have all : statements false code.toList = (testHead ++ first) :: others := by
    rw [← text]
    simp [testHead,statements,endsStatement,inTextAfter,split]
  exact not_prefix_of_isStart (inert.calm (testHead ++ first) (by rw [all]; simp)).isStart (by decide)
    (List.prefix_append _ _)

theorem Inert.opens (inert : Inert returnless code) (some : code ≠ "") : Opens code := by
  refine ⟨code, [], lines_singleton some inert.unbroken, ?_⟩
  rw [isTest,Bool.and_eq_false_iff,Bool.eq_false_iff]
  exact .inl fun test => inert.not_test (List.isPrefixOf_iff_prefix.mp test)

theorem Inert.not_then (inert : Inert returnless code) : ¬ ":Then".toList <:+ code.toList := by
  rintro ⟨lead,text⟩
  have closed := inert.closed
  have split : code.toList = lead ++ ':' :: "Then".toList := text.symm
  have outside : openAfter false lead = false := by
    rw [split,openAfter_append] at closed
    cases opened : openAfter false lead with
    | false => rfl
    | true =>
      rw [opened] at closed
      exact absurd closed (by decide)
  have all : statements false code.toList = statements false lead ++ statements false "Then".toList := by
    rw [split,statements_colon outside]
  have calm := inert.calm "Then".toList (by rw [all]; exact List.mem_append_right _ (by decide))
  exact not_prefix_of_isStart calm.isStart (by decide) (List.prefix_refl "Then".toList)

theorem Inert.isTest {test : String} (inert : Inert returnless test) : isTest ("If " ++ test) = true := by
  rw [Code.isTest,Bool.and_eq_true,Bool.not_eq_true',Bool.eq_false_iff]
  refine ⟨by simp [testHead], fun ends => ?_⟩
  obtain ⟨lead,text⟩ := List.isSuffixOf_iff_suffix.mp ends
  rw [String.toList_append] at text
  rcases List.append_eq_append_iff.mp text with ⟨middle,head,tail⟩ | ⟨middle,_,tail⟩
  · cases middle with
    | nil => exact inert.not_then ⟨[], tail⟩
    | cons c rest =>
      have colon : c = ':' := (List.cons.inj tail).1.symm
      have inside : ':' ∈ "If ".toList := by rw [head,colon]; simp
      exact absurd inside (by decide)
  · exact inert.not_then ⟨middle, tail.symm⟩

end Code

/-! ### Expressions that leave code -/

/-- An expression that leaves code. -/
def Tree.isShown : Tree → Bool
  | .native _ => false
  | .commas items => 1 < items.length
  | .range _ _ _ _ standalone => standalone
  | tree => !tree.isStatement

namespace Emit
open CalcBasic.Action Code

variable {target value collection : Tree} {table : FunctionTable}

theorem product_ne_empty (left right : Tree) (a b : String) : product left right a b ≠ "" := by
  have letter {tree : Tree} {code : String} (isLetter : Emit.isLetter tree code = true) : code ≠ "" := by
    rintro rfl
    simp [Emit.isLetter] at isLetter
  unfold product
  split
  · rename_i one
    rcases (Bool.or_eq_true _ _).mp one with first | second
    · split <;> simp [letter first]
    · split <;> simp [letter second]
  · simp

section Rendering

variable (render : Renderer)

theorem fills_arithmetic (left : Tree) (op : Arith) (right : Tree) :
    Returns (fun _ => True) (arithmetic render left op right) (· ≠ "") := by
  unfold arithmetic
  refine returns_bind returns_get fun emitter _ => ?_
  split
  · exact returns_bind (returns_any _) fun _ _ => returns_bind (returns_any _) fun _ _ => returns_pure (by simp)
  · refine returns_bind (returns_any _) fun _ _ => returns_bind (returns_any _) fun _ _ => returns_pure ?_
    cases op with
    | mul => exact product_ne_empty _ _ _ _
    | mod => simp [remainder]
    | _ => simp [Arith.symbol]

theorem fills_comparison (left : Tree) (op : Comparison) (right : Tree) :
    Returns (fun _ => True) (comparison render left op right) (· ≠ "") := by
  have sign : op.sign ≠ "" := by cases op <;> decide
  refine returns_bind (returns_any _) fun _ _ => returns_bind (returns_any _) fun _ _ => returns_pure ?_
  simp [sign]

omit render in
theorem IsName.ne_empty {code : String} (name : IsName code) : code ≠ "" := by
  cases name <;> simp [Char.toString]

theorem fills_listLiteral (items : List Tree) : Returns (fun _ => True) (listLiteral render items) (· ≠ "") := by
  unfold listLiteral
  split <;> exact returns_bind (returns_any _) fun _ _ => returns_pure (by simp [braced])

theorem fills_sectionCall (f : UserFunction) (arguments : List Tree) :
    Returns (fun _ => True) (sectionCall render f arguments) (· ≠ "") := by
  have leave (pass : List String) : Returns (fun _ => True) (do
      let place ← variableCode selector
      let select := toString f.id ++ "→" ++ place
      return ":".intercalate (pass ++ [select, "prgm" ++ (← get).program, "Ans"])) (· ≠ "") := by
    refine returns_bind (returns_any _) fun place _ => returns_bind returns_get fun emitter _ => returns_pure ?_
    intro none
    have last : 'A' ∈ (":".intercalate (pass ++ [toString f.id ++ "→" ++ place, "prgm" ++ emitter.program, "Ans"])).toList :=
      (mem_joined (by decide)).mpr ⟨"Ans", by simp, by decide⟩
    rw [none] at last
    cases last
  unfold sectionCall
  dsimp only
  split
  · exact returns_bind (returns_any _) fun pass _ => leave pass
  · exact returns_bind (returns_any _) fun _ _ => returns_bind (returns_any _) fun pass _ => leave pass

theorem fills_builtinCall (name : String) {f : Builtin} (listed : f ∈ Builtin.catalogue) (direct : f.expansion = none)
    (arguments : List Tree) (line : Nat) : Returns (fun _ => True) (builtinCall render name f arguments line) (· ≠ "") := by
  have named : ∀ f ∈ Builtin.catalogue, f.expansion = none → f.target ≠ "" := by decide +kernel
  have target := named f listed direct
  unfold builtinCall
  rw [direct]
  dsimp only
  split
  · exact returns_throw _
  · split
    · exact returns_pure target
    · exact returns_bind (returns_any _) fun _ _ => returns_pure (by split <;> simp [target])

theorem fills_call (sections : ∀ f ∈ table.users, f.inline = false) {name : String} {arguments : List Tree} {line : Nat}
    (direct : (Tree.call name arguments line).isContained table = true) (moves : ∀ settled tree, Keeps Moves (render settled tree)) :
    Returns (Running table) (call render name arguments line) (· ≠ "") := by
  refine runs_call sections direct (fun f listed kept => ?_) fun f count => ?_
  · exact runs_of_returns (fills_builtinCall render name listed kept arguments line)
      (moves_pervade.builtinCall moves name f arguments line)
  · exact runs_of_returns (fills_sectionCall render f _) (moves_pervade.sectionCall moves f _)

end Rendering

theorem fills_render (sections : ∀ f ∈ table.users, f.inline = false) (depth : Nat) (settled : Bool) {tree : Tree}
    (orderly : tree.isOrderly table = true) (shown : tree.isShown = true) :
    Returns (Running table) (render depth settled tree) (· ≠ "") := by
  induction depth generalizing settled tree with
  | zero => exact returns_throw _
  | succ depth lower =>
    have moves := keeps_render depth
    have always {action : Emit String} (fills : Returns (fun _ => True) action (· ≠ "")) (keeps : Keeps Moves action) :
        Returns (Running table) action (· ≠ "") := runs_of_returns fills keeps
    have operation {action : Emit String} (inner : Returns (fun _ => True) action (· ≠ "")) (keeps : Keeps Moves action) :
        Returns (Running table) (if settled = true then action else do render depth true (← settle (render depth) tree))
          (· ≠ "") := by
      -- Folding turns an operation into a literal at most.
      split
      · exact always inner keeps
      · refine returns_bind (runs_of_returns (returns_settle_cases (render depth) tree)
          (moves_pervade.settle moves tree)) fun other known => ?_
        rcases known with rfl | ⟨_,_,value,code,_,written,rfl⟩
        · exact lower true orderly shown
        · cases value with
          | number | boolean => exact lower true (Tree.isExpression_leaf rfl rfl rfl rfl : Tree.IsExpression table False _).orderly rfl
          | text | list => cases written
    change Returns (Running table) (construct (render depth) settled tree) (· ≠ "")
    cases tree with
    | number value =>
      obtain ⟨magnitude,nonempty,_,same⟩ := Number.code_shape value
      exact returns_pure (by simp [same,nonempty])
    | boolean value => exact returns_pure (by cases value <;> decide)
    | text value => exact returns_pure (by simp)
    | list items => exact always (fills_listLiteral _ items) (keeps_listLiteral moves items)
    | var name => exact always ((names_variableCode name).mono fun _ => IsName.ne_empty) (keeps_variableCode name)
    | listVar name => exact always ((names_listCode name).mono fun _ => IsName.ne_empty) (keeps_listCode name)
    | textVar name => exact always ((names_textCode name).mono fun _ => IsName.ne_empty) (moves_pervade.textCode name)
    | commas items =>
      refine returns_bind (returns_mapM items fun item _ => runs_of_moves (moves false item)) fun codes each => returns_pure ?_
      have long : 1 < codes.length := each.length_eq ▸ of_decide_eq_true shown
      match codes, long with
      | first :: second :: rest, _ => simp [String.intercalate_cons_cons]
    | range start stop step inclusive standalone =>
      refine returns_bind (runs_of_moves (moves_pervade.rangeValues _)) fun code _ => returns_pure ?_
      rw [if_pos (show standalone = true from shown)]
      simp [braced]
    | element base index =>
      exact returns_bind (runs_of_moves (moves false base)) fun list _ =>
        returns_bind (runs_of_moves (moves false index)) fun place _ => returns_pure (by simp)
    | arith left op right =>
      exact operation (fills_arithmetic _ left op right) (moves_pervade.arithmetic moves left op right)
    | compare left op right =>
      exact operation (fills_comparison _ left op right) (moves_pervade.comparison moves left op right)
    | call name arguments line =>
      have node := (Tree.isOrderly_iff.mp orderly).1
      rw [Tree.isOrderlyNode,Bool.and_eq_true] at node
      exact fills_call _ sections node.2 moves
    | membership value collection =>
      have kept : (Builtin.find? "array_sum").bind Builtin.expansion = none := by cbv
      exact fills_call _ sections (Tree.isContained_call kept _ 0) moves
    | native | assign | block | branch | forEach | loop | function | line => cases shown

/-! ### Statements that begin with no test -/

section Statements

variable {render : Renderer} (blocks : WritesBlocks table render)
include blocks

theorem opens_store (isTarget : target.IsExpression table False)
    (isValue : value.IsExpression table False) : Returns (Running table) (store render target value) Opens :=
  returns_bind (blocks.expressions false value isValue) fun _ inert =>
    returns_bind (blocks.expressions false target isTarget) fun _ inertPlace =>
      returns_pure ((inert.store inertPlace).opens (by simp))

theorem opens_storeTyped (isTarget : target.IsExpression table False)
    (isValue : value.IsExpression table False) : Returns (Running table) (storeTyped render target value) Opens :=
  returns_bind (runs_of_moves (keeps_takeType target value)) fun _ _ => opens_store blocks isTarget isValue

theorem opens_fillList (range : Range) :
    Returns (Running table) (fillList render range) fun filled => Opens filled.1 := by
  have moves := blocks.moves
  have stores (target value : Tree) : Returns (Running table) (storeTyped render target value) fun _ => True :=
    runs_of_moves (moves_pervade.storeTyped moves target value)
  unfold fillList
  refine returns_bind (runs_of_moves keeps_temporary) fun list _ => ?_
  refine returns_bind (runs_of_moves keeps_temporary) fun count _ => ?_
  refine returns_bind (runs_of_moves keeps_temporary) fun counter _ => ?_
  refine returns_bind (opens_storeTyped blocks (Tree.isExpression_var list) Tree.isExpression_seed) fun create opens => ?_
  refine returns_bind (stores _ _) fun reset _ => ?_
  refine returns_bind (runs_of_moves (moves_pervade.countedLoop moves _ range)) fun header _ => ?_
  refine returns_bind (stores _ _) fun next _ => returns_bind (stores _ _) fun fill _ => returns_pure ?_
  exact opens.of_lines ((lines_intercalate _).trans List.flatMap_cons)

theorem opens_assign {mode : Store} {line : Nat} (orderly : (Tree.assign target mode value line).isOrderly table = true) :
    Returns (Running table) (assign render target mode value line) Opens := by
  obtain ⟨isTarget,isAssigned⟩ := isExpression_assigned orderly
  refine runs_assigned (opens_store blocks isTarget isAssigned) fun _ => ?_
  refine (opens_fillList blocks _).mono fun (setup,list) opens => ?_
  refine returns_bind (runs_of_moves (blocks.moves false list)) fun code _ => ?_
  refine returns_bind (runs_of_moves (blocks.moves false target)) fun place _ => returns_pure ?_
  have behind : Opens (setup ++ "\n" ++ (code ++ "→" ++ place)) := opens.break
  simpa only [String.append_assoc] using behind

theorem opens_loop (condition body : Tree) (untilTrue : Bool) :
    Returns (Running table) (loop render condition body untilTrue) Opens := by
  refine returns_bind (runs_of_moves (blocks.moves false condition)) fun test _ => ?_
  refine returns_bind (runs_of_moves (blocks.moves false body)) fun code _ => returns_pure ?_
  cases untilTrue with
  | true => exact opens_char (c := 'R') (by simp; rfl) (by decide) (by decide)
  | false => exact opens_char (c := 'W') (by simp; rfl) (by decide) (by decide)

theorem opens_loopList (expression : collection.IsExpression table False) :
    Returns (Running table) (loopList render collection) fun prepared =>
      (prepared.1 = "" ∨ Opens prepared.1) ∧ prepared.2.IsExpression table False := by
  unfold loopList
  split
  · rename_i range isRange
    intro emitter value after running done
    obtain ⟨⟨_,isList⟩,still⟩ := runs_fillList blocks expression isRange True emitter value after running done
    exact ⟨⟨.inr (opens_fillList blocks range emitter value after running done).1, isList⟩, still⟩
  · refine returns_bind (runs_of_moves (keeps_update fun symbols => Edit.setType symbols _ _)) fun _ _ => ?_
    exact returns_pure ⟨.inl rfl, expression⟩
  · exact returns_pure ⟨.inl rfl, expression⟩
  · refine returns_bind (runs_of_moves keeps_temporary) fun copy _ => ?_
    refine returns_bind (opens_storeTyped blocks (Tree.isExpression_var copy) expression) fun setup opens => ?_
    exact returns_pure ⟨.inr opens, Tree.isExpression_var copy⟩

theorem opens_listLoop (counter : Tree) (expression : collection.IsExpression table False) (body : Tree) :
    Returns (Running table) (listLoop render counter collection body) Opens := by
  have moves := blocks.moves
  unfold listLoop
  refine returns_bind (opens_loopList blocks expression) fun prepared known => ?_
  obtain ⟨setup,list⟩ := prepared
  obtain ⟨prepares,isList⟩ := known
  refine returns_bind (runs_of_moves keeps_temporary) fun length _ => ?_
  refine returns_bind (runs_of_moves keeps_temporary) fun index _ => ?_
  refine returns_bind (opens_storeTyped blocks (Tree.isExpression_var length) (Tree.isExpression_length isList))
    fun measure opens => ?_
  refine returns_bind (runs_of_moves (moves _ _)) fun place _ => returns_bind (runs_of_moves (moves _ _)) fun bound _ => ?_
  refine returns_bind (runs_of_moves (moves_pervade.assign moves _ _ _ _)) fun load _ => ?_
  refine returns_bind (runs_of_moves (moves _ _)) fun code _ => returns_pure ?_
  -- Where nothing is prepared the length of the list is taken first.
  rcases prepares with rfl | early
  · exact opens.of_lines ((lines_joinLines _).trans (by rw [List.flatMap_cons,lines_empty,List.nil_append,List.flatMap_cons]))
  · exact early.join _

theorem opens_forEach {counter : Tree} (isCounter : counter.IsExpression table False)
    (expression : collection.IsExpression table False) (body : Tree) :
    Returns (Running table) (forEach render counter collection body) Opens := by
  unfold forEach
  split
  · rename_i range bounded
    have isRange := (Option.filter_eq_some_iff.mp bounded).1
    refine returns_bind (runs_countedLoop blocks isCounter expression isRange) fun header head => ?_
    refine returns_bind (runs_of_moves (blocks.moves false body)) fun code _ => returns_pure ?_
    obtain ⟨bounds,rfl,_⟩ := head
    exact opens_char (c := 'F') (by simp; rfl) (by decide) (by decide)
  · exact opens_listLoop blocks counter expression body

theorem opens_function (name : String) (params : List String) (body : Tree) :
    Returns (Running table) (function render name params body false) Opens := by
  unfold function
  rw [if_neg Bool.false_ne_true]
  refine returns_bind returns_get fun emitter _ => ?_
  split
  · exact returns_throw _
  · rename_i f _
    refine returns_bind (splices_variableCode False selector) fun place inert => ?_
    refine returns_bind (runs_of_moves (moves_pervade.resetSelector)) fun reset _ => ?_
    refine returns_bind (runs_of_moves (keeps_loadParams f params)) fun load _ => ?_
    refine returns_bind (runs_of_moves (blocks.moves false body)) fun code _ => returns_pure ?_
    have head : Opens (header place f.id) :=
      ⟨header place f.id, [], lines_header inert.unbroken f.id, isTest_then _⟩
    exact head.join _

end Statements

end Emit
end CalcBasic

import CalcBasic.Proofs.BlockStructure
import CalcBasic.Proofs.Sections

/-! How sections of functions end. A section is left by the last statement in it, unless
that statement runs only if a test holds: then the program goes on after the section. -/
namespace CalcBasic
open List

namespace Code

variable {codes : List String} {statement : List Char} {code line : String}

/-! ### Statements line by line -/

/-- The statements of the lines that are not empty. -/
def script (code : String) : List (List Char) := (lines code).flatMap fun line => statements false line.toList

theorem script_of_lines (same : lines code = codes.flatMap lines) : script code = codes.flatMap script := by
  rw [script,same,flatMap_assoc]
  rfl

theorem script_line (nonempty : line ≠ "") (unbroken : '\n' ∉ line.toList) : script line = statements false line.toList := by
  rw [script,lines_singleton nonempty unbroken,flatMap_singleton]

theorem marks_eq_script (code : String) : marks code = (script code).filterMap mark? := by
  rw [marks_eq,script,filterMap_flatMap]
  rfl

theorem statements_last {inText : Bool} {code : List Char} {earlier : List (List Char)} {last : List Char}
    (all : statements inText code = earlier ++ [last]) :
    ∃ lead, code = lead ++ last ∧ (earlier = [] → lead = []) := by
  induction code generalizing inText earlier last with
  | nil =>
    obtain ⟨none,same⟩ := append_inj' (show [] ++ [[]] = earlier ++ [last] from all) rfl
    cases same
    exact ⟨[], rfl, fun _ => rfl⟩
  | cons c rest ih =>
    obtain ⟨before,final,split,_⟩ := statements_append (inTextAfter inText c) rest
    obtain ⟨lead,whole,only⟩ := ih split
    rw [statements,split] at all
    split at all
    · obtain ⟨rfl,same⟩ := append_inj' (show ([] :: before) ++ [final] = earlier ++ [last] from all) rfl
      cases same
      exact ⟨c :: lead, by rw [whole]; rfl, fun none => absurd none (by simp)⟩
    · cases before with
      | nil =>
        obtain ⟨rfl,same⟩ := append_inj' (show [] ++ [c :: final] = earlier ++ [last] from all) rfl
        cases same
        refine ⟨[], ?_, fun _ => rfl⟩
        rw [whole,only rfl]
        rfl
      | cons first others =>
        obtain ⟨rfl,same⟩ := append_inj' (show ((c :: first) :: others) ++ [final] = earlier ++ [last] from all) rfl
        cases same
        exact ⟨c :: lead, by rw [whole]; rfl, fun none => absurd none (by simp)⟩

theorem getLast?_script (last : line ∈ (lines code).getLast?) :
    (script code).getLast? = (statements false line.toList).getLast? := by
  obtain ⟨earlier,split⟩ := getLast?_eq_some_iff.mp last
  obtain ⟨before,final,all,_⟩ := statements_append false line.toList
  rw [script,split,flatMap_append,flatMap_singleton,all]
  simp

theorem lines_of_script {code : String} (found : script code ≠ []) : ∃ line, line ∈ (lines code).getLast? := by
  have some : lines code ≠ [] := by
    intro none
    rw [script,none] at found
    exact found rfl
  exact ⟨(lines code).getLast some, getLast?_eq_getLast_of_ne_nil some⟩

theorem Inert.script {returnless : Prop} (inert : Inert returnless code)
    (member : statement ∈ Code.script code) : Calm statement := by
  by_cases none : code = ""
  · rw [none] at member
    cases member
  · rw [script_line none inert.unbroken] at member
    exact inert.calm statement member

theorem Inert.unmarked {returnless : Prop} (inert : Inert returnless code)
    (member : statement ∈ Code.script code) : mark? statement = none ∧ ¬ testHead <+: statement := by
  have start := (inert.script member).isStart
  constructor
  · exact mark?_eq_none fun keyword isKeyword => not_prefix_of_isStart start isKeyword
  · exact not_prefix_of_isStart start (by decide)

theorem script_header {place : String} (word : IsWord place) (id : Nat) :
    script (header place id) = [("If " ++ place ++ "=" ++ toString id).toList, "Then".toList] := by
  have lead : ∀ c ∈ "If ".toList, isPlain c = true := by decide
  have plain : ∀ c ∈ ("If " ++ place ++ "=" ++ toString id).toList, isPlain c = true := by
    intro c member
    simp only [String.toList_append,mem_append] at member
    rcases member with ((early | within) | sign) | digit
    · exact lead c early
    · exact (word.letters c within).1
    · rw [mem_singleton.mp sign]
      rfl
    · exact ((Emit.isWord_natural id).letters c digit).1
  obtain ⟨one,closed⟩ := statements_plain_append plain []
  have split : (header place id).toList = ("If " ++ place ++ "=" ++ toString id).toList ++ ':' :: "Then".toList := by
    simp [header]
  have last : statements false "Then".toList = ["Then".toList] := by decide
  rw [append_nil] at one closed
  rw [script,lines_header (word.inert : Inert False place).unbroken,flatMap_singleton,split,
    statements_colon closed,one,last]
  simp [statements]

/-! ### Sections that are left at their end -/

/-- The statement that leaves a function. -/
def returnWord : List Char := Tree.returnMarker.toList

/-- The section of a function is one branch, and the last statement in it leaves the function.
That statement is in no other block, and no test stands before it. -/
def LeavesAtEnd (code : String) : Prop :=
  ∃ test body, script code = test :: "Then".toList :: (body ++ [returnWord, "End".toList]) ∧ testHead <+: test ∧
    Balanced (body.filterMap mark?) ∧ ∀ last ∈ body.getLast?, ¬ testHead <+: last

/-- The statements of a body before its section is left. The section is left by the last
statement of the body if the text of the body ends so, and by an added one otherwise. -/
def beforeReturn (code : String) : List (List Char) :=
  if returnWord.isSuffixOf code.toList then (script code).dropLast else script code

/-- The code of a body whose section is left at its end. -/
structure Leaves (code : String) : Prop where
  balanced : Balanced (marks code)
  apart : returnWord.isSuffixOf code.toList = true → (script code).getLast? = some returnWord
  untested : ∀ last ∈ (beforeReturn code).getLast?, ¬ testHead <+: last

/-- The last statement leaves the function, but only if a test holds. -/
def EndsGuarded (code : String) : Prop :=
  ∃ earlier test, script code = earlier ++ [test, returnWord] ∧ testHead <+: test

theorem mark?_returnWord : mark? returnWord = none := by decide

/-- Text that ends as a return does has a last line that does. -/
theorem line_of_suffix (ends : returnWord <:+ code.toList) : ∃ line ∈ (lines code).getLast?, returnWord <:+ line.toList := by
  have unbroken : '\n' ∉ returnWord := by decide
  -- Induction on the text before the return, line by line.
  have each (n : Nat) : ∀ lead : List Char, lead.length = n →
      ∃ line ∈ (lines (String.ofList (lead ++ returnWord))).getLast?, returnWord <:+ line.toList := by
    induction n using Nat.strong_induction_on with
    | _ n ih =>
      intro lead size
      by_cases broken : '\n' ∈ lead
      · obtain ⟨first,rest,split,_⟩ := eq_append_cons_of_mem broken
        have shorter : rest.length < n := by
          rw [← size,split,length_append,length_cons]
          omega
        obtain ⟨line,last,ends⟩ := ih rest.length shorter rest rfl
        refine ⟨line, ?_, ends⟩
        rw [split,append_assoc,cons_append,lines_ofList_break,getLast?_append,Option.mem_def.mp last]
        rfl
      · refine ⟨String.ofList (lead ++ returnWord), ?_, by simp⟩
        rw [lines_singleton]
        · rfl
        · simp [returnWord,Tree.returnMarker]
        · simp [broken,unbroken]
  obtain ⟨lead,split⟩ := ends
  obtain ⟨line,last,ends⟩ := each lead.length lead rfl
  rw [split,String.ofList_toList] at last
  exact ⟨line, last, ends⟩

/-- What is added to a body whose text does not end with a return. -/
def addedReturn (code : String) : List (List Char) := if returnWord.isSuffixOf code.toList then [] else [returnWord]

theorem script_append_addedReturn
    (apart : returnWord.isSuffixOf code.toList = true → (script code).getLast? = some returnWord) :
    script code ++ addedReturn code = beforeReturn code ++ [returnWord] := by
  unfold addedReturn beforeReturn
  split
  · rename_i ends
    rw [append_nil,dropLast_append_getLast? returnWord (apart ends)]
  · rfl

theorem filterMap_addedReturn (code : String) : (addedReturn code).filterMap mark? = [] := by
  unfold addedReturn
  split
  · rfl
  · exact filterMap_cons_none mark?_returnWord

/-- A section is left at its end if and only if the code of its body allows it. -/
theorem leavesAtEnd_iff {whole : String} {test : List Char} (isTest : testHead <+: test) {setup : List (List Char)}
    (calm : ∀ statement ∈ setup, mark? statement = none ∧ ¬ testHead <+: statement)
    (all : script whole = test :: "Then".toList :: (setup ++ (script code ++ addedReturn code) ++ ["End".toList])) :
    LeavesAtEnd whole ↔ Leaves code := by
  have unmarked : setup.filterMap mark? = [] :=
    filterMap_eq_nil_iff.mpr fun statement member => (calm statement member).1
  have marked : (script code ++ addedReturn code).filterMap mark? = marks code := by
    rw [filterMap_append,filterMap_addedReturn,append_nil,marks_eq_script]
  have found (apart : returnWord.isSuffixOf code.toList = true → (script code).getLast? = some returnWord) :
      (setup ++ beforeReturn code).filterMap mark? = marks code := by
    rw [script_append_addedReturn apart,filterMap_append,filterMap_cons_none mark?_returnWord,
      filterMap_nil,append_nil] at marked
    rw [filterMap_append,unmarked,nil_append,marked]
  have ending (body : List (List Char)) : body ++ [returnWord, "End".toList] = body ++ [returnWord] ++ ["End".toList] := by
    simp
  constructor
  · rintro ⟨other,body,same,_,balanced,untested⟩
    rw [all,ending,List.cons.injEq,List.cons.injEq] at same
    have inner := append_cancel_right same.2.2
    have apart : returnWord.isSuffixOf code.toList = true → (script code).getLast? = some returnWord := by
      intro ends
      obtain ⟨line,last,_⟩ := line_of_suffix (isSuffixOf_iff_suffix.mp ends)
      have some : script code ≠ [] := by
        intro none
        have nothing := getLast?_script last
        obtain ⟨before,final,all,_⟩ := statements_append false line.toList
        rw [none,all,getLast?_concat] at nothing
        cases nothing
      rw [addedReturn,if_pos ends,append_nil] at inner
      rw [← getLast?_append_of_ne_nil setup some,inner,getLast?_concat]
    rw [script_append_addedReturn apart,← append_assoc] at inner
    have same := append_cancel_right inner
    subst same
    refine ⟨found apart ▸ balanced, apart, fun last member => untested last ?_⟩
    rw [getLast?_append,Option.mem_def.mp member]
    rfl
  · intro leaves
    refine ⟨test, setup ++ beforeReturn code, ?_, isTest, ?_, ?_⟩
    · rw [all,script_append_addedReturn leaves.apart,ending]
      simp only [append_assoc]
    · rw [found leaves.apart]
      exact leaves.balanced
    · intro last member
      rw [getLast?_append] at member
      cases found : (beforeReturn code).getLast? with
      | none =>
        rw [found] at member
        exact (calm last (mem_of_getLast? member)).2
      | some final =>
        rw [found] at member
        cases member
        exact leaves.untested last found

/-! ### Ends of code -/

/-- The line does not end with a test, and if its text ends as a return does, a return is
its last statement. -/
structure EndsPlainly (line : String) : Prop where
  untested : ∀ last ∈ (statements false line.toList).getLast?, ¬ testHead <+: last
  apart : returnWord <:+ line.toList → (statements false line.toList).getLast? = some returnWord

/-- How the code of statements ends: otherwise than a return if there is none in them, and
with no guarded return if there is none in them. -/
structure Ending (returnless unguarded : Prop) (code : String) : Prop where
  plain : ∀ line ∈ (lines code).getLast?, EndsPlainly line
  silent : returnless → ∀ line ∈ (lines code).getLast?, line.toList.getLast? ≠ some 'n'
  free : unguarded → ¬ EndsGuarded code

section Endings

variable {returnless unguarded : Prop}

theorem Ending.mono {weaker other : Prop} (ending : Ending returnless unguarded code) (imply : weaker → returnless)
    (also : other → unguarded) : Ending weaker other code :=
  ⟨ending.plain, fun known => ending.silent (imply known), fun known => ending.free (also known)⟩

theorem getLast?_of_suffix {code : List Char} (ends : returnWord <:+ code) : code.getLast? = some 'n' := by
  obtain ⟨lead,rfl⟩ := ends
  rw [getLast?_append_of_ne_nil _ (by decide)]
  rfl

theorem suffix_of_getLast? (last : (statements false line.toList).getLast? = some returnWord) : returnWord <:+ line.toList := by
  obtain ⟨earlier,all⟩ := getLast?_eq_some_iff.mp last
  obtain ⟨lead,whole,_⟩ := statements_last all
  exact ⟨lead, whole.symm⟩

theorem EndsGuarded.last (guarded : EndsGuarded code) : ∃ line ∈ (lines code).getLast?, returnWord <:+ line.toList := by
  obtain ⟨earlier,test,all,_⟩ := guarded
  obtain ⟨line,last⟩ := @lines_of_script code (by rw [all]; simp)
  refine ⟨line, last, suffix_of_getLast? ?_⟩
  rw [← getLast?_script last,all]
  simp

theorem ending_of_last (last : ∀ line ∈ (lines code).getLast?, line.toList.getLast? ≠ some 'n' ∧
    ∀ last ∈ (statements false line.toList).getLast?, ¬ testHead <+: last) : Ending returnless unguarded code := by
  refine ⟨fun line member => ⟨(last line member).2, fun ends => ?_⟩, fun _ line member => (last line member).1,
    fun _ guarded => ?_⟩
  · exact absurd (getLast?_of_suffix ends) (last line member).1
  · obtain ⟨line,member,ends⟩ := guarded.last
    exact (last line member).1 (getLast?_of_suffix ends)

theorem ending_empty : Ending returnless unguarded "" := ending_of_last nofun

theorem Inert.ending (inert : Inert True code) : Ending returnless unguarded code := by
  refine ending_of_last fun line member => ?_
  by_cases none : code = ""
  · rw [none] at member
    cases member
  · rw [lines_singleton none inert.unbroken] at member
    cases member
    exact ⟨inert.ends trivial, fun last member => (inert.unmarked (by
      rw [script_line none inert.unbroken]
      exact mem_of_getLast? member)).2⟩

theorem ending_return (returning : ¬ returnless) : Ending returnless unguarded Tree.returnMarker := by
  have only : lines Tree.returnMarker = [Tree.returnMarker] := by decide
  have one : statements false Tree.returnMarker.toList = [returnWord] := by decide
  refine ⟨fun line member => ?_, fun none => absurd none returning, fun _ guarded => ?_⟩
  · rw [only,getLast?_singleton] at member
    cases member
    refine ⟨fun last member => ?_, fun _ => by rw [one]; rfl⟩
    rw [one,getLast?_singleton] at member
    cases member
    decide
  · obtain ⟨earlier,test,all,_⟩ := guarded
    rw [script,only,flatMap_singleton,one] at all
    have sizes := congrArg List.length all
    simp at sizes

theorem ending_close {earlier : List String} (same : lines code = earlier ++ ["End"]) : Ending returnless unguarded code := by
  have one : statements false "End".toList = ["End".toList] := by decide
  refine ending_of_last fun line member => ?_
  rw [same,getLast?_concat] at member
  cases member
  refine ⟨by decide, fun last member => ?_⟩
  rw [one] at member
  cases member
  decide

theorem ending_break (code : String) : Ending returnless unguarded (code ++ "\nEnd") := by
  have split : code ++ "\nEnd" = code ++ "\n" ++ "End" := by simp [← String.toList_inj]
  have word : lines "End" = ["End"] := by decide
  exact ending_close (by rw [split,lines_break,word])

theorem ending_joinClosed (codes : List String) : Ending returnless unguarded (joinLines (codes ++ ["End"])) := by
  have word : lines "End" = ["End"] := by decide
  exact ending_close (by rw [lines_joinLines,flatMap_append,flatMap_singleton,word])

theorem Ending.after {first second : String} (start : Ending returnless unguarded first)
    (later : Ending returnless unguarded second) (same : lines code = lines first ++ lines second) :
    Ending returnless unguarded code := by
  have lastLine {line : String} (member : line ∈ (lines code).getLast?) :
      line ∈ (lines second).getLast? ∨ line ∈ (lines first).getLast? := by
    rw [same,getLast?_append] at member
    cases found : (lines second).getLast? with
    | none => exact .inr (by rwa [found] at member)
    | some final => exact .inl (by rwa [found] at member)
  refine ⟨fun line member => ?_, fun none line member => ?_, fun none guarded => ?_⟩
  · exact (lastLine member).elim (later.plain line) (start.plain line)
  · exact (lastLine member).elim (later.silent none line) (start.silent none line)
  · obtain ⟨earlier,test,all,isTest⟩ := guarded
    have joined : script code = script first ++ script second := by
      have pair : lines code = [first,second].flatMap lines := by simp [same]
      rw [script_of_lines pair]
      simp
    rw [joined] at all
    rcases eq_nil_or_concat' (script second) with nothing | ⟨before,final,split⟩
    · rw [nothing,append_nil] at all
      exact start.free none ⟨earlier, test, all, isTest⟩
    · have whole : script first ++ before ++ [final] = earlier ++ [test] ++ [returnWord] := by
        rw [split] at all
        simpa using all
      obtain ⟨inner,last⟩ := append_inj' whole rfl
      cases last
      rcases eq_nil_or_concat' before with nothing | ⟨others,other,rfl⟩
      · rw [nothing,append_nil] at inner
        obtain ⟨line,last⟩ := @lines_of_script first (by rw [inner]; simp)
        have final := getLast?_script last
        rw [inner,getLast?_concat] at final
        exact (start.plain line last).untested test final.symm isTest
      · rw [← append_assoc] at inner
        obtain ⟨_,same⟩ := append_inj' inner rfl
        cases same
        exact later.free none ⟨others, test, by rw [split]; simp, isTest⟩

theorem ending_joinLines (each : ∀ code ∈ codes, Ending returnless unguarded code) :
    Ending returnless unguarded (joinLines codes) := by
  induction codes with
  | nil => exact ending_empty
  | cons code rest ih =>
    rw [forall_mem_cons] at each
    refine each.1.after (ih each.2) ?_
    rw [lines_joinLines,lines_joinLines,flatMap_cons]

theorem lines_ne_nil_of_countStatements (one : countStatements code = 1) : lines code ≠ [] := by
  intro none
  rw [countStatements_eq,none] at one
  cases one

theorem Ending.test {test code : String} {inner : Prop} (body : Ending inner unguarded code) (one : countStatements code = 1)
    (silent : unguarded → inner) (also : returnless → inner) :
    Ending returnless unguarded ("If " ++ test ++ "\n" ++ code) := by
  have some := lines_ne_nil_of_countStatements one
  have same : (lines ("If " ++ test ++ "\n" ++ code)).getLast? = (lines code).getLast? := by
    rw [lines_break,getLast?_append_of_ne_nil _ some]
  refine ⟨fun line member => ?_, fun none line member => ?_, fun none guarded => ?_⟩
  · exact body.plain line (same ▸ member)
  · exact body.silent (also none) line (same ▸ member)
  · obtain ⟨line,member,ends⟩ := guarded.last
    exact body.silent (silent none) line (same ▸ member) (getLast?_of_suffix ends)

/-- Code that ends in one of these ways leaves its section unless it ends with a guarded return. -/
theorem Ending.leaves_iff (ending : Ending returnless unguarded code) (balanced : Balanced (marks code)) :
    Leaves code ↔ ¬ (returnWord <:+ code.toList ∧ EndsGuarded code) := by
  constructor
  · rintro leaves ⟨ends,earlier,test,all,isTest⟩
    refine leaves.untested test ?_ isTest
    rw [beforeReturn,if_pos (isSuffixOf_iff_suffix.mpr ends),all]
    simp
  · intro free
    have apart (ends : returnWord.isSuffixOf code.toList = true) : (script code).getLast? = some returnWord := by
      obtain ⟨line,last,lineEnds⟩ := line_of_suffix (isSuffixOf_iff_suffix.mp ends)
      rw [getLast?_script last]
      exact (ending.plain line last).apart lineEnds
    refine ⟨balanced, apart, fun last member isTest => ?_⟩
    unfold beforeReturn at member
    split at member
    · rename_i ends
      obtain ⟨earlier,before⟩ := getLast?_eq_some_iff.mp member
      have all := dropLast_append_getLast? returnWord (apart ends)
      refine free ⟨isSuffixOf_iff_suffix.mp ends, earlier, last, ?_, isTest⟩
      rw [← all,before]
      simp
    · obtain ⟨line,lastLine⟩ := @lines_of_script code (by rintro none; rw [none] at member; cases member)
      rw [getLast?_script lastLine] at member
      exact (ending.plain line lastLine).untested last member isTest

end Endings

end Code

/-! ### Statements whose returns can be told -/

namespace Tree

/-- A test around a return, without an alternative. -/
def guardsReturn : Tree → Bool
  | .branch _ body none => body.somewhere isReturn
  | _ => false

/-- No operand holds a return. -/
def keepsReturns (tree : Tree) : Bool := tree.everywhere fun node => node.operands.all (!·.somewhere isReturn)

/-- Orderly statements, of which no two stand on one line, and whose returns are statements. -/
structure IsLaidOut (table : FunctionTable) (tree : Tree) : Prop where
  orderly : tree.isOrderly table = true
  lineless : tree.somewhere isLine = false
  keeps : tree.keepsReturns = true

variable {table : FunctionTable} {tree : Tree}

theorem IsLaidOut.child (laidOut : tree.IsLaidOut table) {child : Tree} (isChild : child ∈ tree.children) :
    child.IsLaidOut table := by
  refine ⟨(isOrderly_iff.mp laidOut.orderly).2 child isChild, somewhere_child laidOut.lineless isChild, ?_⟩
  exact (everywhere_iff.mp laidOut.keeps).2 child isChild

theorem IsLaidOut.operand (laidOut : tree.IsLaidOut table) {child : Tree} (isChild : child ∈ tree.children)
    (isOperand : child ∈ tree.operands) : child.IsExpression table True := by
  refine isExpression_operand laidOut.orderly isChild isOperand fun _ => ?_
  have node := (everywhere_iff.mp laidOut.keeps).1
  rw [all_eq_true] at node
  simpa using node child isOperand

theorem IsLaidOut.expression (laidOut : tree.IsLaidOut table) (value : tree.isStatement = false)
    (stays : tree.isReturn = false) : tree.IsExpression table True := by
  have operands : tree.operands = tree.children := by
    cases tree with
    | assign | block | branch | forEach | loop | function | line => cases value
    | _ => rfl
  refine ⟨laidOut.orderly, value, fun _ => ?_⟩
  rw [somewhere_eq,stays,Bool.false_or,any_eq_false]
  intro child isChild
  rw [(laidOut.operand isChild (operands ▸ isChild)).kept trivial]
  nofun

end Tree

namespace Emit
open CalcBasic.Action Code

variable {table : FunctionTable} {returnless unguarded : Prop}

/-! ### Statements that end with a block -/

theorem closes_loop (render : Renderer) (condition body : Tree) (untilTrue : Bool) :
    Returns (fun _ => True) (loop render condition body untilTrue) (Ending returnless unguarded) := by
  refine returns_bind (returns_any _) fun test _ => returns_bind (returns_any _) fun code _ => returns_pure ?_
  exact ending_break _

theorem closes_forEach (render : Renderer) (counter collection body : Tree) :
    Returns (fun _ => True) (forEach render counter collection body) (Ending returnless unguarded) := by
  unfold forEach
  split
  · refine returns_bind (returns_any _) fun header _ => returns_bind (returns_any _) fun code _ => returns_pure ?_
    exact ending_break _
  · refine returns_bind (returns_any _) fun prepared _ => ?_
    refine returns_bind (returns_any _) fun length _ => returns_bind (returns_any _) fun index _ => ?_
    refine returns_bind (returns_any _) fun measure _ => returns_bind (returns_any _) fun place _ => ?_
    refine returns_bind (returns_any _) fun bound _ => returns_bind (returns_any _) fun load _ => ?_
    refine returns_bind (returns_any _) fun code _ => returns_pure ?_
    exact ending_joinClosed [_, _, _, _, _]

theorem closes_function (render : Renderer) (name : String) (params : List String) (body : Tree) (inline : Bool) :
    Returns (fun _ => True) (function render name params body inline) (Ending returnless unguarded) := by
  unfold function
  split
  · exact returns_pure ending_empty
  · refine returns_bind (returns_any _) fun emitter _ => ?_
    split
    · exact returns_throw _
    · refine returns_bind (returns_any _) fun place _ => returns_bind (returns_any _) fun reset _ => ?_
      refine returns_bind (returns_any _) fun load _ => returns_bind (returns_any _) fun code _ => returns_pure ?_
      exact ending_joinClosed _

section Rendering

variable {render : Renderer} (blocks : WritesBlocks table render)
include blocks

theorem ends_assign {target value : Tree} {mode : Store} {line : Nat}
    (laidOut : (Tree.assign target mode value line).IsLaidOut table) :
    Returns (Running table) (assign render target mode value line) (Ending returnless unguarded) := by
  have isTarget : target.IsExpression table True :=
    laidOut.operand (by simp) (by simp [Tree.operands])
  have isValue : value.IsExpression table True :=
    laidOut.operand (by simp) (by simp [Tree.operands])
  have isAssigned : (assignedValue target mode value).IsExpression table True := isExpression_assignedValue isTarget isValue
  refine runs_assigned ((splices_store blocks isTarget isAssigned).mono fun _ inert => inert.ending) fun isRange => ?_
  refine (runs_fillList blocks isAssigned isRange True).mono ?_
  rintro ⟨setup,list⟩ ⟨-,isList⟩
  refine returns_bind (blocks.expressions false list isList) fun code inert => ?_
  refine returns_bind (blocks.expressions false target isTarget) fun place inertPlace => returns_pure ?_
  have last : Inert True (code ++ "→" ++ place) := (inert.append (inert_of_isInert (by decide))).append inertPlace
  have some : code ++ "→" ++ place ≠ "" := by simp
  refine ending_of_last fun line member => ?_
  have split : setup ++ "\n" ++ code ++ "→" ++ place = setup ++ "\n" ++ (code ++ "→" ++ place) := by
    simp only [String.append_assoc]
  rw [split,lines_break,lines_singleton some last.unbroken,getLast?_concat] at member
  cases member
  refine ⟨last.ends trivial, fun statement member => (last.unmarked ?_).2⟩
  rw [script_line some last.unbroken]
  exact mem_of_getLast? member

variable (ends : ∀ settled tree, tree.IsLaidOut table → Returns (Running table) (render settled tree)
  (Ending (tree.somewhere Tree.isReturn = false) (tree.somewhere Tree.guardsReturn = false)))
include ends

omit blocks in
theorem ends_body {tree child : Tree} (laidOut : tree.IsLaidOut table) (isChild : child ∈ tree.children) :
    Returns (Running table) (render false child)
      (Ending (tree.somewhere Tree.isReturn = false) (tree.somewhere Tree.guardsReturn = false)) := by
  refine (ends false child (laidOut.child isChild)).mono fun code ending => ?_
  exact ending.mono (fun none => Tree.somewhere_child none isChild) fun none => Tree.somewhere_child none isChild

theorem ends_branch {condition body : Tree} {otherwise : Option Tree}
    (laidOut : (Tree.branch condition body otherwise).IsLaidOut table) :
    Returns (Running table) (branch render condition body otherwise)
      (Ending ((Tree.branch condition body otherwise).somewhere Tree.isReturn = false)
        ((Tree.branch condition body otherwise).somewhere Tree.guardsReturn = false)) := by
  have isCondition : condition.IsExpression table True :=
    laidOut.operand (by cases otherwise <;> simp) (by simp [Tree.operands])
  have isBody : body ∈ (Tree.branch condition body otherwise).children := by cases otherwise <;> simp
  have inner := ends_body ends laidOut isBody
  have second : ∀ other ∈ otherwise, Returns (Running table) (render false other)
      (Ending ((Tree.branch condition body otherwise).somewhere Tree.isReturn = false)
        ((Tree.branch condition body otherwise).somewhere Tree.guardsReturn = false)) := by
    rintro other ⟨⟩
    exact ends_body ends laidOut (by simp)
  unfold branch
  refine returns_bind (runs_settle blocks isCondition) fun condition isCondition => ?_
  split
  · exact inner
  · exact second _ rfl
  · exact returns_pure ending_empty
  · refine returns_bind (blocks.expressions true condition isCondition) fun test _ => ?_
    refine returns_bind (ends false body (laidOut.child isBody)) fun code ending => ?_
    split
    · exact returns_bind (second _ rfl) fun rest _ => returns_pure (ending_break _)
    · split
      · rename_i one
        refine returns_pure ((ending.mono id fun none => Tree.somewhere_child none isBody).test one ?_ ?_)
        · intro none
          rw [Tree.somewhere_eq,Bool.or_eq_false_iff] at none
          exact none.1
        · exact fun none => Tree.somewhere_child none isBody
      · exact returns_pure (ending_break _)

end Rendering

theorem ends_render (sections : ∀ f ∈ table.users, f.inline = false) (depth : Nat) (settled : Bool) (tree : Tree)
    (laidOut : tree.IsLaidOut table) : Returns (Running table) (render depth settled tree)
      (Ending (tree.somewhere Tree.isReturn = false) (tree.somewhere Tree.guardsReturn = false)) := by
  induction depth generalizing settled tree with
  | zero => exact returns_throw _
  | succ depth ih =>
    have blocks : WritesBlocks table (render depth) := writesBlocks_render sections depth
    change Returns (Running table) (construct (render depth) settled tree) _
    cases statement : tree.isStatement with
    | false =>
      cases leaves : tree.isReturn with
      | false =>
        have expression := laidOut.expression statement leaves
        exact (splices_construct blocks sections settled expression).mono fun code inert => inert.ending
      | true =>
        unfold Tree.isReturn at leaves
        split at leaves
        · rw [beq_iff_eq] at leaves
          subst leaves
          refine returns_bind returns_get fun emitter _ => returns_pure ?_
          split
          · exact ending_empty
          · exact ending_return (by rw [Tree.somewhere_eq]; simp [Tree.isReturn])
        · cases leaves
    | true =>
      have closed {returnless unguarded : Prop}
          (closes : Returns (fun _ => True) (render (depth + 1) settled tree) (Ending returnless unguarded)) :=
        @runs_of_returns table _ _ _ closes (keeps_render (depth + 1) settled tree)
      cases tree with
      | assign target mode value line => exact ends_assign blocks laidOut
      | block statements =>
        exact returns_bind (returns_each fun statement member => ends_body ih laidOut member) fun codes each =>
          returns_pure (ending_joinLines each)
      | branch condition body otherwise => exact ends_branch blocks ih laidOut
      | forEach counter collection body => exact closed (closes_forEach _ counter collection body)
      | loop condition body untilTrue => exact closed (closes_loop _ condition body untilTrue)
      | function name params body inline => exact closed (closes_function _ name params body inline)
      | line statements =>
        have lineless := laidOut.lineless
        rw [Tree.somewhere_eq] at lineless
        cases lineless
      | _ => cases statement

/-! ### Sections -/

theorem outcome_section {render : Renderer} {name : String} {params : List String} {body : Tree} {emitter after : Emitter}
    {text : String} (done : outcome (function render name params body false) emitter = (.ok text, after)) :
    ∃ code middle test setup, outcome (render false body) middle = (.ok code, after) ∧ Moves emitter middle ∧
      testHead <+: test ∧ (∀ statement ∈ setup, mark? statement = none ∧ ¬ testHead <+: statement) ∧
      script text = test :: "Then".toList :: (setup ++ (script code ++ addedReturn code) ++ ["End".toList]) := by
  unfold function at done
  rw [if_neg (by decide),outcome_bind_ok (outcome_get emitter)] at done
  split at done
  · cases done
  · rename_i f _
    obtain ⟨place,first,placed,done⟩ := outcome_bind_eq_ok done
    obtain ⟨reset,second,isReset,done⟩ := outcome_bind_eq_ok done
    obtain ⟨load,third,loaded,done⟩ := outcome_bind_eq_ok done
    obtain ⟨code,_,rendered,done⟩ := outcome_bind_eq_ok done
    rw [outcome_pure,Prod.mk.injEq,Except.ok.injEq] at done
    obtain ⟨written,rfl⟩ := done
    have word : IsWord place := isWord_name (names_variableCode selector emitter place first trivial placed).1
    have inertReset : Inert False reset := (returns_resetSelector False first reset second trivial isReset).1
    have inertLoad := (returns_loadParams False f params second load third trivial loaded).1
    have moved : Moves emitter third := by
      have toFirst := keeps_variableCode selector emitter
      have toSecond := moves_pervade.resetSelector first
      have toThird := keeps_loadParams f params second
      rw [placed] at toFirst
      rw [isReset] at toSecond
      rw [loaded] at toThird
      exact Trans.trans (Trans.trans toFirst toSecond) toThird
    refine ⟨code, third, ("If " ++ place ++ "=" ++ toString f.id).toList, script reset ++ load.flatMap script,
      rendered, moved, ?_, ?_, ?_⟩
    · simp [testHead]
    · intro statement member
      rcases mem_append.mp member with early | late
      · exact inertReset.unmarked early
      · obtain ⟨piece,isPiece,inside⟩ := mem_flatMap.mp late
        exact (inertLoad piece isPiece).unmarked inside
    · have added : (if Tree.returnMarker.toList.isSuffixOf code.toList = true then []
          else [Tree.returnMarker]).flatMap script = addedReturn code := by
        unfold addedReturn returnWord
        split
        · rfl
        · decide
      have closing : script "End" = ["End".toList] := by decide
      have heading := script_header word f.id
      rw [header] at heading
      rw [← written,script_of_lines (lines_joinLines _)]
      simp only [flatMap_append,flatMap_cons,flatMap_nil,append_nil,heading,added,closing,
        append_assoc,cons_append,nil_append]

end Emit

/-- Every function of the program has a section, and the body is laid out. -/
structure CallsSections (emitter : Emitter) (body : Tree) : Prop where
  sections : ∀ f ∈ emitter.symbols.functions.users, f.inline = false
  named : ∀ c ∈ emitter.program.toList, Code.isPlain c = true
  laidOut : body.IsLaidOut emitter.symbols.functions

open Code

/-- A section is left at its end if and only if the code of the body allows it. A body that is
laid out does, unless its text ends with a return that only runs if a test holds; and without
a return under a test that has no alternative there is none. -/
theorem section_left_iff (emitter after : Emitter) (depth : Nat) (name : String) (params : List String) (body : Tree)
    (text : String)
    (done : Action.outcome (Emit.function (Emit.render depth) name params body false) emitter = (.ok text, after)) :
    ∃ code middle, Action.outcome (Emit.render depth false body) middle = (.ok code, after) ∧
      (LeavesAtEnd text ↔ Leaves code) ∧
      (CallsSections emitter body → (LeavesAtEnd text ↔ ¬ (returnWord <:+ code.toList ∧ EndsGuarded code)) ∧
        (body.somewhere Tree.guardsReturn = false → LeavesAtEnd text)) := by
  obtain ⟨code,middle,test,setup,rendered,moved,isTest,calm,all⟩ := Emit.outcome_section done
  have allowed := leavesAtEnd_iff isTest calm all
  refine ⟨code, middle, rendered, allowed, fun calls => ?_⟩
  have running : Emit.Running emitter.symbols.functions middle :=
    ⟨moved.symbols.functions, by rw [moved.program]; exact calls.named⟩
  obtain ⟨ending,_⟩ := Emit.ends_render calls.sections depth false body calls.laidOut middle code after running rendered
  obtain ⟨whole,_⟩ := (Emit.writesBlocks_render calls.sections depth).statements false body calls.laidOut.orderly
    middle code after running rendered
  have exact := allowed.trans (ending.leaves_iff whole.balanced)
  exact ⟨exact, fun none => exact.mpr fun guarded => ending.free none guarded.2⟩

/-- The emitter of a program with a function of one parameter. -/
def oneSection : Emitter :=
  { symbols := { functions := ⟨[⟨"f", 0, false, ["x"], 1, none⟩]⟩ }, modern := true, folding := true, program := "P" }

theorem section_left_whileReturn :
    let body := Tree.block [.loop (.var "x") (.block [.native Tree.returnMarker]) false]
    let text := "If A=0:Then\n-1→A\n∟ARG0(1)→B\nWhile B\nReturn\nEnd\nReturn\nEnd"
    (Action.outcome (Emit.function (Emit.render 20) "f" ["x"] body false) oneSection).1 = .ok text ∧ LeavesAtEnd text := by
  intro body text
  have done : (Action.outcome (Emit.function (Emit.render 20) "f" ["x"] body false) oneSection).1 = .ok text := by
    decide +kernel
  have sections : ∀ f ∈ oneSection.symbols.functions.users, f.inline = false := by
    intro f member
    rw [mem_singleton.mp member]
  have laidOut : body.IsLaidOut oneSection.symbols.functions := ⟨by decide +kernel, by decide +kernel, by decide +kernel⟩
  obtain ⟨_,_,_,_,laid⟩ := section_left_iff _ _ 20 "f" ["x"] body text (Action.outcome_eq_ok done)
  exact ⟨done, (laid ⟨sections, by decide, laidOut⟩).2 (by decide +kernel)⟩

/-- A return under a test is taken for one that always runs, so none is added after it. -/
theorem guarded_return_falls_through :
    let body := Tree.block [.branch (.var "x") (.block [.block [.native Tree.returnMarker]]) none]
    let text := "If A=0:Then\n-1→A\n∟ARG0(1)→B\nIf B\nReturn\nEnd"
    (Action.outcome (Emit.function (Emit.render 20) "f" ["x"] body false) oneSection).1 = .ok text ∧
      ¬ LeavesAtEnd text := by
  refine ⟨by decide +kernel, ?_⟩
  rintro ⟨test,body,all,_,_,untested⟩
  have found : script "If A=0:Then\n-1→A\n∟ARG0(1)→B\nIf B\nReturn\nEnd" = "If A=0".toList :: "Then".toList ::
      (["-1→A".toList, "∟ARG0(1)→B".toList, "If B".toList] ++ [returnWord, "End".toList]) := by decide +kernel
  rw [found,List.cons.injEq,List.cons.injEq] at all
  obtain ⟨rfl,_⟩ := append_inj' all.2.2 rfl
  exact untested "If B".toList rfl (by decide)

end CalcBasic

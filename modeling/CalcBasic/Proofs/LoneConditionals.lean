import CalcBasic.Proofs.ConstantCode
import CalcBasic.Proofs.FirstLines

/-! Conditionals alone in a loop over a range. Whether the head of the loop is closed is seen
from the body as it is written, and whether a conditional needs a block from its code. The two
differ where statements leave no code, or where conditionals are decided beforehand. -/
namespace CalcBasic
open List

namespace Code

/-- A test, and one statement on the next line. -/
def isShortIf (code : String) : Bool :=
  match lines code with
  | [test, single] => isTest test && countStatements single == 1
  | _ => false

end Code

/-! ### What remains of a body -/

namespace Tree

variable {body condition : Tree} {otherwise : Option Tree} {statements : List Tree}

section Remaining

variable (modern folding : Bool)

/-- The truth of a condition that is known when the code is written. -/
def decided? (condition : Tree) : Option Bool := (if folding then condition.settled modern else condition).truth?

/-- The statements that leave code. Conditionals that are decided are replaced by what they
choose. -/
def remaining : Tree → List Tree
  | .block statements => statements.attach.flatMap fun ⟨statement, _⟩ => statement.remaining
  | .branch condition body none =>
    match condition.decided? modern folding with
    | some true => body.remaining
    | some false => []
    | none => [.branch condition body none]
  | .branch condition body (some other) =>
    match condition.decided? modern folding with
    | some true => body.remaining
    | some false => other.remaining
    | none => [.branch condition body (some other)]
  | .function _ _ _ true => []
  | .native code => if Code.lines code = [] then [] else [.native code]
  | statement => [statement]

/-- What remains is a conditional around one statement. -/
def remainsLone (body : Tree) : Bool :=
  match body.remaining modern folding with
  | [.branch _ inner none] => (inner.remaining modern folding).length == 1
  | _ => false

/-- Some statement leaves no code, or some conditional is decided. -/
def sheds : Tree → Bool
  | .block statements =>
    statements.attach.any fun ⟨statement, _⟩ => (statement.remaining modern folding).isEmpty || statement.sheds
  | .branch condition body none => (condition.decided? modern folding).isSome || body.sheds
  | .branch condition _ (some _) => (condition.decided? modern folding).isSome
  | _ => false

variable {modern folding}

theorem remaining_block (statements : List Tree) :
    (Tree.block statements).remaining modern folding = statements.flatMap (remaining modern folding) := by
  simp [remaining]

theorem remaining_chosen (holds : condition.decided? modern folding = some true) :
    (Tree.branch condition body otherwise).remaining modern folding = body.remaining modern folding := by
  cases otherwise <;> rw [remaining,holds]

theorem remaining_undecided (undecided : condition.decided? modern folding = none) :
    (Tree.branch condition body otherwise).remaining modern folding = [.branch condition body otherwise] := by
  cases otherwise <;> rw [remaining,undecided]

theorem length_le_remaining (some : ∀ statement ∈ statements, statement.remaining modern folding ≠ []) :
    statements.length ≤ (statements.flatMap (remaining modern folding)).length := by
  induction statements with
  | nil => simp
  | cons statement rest ih =>
    rw [forall_mem_cons] at some
    have first := length_pos_iff.mpr some.1
    have others := ih some.2
    simp only [flatMap_cons,length_append,length_cons]
    omega

theorem sheds_block (keeps : (Tree.block statements).sheds modern folding = false) :
    ∀ statement ∈ statements, statement.remaining modern folding ≠ [] ∧ statement.sheds modern folding = false := by
  rw [sheds,any_eq_false] at keeps
  intro statement member
  simpa using keeps ⟨statement, member⟩ (by simp)

theorem statementCount_of_keeps (keeps : body.sheds modern folding = false)
    (one : (body.remaining modern folding).length = 1) : body.statementCount < 2 := by
  cases body with
  | block statements =>
    rw [remaining_block] at one
    have short := length_le_remaining fun statement member => (sheds_block keeps statement member).1
    rw [statementCount]
    omega
  | _ => exact Nat.one_lt_two

theorem exists_of_remainsLone (lone : body.remainsLone modern folding = true) :
    ∃ condition inner, body.remaining modern folding = [.branch condition inner none] ∧
      (inner.remaining modern folding).length = 1 := by
  unfold remainsLone at lone
  split at lone
  · rename_i condition inner same
    exact ⟨condition, inner, same, by simpa using lone⟩
  · cases lone

/-- Where nothing is lost, the conditional that remains is the one that is written. -/
theorem isLoneConditional_of_keeps (keeps : body.sheds modern folding = false)
    (lone : body.remainsLone modern folding = true) : body.isLoneConditional = true := by
  obtain ⟨condition,inner,same,one⟩ := exists_of_remainsLone lone
  clear lone
  fun_induction isLoneConditional body with
  | case1 only ih =>
    rw [remaining_block,flatMap_singleton] at same
    exact ih (sheds_block keeps only (by simp)).2 same
  | case2 test body =>
    rw [sheds,Bool.or_eq_false_iff,Option.isSome_eq_false_iff,Option.isNone_iff_eq_none] at keeps
    rw [remaining,keeps.1] at same
    cases same
    exact decide_eq_true (statementCount_of_keeps keeps.2 one)
  | case3 body single bare =>
    cases body with
    | block statements =>
      -- Each statement leaves at least one.
      have short := length_le_remaining fun statement member => (sheds_block keeps statement member).1
      rw [remaining_block] at same
      rw [same] at short
      match statements with
      | [] => cases same
      | [only] => exact absurd rfl (single only)
      | _ :: _ :: _ => simp at short
    | branch test body otherwise =>
      cases otherwise with
      | none => exact absurd rfl (bare test body)
      | some other =>
        rw [sheds,Option.isSome_eq_false_iff,Option.isNone_iff_eq_none] at keeps
        rw [remaining,keeps] at same
        cases same
    | function name params body inline => cases inline <;> simp [remaining] at same
    | native code =>
      rw [remaining] at same
      split at same <;> cases same
    | _ => simp [remaining] at same

end Remaining

end Tree

/-! ### The lines that statements leave -/

section Lines

open Code

/-- The lines of a statement that leaves code. The first is no test, unless the statement is a
conditional without a block. -/
inductive LinesOf (modern folding : Bool) : Tree → List String → Prop
  | block {statement : Tree} {first : String} {rest : List String} (opens : isTest first = false)
      (long : ∀ condition inner, statement = .branch condition inner none → inner.remaining modern folding ≠ [] →
        2 ≤ rest.length) : LinesOf modern folding statement (first :: rest)
  | test {condition inner : Tree} {test : String} {inside : List String} (isTest : isTest test = true)
      (one : (inside.map countStatements).sum = 1) (some : inner.remaining modern folding ≠ [])
      (few : (inner.remaining modern folding).length ≤ inside.length) :
      LinesOf modern folding (.branch condition inner none) (test :: inside)

/-- The code consists of the lines of the statements that remain. -/
def Consists (modern folding : Bool) (tree : Tree) (code : String) : Prop :=
  ∃ parts, lines code = parts.flatten ∧ List.Forall₂ (LinesOf modern folding) (tree.remaining modern folding) parts

variable {modern folding : Bool} {tree : Tree} {code : String}

theorem length_le_lines {statements : List Tree} {parts : List (List String)}
    (leaves : List.Forall₂ (LinesOf modern folding) statements parts) : statements.length ≤ parts.flatten.length := by
  induction leaves with
  | nil => exact Nat.le_refl 0
  | cons first others ih =>
    cases first <;> simp only [flatten_cons,length_append,length_cons] <;> omega

section Parts

variable (consists : Consists modern folding tree code)
include consists

theorem Consists.length_le :
    (tree.remaining modern folding).length ≤ (lines code).length := by
  obtain ⟨parts,same,leaves⟩ := consists
  rw [same]
  exact length_le_lines leaves

theorem Consists.remaining_ne_nil (some : lines code ≠ []) :
    tree.remaining modern folding ≠ [] := by
  obtain ⟨parts,same,leaves⟩ := consists
  intro none
  rw [none,forall₂_nil_left_iff] at leaves
  rw [same,leaves] at some
  exact some rfl

theorem Consists.lines_ne_nil (some : tree.remaining modern folding ≠ []) :
    lines code ≠ [] := by
  have count := consists.length_le
  have least := length_pos_iff.mpr some
  exact length_pos_iff.mp (by omega)

theorem Consists.remainsLone (short : isShortIf code = true) :
    tree.remainsLone modern folding = true ∧ (lines code).length = 2 := by
  obtain ⟨parts,same,leaves⟩ := consists
  unfold isShortIf at short
  split at short
  · rename_i test single split
    obtain ⟨isTest,_⟩ := (Bool.and_eq_true _ _).mp short
    rw [split] at same ⊢
    refine ⟨?_, rfl⟩
    unfold Tree.remainsLone
    revert leaves
    generalize tree.remaining modern folding = statements
    intro leaves
    cases leaves with
    | nil => cases same
    | @cons statement part others parts first rest =>
      cases first with
      | block opens long =>
        obtain ⟨rfl,_⟩ := List.cons.inj same
        rw [opens] at isTest
        cases isTest
      | @test condition inner line inside _ one some few =>
        -- The one line after the test belongs to it, so that no other statement is left.
        have tail : [single] = inside ++ parts.flatten := (List.cons.inj same).2
        have total := congrArg List.length tail
        rw [length_singleton,length_append] at total
        have count := length_le_lines rest
        have least := length_pos_iff.mpr some
        have none : others = [] := length_eq_zero_iff.mp (by omega)
        subst none
        exact beq_iff_eq.mpr (by omega)
  · cases short

theorem Consists.isShortIf (lone : tree.remainsLone modern folding = true) (two : (lines code).length = 2) :
    isShortIf code = true := by
  obtain ⟨parts,same,leaves⟩ := consists
  obtain ⟨condition,inner,remains,one⟩ := Tree.exists_of_remainsLone lone
  rw [remains] at leaves
  rw [same] at two
  unfold Code.isShortIf
  rw [same]
  cases leaves with
  | cons first others =>
    cases others with
    | nil =>
      rw [flatten_singleton] at two ⊢
      cases first with
      | block opens long =>
        -- A block has a line of its own at the end.
        have more := long condition inner rfl (length_pos_iff.mp (by omega))
        rw [length_cons] at two
        omega
      | test isTest one some few =>
        obtain ⟨single,rfl⟩ := length_eq_one_iff.mp (Nat.succ.inj two)
        simpa [isTest] using one

theorem Consists.of_remaining {other : Tree} (same : other.remaining modern folding = tree.remaining modern folding) : Consists modern folding other code := by
  rwa [Consists,same]

end Parts

theorem consists_of_opens (opens : Opens code) (single : tree.remaining modern folding = [tree])
    (other : ∀ condition inner, tree ≠ .branch condition inner none) : Consists modern folding tree code := by
  obtain ⟨first,rest,split,block⟩ := opens
  refine ⟨[first :: rest], by rw [split,flatten_singleton], ?_⟩
  rw [single]
  exact .cons (.block block fun condition inner same => absurd same (other condition inner)) .nil

theorem consists_nothing (silent : lines code = []) (none : tree.remaining modern folding = []) :
    Consists modern folding tree code := ⟨[], silent, by rw [none]; exact .nil⟩

theorem consists_joinLines {statements : List Tree} {codes : List String}
    (each : List.Forall₂ (Consists modern folding) statements codes) :
    Consists modern folding (.block statements) (joinLines codes) := by
  rw [Consists,lines_joinLines,Tree.remaining_block]
  induction each with
  | nil => exact ⟨[], rfl, .nil⟩
  | cons first others ih =>
    obtain ⟨parts,same,leaves⟩ := first
    obtain ⟨rest,sameRest,leavesRest⟩ := ih
    exact ⟨parts ++ rest, by rw [flatMap_cons,same,sameRest,flatten_append], rel_append leaves leavesRest⟩

theorem consists_test {condition body : Tree} {test : String} {returnless : Prop} (inert : Inert returnless test)
    (undecided : condition.decided? modern folding = none) (inner : Consists modern folding body code)
    (one : countStatements code = 1) : Consists modern folding (.branch condition body none) ("If " ++ test ++ "\n" ++ code) := by
  have some := lines_ne_nil_of_countStatements one
  have unbroken : '\n' ∉ ("If " ++ test).toList := by
    simp only [String.toList_append,mem_append,not_or]
    exact ⟨by decide, inert.unbroken⟩
  refine ⟨[("If " ++ test) :: lines code], ?_, ?_⟩
  · rw [lines_break,lines_singleton (by simp) unbroken,flatten_singleton,singleton_append]
  · rw [Tree.remaining_undecided undecided]
    refine .cons (.test inert.isTest ?_ (inner.remaining_ne_nil some) inner.length_le) .nil
    rw [← countStatements_eq,one]

theorem consists_then {condition body : Tree} {otherwise : Option Tree} {test rest : String} {returnless : Prop}
    (inert : Inert returnless test) (undecided : condition.decided? modern folding = none) (inner : Consists modern folding body code)
    (closed : lines rest ≠ []) :
    Consists modern folding (.branch condition body otherwise) ("If " ++ test ++ ":Then\n" ++ code ++ "\n" ++ rest) := by
  have unbroken : '\n' ∉ ("If " ++ test ++ ":Then").toList := by
    simp only [String.toList_append,mem_append,not_or]
    exact ⟨⟨by decide, inert.unbroken⟩, by decide⟩
  have split : lines ("If " ++ test ++ ":Then\n" ++ code ++ "\n" ++ rest) =
      ("If " ++ test ++ ":Then") :: (lines code ++ lines rest) := by
    have same : "If " ++ test ++ ":Then\n" ++ code = "If " ++ test ++ ":Then" ++ "\n" ++ code := by
      simp [← String.toList_inj]
    rw [lines_break,same,lines_break,lines_singleton (by simp) unbroken,append_assoc,singleton_append]
  refine ⟨[("If " ++ test ++ ":Then") :: (lines code ++ lines rest)], by rw [split,flatten_singleton], ?_⟩
  rw [Tree.remaining_undecided undecided]
  refine .cons (.block (isTest_then _) fun _ inside same some => ?_) .nil
  cases same
  have first := length_pos_iff.mpr (inner.lines_ne_nil some)
  have last := length_pos_iff.mpr closed
  rw [length_append]
  omega

end Lines

/-! ### Bodies -/

namespace Tree

variable (table : FunctionTable)

/-- A condition in which no texts are compared. -/
def isCondition (condition : Tree) : Bool :=
  condition.isOrderly table && !condition.isStatement && condition.everywhere (!·.comparesTexts)

/-- Statements among which conditionals can be told by their code: native code does not begin
with a test, and other statements stand where they may. -/
def isLegible : Tree → Bool
  | .block statements => statements.attach.all fun ⟨statement, _⟩ => statement.isLegible
  | .branch condition body none => condition.isCondition table && body.isLegible
  | .branch condition body (some other) => condition.isCondition table && body.isLegible && other.isLegible
  | .native code => (Code.lines code).head?.all (!Code.isTest ·)
  | .loop .. | .function .. => true
  | .forEach counter collection _ => [counter, collection].all fun part => part.isOrderly table && !part.isStatement
  | .assign target mode value place => (Tree.assign target mode value place).isOrderly table
  | expression => expression.isOrderly table && expression.isShown

end Tree

namespace Emit
open CalcBasic.Action Code

variable {table : FunctionTable}

/-- The settings of the emission, which is not within an expansion. -/
structure Emitting (table : FunctionTable) (modern folding : Bool) (emitter : Emitter) : Prop where
  running : Running table emitter
  modern : emitter.modern = modern
  folding : emitter.folding = folding
  outside : emitter.inlining = []

section Bodies

variable {modern folding : Bool}

theorem emits_of_runs {α : Type} {action : Emit α} {result : α → Prop} (returns : Returns (Running table) action result)
    (moves : Keeps Moves action) : Returns (Emitting table modern folding) action result := by
  intro emitter value after emitting done
  obtain ⟨known,running⟩ := returns emitter value after emitting.running done
  have moved := moves emitter
  rw [done] at moved
  exact ⟨known, running, moved.modern.trans emitting.modern, moved.folding.trans emitting.folding,
    moved.inlining.trans emitting.outside⟩

theorem emits_settle (depth : Nat) {condition : Tree} (textless : condition.everywhere (!·.comparesTexts) = true) :
    Returns (Emitting table modern folding) (settle (render depth) condition)
      (·.truth? = condition.decided? modern folding) := by
  intro emitter settled after emitting done
  have moves := moves_pervade.settle (keeps_render depth) condition
  refine ⟨?_, (emits_of_runs (runs_of_moves moves) moves emitter settled after emitting done).2⟩
  rw [Tree.decided?]
  cases folds : folding with
  | false =>
    have same := (returns_settle_off (render depth) condition (emitting.folding.trans folds) emitter settled after rfl done).1
    rw [same]
    rfl
  | true =>
    have same := (returns_settle_on depth textless (emitting.folding.trans folds) emitter settled after ⟨_, rfl⟩ done).1
    rw [same,emitting.modern]
    rfl

theorem emits_condition (sections : ∀ f ∈ table.users, f.inline = false) (depth : Nat) {condition : Tree}
    (isCondition : condition.isCondition table = true) :
    Returns (Emitting table modern folding) (settle (render depth) condition) fun settled =>
      settled.truth? = condition.decided? modern folding ∧ settled.IsExpression table False := by
  rw [Tree.isCondition,Bool.and_eq_true,Bool.and_eq_true,Bool.not_eq_true'] at isCondition
  obtain ⟨⟨orderly,value⟩,textless⟩ := isCondition
  have expression : condition.IsExpression table False := ⟨orderly, value, nofun⟩
  intro emitter settled after emitting done
  obtain ⟨truth,still⟩ := emits_settle depth textless emitter settled after emitting done
  have isSettled := runs_settle (writesBlocks_render sections depth) expression emitter settled after emitting.running done
  exact ⟨⟨truth, isSettled.1⟩, still⟩

theorem consists_branch {depth : Nat} {condition body : Tree} {otherwise : Option Tree}
    (sections : ∀ f ∈ table.users, f.inline = false) (isCondition : condition.isCondition table = true)
    (inner : Returns (Emitting table modern folding) (render depth false body) (Consists modern folding body))
    (second : ∀ other ∈ otherwise, Returns (Emitting table modern folding) (render depth false other)
      (Consists modern folding other)) :
    Returns (Emitting table modern folding) (branch (render depth) condition body otherwise)
      (Consists modern folding (.branch condition body otherwise)) := by
  have tests {settled : Tree} (isSettled : settled.IsExpression table False) :
      Returns (Emitting table modern folding) (render depth true settled) (Inert False) :=
    emits_of_runs ((writesBlocks_render sections depth).expressions true settled isSettled) (keeps_render depth true settled)
  unfold branch
  refine returns_bind (emits_condition sections depth isCondition) fun settled known => ?_
  obtain ⟨truth,isSettled⟩ := known
  split
  · rename_i decided
    rw [decided] at truth
    exact inner.mono fun code consists => consists.of_remaining (Tree.remaining_chosen truth.symm)
  · rename_i other decided
    rw [decided] at truth
    refine (second other rfl).mono fun code consists => consists.of_remaining ?_
    rw [Tree.remaining,← truth]
  · rename_i decided
    rw [decided] at truth
    exact returns_pure (consists_nothing lines_empty (by rw [Tree.remaining,← truth]))
  · rename_i undecided
    rw [undecided] at truth
    refine returns_bind (tests isSettled) fun test inert => returns_bind inner fun code consists => ?_
    split
    · rename_i other
      refine returns_bind (second other rfl) fun rest _ => returns_pure ?_
      have closed : lines ("Else\n" ++ rest ++ "\nEnd") ≠ [] := by
        obtain ⟨first,others,split,_⟩ : Opens ("Else\n" ++ rest ++ "\nEnd") :=
          opens_char (c := 'E') (by simp; rfl) (by decide) (by decide)
        simp [split]
      have framed := @consists_then modern folding code condition body (some other) test _ _ inert truth.symm consists closed
      have joined : "If " ++ test ++ ":Then\n" ++ code ++ "\nElse\n" ++ rest ++ "\nEnd" =
          "If " ++ test ++ ":Then\n" ++ code ++ "\n" ++ ("Else\n" ++ rest ++ "\nEnd") := by simp [← String.toList_inj]
      rwa [joined]
    · split
      · rename_i one
        exact returns_pure (consists_test inert truth.symm consists one)
      · have framed := @consists_then modern folding code condition body none test _ _ inert truth.symm consists
          (show lines "End" ≠ [] by decide)
        have joined : "If " ++ test ++ ":Then\n" ++ code ++ "\nEnd" = "If " ++ test ++ ":Then\n" ++ code ++ "\n" ++ "End" := by
          simp [← String.toList_inj]
        exact returns_pure (by rwa [joined])

/-- A body is emitted as the lines of the statements that remain of it. -/
theorem consists_render (sections : ∀ f ∈ table.users, f.inline = false) (depth : Nat) (settled : Bool) {tree : Tree}
    (legible : tree.isLegible table = true) :
    Returns (Emitting table modern folding) (render depth settled tree) (Consists modern folding tree) := by
  induction depth generalizing settled tree with
  | zero => exact returns_throw _
  | succ depth lower =>
    have moves := keeps_render (depth + 1) settled tree
    have blocks := writesBlocks_render sections depth
    have plain (opens : Returns (Running table) (render (depth + 1) settled tree) Opens)
        (single : tree.remaining modern folding = [tree]) (other : ∀ condition inner, tree ≠ .branch condition inner none) :
        Returns (Emitting table modern folding) (render (depth + 1) settled tree) (Consists modern folding tree) :=
      (emits_of_runs opens moves).mono fun code begins => consists_of_opens begins single other
    have expression (orderly : tree.isOrderly table = true) (shown : tree.isShown = true) (value : tree.isStatement = false) :
        Returns (Running table) (render (depth + 1) settled tree) Opens := by
      have isExpression : tree.IsExpression table False := ⟨orderly, value, nofun⟩
      intro emitter code after running done
      obtain ⟨inert,still⟩ := splices_construct blocks sections settled isExpression emitter code after running done
      have some := (fills_render sections (depth + 1) settled orderly shown emitter code after running done).1
      exact ⟨inert.opens some, still⟩
    cases tree with
    | block statements =>
      rw [Tree.isLegible,all_eq_true] at legible
      have each : ∀ statement ∈ statements, statement.isLegible table = true :=
        fun statement member => legible ⟨statement, member⟩ (mem_attach _ _)
      exact returns_bind (returns_mapM statements fun statement member => lower false (each statement member))
        fun codes consists => returns_pure (consists_joinLines consists)
    | branch condition body otherwise =>
      cases otherwise with
      | none =>
        rw [Tree.isLegible,Bool.and_eq_true] at legible
        exact consists_branch sections legible.1 (lower false legible.2) (by simp)
      | some other =>
        rw [Tree.isLegible,Bool.and_eq_true,Bool.and_eq_true] at legible
        refine consists_branch sections legible.1.1 (lower false legible.1.2) ?_
        rintro _ ⟨⟩
        exact lower false legible.2
    | function name params body inline =>
      cases inline with
      | true => exact returns_pure (consists_nothing lines_empty (by rw [Tree.remaining]))
      | false => exact plain (opens_function blocks name params body) (by simp [Tree.remaining]) nofun
    | native code =>
      rw [Tree.isLegible] at legible
      -- Only within an expansion does a return leave nothing.
      refine returns_bind returns_get fun emitter emitting => returns_pure ?_
      rw [emitting.outside,if_neg (by simp)]
      cases split : lines code with
      | nil => exact consists_nothing split (by rw [Tree.remaining,if_pos split])
      | cons first rest =>
        rw [split] at legible
        have opens : Opens code := ⟨first, rest, split, by simpa using legible⟩
        exact consists_of_opens opens (by rw [Tree.remaining,if_neg (by simp [split])]) nofun
    | loop condition body untilTrue => exact plain (opens_loop blocks condition body untilTrue) (by simp [Tree.remaining]) nofun
    | forEach counter collection body =>
      have parts : (counter.isOrderly table = true ∧ counter.isStatement = false) ∧
          collection.isOrderly table = true ∧ collection.isStatement = false := by simpa [Tree.isLegible] using legible
      obtain ⟨⟨orderlyCounter,counts⟩,orderlyCollection,holds⟩ := parts
      exact plain (opens_forEach blocks ⟨orderlyCounter, counts, nofun⟩ ⟨orderlyCollection, holds, nofun⟩ body)
        (by simp [Tree.remaining]) nofun
    | assign target mode value line =>
      rw [Tree.isLegible] at legible
      exact plain (opens_assign blocks legible) (by simp [Tree.remaining]) nofun
    | line statements => simp [Tree.isLegible,Tree.isShown,Tree.isStatement] at legible
    | _ =>
      rw [Tree.isLegible,Bool.and_eq_true] at legible
      · exact plain (expression legible.1 legible.2 rfl) (by simp [Tree.remaining]) nofun
      all_goals nofun

end Bodies

end Emit

/-! ### Loops over ranges -/

/-- The head of a loop over a range and the code of its body, as they are emitted. -/
def LoopParts (emitter : Emitter) (counter : Tree) (range : Range) (body : Tree) (header code : String) : Prop :=
  ∃ depth entered after, Action.outcome (Emit.countedLoop (Emit.render depth) counter range) emitter = (.ok header, entered) ∧
    Action.outcome (Emit.render depth false body) entered = (.ok code, after)

/-- The head of a loop over a range is closed just where the body is written as a lone
conditional. The code of the body is a conditional on two lines just where a lone conditional
is what remains of the body and takes two lines. The head before it is then closed, unless a
statement of the body leaves no code or a conditional in it is decided. -/
theorem short_if_in_counted_loop (emitter : Emitter) (counter collection body : Tree) (range : Range) (text : String)
    (sections : ∀ f ∈ emitter.symbols.functions.users, f.inline = false)
    (named : ∀ c ∈ emitter.program.toList, Code.isPlain c = true) (outside : emitter.inlining = [])
    (legible : body.isLegible emitter.symbols.functions = true)
    (bounded : collection.range?.filter Range.hasSimpleBounds = some range)
    (emitted : (Action.outcome (Emit.code (.forEach counter collection body)) emitter).1 = .ok text) :
    ∃ header code, LoopParts emitter counter range body header code ∧
      text = header ++ (if body.isLoneConditional then ")" else "") ++ "\n" ++ code ++ "\nEnd" ∧
      (Code.isShortIf code = true ↔
        body.remainsLone emitter.modern emitter.folding = true ∧ (Code.lines code).length = 2) ∧
      (Code.isShortIf code = true → body.isLoneConditional = true ∨ body.sheds emitter.modern emitter.folding = true) := by
  obtain ⟨_,_,asked,rendered⟩ := Action.outcome_bind_eq_ok (Action.outcome_eq_ok emitted)
  cases asked
  revert rendered
  generalize emitter.depth (.forEach counter collection body) = depth
  intro rendered
  cases depth with
  | zero => cases rendered
  | succ depth =>
    change Action.outcome (Emit.forEach (Emit.render depth) counter collection body) emitter = _ at rendered
    rw [Emit.forEach,bounded] at rendered
    obtain ⟨header,entered,headed,rendered⟩ := Action.outcome_bind_eq_ok rendered
    obtain ⟨code,left,bodied,finished⟩ := Action.outcome_bind_eq_ok rendered
    have moved := Emit.moves_pervade.countedLoop (Emit.keeps_render depth) counter range emitter
    rw [headed] at moved
    have emitting : Emit.Emitting emitter.symbols.functions emitter.modern emitter.folding entered :=
      ⟨⟨moved.symbols.functions, by rw [moved.program]; exact named⟩, moved.modern, moved.folding,
        moved.inlining.trans outside⟩
    have consists := (Emit.consists_render sections depth false legible entered code left emitting bodied).1
    refine ⟨header, code, ⟨depth, entered, left, headed, bodied⟩, ?_,
      ⟨consists.remainsLone, fun remains => consists.isShortIf remains.1 remains.2⟩, fun short => ?_⟩
    · cases finished
      split <;> simp [← String.toList_inj]
    · cases sheds : body.sheds emitter.modern emitter.folding with
      | true => exact .inr rfl
      | false => exact .inl (Tree.isLoneConditional_of_keeps sheds (consists.remainsLone short).1)

/-- A conditional around the call of a function without arguments. -/
def guardedCall (condition : Tree) (name : String) : Tree := .branch condition (.block [.call name [] 1]) none

/-- The test whether the counter is two. -/
def isSecond : Tree := .compare (.var "i") .eq (.number 2)

def threeTimes : Range := ⟨.number 1, .number 3, .number 1, true⟩

def threeValues : Tree := .list [.range threeTimes.start threeTimes.stop threeTimes.step true false]

/-- The code of `for i from 1 to 3 { if i == 2 { clrhome() } }`. -/
theorem short_if_in_counted_loop_alone :
    let emitter : Emitter := { symbols := {}, modern := true, folding := true, program := "P" }
    let body : Tree := .block [guardedCall isSecond "clrhome"]
    let text := "For(A,1,3)\nIf A=2\nClrHome\nEnd"
    body.isLegible emitter.symbols.functions = true ∧ body.sheds true true = false ∧
      (Action.outcome (Emit.code (.forEach (.var "i") threeValues body)) emitter).1 = .ok text ∧
      ∃ header code, LoopParts emitter (.var "i") threeTimes body header code ∧
        text = header ++ (if body.isLoneConditional then ")" else "") ++ "\n" ++ code ++ "\nEnd" ∧
        (Code.isShortIf code = true ↔ body.remainsLone true true = true ∧ (Code.lines code).length = 2) ∧
        (Code.isShortIf code = true → body.isLoneConditional = true ∨ body.sheds true true = true) := by
  intro emitter body text
  have legible : body.isLegible emitter.symbols.functions = true := by cbv
  have emitted : (Action.outcome (Emit.code (.forEach (.var "i") threeValues body)) emitter).1 = .ok text := by decide +kernel
  have sections : ∀ f ∈ emitter.symbols.functions.users, f.inline = false := fun f listed => absurd listed not_mem_nil
  exact ⟨legible, by cbv, emitted, short_if_in_counted_loop emitter (.var "i") threeValues body threeTimes text
    sections (by decide) rfl legible rfl emitted⟩

/-- In `for i from 1 to 3 { if 0 { clrdraw() } if i == 2 { clrhome() } }` the first conditional is
decided and leaves no code, and the head of the loop stays open before the second. -/
theorem short_if_after_decided_conditional :
    let emitter : Emitter := { symbols := {}, modern := true, folding := true, program := "P" }
    let body : Tree := .block [guardedCall (.number 0) "clrdraw", guardedCall isSecond "clrhome"]
    LoopParts emitter (.var "i") threeTimes body "For(A,1,3" "If A=2\nClrHome" ∧
      Code.isShortIf "If A=2\nClrHome" = true ∧
      (Action.outcome (Emit.code (.forEach (.var "i") threeValues body)) emitter).1 =
        .ok ("For(A,1,3" ++ "\n" ++ "If A=2\nClrHome" ++ "\nEnd") := by
  intro emitter body
  have headed : (Action.outcome (Emit.countedLoop (Emit.render 9) (.var "i") threeTimes) emitter).1 = .ok "For(A,1,3" := by
    decide +kernel
  refine ⟨⟨9, _, _, Action.outcome_eq_ok headed, Action.outcome_eq_ok ?_⟩, by decide +kernel, by decide +kernel⟩
  decide +kernel

end CalcBasic

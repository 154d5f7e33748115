import CalcBasic.Proofs.OutlineReading
import CalcBasic.Proofs.Remarks
import CalcBasic.Proofs.ShapeReading
import Mathlib.Algebra.BigOperators.Group.List.Basic
import Mathlib.Algebra.GroupWithZero.Nat

/-! What reading is made of. A property of actions that the basic ones have and that
putting actions together keeps is a property of every reading. Such a property may keep an
account of what is read, where every tree weighs as much as its subtrees. -/
namespace CalcBasic

/-- The remarks that are made on expressions. -/
def Remark.isOnExpression : Remark → Bool
  | .unmatched _ | .unrecognized _ | .afterLiteral _ => true
  | _ => false

/-- Trees that name nothing at their root. -/
def Tree.isBare : Tree → Bool
  | .var _ | .function .. => false
  | _ => true

namespace Read
open CalcBasic.Action

/-- A property of actions that putting them together keeps. Of the table only the functions are looked at. -/
structure Composes (holds : {α : Type} → Read α → Prop) : Prop where
  pure {α : Type} (value : α) : holds (Pure.pure value)
  fail {α : Type} (fault : Fault) (line : Nat) : holds (Read.fail fault line : Read α)
  bind {α β : Type} {first : Read α} {next : α → Read β} :
    holds first → (∀ value, holds (next value)) → holds (first >>= next)
  look {α : Type} {next : Symbols → Read α} :
    (∀ symbols other, other.functions = symbols.functions → next other = next symbols) →
      (∀ symbols, holds (next symbols)) → holds (get >>= next)
  use (name : String) : holds (modify fun symbols => symbols.reference name)
  listType (name : String) : holds (modify fun symbols => symbols.setType name .list)

/-- A property of actions that the reading of expressions inherits from its basic actions. -/
structure PervadesExpressions (holds : {α : Type} → Read α → Prop) : Prop extends Composes @holds where
  remark (note : Remark) (line : Option Nat) : note.isOnExpression = true → holds (Read.remark note line)

/-- A property of actions that all reading inherits from its basic actions. -/
structure Pervades (holds : {α : Type} → Read α → Prop) : Prop extends Composes @holds where
  remark (note : Remark) (line : Option Nat) : holds (Read.remark note line)
  declare (name : String) (inline : Bool) : holds (modify fun symbols => (symbols.declare name inline).2)
  define (name : String) (inline : Bool) (params : List String) (required : Nat) (body : Tree) :
    holds (modify fun symbols => (symbols.define name inline params required body).2)

/-- An account of what is read in expressions: what a run returns weighs as much as is
due before it and as the run adds. -/
structure AccountsExpressions (weight : Tree → Nat) (counts : {α : Type} → Nat → Read α → (α → Nat) → Prop) : Prop where
  bare {tree : Tree} : tree.isBare = true → weight tree = (tree.children.map weight).sum
  pure {α : Type} {due : Nat} {value : α} {weighs : α → Nat} : weighs value = due → counts due (Pure.pure value) weighs
  fail {α : Type} {due : Nat} {weighs : α → Nat} (fault : Fault) (line : Nat) : counts due (Read.fail fault line : Read α) weighs
  bind {α β : Type} {due : Nat} {first : Read α} {next : α → Read β} {given : α → Nat} {weighs : β → Nat} :
    counts due first given → (∀ value, counts (given value) (next value) weighs) → counts due (first >>= next) weighs
  behind {α : Type} {due earlier : Nat} {action : Read α} {weighs : α → Nat} :
    counts due action weighs → counts (earlier + due) action fun value => earlier + weighs value
  look {α : Type} {due : Nat} {next : Symbols → Read α} {weighs : α → Nat} :
    (∀ symbols other, other.functions = symbols.functions → next other = next symbols) →
      (∀ symbols, counts due (next symbols) weighs) → counts due (get >>= next) weighs
  remark {due : Nat} (note : Remark) (line : Option Nat) :
    note.isOnExpression = true → counts due (Read.remark note line) fun _ => due
  reference {due : Nat} (name : String) : counts due (Read.reference name) fun key => due + weight (.var key)
  select {due : Nat} : counts due (modify fun symbols => symbols.reference selector) fun _ => due
  listType {due : Nat} (name : String) : counts due (modify fun symbols => symbols.setType name .list) fun _ => due

/-- An account of all that is read. -/
structure Accounts (weight : Tree → Nat) (counts : {α : Type} → Nat → Read α → (α → Nat) → Prop) : Prop where
  expressions : AccountsExpressions weight @counts
  function (name : String) (params : List String) (body : Tree) (inline : Bool) :
    weight (.function name params body inline) = (params.map fun param => weight (.var param)).sum + weight body
  remark {due : Nat} (note : Remark) (line : Option Nat) : counts due (Read.remark note line) fun _ => due
  declare {due : Nat} (name : String) (inline : Bool) :
    counts due (modify fun symbols => (symbols.declare name inline).2) fun _ => due
  define {due : Nat} (name : String) (inline : Bool) (params : List String) (required : Nat) (body : Tree) :
    counts due (modify fun symbols => (symbols.define name inline params required body).2) fun _ => due

variable {weight : Tree → Nat} {counts : {α : Type} → Nat → Read α → (α → Nat) → Prop}

/-! ### Expressions -/

namespace AccountsExpressions

variable (known : AccountsExpressions weight @counts) {due : Nat}
include known

theorem tree {tree : Tree} (bare : tree.isBare = true) (same : (tree.children.map weight).sum = due) :
    counts due (Pure.pure tree) weight := known.pure ((known.bare bare).trans same)

theorem later {α : Type} {action : Read α} {weighs : α → Nat} (counted : counts 0 action weighs) :
    counts due action fun value => due + weighs value := known.behind counted

theorem mapM {α β : Type} {step : α → Read β} {weighs : β → Nat} (items : List α)
    (each : ∀ item ∈ items, counts 0 (step item) weighs) :
    counts 0 (items.mapM step) fun values => (values.map weighs).sum := by
  induction items with
  | nil => exact known.pure rfl
  | cons item rest ih =>
    rw [List.mapM_cons]
    refine known.bind (each item List.mem_cons_self) fun value => ?_
    refine known.bind (known.later (ih fun other member => each other (List.mem_cons_of_mem _ member))) fun values => ?_
    exact known.pure (by simp)

theorem checkClosed (closed : Bool) (bracket : Token) : counts due (Read.checkClosed closed bracket) fun _ => due := by
  unfold Read.checkClosed
  split
  · exact known.pure rfl
  · exact known.remark _ _ rfl

variable (markUnknown : Bool)

theorem unknown (tokens : List Token) : counts 0 (Read.unknown markUnknown tokens) weight := by
  refine known.bind (known.remark _ _ rfl) fun _ => ?_
  cases markUnknown with
  | true => exact known.tree rfl rfl
  | false => exact known.tree rfl rfl

theorem number (token : Token) : counts 0 (Read.number token) weight := by
  unfold Read.number
  split
  · exact known.tree rfl rfl
  · exact known.fail _ _

theorem word (name : Token) : counts 0 (Read.word name) weight := by
  unfold Read.word
  split
  · exact known.tree rfl rfl
  · split
    · exact known.tree rfl rfl
    · exact known.bind (known.reference name.text) fun _ => known.pure (Nat.zero_add _).symm

theorem literal (token : Token) (alone : Bool) : counts 0 (Read.literal token alone) weight := by
  have finish (tree : Tree) : counts (weight tree)
      (if alone then Pure.pure tree else Read.remark (.afterLiteral token.text) (some token.line) >>= fun _ => Pure.pure tree)
      weight := by
    split
    · exact known.pure rfl
    · exact known.bind (known.remark _ _ rfl) fun _ => known.pure rfl
  unfold Read.literal
  dsimp only
  split
  · exact known.bind (known.number token) finish
  · exact known.bind (known.tree rfl rfl) finish
  · exact known.bind (known.tree rfl rfl) finish

theorem callTree (name : Token) (arguments : List Tree) :
    counts (arguments.map weight).sum (Read.callTree name arguments) weight := by
  unfold Read.callTree
  refine known.look (fun symbols other same => by rw [same]) fun symbols => ?_
  split
  · split
    · exact known.tree rfl rfl
    · exact known.bind known.select fun _ => known.tree rfl rfl
  · exact known.tree rfl rfl

theorem weight_listItem (tree : Tree) : weight (Read.listItem tree) = weight tree := by
  unfold Read.listItem
  split
  · rw [known.bare rfl,known.bare rfl]
    rfl
  · rfl

theorem weight_operationTree (left : Tree) (op : Operator) (right : Tree) :
    weight (Read.operationTree left op right) = weight left + weight right := by
  cases op <;> (rw [Read.operationTree,known.bare rfl]; simp)

theorem weight_negated (tree : Tree) : weight tree.negated = weight tree := by
  have complement (other : Tree) : weight (Tree.callOf "not" [other] 0) = weight other := by
    rw [known.bare rfl]
    simp [Tree.callOf]
  unfold Tree.negated
  split
  · split
    · rw [known.bare rfl,known.bare rfl]
      rfl
    · exact complement _
  · exact complement _

theorem weight_number (value : Float) : weight (.number value) = 0 := known.bare rfl

theorem ofShape (tokens : List Token) (shape : Shape)
    (parts : ∀ part ∈ shape.parts, counts 0 (Read.expression markUnknown part) weight) :
    counts 0 (Read.ofShape markUnknown tokens shape) weight := by
  cases shape with
  | nothing | unknown => exact known.unknown markUnknown tokens
  | group bracket closed inside =>
    exact known.bind (known.checkClosed closed bracket) fun _ => parts inside (by simp)
  | list bracket closed items =>
    refine known.bind (known.checkClosed closed bracket) fun _ => known.bind (known.mapM items fun item member => ?_)
      fun _ => known.tree rfl rfl
    exact known.bind (parts item member) fun tree => known.pure (known.weight_listItem tree)
  | call name arguments =>
    exact known.bind (known.mapM arguments parts) fun trees => known.callTree name trees
  | unclosedCall name bracket => exact known.fail _ _
  | membership value collection =>
    exact known.bind (parts value (by simp)) fun _ =>
      known.bind (known.later (parts collection (by simp))) fun _ => known.tree rfl (by simp)
  | range start inclusive stop step =>
    cases step with
    | none =>
      exact known.bind (parts start (by simp)) fun _ =>
        known.bind (known.later (parts stop (by simp))) fun _ =>
          known.tree rfl (by simp [known.weight_number])
    | some step =>
      exact known.bind (parts start (by simp)) fun _ =>
        known.bind (known.later (parts stop (by simp))) fun _ =>
          known.bind (known.later (parts step (by simp))) fun _ =>
            known.tree rfl (by simp [Nat.add_assoc])
  | operation left op right =>
    exact known.bind (parts left (by simp)) fun _ =>
      known.bind (known.later (parts right (by simp))) fun _ => known.pure (known.weight_operationTree _ op _)
  | negative operand =>
    exact known.bind (parts operand (by simp)) fun _ =>
      known.tree rfl (by simp [known.weight_number])
  | positive operand => exact parts operand (by simp)
  | complement mark operand =>
    exact known.bind (parts operand (by simp)) fun _ => known.tree rfl (by simp [Tree.callOf])
  | word name => exact known.word name
  | element name bracket closed index =>
    exact known.bind (known.checkClosed closed bracket) fun _ =>
      known.bind (known.reference name.text) fun key =>
        known.bind (known.listType key) fun _ =>
          known.bind (known.later (parts index (by simp))) fun _ => known.tree rfl (by simp)
  | literal token alone => exact known.literal token alone

theorem expression (tokens : List Token) : counts 0 (Read.expression markUnknown tokens) weight := by
  induction size : tokens.length using Nat.strongRecOn generalizing tokens with
  | _ size ih =>
    subst size
    rw [expression_eq]
    refine known.look (fun symbols other same => by rw [same]) fun symbols => known.ofShape markUnknown _ _ fun part isPart => ?_
    exact ih part.length (part_shorter rfl isPart) part rfl

theorem call? (name : Token) (rest : List Token) :
    counts 0 (Read.call? markUnknown name rest) fun tree => (tree.toList.map weight).sum := by
  unfold Read.call?
  refine known.look (fun symbols other same => by rw [same]) fun symbols => ?_
  split
  · exact known.bind (known.mapM _ fun argument _ => known.expression markUnknown argument) fun trees =>
      known.bind (known.callTree _ trees) fun _ => known.pure (by simp)
  · exact known.fail _ _
  · exact known.pure rfl

end AccountsExpressions

/-! ### Parameters -/

/-- What parameters weigh, with the statements that set their defaults. -/
def Parameters.weigh (weight : Tree → Nat) (parameters : Parameters) : Nat :=
  (parameters.names.map fun name => weight (.var name)).sum + (parameters.guards.map weight).sum

/-- What is read weighs as much as the account says. -/
def counted (markUnknown : Bool) (weight : Tree → Nat) (counts : {α : Type} → Nat → Read α → (α → Nat) → Prop) : Invariant where
  statements tokens := counts 0 (Read.statements markUnknown tokens) fun trees => (trees.map weight).sum
  statement tokens := counts 0 (Read.statement markUnknown tokens) fun tree => (tree.toList.map weight).sum
  block tokens := counts 0 (Read.block markUnknown tokens) fun trees => (trees.map weight).sum
  braced bracket inside := counts 0 (Read.braced markUnknown bracket inside) fun trees => (trees.map weight).sum
  body code := counts 0 (Read.body markUnknown code) weight
  conditional head tail := counts 0 (Read.conditional markUnknown head tail) weight

namespace Accounts

variable (known : Accounts weight @counts) {due : Nat} (markUnknown : Bool)
include known

theorem foldlM {α β : Type} {step : β → α → Read β} {weighs : β → Nat} (items : List α) (start : β)
    (each : ∀ value item, counts (weighs value) (step value item) weighs) :
    counts (weighs start) (items.foldlM step start) weighs := by
  induction items generalizing start with
  | nil => exact known.expressions.pure rfl
  | cons item rest ih =>
    rw [List.foldlM_cons]
    exact known.expressions.bind (each start item) ih

theorem remarks (notes : List Diagnostic) : counts due
    (forIn notes () fun diagnostic _ => do Read.remark diagnostic.remark diagnostic.line; return .yield ()) fun _ => due := by
  induction notes with
  | nil => exact known.expressions.pure rfl
  | cons note rest ih =>
    rw [List.forIn_cons,bind_assoc]
    simp only [pure_bind]
    exact known.expressions.bind (known.remark _ _) fun _ => ih

theorem checkBody (code : Body) : counts due (Read.checkBody code) fun _ => due := by
  unfold Read.checkBody
  split
  · exact known.remark _ _
  · exact known.expressions.pure rfl

theorem defaultGuard (name : String) (value : Tree) (line : Nat) :
    counts (weight value) (Read.defaultGuard name value line) weight := by
  have weigh := @known.expressions.bare
  refine known.expressions.bind (known.expressions.reference name) fun test =>
    known.expressions.bind (known.expressions.reference name) fun target => known.expressions.tree rfl ?_
  have condition : weight (Tree.callOf "not" [.var test] line) = weight (.var test) := by
    rw [weigh rfl]
    simp [Tree.callOf]
  have body : weight (Tree.block [.assign (.var target) .set value line]) = weight (.var target) + weight value := by
    rw [weigh rfl,Tree.children,List.map_singleton,List.sum_singleton,weigh rfl]
    simp
  simp only [Tree.children,List.map_cons,List.map_nil,List.sum_cons,List.sum_nil,condition,body]
  omega

theorem parameter (name : Token) (before : Parameters) (group : List Token) :
    counts (before.weigh weight) (Read.parameter markUnknown name before group) (Parameters.weigh weight) := by
  have expressions := known.expressions
  unfold Read.parameter
  split
  · exact expressions.bind (known.remark _ _) fun _ => expressions.pure rfl
  · rename_i param rest
    split
    · refine expressions.bind (expressions.reference param.text) fun key => ?_
      have named (guards : List Tree) (required : Nat) :
          Parameters.weigh weight ⟨before.names ++ [key], before.guards ++ guards, required⟩ =
            before.weigh weight + weight (.var key) + (guards.map weight).sum := by
        simp only [Parameters.weigh,List.map_append,List.sum_append,List.map_singleton,List.sum_singleton]
        omega
      have bare (required : Nat) : Parameters.weigh weight ⟨before.names ++ [key], before.guards, required⟩ =
          before.weigh weight + weight (.var key) := by simpa using named [] required
      dsimp only
      split
      · exact expressions.pure (bare _)
      · rename_i mark value
        split
        · exact expressions.bind (expressions.later (expressions.expression markUnknown value)) fun tree =>
            expressions.bind (expressions.behind (known.defaultGuard param.text tree mark.line)) fun guard =>
              expressions.pure (by simpa using named [guard] _)
        · split
          · exact expressions.fail _ _
          · exact expressions.bind (known.remark _ _) fun _ => expressions.pure (bare _)
    · exact expressions.bind (known.remark _ _) fun _ => expressions.pure rfl

theorem parameters (name : Token) (header : List Token) :
    counts 0 (Read.parameters markUnknown name header) (Parameters.weigh weight) := by
  unfold Read.parameters
  exact known.expressions.bind (known.remarks (ParameterList.of name header).remarks) fun _ =>
    known.foldlM (ParameterList.of name header).groups ({} : Parameters) (known.parameter markUnknown name)

/-! ### Statements -/

theorem weight_block (trees : List Tree) : weight (.block trees) = (trees.map weight).sum := known.expressions.bare rfl

theorem functionTree (name : Token) (inline : Bool) (parameters : Parameters) (statements : List Tree) :
    counts (parameters.weigh weight + (statements.map weight).sum)
      (Read.functionTree name inline parameters statements) weight := by
  have tree : weight (.function name.text.toLower parameters.names (.block (parameters.guards ++ statements)) inline) =
      parameters.weigh weight + (statements.map weight).sum := by
    rw [known.function,known.weight_block,List.map_append,List.sum_append,Parameters.weigh]
    omega
  unfold Read.functionTree
  dsimp only
  split
  · exact known.expressions.bind (known.define _ _ _ _ _) fun _ => known.expressions.pure tree
  · exact known.expressions.bind known.expressions.select fun _ =>
      known.expressions.bind (known.define _ _ _ _ _) fun _ => known.expressions.pure tree

theorem assignment (cut : Cut) : counts 0 (Read.assignment markUnknown cut) weight :=
  known.expressions.bind (known.expressions.expression markUnknown cut.before) fun _ =>
    known.expressions.bind (known.expressions.later (known.expressions.expression markUnknown cut.after)) fun _ =>
      known.expressions.tree rfl (by simp)

theorem loopHeader (head : Token) (condition : List Token) : counts 0 (Read.loopHeader markUnknown head condition)
    fun header => weight header.1 + weight header.2 := by
  unfold Read.loopHeader
  refine known.expressions.bind (known.expressions.expression markUnknown _) fun tree => ?_
  split
  · rename_i value collection
    have parts := known.expressions.bare (show (Tree.membership value collection).isBare = true from rfl)
    exact known.expressions.pure (by simpa [Tree.children] using parts.symm)
  · exact known.expressions.fail _ _

theorem optional {action : Read Tree} (tallied : counts 0 action weight) :
    counts 0 (do return some (← action)) fun tree => (tree.toList.map weight).sum :=
  known.expressions.bind tallied fun _ => known.expressions.pure (by simp)

theorem ofOutline (outline : Outline) (within : (counted markUnknown weight @counts).Within outline) :
    counts 0 (Read.ofOutline markUnknown outline) fun tree => (tree.toList.map weight).sum := by
  have expressions := known.expressions
  have marker : weight (.native Tree.returnMarker) = 0 := expressions.bare rfl
  cases outline with
  | empty => exact expressions.pure rfl
  | label name rest => exact expressions.bind (known.remark _ _) fun _ => within
  | braces bracket inside => exact expressions.bind within fun _ => expressions.pure (by simp [known.weight_block])
  | conditional head tail => exact known.optional within
  | forEach head tail =>
    refine expressions.bind (known.loopHeader markUnknown head _) fun header =>
      expressions.bind (expressions.later within) fun code => expressions.pure ?_
    rw [Option.toList_some,List.map_singleton,List.sum_singleton,expressions.bare rfl]
    simp [Nat.add_assoc]
  | loop head tail =>
    refine expressions.bind (expressions.expression markUnknown _) fun condition =>
      expressions.bind (expressions.later within) fun code => expressions.pure ?_
    rw [Option.toList_some,List.map_singleton,List.sum_singleton,expressions.bare rfl]
    simp
  | function name rest inline =>
    exact expressions.bind (known.parameters markUnknown name _) fun parameters =>
      expressions.bind (known.checkBody _) fun _ => expressions.bind (expressions.later within) fun trees =>
        expressions.bind (known.functionTree name inline parameters trees) fun _ => expressions.pure (by simp)
  | nameless head => exact expressions.fail _ _
  | strayInline word next => exact expressions.fail _ _
  | giveBack value =>
    rw [Read.ofOutline]
    split
    · exact expressions.pure (by simp [known.weight_block,marker])
    · exact expressions.bind (expressions.expression markUnknown value) fun _ =>
        expressions.pure (by simp [known.weight_block,marker])
  | leave word rest =>
    refine expressions.bind (expressions.call? markUnknown word rest) fun tree => ?_
    split
    · exact expressions.pure rfl
    · exact known.optional (expressions.unknown markUnknown _)
  | constant rest => exact within
  | danglingElse word => exact expressions.bind (known.remark _ _) fun _ => expressions.pure rfl
  | unsupported word => exact expressions.bind (known.remark _ _) fun _ => expressions.pure rfl
  | assign cut => exact known.optional (known.assignment markUnknown cut)
  | expression line => exact known.optional (expressions.expression markUnknown line)

theorem ofOtherwise (otherwise : Otherwise) (behind : (counted markUnknown weight @counts).Behind otherwise) :
    counts 0 (Read.ofOtherwise markUnknown otherwise) fun tree => (tree.toList.map weight).sum := by
  cases otherwise with
  | absent => exact known.expressions.pure rfl
  | chain head tail =>
    exact known.expressions.bind behind fun _ => known.expressions.pure (by simp [known.weight_block])
  | body branch => exact known.optional behind

theorem readings : (counted markUnknown weight @counts).Everywhere := by
  have expressions := known.expressions
  apply Invariant.Inherited.everywhere
  constructor <;> dsimp only [counted]
  case nil =>
    rw [Read.statements]
    exact expressions.pure rfl
  case gap =>
    intro first rest isTerminator others
    rw [Read.statements,if_pos isTerminator]
    exact others
  case cons =>
    intro first rest solid one others
    rw [Read.statements,if_neg (by simp [solid])]
    exact expressions.bind one fun _ => expressions.bind (expressions.later others) fun _ => expressions.pure (by simp)
  case statement =>
    intro tokens within
    rw [statement_eq]
    exact known.ofOutline markUnknown _ within
  case empty =>
    rw [Read.block]
    exact expressions.pure rfl
  case opened =>
    intro first rest opens inside
    rw [Read.block,if_pos opens]
    exact inside
  case plain =>
    intro first rest opens inside
    rw [Read.block,if_neg opens]
    exact inside
  case unclosed =>
    intro bracket inside missing statements
    rw [braced_eq,missing]
    exact statements
  case closed =>
    intro bracket inside cut closed before after
    rw [braced_eq,closed]
    dsimp only
    split
    · exact before
    · exact expressions.bind before fun _ => expressions.bind (expressions.later after) fun _ =>
        expressions.pure (by simp [known.weight_block])
  case body =>
    intro code inside
    rw [Read.body]
    exact expressions.bind (known.checkBody _) fun _ => expressions.bind inside fun _ => expressions.pure (known.weight_block _)
  case conditional =>
    intro head tail inside behind
    rw [conditional_eq]
    refine expressions.bind (expressions.expression markUnknown _) fun condition => expressions.bind (known.checkBody _)
      fun _ => expressions.bind (expressions.later inside) fun trees =>
        expressions.bind (expressions.later (known.ofOtherwise markUnknown _ behind)) fun other => expressions.tree rfl ?_
    have test : weight (if head.isKeyword "unless" then condition.negated else condition) = weight condition := by
      split
      · exact expressions.weight_negated condition
      · rfl
    cases other with
    | none => simp [test,known.weight_block]
    | some other => simp [test,known.weight_block,Nat.add_assoc]

/-! ### Programs -/

theorem declareFunctions (previous : Option Token) (tokens : List Token) :
    counts due (Read.declareFunctions previous tokens) fun _ => due := by
  induction tokens generalizing previous with
  | nil => exact known.expressions.pure rfl
  | cons token rest ih =>
    unfold Read.declareFunctions
    dsimp only
    split
    · split
      · split
        · exact known.expressions.bind (known.declare _ _) fun _ => ih (some token)
        · exact ih _
      · exact ih _
    · exact ih _

theorem program (tokens : List Token) : counts 0 (Read.program markUnknown tokens) weight :=
  known.expressions.bind (known.declareFunctions none _) fun _ =>
    known.expressions.bind ((known.readings markUnknown).block _) fun _ => known.expressions.tree rfl rfl

end Accounts

/-! ### Properties without an account -/

section Pervades

variable {holds : {α : Type} → Read α → Prop}

namespace PervadesExpressions

variable (known : PervadesExpressions @holds) (markUnknown : Bool)
include known

theorem reference (name : String) : holds (Read.reference name) :=
  known.bind (known.use name) fun _ => known.pure _

theorem accounts : AccountsExpressions (fun _ => 0) fun _ action _ => holds action where
  bare _ := by simp
  pure _ := known.pure _
  fail := known.fail
  bind := known.bind
  behind := id
  look := known.look
  remark := known.remark
  reference := known.reference
  select := known.use selector
  listType := known.listType

theorem unknown (tokens : List Token) : holds (Read.unknown markUnknown tokens) := known.accounts.unknown markUnknown tokens

theorem expression (tokens : List Token) : holds (Read.expression markUnknown tokens) :=
  known.accounts.expression markUnknown tokens

theorem call? (name : Token) (rest : List Token) : holds (Read.call? markUnknown name rest) :=
  known.accounts.call? markUnknown name rest

end PervadesExpressions

namespace Pervades

variable (known : Pervades @holds) (markUnknown : Bool)
include known

theorem expressions : PervadesExpressions @holds := { known with remark note line _ := known.remark note line }

theorem accounts : Accounts (fun _ => 0) fun _ action _ => holds action where
  expressions := known.expressions.accounts
  function _ _ _ _ := by simp
  remark := known.remark
  declare := known.declare
  define := known.define

theorem statements (tokens : List Token) : holds (Read.statements markUnknown tokens) :=
  (known.accounts.readings markUnknown).statements tokens

theorem block (tokens : List Token) : holds (Read.block markUnknown tokens) :=
  (known.accounts.readings markUnknown).block tokens

theorem program (tokens : List Token) : holds (Read.program markUnknown tokens) := known.accounts.program markUnknown tokens

end Pervades
end Pervades
end Read
end CalcBasic

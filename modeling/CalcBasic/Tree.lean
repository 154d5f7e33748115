import CalcBasic.Tree.Operator

/-! Syntax trees: expressions and statements alike, since every tree is rendered
to text and a block is a tree among others. -/
namespace CalcBasic

/-- Shape of a value, as far as the choice of code depends on it. -/
inductive ValueType where
  | number | text | boolean | list
  deriving DecidableEq, Repr

inductive Tree where
  | number (value : Float)
  | boolean (value : Bool)
  | text (value : String)
  | list (items : List Tree)
  /-- Named variable; its type decides where it lives. -/
  | var (name : String)
  | listVar (name : String)
  | textVar (name : String)
  /-- Values joined by commas, the inside of a list literal. -/
  | commas (items : List Tree)
  /-- `standalone` ranges are rendered as a list of their own. -/
  | range (start stop step : Tree) (inclusive standalone : Bool)
  | assign (target : Tree) (store : Store) (value : Tree) (line : Nat)
  | element (base index : Tree)
  | block (statements : List Tree)
  | arith (left : Tree) (op : Arith) (right : Tree)
  | compare (left : Tree) (op : Comparison) (right : Tree)
  | call (name : String) (arguments : List Tree) (line : Nat)
  | membership (value collection : Tree)
  | branch (condition body : Tree) (otherwise : Option Tree)
  | forEach (counter collection body : Tree)
  /-- Runs while the condition holds, or until it does. -/
  | loop (condition body : Tree) (untilTrue : Bool)
  | function (name : String) (params : List String) (body : Tree) (inline : Bool)
  /-- Calculator code passed through untouched. -/
  | native (code : String)
  /-- Statements on one line. -/
  | line (statements : List Tree)
  deriving Repr

instance : Inhabited Tree := ⟨.native ""⟩

inductive Kind where
  | value | var | listVar | textVar | commas | range | assign | element | block
  | arith | compare | call | membership | branch | forEach | loop | function | native | line
  deriving DecidableEq, Repr

def Kind.all : List Kind :=
  [.value, .var, .listVar, .textVar, .commas, .range, .assign, .element, .block,
    .arith, .compare, .call, .membership, .branch, .forEach, .loop, .function, .native, .line]

/-- A range of numbers, as written in source. -/
structure Range where
  start : Tree
  stop : Tree
  step : Tree
  inclusive : Bool

namespace Tree

/-- Ends the body of a function; dropped where the function is expanded in place. -/
def returnMarker : String := "Return"

/-- A call by name, without regard to ASCII case. -/
def callOf (name : String) (arguments : List Tree) (line : Nat) : Tree :=
  .call name.toLower arguments line

@[simp] def kind : Tree → Kind
  | .number _ | .boolean _ | .text _ | .list _ => .value
  | .var _ => .var
  | .listVar _ => .listVar
  | .textVar _ => .textVar
  | .commas _ => .commas
  | .range .. => .range
  | .assign .. => .assign
  | .element .. => .element
  | .block _ => .block
  | .arith .. => .arith
  | .compare .. => .compare
  | .call .. => .call
  | .membership .. => .membership
  | .branch .. => .branch
  | .forEach .. => .forEach
  | .loop .. => .loop
  | .function .. => .function
  | .native _ => .native
  | .line _ => .line

/-- Direct subtrees, in source order. -/
@[simp] def children : Tree → List Tree
  | .number _ | .boolean _ | .text _ | .var _ | .listVar _ | .textVar _
  | .native _ => []
  | .list items | .commas items => items
  | .block statements | .line statements => statements
  | .range start stop step _ _ => [start, stop, step]
  | .assign target _ value _ => [target, value]
  | .element base index => [base, index]
  | .arith left _ right => [left, right]
  | .compare left _ right => [left, right]
  | .call _ arguments _ => arguments
  | .membership value collection => [value, collection]
  | .branch condition body none => [condition, body]
  | .branch condition body (some other) => [condition, body, other]
  | .forEach counter collection body => [counter, collection, body]
  | .loop condition body _ => [condition, body]
  | .function _ _ body _ => [body]

theorem sizeOf_lt_of_mem_children {tree child : Tree} (isChild : child ∈ tree.children) :
    sizeOf child < sizeOf tree := by
  cases tree with
  | number | boolean | text | var | listVar | textVar | native =>
    simp only [children, List.not_mem_nil] at isChild
  | list items | commas items | block items | line items =>
    have smaller : sizeOf child < sizeOf items := List.sizeOf_lt_of_mem isChild
    simp only [list.sizeOf_spec, commas.sizeOf_spec, block.sizeOf_spec, line.sizeOf_spec]
    omega
  | call name arguments line =>
    have smaller : sizeOf child < sizeOf arguments := List.sizeOf_lt_of_mem isChild
    simp only [call.sizeOf_spec]
    omega
  | branch condition body otherwise =>
    cases otherwise with
    | none =>
      simp only [children, List.mem_cons, List.not_mem_nil, or_false] at isChild
      rcases isChild with rfl | rfl <;> simp only [branch.sizeOf_spec] <;> omega
    | some other =>
      simp only [children, List.mem_cons, List.not_mem_nil, or_false] at isChild
      rcases isChild with rfl | rfl | rfl <;>
        simp only [branch.sizeOf_spec, Option.some.sizeOf_spec] <;> omega
  | range start stop step inclusive standalone =>
    simp only [children, List.mem_cons, List.not_mem_nil, or_false] at isChild
    rcases isChild with rfl | rfl | rfl <;> simp only [range.sizeOf_spec] <;> omega
  | forEach counter collection body =>
    simp only [children, List.mem_cons, List.not_mem_nil, or_false] at isChild
    rcases isChild with rfl | rfl | rfl <;> simp only [forEach.sizeOf_spec] <;> omega
  | assign | element | arith | compare | membership | loop =>
    simp only [children, List.mem_cons, List.not_mem_nil, or_false] at isChild
    rcases isChild with rfl | rfl <;> simp only [assign.sizeOf_spec, element.sizeOf_spec,
      arith.sizeOf_spec, compare.sizeOf_spec, membership.sizeOf_spec, loop.sizeOf_spec] <;> omega
  | function name params body inline =>
    simp only [children, List.mem_singleton] at isChild
    subst isChild
    simp only [function.sizeOf_spec]
    omega

/-- All subtrees below the root. -/
def descendants (tree : Tree) : List Tree :=
  tree.children.attach.flatMap fun ⟨child, _⟩ => child :: descendants child
termination_by sizeOf tree
decreasing_by exact sizeOf_lt_of_mem_children ‹_›

/-- Every leaf is a literal. -/
def isSimple : Tree → Bool
  | .number _ | .boolean _ | .text _ | .list _ => true
  | .arith left _ right => left.isSimple && right.isSimple
  | .compare left _ right => left.isSimple && right.isSimple
  | .range start stop step _ _ => start.isSimple && stop.isSimple && step.isSimple
  | _ => false

/-- Number of statements of a tree used as a body. -/
def statementCount : Tree → Nat
  | .block statements => statements.length
  | _ => 1

/-- Complement of a condition. -/
def negated : Tree → Tree
  | .compare left op right =>
    match op.complement? with
    | some complement => .compare left complement right
    | none => callOf "not" [.compare left op right] 0
  | other => callOf "not" [other] 0

/-- The range that a tree stands for: a bare one, or a list of just one. -/
def range? : Tree → Option Range
  | .range start stop step inclusive _ => some ⟨start, stop, step, inclusive⟩
  | .list [.range start stop step inclusive _] => some ⟨start, stop, step, inclusive⟩
  | _ => none

end Tree

def Range.hasSimpleBounds (range : Range) : Bool :=
  range.start.isSimple && range.stop.isSimple && range.step.isSimple

end CalcBasic

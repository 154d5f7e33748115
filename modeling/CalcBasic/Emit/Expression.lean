import CalcBasic.Emit.Emitter

/-! Code of expressions. -/
namespace CalcBasic

namespace Constant

/-- The literal of a scalar constant in calculator code. -/
def code? : Constant → Option String
  | .number value => some (Number.code value)
  | .boolean value => some (if value then "1" else "0")
  | .text _ | .list _ => none

end Constant

namespace Tree

def isOperation : Tree → Bool
  | .arith .. | .compare .. => true
  | _ => false

def isLiteral (tree : Tree) : Bool := tree.kind = .value

/-- How tightly the code of a tree binds. Without a function for remainders they
are written as a sum. -/
def strength (modern : Bool) : Tree → Nat
  | .arith _ .mod _ => if modern then atomStrength else Arith.add.strength
  | .arith _ op _ => op.strength
  | .compare _ op _ => op.strength
  | _ => atomStrength

/-- Whether the operand of an operator stands in parentheses. -/
def isWrapped (modern : Bool) (outer : Operator) (right : Bool) (operand : Tree) : Bool :=
  let inner := operand.strength modern
  let looser := fun regroups =>
    inner < outer.strength || (inner = outer.strength && right && !regroups)
  match operand with
  | .number value => value < 0 && (right || outer = .arith .pow)
  | .arith _ op _ => looser (outer = .arith op && op.isAssociative)
  | .compare .. => looser false
  | _ => false

end Tree

namespace Emit

variable (render : Renderer)

/-! ### Folding -/

/-- Replaces a constant operation by its value, unless the value is longer. Of
nested operations without a value only the innermost is remarked on. -/
def settle (tree : Tree) : Emit Tree := do
  if (← get).folding && tree.isOperation && tree.isSimple then
    match tree.evaluate with
    | .ok (some value) =>
      let code ← unfolded (render true tree)
      return if value.code?.any (·.length ≤ code.length) then value.tree else tree
    | .ok none => return tree
    | .error reason =>
      if tree.children.all fun child => child.evaluate.isOk then
        remark (.unfolded (← unfolded (render true tree)) reason)
      return tree
  else return tree

/-! ### Operations -/

def operand (outer : Operator) (right : Bool) (tree : Tree) : Emit String := do
  let tree ← settle render tree
  let code ← render true tree
  return if tree.isWrapped (← get).modern outer right then "(" ++ code ++ ")" else code

def isLetter (tree : Tree) (code : String) : Bool := tree.kind = .var && code.length = 1

/-- A letter needs no sign before or after another factor, and a literal comes
before it. -/
def product (left right : Tree) (a b : String) : String :=
  if isLetter left a || isLetter right b then
    if right.isLiteral then b ++ a else a ++ b
  else a ++ "*" ++ b

/-- A remainder without a function for it. -/
def remainder (a b : String) : String :=
  b ++ "*(" ++ a ++ "<0)+iPart(" ++ b ++ "*fPart(" ++ a ++ "/" ++ b ++ "))"

def arithmetic (left : Tree) (op : Arith) (right : Tree) : Emit String := do
  if op = .mod && (← get).modern then
    let a ← render false left
    let b ← render false right
    return "remainder(" ++ a ++ "," ++ b ++ ")"
  else
    let outer := .arith (if op = .mod then .div else op)
    let a ← operand render outer false left
    let b ← operand render outer true right
    return match op with
      | .mod => remainder a b
      | .mul => product left right a b
      | _ => a ++ op.symbol ++ b

def comparison (left : Tree) (op : Comparison) (right : Tree) : Emit String := do
  let a ← operand render (.compare op) false left
  let b ← operand render (.compare op) true right
  return a ++ op.sign ++ b

/-! ### Lists -/

def braced (code : String) : String := "\x7b" ++ code ++ "\x7d"

def renderAll (trees : List Tree) : Emit (List String) := trees.mapM (render false)

/-- The values of a range, separated by commas. -/
def rangeValues (range : Range) : Emit String :=
  match range.values with
  | .ok (some values) => return ",".intercalate (values.map Number.code)
  | .ok none => fail .rangeInExpression none
  | .error reason => fail (.rangeNotLiteral reason) none

def listItem (item : Tree) : Emit String := do
  match item with
  | .range start stop step inclusive _ =>
    match (Range.mk start stop step inclusive).values with
    | .ok (some _) => render false item
    | _ => fail .openRangeInList none
  | _ => render false item

def listLiteral (items : List Tree) : Emit String := do
  match items with
  | [.range start stop step inclusive _] =>
    return braced (← rangeValues ⟨start, stop, step, inclusive⟩)
  | _ => return braced (",".intercalate (← items.mapM (listItem render)))

end Emit
end CalcBasic

import CalcBasic.Number.Remainder
import CalcBasic.Tree

/-! Constant trees and their values. A tree may be constant, not constant, or
constant with a value that calculator code cannot hold. -/
namespace CalcBasic

inductive Constant where
  | number (value : Float)
  | boolean (value : Bool)
  | text (value : String)
  | list (items : List Tree)

/-- Why a constant has no literal. -/
inductive FoldFailure where
  | notFinite (op : Arith)
  | idleStep
  | tooManyValues
  deriving DecidableEq, Repr

/-- A list literal has at most this many values taken from a range. -/
def maxListLength : Nat := 999

def FoldFailure.message : FoldFailure → String
  | .notFinite op => "`" ++ op.symbol ++ "` does not produce a finite number"
  | .idleStep => "range step must be a non-zero number"
  | .tooManyValues => "range has more than " ++ toString maxListLength ++ " values"

namespace Constant

def tree : Constant → Tree
  | .number value => .number value
  | .boolean value => .boolean value
  | .text value => .text value
  | .list items => .list items

/-- The number a constant counts as in arithmetic. -/
def number? : Constant → Option Float
  | .number value => some value
  | .boolean value => some (if value then 1 else 0)
  | .text _ | .list _ => none

end Constant

def Arith.apply (op : Arith) (a b : Float) : Float :=
  match op with
  | .add => a + b
  | .sub => a - b
  | .mul => a * b
  | .div => a / b
  | .pow => Float.pow a b
  | .mod => Number.remainder a b

namespace Comparison

def holds (op : Comparison) (a b : Float) : Bool :=
  match op with
  | .eq => a == b
  | .ne => a != b
  | .lt => a < b
  | .gt => b < a
  | .le => a ≤ b
  | .ge => b ≤ a
  | .and => a != 0 && b != 0
  | .or => a != 0 || b != 0

/-- Texts compare by code points; an empty text counts as false. -/
def holdsText (op : Comparison) (a b : String) : Bool :=
  match op with
  | .eq => a == b
  | .ne => a != b
  | .lt => a < b
  | .gt => b < a
  | .le => !decide (b < a)
  | .ge => !decide (a < b)
  | .and => !a.isEmpty && !b.isEmpty
  | .or => !a.isEmpty || !b.isEmpty

def evaluate? (op : Comparison) (a b : Constant) : Option Bool :=
  match a.number?, b.number?, a, b with
  | some x, some y, _, _ => some (op.holds x y)
  | _, _, .text x, .text y => some (op.holdsText x y)
  | _, _, _, _ => none

end Comparison

/-- The value of an operation on constants. The two renderings of `%` differ on
negative operands, so those are left to the calculator. -/
def Arith.evaluate (op : Arith) (a b : Constant) : Except FoldFailure (Option Constant) :=
  match a.number?, b.number? with
  | some x, some y =>
    if op = .mod && (x < 0 || y < 0) then .ok none
    else
      let value := op.apply x y
      if value.isFinite then .ok (some (.number value)) else .error (.notFinite op)
  | _, _ => .ok none

/-- The value of a constant tree, `none` for any other tree. -/
def Tree.evaluate : Tree → Except FoldFailure (Option Constant)
  | .number value => .ok (some (.number value))
  | .boolean value => .ok (some (.boolean value))
  | .text value => .ok (some (.text value))
  | .list items => .ok (some (.list items))
  | .arith left op right => do
    match ← left.evaluate, ← right.evaluate with
    | some a, some b => op.evaluate a b
    | _, _ => return none
  | .compare left op right => do
    match ← left.evaluate, ← right.evaluate with
    | some a, some b => return (op.evaluate? a b).map .boolean
    | _, _ => return none
  | _ => .ok none

/-- The value of a tree that is constant and counts as a number. -/
def Tree.constantNumber (tree : Tree) : Except FoldFailure (Option Float) :=
  tree.evaluate.map (·.bind Constant.number?)

/-! ### Values of ranges -/

/-- Whether a value is still within the end of a range. -/
def withinEnd (ascending inclusive : Bool) (stop value : Float) : Bool :=
  match ascending, inclusive with
  | true, true => value ≤ stop
  | true, false => value < stop
  | false, true => stop ≤ value
  | false, false => stop < value

/-- The values `start + k · step`, for `k` growing by ones, up to the first that
is not inside; `none` if there are more than `room`. -/
def progression (inside : Float → Bool) (start step : Float) : Nat → Float → Option (List Float)
  | 0, k => if inside (start + k * step) then none else some []
  | room + 1, k =>
    let value := start + k * step
    if inside value then (progression inside start step room (k + 1)).map (value :: ·) else some []

namespace Range

/-- All values of a range with constant bounds, `none` for any other range. -/
def values (range : Range) : Except FoldFailure (Option (List Float)) := do
  match ← range.start.constantNumber, ← range.stop.constantNumber, ← range.step.constantNumber with
  | some start, some stop, some step =>
    if step == 0 || !step.isFinite then .error .idleStep
    else
      match progression (withinEnd (0 < step) range.inclusive stop) start step maxListLength 0 with
      | some values => .ok (some values)
      | none => .error .tooManyValues
  | _, _, _ => .ok none

end Range
end CalcBasic

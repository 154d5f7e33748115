/-! The operators of the language, their spelling in source and in calculator
code, and how tightly they bind. -/
namespace CalcBasic

inductive Arith where
  | add | sub | mul | div | mod | pow
  deriving DecidableEq, Repr

inductive Comparison where
  | eq | ne | lt | gt | le | ge | and | or
  deriving DecidableEq, Repr

/-- How an assignment combines the old value with the new one. -/
inductive Store where
  | set
  | update (op : Arith)
  deriving DecidableEq, Repr

inductive Operator where
  | arith (op : Arith)
  | compare (op : Comparison)
  deriving DecidableEq, Repr

/-- Binding strength of what needs no parentheses. -/
def atomStrength : Nat := 6

namespace Arith

def all : List Arith := [.add, .sub, .mul, .div, .mod, .pow]

def symbol : Arith → String
  | .add => "+"
  | .sub => "-"
  | .mul => "*"
  | .div => "/"
  | .mod => "%"
  | .pow => "^"

def ofSymbol? (symbol : String) : Option Arith := all.find? (·.symbol == symbol)

def strength : Arith → Nat
  | .add | .sub => 3
  | .mul | .div | .mod => 4
  | .pow => 5

/-- `a op (b op c)` is `(a op b) op c`. -/
def isAssociative : Arith → Bool
  | .add | .mul => true
  | _ => false

end Arith

namespace Comparison

def all : List Comparison := [.eq, .ne, .lt, .gt, .le, .ge, .and, .or]

def symbol : Comparison → String
  | .eq => "=="
  | .ne => "!="
  | .lt => "<"
  | .gt => ">"
  | .le => "<="
  | .ge => ">="
  | .and => "&&"
  | .or => "||"

def ofSymbol? (symbol : String) : Option Comparison := all.find? (·.symbol == symbol)

/-- Spelling in calculator code. -/
def sign : Comparison → String
  | .eq => "="
  | .ne => "≠"
  | .lt => "<"
  | .gt => ">"
  | .le => "≤"
  | .ge => "≥"
  | .and => " and "
  | .or => " or "

/-- The complement, where one operator expresses it. -/
def complement? : Comparison → Option Comparison
  | .eq => some .ne
  | .ne => some .eq
  | .lt => some .ge
  | .ge => some .lt
  | .gt => some .le
  | .le => some .gt
  | .and | .or => none

def strength : Comparison → Nat
  | .or => 0
  | .and => 1
  | _ => 2

end Comparison

namespace Store

def symbol : Store → String
  | .set => "="
  | .update op => op.symbol ++ "="

def all : List Store := .set :: Arith.all.map .update

def ofSymbol? (symbol : String) : Option Store := all.find? (·.symbol == symbol)

end Store

namespace Operator

def ofSymbol? (symbol : String) : Option Operator :=
  (Comparison.ofSymbol? symbol).map .compare <|> (Arith.ofSymbol? symbol).map .arith

def strength : Operator → Nat
  | .arith op => op.strength
  | .compare op => op.strength

end Operator
end CalcBasic

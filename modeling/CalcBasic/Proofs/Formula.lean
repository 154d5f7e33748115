import CalcBasic.Symbols
import Mathlib.Data.Rat.Defs
import Mathlib.Algebra.Order.Ring.Unbundled.Rat

/-! Formulas as the calculator reads them. A text is cut into glyphs; between
brackets and commas the glyphs are a chain of operands and signs; a chain is joined
tier by tier, the tightest signs first and equal ones from the left. -/
namespace CalcBasic

inductive Sign where
  | power | times | slash | plus | minus
  | equal | unequal | less | greater | atMost | atLeast
  | and | or
  deriving DecidableEq, Repr

/-- Lower tiers bind tighter. -/
def Sign.tier : Sign → Nat
  | .power => 0
  | .times | .slash => 1
  | .plus | .minus => 2
  | .equal | .unequal | .less | .greater | .atMost | .atLeast => 3
  | .and => 4
  | .or => 5

/-- There are this many tiers. -/
def tiers : Nat := 6

inductive Formula where
  | numeral (written : String)
  | letter (name : Char)
  /-- A place in the overflow list. -/
  | cell (index : Nat)
  | binary (sign : Sign) (left right : Formula)
  | remainder (left right : Formula)
  | wholePart (inner : Formula)
  | fractionPart (inner : Formula)
  deriving DecidableEq, Repr

namespace Formula

/-! ### Glyphs -/

/-- What a closing bracket can belong to. -/
inductive Opening where
  | group | remainder | wholePart | fractionPart | cell
  deriving DecidableEq, Repr

inductive Glyph where
  | numeral (digits : List Char)
  | letter (name : Char)
  | sign (sign : Sign)
  | opening (form : Opening)
  | comma
  | close
  deriving DecidableEq, Repr

def isNumeric (c : Char) : Bool := c.isDigit || c == '.'

/-- Puts a digit or point before the glyphs that follow it. -/
def Glyph.joinNumeral (c : Char) : List Glyph → List Glyph
  | .numeral digits :: rest => .numeral (c :: digits) :: rest
  | rest => .numeral [c] :: rest

/-- The glyphs of a text; none if a character belongs to no glyph. -/
def scan : List Char → Option (List Glyph)
  | [] => some []
  | 'r' :: 'e' :: 'm' :: 'a' :: 'i' :: 'n' :: 'd' :: 'e' :: 'r' :: '(' :: rest =>
    (scan rest).map (.opening .remainder :: ·)
  | 'i' :: 'P' :: 'a' :: 'r' :: 't' :: '(' :: rest => (scan rest).map (.opening .wholePart :: ·)
  | 'f' :: 'P' :: 'a' :: 'r' :: 't' :: '(' :: rest => (scan rest).map (.opening .fractionPart :: ·)
  | '∟' :: 'A' :: 'R' :: 'R' :: '0' :: '(' :: rest => (scan rest).map (.opening .cell :: ·)
  | '(' :: rest => (scan rest).map (.opening .group :: ·)
  | ')' :: rest => (scan rest).map (.close :: ·)
  | ',' :: rest => (scan rest).map (.comma :: ·)
  | '^' :: rest => (scan rest).map (.sign .power :: ·)
  | '*' :: rest => (scan rest).map (.sign .times :: ·)
  | '/' :: rest => (scan rest).map (.sign .slash :: ·)
  | '+' :: rest => (scan rest).map (.sign .plus :: ·)
  | '-' :: rest => (scan rest).map (.sign .minus :: ·)
  | '=' :: rest => (scan rest).map (.sign .equal :: ·)
  | '≠' :: rest => (scan rest).map (.sign .unequal :: ·)
  | '<' :: rest => (scan rest).map (.sign .less :: ·)
  | '>' :: rest => (scan rest).map (.sign .greater :: ·)
  | '≤' :: rest => (scan rest).map (.sign .atMost :: ·)
  | '≥' :: rest => (scan rest).map (.sign .atLeast :: ·)
  | ' ' :: 'a' :: 'n' :: 'd' :: ' ' :: rest => (scan rest).map (.sign .and :: ·)
  | ' ' :: 'o' :: 'r' :: ' ' :: rest => (scan rest).map (.sign .or :: ·)
  | c :: rest =>
    if isNumeric c then (scan rest).map (Glyph.joinNumeral c)
    else if c.isUpper || c == 'θ' then (scan rest).map (.letter c :: ·)
    else none

/-! ### Chains -/

inductive Item where
  | operand (formula : Formula)
  | sign (sign : Sign)
  deriving DecidableEq, Repr

/-- An operand, and each later one with the sign before it. Operands side by side
are multiplied. -/
def chain? : List Item → Option (Formula × List (Sign × Formula))
  | [.operand only] => some (only, [])
  | .operand left :: .operand right :: rest =>
    (chain? (.operand right :: rest)).map fun (next, others) => (left, (.times, next) :: others)
  | .operand left :: .sign sign :: rest =>
    (chain? rest).map fun (next, others) => (left, (sign, next) :: others)
  | _ => none

section Joining

variable {α : Type} (combine : Sign → α → α → α)

/-- Joins what the signs of one tier connect, from the left. -/
def joinTier (tier : Nat) : α → List (Sign × α) → α × List (Sign × α)
  | first, [] => (first, [])
  | first, (sign, next) :: rest =>
    if sign.tier = tier then joinTier tier (combine sign first next) rest
    else
      let (joined, others) := joinTier tier next rest
      (first, (sign, joined) :: others)

/-- Joins the tightest tiers, as many as said. -/
def joinTiers : Nat → α → List (Sign × α) → α × List (Sign × α)
  | 0, first, rest => (first, rest)
  | count + 1, first, rest =>
    let (first, rest) := joinTiers count first rest
    joinTier combine count first rest

def join (first : α) (rest : List (Sign × α)) : α := (joinTiers combine tiers first rest).1

end Joining

def assemble? (items : List Item) : Option Formula :=
  (chain? items).map fun (first, rest) => join .binary first rest

/-! ### Brackets -/

/-- The formula that a closed bracket stands for. -/
def Opening.form? : Opening → List Formula → Option Formula
  | .group, [inner] => some inner
  | .remainder, [left, right] => some (.remainder left right)
  | .wholePart, [inner] => some (.wholePart inner)
  | .fractionPart, [inner] => some (.fractionPart inner)
  | .cell, [.numeral written] =>
    if written.toList.all Char.isDigit then some (.cell (Nat.ofDigitChars 10 written.toList 0)) else none
  | _, _ => none

/-- What was read before a bracket that is still open: its own arguments before
the last comma, and the items after it. -/
structure Suspended where
  form : Opening
  arguments : List Formula
  items : List Item

/-- Reads on, with the arguments and items read since the innermost open bracket
and with what lies before each open bracket. -/
def parse : List Glyph → List Item → List Formula → List Suspended → Option Formula
  | [], items, [], [] => assemble? items
  | .numeral digits :: rest, items, arguments, outer =>
    parse rest (items ++ [.operand (.numeral (String.ofList digits))]) arguments outer
  | .letter name :: rest, items, arguments, outer =>
    parse rest (items ++ [.operand (.letter name)]) arguments outer
  | .sign sign :: rest, items, arguments, outer => parse rest (items ++ [.sign sign]) arguments outer
  | .opening form :: rest, items, arguments, outer => parse rest [] [] (⟨form, arguments, items⟩ :: outer)
  | .comma :: rest, items, arguments, outer =>
    (assemble? items).bind fun argument => parse rest [] (arguments ++ [argument]) outer
  | .close :: rest, items, arguments, ⟨form, before, left⟩ :: outer =>
    (assemble? items).bind fun argument =>
      (form.form? (arguments ++ [argument])).bind fun formula =>
        parse rest (left ++ [.operand formula]) before outer
  | _, _, _, _ => none

/-- The formula that a text is. -/
def read? (text : String) : Option Formula := (scan text.toList).bind (parse · [] [] [])

example : read? "A-2B/θ-1" = some (.binary .minus (.binary .minus (.letter 'A')
    (.binary .slash (.binary .times (.numeral "2") (.letter 'B')) (.letter 'θ'))) (.numeral "1")) := by
  rfl

end Formula

/-! ### Values -/

/-- Values of numerals and variables, and what the operations mean that are not
those of rational numbers. -/
structure Meaning where
  numeral : String → ℚ
  memory : Slot → ℚ
  free : Sign → ℚ → ℚ → ℚ
  remainder : ℚ → ℚ → ℚ
  wholePart : ℚ → ℚ
  fractionPart : ℚ → ℚ

namespace Meaning

def combine (meaning : Meaning) : Sign → ℚ → ℚ → ℚ
  | .plus, a, b => a + b
  | .minus, a, b => a - b
  | .times, a, b => a * b
  | .slash, a, b => a / b
  | sign, a, b => meaning.free sign a b

def value (meaning : Meaning) : Formula → ℚ
  | .numeral written => meaning.numeral written
  | .letter name => meaning.memory (.letter name)
  | .cell index => meaning.memory (.overflow index)
  | .binary sign left right => meaning.combine sign (meaning.value left) (meaning.value right)
  | .remainder left right => meaning.remainder (meaning.value left) (meaning.value right)
  | .wholePart inner => meaning.wholePart (meaning.value inner)
  | .fractionPart inner => meaning.fractionPart (meaning.value inner)

end Meaning
end CalcBasic

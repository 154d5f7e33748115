import CalcBasic.Json

/-! Reading JSON texts, in two steps: lexemes, then values. -/
namespace CalcBasic.Json

inductive Lexeme where
  /-- Anything but an array or an object. -/
  | value (json : Json)
  | arrayOpen | arrayClose | objectOpen | objectClose | comma | colon

/-! ### Texts -/

def isHigh (unit : Nat) : Bool := 0xD800 ≤ unit && unit < 0xDC00

def isLow (unit : Nat) : Bool := 0xDC00 ≤ unit && unit < 0xE000

/-- Characters from code units, where a high and a low surrogate make one. -/
def ofUnits : List Nat → Option (List Char)
  | [] => some []
  | unit :: rest =>
    if isHigh unit then
      match rest with
      | low :: rest =>
        if isLow low then
          (ofUnits rest).map (Char.ofNat (0x10000 + (unit - 0xD800) * 0x400 + (low - 0xDC00)) :: ·)
        else none
      | [] => none
    else if isLow unit then none
    else (ofUnits rest).map (Char.ofNat unit :: ·)

def hexDigit? (c : Char) : Option Nat :=
  if c.isDigit then some (c.toNat - '0'.toNat)
  else if 'a' ≤ c && c ≤ 'f' then some (c.toNat - 'a'.toNat + 10)
  else if 'A' ≤ c && c ≤ 'F' then some (c.toNat - 'A'.toNat + 10)
  else none

def hexUnit? (digits : List Char) : Option Nat := do
  return (← digits.mapM hexDigit?).foldl (16 * · + ·) 0

def escape? : Char → Option Char
  | '"' => some '"'
  | '\\' => some '\\'
  | '/' => some '/'
  | 'b' => some '\x08'
  | 'f' => some '\x0c'
  | 'n' => some '\n'
  | 'r' => some '\r'
  | 't' => some '\t'
  | _ => none

/-- The code units of a text up to its closing quote, and what follows. -/
def textUnits : List Char → Option (List Nat × List Char)
  | [] => none
  | '"' :: rest => some ([], rest)
  | '\\' :: 'u' :: a :: b :: c :: d :: rest => do
    let unit ← hexUnit? [a, b, c, d]
    let (units, rest) ← textUnits rest
    return (unit :: units, rest)
  | '\\' :: mark :: rest => do
    let c ← escape? mark
    let (units, rest) ← textUnits rest
    return (c.toNat :: units, rest)
  | c :: rest => do
    if c.toNat < 0x20 then none
    else
      let (units, rest) ← textUnits rest
      return (c.toNat :: units, rest)

def text? (afterQuote : List Char) : Option (Lexeme × List Char) := do
  let (units, rest) ← textUnits afterQuote
  return (.value (.text ((ofUnits units).map String.ofList)), rest)

/-! ### Numbers and words -/

/-- One digit or more. -/
def digits? (chars : List Char) : Option (List Char × List Char) :=
  match chars.span Char.isDigit with
  | ([], _) => none
  | found => some found

def whole? (chars : List Char) : Option (List Char × List Char) :=
  match digits? chars with
  | some ('0' :: _ :: _, _) => none
  | other => other

def fraction? (chars : List Char) : Option (List Char × List Char) :=
  match chars with
  | '.' :: rest => (digits? rest).map fun (digits, rest) => ('.' :: digits, rest)
  | _ => some ([], chars)

def exponent? (chars : List Char) : Option (List Char × List Char) :=
  match chars with
  | mark :: rest =>
    if mark == 'e' || mark == 'E' then
      match rest with
      | sign :: more =>
        if sign == '+' || sign == '-' then
          (digits? more).map fun (digits, rest) => (mark :: sign :: digits, rest)
        else (digits? rest).map fun (digits, rest) => (mark :: digits, rest)
      | [] => none
    else some ([], chars)
  | [] => some ([], [])

def number? (chars : List Char) : Option (Lexeme × List Char) := do
  let (sign, rest) := chars.span (· == '-')
  if sign.length > 1 then none
  else
    let (whole, rest) ← whole? rest
    let (fraction, rest) ← fraction? rest
    let (exponent, rest) ← exponent? rest
    return (.value (.number (String.ofList (sign ++ whole ++ fraction ++ exponent))), rest)

/-! ### Lexemes -/

/-- The first lexeme, of a text that starts with no blank. -/
def lexeme? : List Char → Option (Lexeme × List Char)
  | '[' :: rest => some (.arrayOpen, rest)
  | ']' :: rest => some (.arrayClose, rest)
  | '\x7b' :: rest => some (.objectOpen, rest)
  | '\x7d' :: rest => some (.objectClose, rest)
  | ',' :: rest => some (.comma, rest)
  | ':' :: rest => some (.colon, rest)
  | '"' :: rest => text? rest
  | 't' :: 'r' :: 'u' :: 'e' :: rest => some (.value (.boolean true), rest)
  | 'f' :: 'a' :: 'l' :: 's' :: 'e' :: rest => some (.value (.boolean false), rest)
  | 'n' :: 'u' :: 'l' :: 'l' :: rest => some (.value .null, rest)
  | chars => number? chars

def isBlank (c : Char) : Bool := c == ' ' || c == '\t' || c == '\n' || c == '\r'

def lexemes (chars : List Char) : Option (List Lexeme) :=
  match chars.dropWhile isBlank with
  | [] => some []
  | chars' => do
    let (lexeme, rest) ← lexeme? chars'
    if rest.length < chars.length then return lexeme :: (← lexemes rest) else none
termination_by chars.length

/-! ### Values -/

/-- A value and the lexemes after it. -/
abbrev Front (α : Type) (lexemes : List Lexeme) := α × { rest : List Lexeme // rest.length < lexemes.length }

mutual

def front? (lexemes : List Lexeme) : Option (Front Json lexemes) :=
  match lexemes with
  | .value json :: rest => some (json, ⟨rest, by simp only [List.length_cons]; omega⟩)
  | .arrayOpen :: .arrayClose :: rest => some (.array [], ⟨rest, by simp only [List.length_cons]; omega⟩)
  | .arrayOpen :: rest => do
    let (items, ⟨after, shorter⟩) ← items? rest
    return (.array items, ⟨after, by simp only [List.length_cons]; omega⟩)
  | .objectOpen :: .objectClose :: rest => some (.object [], ⟨rest, by simp only [List.length_cons]; omega⟩)
  | .objectOpen :: rest => do
    let (fields, ⟨after, shorter⟩) ← fields? rest
    return (.object fields, ⟨after, by simp only [List.length_cons]; omega⟩)
  | _ => none
termination_by 2 * lexemes.length

/-- The items of an array up to its closing bracket. -/
def items? (lexemes : List Lexeme) : Option (Front (List Json) lexemes) := do
  match ← front? lexemes with
  | (item, ⟨.arrayClose :: rest, shorter⟩) => return ([item], ⟨rest, by simp only [List.length_cons] at shorter; omega⟩)
  | (item, ⟨.comma :: tail, shorter⟩) =>
    let (items, ⟨rest, further⟩) ← items? tail
    return (item :: items, ⟨rest, by simp only [List.length_cons] at shorter; omega⟩)
  | _ => none
termination_by 2 * lexemes.length + 1
decreasing_by all_goals simp_all <;> omega

/-- The fields of an object up to its closing brace. -/
def fields? (lexemes : List Lexeme) : Option (Front (List (Option String × Json)) lexemes) :=
  match lexemes with
  | .value (.text name) :: .colon :: tail => do
    match ← front? tail with
    | (value, ⟨.objectClose :: rest, shorter⟩) =>
      return ([(name, value)], ⟨rest, by simp only [List.length_cons] at shorter ⊢; omega⟩)
    | (value, ⟨.comma :: more, shorter⟩) =>
      let (fields, ⟨rest, further⟩) ← fields? more
      return ((name, value) :: fields, ⟨rest, by simp only [List.length_cons] at shorter ⊢; omega⟩)
    | _ => none
  | _ => none
termination_by 2 * lexemes.length + 1
decreasing_by all_goals simp_all; omega

end

/-- Reads a text that holds one value and nothing else. -/
def read? (text : String) : Option Json := do
  match ← front? (← lexemes text.toList) with
  | (json, ⟨[], _⟩) => some json
  | _ => none

end CalcBasic.Json

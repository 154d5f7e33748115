import CalcBasic.Text.Blank
import CalcBasic.Token

/-! Lexemes: the consecutive segments a source text falls into. A lexeme keeps
the characters it was read from, so that nothing of the source is lost; the
tokens it stands for are derived from it. -/
namespace CalcBasic

inductive Lexeme where
  /-- Line comment, without the newline that ends it. -/
  | comment (body : List Char)
  | blank (characters : List Char)
  /-- Word that stands for itself in lower case. -/
  | word (tag : Tag) (characters : List Char)
  | label (name gap : List Char)
  | native (body : List Char)
  /-- `++` or `--`. -/
  | step (sign : Char)
  /-- Any token whose text is the segment itself. -/
  | plain (tag : Tag) (characters : List Char)
  deriving DecidableEq, Repr

namespace Lexeme

/-- The segment of the source that the lexeme was read from. -/
def source : Lexeme → List Char
  | .comment body => '/' :: '/' :: body
  | .blank characters => characters
  | .word _ characters => characters
  | .label name gap => name ++ gap ++ [':']
  | .native body => '`' :: body ++ ['`']
  | .step sign => [sign, sign]
  | .plain _ characters => characters

/-- Lines the lexeme advances the count by. Line breaks inside quoted text do
not count. -/
def lineBreaks : Lexeme → Nat
  | .blank characters => characters.count '\n'
  | _ => 0

def tokens (keepBlanks : Bool) (line : Nat) : Lexeme → List Token
  | .comment _ => []
  | .blank characters => if keepBlanks then [⟨.whitespace, String.ofList characters, line⟩] else []
  | .word tag characters => [⟨tag, (String.ofList characters).toLower, line⟩]
  | .label name _ => [⟨.label, String.ofList name, line⟩]
  | .native body => [⟨.native, String.ofList body, line⟩]
  | .step sign => [⟨.compoundAssign, String.ofList [sign, '='], line⟩, ⟨.number, "1", line⟩]
  | .plain tag characters => [⟨tag, String.ofList characters, line⟩]

/-! ### Words -/

def isWordStart (c : Char) : Bool := c.isAlpha || c == '_'

def isWordPart (c : Char) : Bool := c.isAlphanum || c == '_'

def keywords : List String :=
  ["unless", "if", "else", "while", "until", "for", "foreach", "return", "switch", "case",
    "default", "exit", "die", "in", "function", "const"]

/-- The lexeme of a word, given what follows it. A word that is no keyword is a
label when only inline blanks part it from a single colon. -/
def ofWord (characters rest : List Char) : Lexeme :=
  let lower := (String.ofList characters).toLower
  if lower == "to" || lower == "til" then .word .range characters
  else if lower == "by" then .word .rangeStep characters
  else if lower == "from" then .word .source characters
  else if keywords.contains lower then .plain .keyword characters
  else
    match rest.dropWhile Text.isInlineBlank with
    | ':' :: ':' :: _ => .plain .identifier characters
    | ':' :: _ => .label characters (rest.takeWhile Text.isInlineBlank)
    | _ => .plain .identifier characters

/-! ### Quoted text -/

/-- What follows an opening quote, up to and with the closing one. A backslash
takes the next character along with it. -/
def closeQuote (quote : Char) : List Char → Option (List Char)
  | [] => none
  | '\\' :: [] => none
  | '\\' :: escaped :: rest => (closeQuote quote rest).map fun body => '\\' :: escaped :: body
  | c :: rest => if c = quote then some [c] else (closeQuote quote rest).map (c :: ·)

/-! ### Numerals -/

def isHexDigit (c : Char) : Bool := c.isDigit || ('a' ≤ c && c ≤ 'f')

def isOctalDigit (c : Char) : Bool := '0' ≤ c && c ≤ '7'

def isBinaryDigit (c : Char) : Bool := c == '0' || c == '1'

def isRadixDigit (c : Char) : Bool := c.isDigit || c.isLower

/-- The lead and the digits after it, if there are any. -/
def marked (lead : List Char) (isDigit : Char → Bool) (rest : List Char) : Option (List Char) :=
  match rest.takeWhile isDigit with
  | [] => none
  | digits => some (lead ++ digits)

/-- A radix of so many digits, the letter `r`, then digits. -/
def radixNumeralOf (size : Nat) (text : List Char) : Option (List Char) :=
  let radix := text.take size
  match text.drop size with
  | 'r' :: rest =>
    if radix.all Char.isDigit then marked (radix ++ ['r']) isRadixDigit rest else none
  | _ => none

/-- `16r1f`: a radix of two digits goes before one of a single digit. -/
def radixNumeral (text : List Char) : Option (List Char) :=
  radixNumeralOf 2 text <|> radixNumeralOf 1 text

/-- Digits with an optional fraction, or a fraction alone. -/
def mantissa (text : List Char) : List Char :=
  let whole := text.takeWhile Char.isDigit
  match text.dropWhile Char.isDigit with
  | '.' :: rest => (marked (whole ++ ['.']) Char.isDigit rest).getD whole
  | _ => whole

def exponent : List Char → List Char
  | 'e' :: '+' :: rest => (marked ['e', '+'] Char.isDigit rest).getD []
  | 'e' :: '-' :: rest => (marked ['e', '-'] Char.isDigit rest).getD []
  | 'e' :: rest => (marked ['e'] Char.isDigit rest).getD []
  | _ => []

def decimalNumeral (text : List Char) : Option (List Char) :=
  match mantissa text with
  | [] => none
  | digits => some (digits ++ exponent (text.drop digits.length))

def hexNumeral : List Char → Option (List Char)
  | '0' :: 'x' :: rest => marked ['0', 'x'] isHexDigit rest
  | _ => none

def octalNumeral : List Char → Option (List Char)
  | '0' :: 'o' :: rest => marked ['0', 'o'] isOctalDigit rest
  | _ => none

def binaryNumeral : List Char → Option (List Char)
  | '0' :: 'b' :: rest => marked ['0', 'b'] isBinaryDigit rest
  | _ => none

/-- The numeral at the start of a text. The forms are tried in this order. -/
def numeral (text : List Char) : Option (List Char) :=
  hexNumeral text <|> radixNumeral text <|> octalNumeral text <|> binaryNumeral text <|>
    decimalNumeral text

/-! ### Symbols -/

def symbolTag : Char → Tag
  | '(' => .parenOpen
  | ')' => .parenClose
  | '\x7b' => .blockOpen
  | '\x7d' => .blockClose
  | '[' => .listOpen
  | ']' => .listClose
  | ',' => .delimiter
  | '=' => .assign
  | '>' | '<' => .compare
  | ';' => .terminator
  | '+' | '-' | '*' | '/' | '%' | '^' => .math
  | _ => .literal

def pairTag? (first second : Char) : Option Tag :=
  match first, second with
  | '=', '=' | '!', '=' | '&', '&' | '|', '|' | '>', '=' | '<', '=' => some .compare
  | '+', '=' | '-', '=' | '*', '=' | '/', '=' | '%', '=' | '^', '=' => some .compoundAssign
  | _, _ => none

def symbol (first : Char) : List Char → Lexeme
  | [] => .plain (symbolTag first) [first]
  | second :: _ =>
    match pairTag? first second with
    | some tag => .plain tag [first, second]
    | none =>
      if first = second && (first == '+' || first == '-') then .step first
      else .plain (symbolTag first) [first]

/-! ### Scanning -/

/-- The lexeme at the start of a text. -/
def first (c : Char) (rest : List Char) : Lexeme :=
  if isWordStart c then ofWord (c :: rest.takeWhile isWordPart) (rest.dropWhile isWordPart)
  else if c == '/' && rest.head? == some '/' then .comment (rest.tail.takeWhile (· != '\n'))
  else if Text.isBlank c then .blank (c :: rest.takeWhile Text.isBlank)
  else
    match (if c == '"' || c == '\'' then closeQuote c rest else none), numeral (c :: rest),
        (if c == '`' then closeQuote c rest else none) with
    | some body, _, _ => .plain .text (c :: body)
    | none, some digits, _ => .plain .number digits
    | none, none, some body => .native body.dropLast
    | none, none, none => symbol c rest

/-- The lexemes of a text, in order. -/
def scan : List Char → List Lexeme
  | [] => []
  | c :: rest =>
    let lexeme := first c rest
    lexeme :: scan (rest.drop (lexeme.source.length - 1))
termination_by text => text.length
decreasing_by simp only [List.length_drop, List.length_cons]; omega

end Lexeme

namespace Token

/-- The tokens of lexemes whose first one starts on `line`. -/
def ofLexemes (keepBlanks : Bool) (line : Nat) : List Lexeme → List Token
  | [] => []
  | lexeme :: rest =>
    lexeme.tokens keepBlanks line ++ ofLexemes keepBlanks (line + lexeme.lineBreaks) rest

/-- The text that is scanned: carriage returns and trailing blanks are no part
of a program. -/
def cleaned (source : String) : List Char :=
  Text.trimEndWhile Text.isBlank (source.toList.filter (· != '\r'))

/-- The tokens of a program, in order. -/
def scan (keepBlanks : Bool) (source : String) : List Token :=
  ofLexemes keepBlanks 1 (Lexeme.scan (cleaned source))

end Token
end CalcBasic

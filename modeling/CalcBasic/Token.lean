/-! Tokens: a class, the text it was read from and the line it starts on. -/
namespace CalcBasic

inductive Tag where
  | identifier | keyword | label | range | rangeStep | source
  | text | number | native
  | compare | compoundAssign | assign
  | parenOpen | parenClose | blockOpen | blockClose | listOpen | listClose
  | delimiter | math | terminator | literal | whitespace
  deriving DecidableEq, Repr

namespace Tag

def all : List Tag :=
  [.identifier, .keyword, .label, .range, .rangeStep, .source, .text, .number, .native,
    .compare, .compoundAssign, .assign, .parenOpen, .parenClose, .blockOpen, .blockClose,
    .listOpen, .listClose, .delimiter, .math, .terminator, .literal, .whitespace]

def name : Tag → String
  | .identifier => "IDENTIFIER"
  | .keyword => "KEYWORD"
  | .label => "LABEL"
  | .range => "RANGE"
  | .rangeStep => "RANGESTEP"
  | .source => "FROM"
  | .text => "STRING"
  | .number => "NUMBER"
  | .native => "NATIVE"
  | .compare => "COMPARE"
  | .compoundAssign => "C_ASSIGN"
  | .assign => "ASSIGN"
  | .parenOpen => "PAREN_OPEN"
  | .parenClose => "PAREN_CLOSE"
  | .blockOpen => "BLOCK_OPEN"
  | .blockClose => "BLOCK_CLOSE"
  | .listOpen => "ARR_OPEN"
  | .listClose => "ARR_CLOSE"
  | .delimiter => "DELIMITER"
  | .math => "MATH"
  | .terminator => "TERMINATOR"
  | .literal => "LITERAL"
  | .whitespace => "WHITESPACE"

def ofName? (name : String) : Option Tag := all.find? (·.name == name)

def isOpen : Tag → Bool
  | .parenOpen | .blockOpen | .listOpen => true
  | _ => false

def isClose : Tag → Bool
  | .parenClose | .blockClose | .listClose => true
  | _ => false

/-- The tag that closes an opening bracket. -/
def closer? : Tag → Option Tag
  | .parenOpen => some .parenClose
  | .blockOpen => some .blockClose
  | .listOpen => some .listClose
  | _ => none

end Tag

structure Token where
  tag : Tag
  text : String
  line : Nat
  deriving DecidableEq, Repr

theorem Text.toLower_toLower (text : String) : text.toLower.toLower = text.toLower := by
  have same (c : Char) : c.toLower.toLower = c.toLower := by
    unfold Char.toLower
    split
    · exact dif_neg (by grind)
    · rfl
  change String.map Char.toLower (String.map Char.toLower text) = String.map Char.toLower text
  simp only [String.map_map,Function.comp_def,same]

namespace Token

/-- Words of the language are compared without regard to ASCII case. -/
def spells (token : Token) (word : String) : Bool := token.text.toLower == word

def isKeyword (token : Token) (word : String) : Bool := token.tag == .keyword && token.spells word

def isInline (token : Token) : Bool := token.tag == .identifier && token.spells "inline"

def isTerminator (token : Token) : Bool := token.tag == .terminator

end Token
end CalcBasic

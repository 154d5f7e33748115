import CalcBasic.Groups
import CalcBasic.Text.Blank

/-! Calculator code as text: lines, statements, and the closers that may be left
out. -/
namespace CalcBasic.Code

/-- Joins pieces of code by line breaks, without the empty lines. -/
def joinLines (pieces : List String) : String :=
  let text := "\n".intercalate pieces
  let lines := (Groups.split (· == '\n') text.toList).filter (!·.isEmpty)
  String.ofList (List.intercalate ['\n'] lines)

/-- Drops line breaks at both ends. -/
def trimBreaks (code : String) : String :=
  String.ofList (Text.trimEndWhile (· == '\n') (code.toList.dropWhile (· == '\n')))

def isCloser (c : Char) : Bool := c == ')' || c == '\x7d' || c == ']'

/-- Brackets need not be closed at the end of a statement. -/
def trimBrackets (code : String) : String :=
  String.ofList (Text.trimEndWhile isCloser code.toList)

/-- Before a store neither brackets nor a last quote need be closed. -/
def trimClosers (code : String) : String :=
  let bare := Text.trimEndWhile isCloser code.toList
  String.ofList (if bare.getLast? == some '"' then bare.dropLast else bare)

/-- Statements on one line. -/
def joinStatements (statements : List String) : String :=
  let line := ":".intercalate (statements.map trimBrackets)
  String.ofList (Text.trimEndWhile (· == '"') line.toList)

/-- Number of statements from here on. A statement ends with its line, or at a
colon outside text; text ends at its closing quote, at a store or with its line. -/
def countFrom (inText pending : Bool) : List Char → Nat
  | [] => pending.toNat
  | c :: rest =>
    if c = '\n' || (c = ':' && !inText) then pending.toNat + countFrom false false rest
    else
      let inText := if c = '"' then !inText else if c = '→' then false else inText
      countFrom inText true rest

def countStatements (code : String) : Nat := countFrom false false code.toList

end CalcBasic.Code

import CalcBasic.Groups
import CalcBasic.Text.Blank

/-! Texts as lines. -/
namespace CalcBasic.Text

/-- The lines of a text. A carriage return before a line break belongs to the
break, and a break at the very end opens no further line. -/
def lines (text : List Char) : List (List Char) :=
  let pieces := Groups.split (· == '\n') text
  let broken := pieces.dropLast.map dropReturn
  match pieces.getLast? with
  | some [] | none => broken
  | some last => broken ++ [last]
where
  dropReturn (line : List Char) : List Char :=
    if line.getLast? == some '\r' then line.dropLast else line

def byteSize (text : List Char) : Nat := (String.ofList text).utf8ByteSize

/-- Drops leading blanks that start before byte `width`. -/
def dropIndent : Nat → List Char → List Char
  | _, [] => []
  | width, c :: rest =>
    if 0 < width && isBlank c then dropIndent (width - c.utf8Size) rest else c :: rest

/-- Drops leading blank lines, then takes the indentation of the first line off
every line. The width of an indentation is counted in bytes. -/
def dedent (text : String) : String :=
  match (lines text.toList).dropWhile (·.all isBlank) with
  | [] => ""
  | first :: rest =>
    let width := byteSize (first.takeWhile isBlank)
    String.ofList (List.intercalate ['\n'] ((first :: rest).map (dropIndent width)))

end CalcBasic.Text

/-! JSON values and their indented form. -/
namespace CalcBasic

/-- A JSON value. Numbers keep their spelling. A text with half of a surrogate
pair in it is well-formed and has no value. -/
inductive Json where
  | null
  | boolean (value : Bool)
  | number (spelling : String)
  | text (value : Option String)
  | array (items : List Json)
  /-- Fields in order; names may repeat. -/
  | object (fields : List (Option String × Json))

namespace Json

def ofString (value : String) : Json := .text (some value)

def ofNat (value : Nat) : Json := .number (toString value)

/-- An object with the given fields. -/
def record (fields : List (String × Json)) : Json :=
  .object (fields.map fun (name, value) => (some name, value))

/-! ### Printing -/

def hexDigits (width value : Nat) : String :=
  let digits := Nat.toDigits 16 value
  String.ofList (List.replicate (width - digits.length) '0' ++ digits)

def escaped (c : Char) : String :=
  match c with
  | '"' => "\\\""
  | '\\' => "\\\\"
  | '\n' => "\\n"
  | '\t' => "\\t"
  | '\r' => "\\r"
  | '\x08' => "\\b"
  | '\x0c' => "\\f"
  | _ => if c.toNat < 0x20 then "\\u" ++ hexDigits 4 c.toNat else c.toString

def quoted (value : String) : String :=
  "\"" ++ String.join (value.toList.map escaped) ++ "\""

def indent (depth : Nat) : String := String.ofList (List.replicate (2 * depth) ' ')

/-- Elements between brackets, each on a line of its own. -/
def bracketed (opening closing : String) (depth : Nat) : List String → String
  | [] => opening ++ closing
  | elements =>
    let lines := elements.map (indent (depth + 1) ++ ·)
    opening ++ "\n" ++ ",\n".intercalate lines ++ "\n" ++ indent depth ++ closing

mutual

/-- A value at some depth of a document indented by two blanks a level. -/
def prettyAt (depth : Nat) : Json → String
  | .null => "null"
  | .boolean value => if value then "true" else "false"
  | .number spelling => spelling
  | .text value => quoted (value.getD "")
  | .array items => bracketed "[" "]" depth (prettyItems (depth + 1) items)
  | .object fields => bracketed "\x7b" "\x7d" depth (prettyFields (depth + 1) fields)

def prettyItems (depth : Nat) : List Json → List String
  | [] => []
  | item :: rest => prettyAt depth item :: prettyItems depth rest

def prettyFields (depth : Nat) : List (Option String × Json) → List String
  | [] => []
  | (name, value) :: rest =>
    (quoted (name.getD "") ++ ": " ++ prettyAt depth value) :: prettyFields depth rest

end

def pretty (value : Json) : String := prettyAt 0 value

end Json
end CalcBasic

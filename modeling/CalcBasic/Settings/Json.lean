import CalcBasic.Json.Reader
import CalcBasic.Settings

/-! Settings as JSON. -/
namespace CalcBasic
namespace Json

/-- The named fields of a value: those of an object, or the items of an array in
order. Other fields of an object do not matter; no named field may occur twice,
and an array has no further items. -/
def fieldsOf? (names : List String) : Json → Option (List (String × Json))
  | .object fields => do
    let fields ← fields.mapM fun (name, value) => name.map (·, value)
    let known := fields.filter (names.contains ·.1)
    if (known.map Prod.fst).Nodup then some known else none
  | .array items => if items.length ≤ names.length then some (names.zip items) else none
  | _ => none

/-- The value of a field, or what stands for it if it is missing. -/
def field? {α : Type} (fields : List (String × Json)) (name : String) (default : α)
    (read : Json → Option α) : Option α :=
  match fields.lookup name with
  | some value => read value
  | none => some default

def boolean? : Json → Option Bool
  | .boolean value => some value
  | _ => none

def string? : Json → Option String
  | .text value => value
  | _ => none

end Json

namespace LexSettings

def ofJson? (json : Json) : Option LexSettings := do
  let fields ← json.fieldsOf? ["preserve", "exact"]
  let default : LexSettings := {}
  return {
    preserve := ← Json.field? fields "preserve" default.preserve Json.boolean?
    exact := ← Json.field? fields "exact" default.exact Json.boolean? }

def toJson (settings : LexSettings) : Json :=
  .record [("preserve", .boolean settings.preserve), ("exact", .boolean settings.exact)]

end LexSettings

namespace Dialect

def ofJson? : Json → Option Dialect
  | .text (some "basic") | .object [(some "basic", .null)] => some .basic
  | _ => none

def toJson : Dialect → Json
  | .basic => .ofString "basic"

end Dialect

namespace Settings

def ofJson? (json : Json) : Option Settings := do
  let fields ← json.fieldsOf? ["lex", "modern", "simplify", "target", "dumpUnknown", "programName"]
  let default : Settings := {}
  return {
    lex := ← Json.field? fields "lex" default.lex LexSettings.ofJson?
    modern := ← Json.field? fields "modern" default.modern Json.boolean?
    simplify := ← Json.field? fields "simplify" default.simplify Json.boolean?
    target := ← Json.field? fields "target" default.target Dialect.ofJson?
    dumpUnknown := ← Json.field? fields "dumpUnknown" default.dumpUnknown Json.boolean?
    programName := ← Json.field? fields "programName" default.programName Json.string? }

/-- Reads the text of a settings file. -/
def read? (text : String) : Option Settings := do ofJson? (← Json.read? text)

def toJson (settings : Settings) : Json :=
  .record [
    ("lex", settings.lex.toJson),
    ("modern", .boolean settings.modern),
    ("simplify", .boolean settings.simplify),
    ("target", settings.target.toJson),
    ("dumpUnknown", .boolean settings.dumpUnknown),
    ("programName", .ofString settings.programName)]

/-! ### Schema -/

def booleanSchema (default : Bool) (description : String) : Json :=
  .record [
    ("default", .boolean default),
    ("description", .ofString description),
    ("type", .ofString "boolean")]

def referenceSchema (definition : String) (default : Json) : Json :=
  .record [
    ("allOf", .array [.record [("$ref", .ofString ("#/definitions/" ++ definition))]]),
    ("default", default)]

/-- The JSON schema of a settings file. -/
def schema : Json :=
  .record [
    ("$schema", .ofString "http://json-schema.org/draft-07/schema#"),
    ("definitions", .record [
      ("LexOptions", .record [
        ("description", .ofString "Options consumed by the lexer."),
        ("properties", .record [
          ("exact", booleanSchema true "Reserved."),
          ("preserve",
            booleanSchema false "Keep whitespace as WHITESPACE tokens (debug output only).")]),
        ("type", .ofString "object")]),
      ("Target", .record [
        ("description", .ofString "Output dialect. Only one is supported."),
        ("enum", .array [.ofString "basic"]),
        ("type", .ofString "string")])]),
    ("description", .ofString "Options for a single compilation."),
    ("properties", .record [
      ("dumpUnknown", booleanSchema false
        "Emit `\"unknown_expr\"` for unparseable expressions instead of dropping them."),
      ("lex", referenceSchema "LexOptions"
        (.record [("exact", .boolean true), ("preserve", .boolean false)])),
      ("modern", booleanSchema true
        "Use `remainder(` for `%` instead of the iPart/fPart emulation."),
      ("programName", .record [
        ("default", .ofString "TIADV"),
        ("description", .ofString "Program re-entered by non-inline user function calls."),
        ("type", .ofString "string")]),
      ("simplify", booleanSchema true "Fold constant subtrees."),
      ("target", referenceSchema "Target" (.ofString "basic"))]),
    ("title", .ofString "Options"),
    ("type", .ofString "object")]

end Settings
end CalcBasic

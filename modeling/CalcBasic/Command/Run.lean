import CalcBasic.Command.Directory
import CalcBasic.Command.Invocation
import CalcBasic.Compilation
import CalcBasic.Settings.Json
import CalcBasic.Text.Quoted

/-! What a command does, given the texts it reads. -/
namespace CalcBasic.Command

/-- Why a command fails. -/
inductive Failure where
  | settingsUnreadable (path : String) (reason : FileError)
  | settingsInvalid (path : String)
  | sourceUnreadable (path : String) (reason : FileError)
  | outputUnwritable (path : String) (reason : FileError)
  | compilation (error : CompileError)

def Failure.message : Failure → String
  | .settingsUnreadable path reason =>
    "Error: failed to load " ++ path ++ ": I/O error: " ++ reason.message
  | .settingsInvalid path => "Error: failed to load " ++ path ++ ": JSON error: invalid settings"
  | .sourceUnreadable path reason => "Error: failed to read " ++ path ++ ": " ++ reason.message
  | .outputUnwritable path reason => "Error: failed to write " ++ path ++ ": " ++ reason.message
  | .compilation error => "Error: " ++ error.report

/-- What a command leaves behind. -/
structure Outcome where
  exit : Nat := 0
  output : String := ""
  /-- Messages for the user, a line each. -/
  messages : List String := []
  /-- A file to write, with its content. -/
  file : Option (String × String) := none

namespace Outcome

def fail (failure : Failure) : Outcome := { exit := 1, messages := [failure.message] }

/-- The outcome if its file cannot be written. -/
def unwritten (outcome : Outcome) (path : String) (reason : FileError) : Outcome :=
  { outcome with
    exit := 1
    messages := outcome.messages ++ [(Failure.outputUnwritable path reason).message]
    file := none }

def lines (lines : List String) : Outcome := { output := String.join (lines.map (· ++ "\n")) }

def json (value : Json) : Outcome := lines [value.pretty]

end Outcome

/-! ### Listings -/

def tokenLine (token : Token) : String :=
  Text.padded 10 token.tag.name ++ " " ++ Text.quoted token.text ++
    " (line " ++ toString token.line ++ ")"

def tokenJson (token : Token) : Json :=
  .array [.ofString token.tag.name, .ofString token.text, .ofNat token.line]

def builtinLine (f : Builtin) : String :=
  let target := if f.expansion.isSome then "(expansion)" else f.target
  " ".intercalate [Text.padded 14 f.name, Text.padded 16 target, Text.padded 10 f.category,
    Text.padded 12 f.arity.describe, f.description]

def builtinJson (f : Builtin) : Json :=
  .record [
    ("arity", .ofString f.arity.describe),
    ("category", .ofString f.category),
    ("description", .ofString f.description),
    ("name", .ofString f.name),
    ("target", .ofString f.target)]

def diagnosticJson (diagnostic : Diagnostic) : Json :=
  .record [
    ("message", .ofString diagnostic.message),
    ("line", (diagnostic.line.map Json.ofNat).getD .null)]

def compiledJson (compiled : Compiled) : Json :=
  .record [
    ("code", .ofString compiled.code),
    ("diagnostics", .array (compiled.diagnostics.map diagnosticJson))]

/-! ### Tasks -/

def compiledOutcome (compiled : Compiled) (output : Option String) (json : Bool) : Outcome :=
  if json then .json (compiledJson compiled)
  else
    let messages := compiled.diagnostics.map Diagnostic.display
    match output with
    | some path => { messages, file := some (path, compiled.code ++ "\n") }
    | none => { messages, output := compiled.code ++ "\n" }

def loadSettings (sources : Sources) : Option String → Except Failure Settings
  | none => .ok {}
  | some path =>
    match sources.file path with
    | .error reason => .error (.settingsUnreadable path reason)
    | .ok text =>
      match Settings.read? text with
      | some settings => .ok settings
      | none => .error (.settingsInvalid path)

def loadSource (sources : Sources) (path : String) : Except Failure String :=
  (if path = "-" then sources.input else sources.file path).mapError (.sourceUnreadable path)

def Task.run (task : Task) (sources : Sources) (settings : Settings) (json : Bool) :
    Except Failure Outcome := do
  match task with
  | .compile file output .. =>
    let source ← loadSource sources file
    let compiled ← (CalcBasic.compile settings source).mapError .compilation
    return compiledOutcome compiled output json
  | .tokens file _ =>
    let tokens := Token.scan settings.lex.preserve (← loadSource sources file)
    return if json then .json (.array (tokens.map tokenJson)) else .lines (tokens.map tokenLine)
  | .builtins =>
    return if json then .json (.array (Builtin.catalogue.map builtinJson))
      else .lines (Builtin.catalogue.map builtinLine)
  | .schema => return .json Settings.schema

/-- Runs a command. The settings file is read first, whatever the task. -/
def Invocation.run (invocation : Invocation) (sources : Sources) : Outcome :=
  let result := do
    let base ← loadSettings sources invocation.config
    invocation.task.run sources (invocation.task.settings base) invocation.json
  match result with
  | .ok outcome => outcome
  | .error failure => .fail failure

/-! ### Command lines -/

def versionText : String := "tiadv 0.1.0"

def usageText : String :=
  "Usage: tiadv [--config FILE] [--json] [--verbose] COMMAND\n\n" ++
  "Commands:\n" ++
  "  compile FILE [--output FILE] [--legacy] [--no-simplify] [--dump-unknown] [--program NAME]\n" ++
  "  tokens FILE [--preserve]\n" ++
  "  builtins\n" ++
  "  schema"

/-- The outcome of a command line that asks for no task. -/
def Halt.outcome : Halt → Outcome
  | .usage => { exit := 2, messages := [usageText] }
  | .help => .lines [usageText]
  | .version => .lines [versionText]

end CalcBasic.Command

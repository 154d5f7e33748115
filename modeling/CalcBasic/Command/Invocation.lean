import CalcBasic.Command.Flags
import CalcBasic.Settings

/-! Command lines and the tasks they ask for. -/
namespace CalcBasic.Command

inductive Task where
  /-- Compiles a file to another file or to the output. -/
  | compile (file : String) (output : Option String) (legacy keepConstants dumpUnknown : Bool)
      (program : Option String)
  /-- Lists the tokens of a file. -/
  | tokens (file : String) (preserve : Bool)
  | builtins
  | schema
  deriving DecidableEq, Repr

structure Invocation where
  /-- Settings file. -/
  config : Option String
  /-- Whether to write JSON. -/
  json : Bool
  task : Task
  deriving DecidableEq, Repr

/-- Flags that may stand before or after the name of the command. -/
def globalFlags : List Flag :=
  [⟨"config", none, .path⟩, ⟨"json", none, .nothing⟩, ⟨"verbose", some 'v', .nothing⟩, helpFlag]

def compileFlags : List Flag :=
  [⟨"output", some 'o', .path⟩, ⟨"legacy", none, .nothing⟩, ⟨"no-simplify", none, .nothing⟩,
    ⟨"dump-unknown", none, .nothing⟩, ⟨"program", none, .text⟩]

def tokensFlags : List Flag := [⟨"preserve", none, .nothing⟩]

/-- The flags of a command and the number of its operands. -/
def commandShape? : String → Option (List Flag × Nat)
  | "compile" => some (compileFlags, 1)
  | "tokens" => some (tokensFlags, 1)
  | "builtins" | "schema" => some ([], 0)
  | _ => none

def taskOf (command : String) (given : Given) : Except Halt Task :=
  match command, given.operands with
  | "compile", [file] =>
    .ok (.compile file (given.value? "output") (given.has "legacy") (given.has "no-simplify")
      (given.has "dump-unknown") (given.value? "program"))
  | "tokens", [file] => .ok (.tokens file (given.has "preserve"))
  | "builtins", [] => .ok .builtins
  | "schema", [] => .ok .schema
  | _, _ => .error .usage

/-- Reads a command line. A global flag after the command overrides the same flag
before it. -/
def Invocation.read (arguments : List String) : Except Halt Invocation := do
  match ← readArguments (versionFlag :: globalFlags) true 0 {} none arguments with
  | (_, []) => .error .usage
  | (_, "help" :: topics) =>
    .error (if topics.all fun topic => (commandShape? topic).isSome then .help else .usage)
  | (before, command :: rest) =>
    match commandShape? command with
    | none => .error .usage
    | some (flags, room) =>
      let (given, _) ← readArguments (flags ++ globalFlags) false room {} none rest
      return {
        config := given.value? "config" <|> before.value? "config"
        json := given.has "json" || before.has "json"
        task := ← taskOf command given }

namespace Task

/-- The settings of a task: flags override the fields of the settings file. -/
def settings (task : Task) (base : Settings) : Settings :=
  match task with
  | .compile _ _ legacy keepConstants dumpUnknown program =>
    { base with
      modern := base.modern && !legacy
      simplify := base.simplify && !keepConstants
      dumpUnknown := base.dumpUnknown || dumpUnknown
      programName := program.getD base.programName }
  | .tokens _ preserve => { base with lex.preserve := base.lex.preserve || preserve }
  | .builtins | .schema => base

/-- The file that holds the source, where `-` is the standard input. -/
def sourceFile? : Task → Option String
  | .compile file .. | .tokens file _ => some file
  | .builtins | .schema => none

end Task
end CalcBasic.Command

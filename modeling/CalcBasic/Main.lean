import CalcBasic.Command.Run

/-! The command-line program. -/
namespace CalcBasic.Command

def fileError : IO.Error → FileError
  | .noFileOrDirectory .. => .missing
  | .inappropriateType .. => .notDirectory
  | error => .other (toString error)

def attempt {α : Type} (action : IO α) : IO (Except FileError α) := do
  try return .ok (← action) catch error => return .error (fileError error)

/-- Reads what a command needs before it runs. -/
def gather (invocation : Invocation) : IO Sources := do
  let source := invocation.task.sourceFile?.toList
  let paths := invocation.config.toList ++ source.filter (· != "-")
  let texts ← paths.mapM fun (path : String) => return (path, ← attempt (IO.FS.readFile path))
  let input ←
    if source.contains "-" then attempt (do (← IO.getStdin).readToEnd) else pure (.ok "")
  return { file := fun path => (texts.lookup path).getD (.error .missing), input }

/-- Writes the file of an outcome. -/
def settleFile (outcome : Outcome) : IO Outcome := do
  match outcome.file with
  | none => return outcome
  | some (path, content) =>
    match ← attempt (IO.FS.writeFile path content) with
    | .ok _ => return outcome
    | .error reason => return outcome.unwritten path reason

def report (outcome : Outcome) : IO UInt32 := do
  for message in outcome.messages do IO.eprintln message
  IO.print outcome.output
  return outcome.exit.toUInt32

end CalcBasic.Command

open CalcBasic.Command in
def main (arguments : List String) : IO UInt32 := do
  match Invocation.read arguments with
  | .error halt => report halt.outcome
  | .ok invocation => report (← settleFile (invocation.run (← gather invocation)))

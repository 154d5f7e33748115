/-! Flags and operands of a command line. -/
namespace CalcBasic.Command

/-- What a flag takes. -/
inductive Takes where
  | nothing | text
  /-- Text that is not empty. -/
  | path
  deriving DecidableEq, Repr

structure Flag where
  long : String
  short : Option Char := none
  takes : Takes := .nothing
  deriving DecidableEq, Repr

/-- Why a command line asks for no task. -/
inductive Halt where
  | usage | help | version
  deriving DecidableEq, Repr

/-- The flags given so far, with their values, and the operands. -/
structure Given where
  values : List (String × String) := []
  operands : List String := []

def helpFlag : Flag := ⟨"help", some 'h', .nothing⟩

def versionFlag : Flag := ⟨"version", some 'V', .nothing⟩

namespace Given

def has (given : Given) (long : String) : Bool := given.values.any (·.1 == long)

def value? (given : Given) (long : String) : Option String := given.values.lookup long

/-- Adds a flag, which may be given only once. -/
def add (given : Given) (flag : Flag) (value : String) : Except Halt Given :=
  if flag = helpFlag then .error .help
  else if flag = versionFlag then .error .version
  else if given.has flag.long || (flag.takes = .path && value.isEmpty) then .error .usage
  else .ok { given with values := given.values ++ [(flag.long, value)] }

/-- Adds an operand if there is room for one. -/
def addOperand (given : Given) (room : Nat) (operand : String) : Except Halt Given :=
  if given.operands.length < room then
    .ok { given with operands := given.operands ++ [operand] }
  else .error .usage

end Given

/-- Reads `name` or `name=value`. A flag that still wants a value is handed back. -/
def readLong (flags : List Flag) (given : Given) (body : List Char) :
    Except Halt (Given × Option Flag) := do
  let (name, tail) := body.span (· != '=')
  match flags.find? (·.long == String.ofList name), tail with
  | none, _ => .error .usage
  | some flag, [] =>
    if flag.takes = .nothing then return (← given.add flag "", none) else return (given, some flag)
  | some flag, _ :: value =>
    if flag.takes = .nothing then .error .usage
    else return (← given.add flag (String.ofList value), none)

/-- Reads a cluster of one-letter flags. Only the last can take a value. -/
def readCluster (flags : List Flag) (given : Given) : List Char → Except Halt (Given × Option Flag)
  | [] => return (given, none)
  | letter :: rest => do
    match flags.find? (·.short == some letter) with
    | none => .error .usage
    | some flag =>
      if flag.takes = .nothing then readCluster flags (← given.add flag "") rest
      else
        match rest with
        | [] => return (given, some flag)
        | '=' :: value => return (← given.add flag (String.ofList value), none)
        | value => return (← given.add flag (String.ofList value), none)

def looksLikeFlag (argument : String) : Bool :=
  match argument.toList with
  | '-' :: _ :: _ => true
  | _ => false

/-- Reads arguments up to the name of a command, or all of them if `commands` is
off. `wanting` is the flag whose value comes next. -/
def readArguments (flags : List Flag) (commands : Bool) (room : Nat) (given : Given)
    (wanting : Option Flag) : List String → Except Halt (Given × List String)
  | [] => if wanting.isSome then .error .usage else .ok (given, [])
  | argument :: rest => do
    match wanting with
    | some flag =>
      if looksLikeFlag argument then .error .usage
      else readArguments flags commands room (← given.add flag argument) none rest
    | none =>
      match argument.toList with
      | ['-', '-'] => return (← rest.foldlM (·.addOperand room) given, [])
      | '-' :: '-' :: body =>
        let (given, wanting) ← readLong flags given body
        readArguments flags commands room given wanting rest
      | '-' :: letter :: body =>
        let (given, wanting) ← readCluster flags given (letter :: body)
        readArguments flags commands room given wanting rest
      | _ =>
        if commands then return (given, argument :: rest)
        else readArguments flags commands room (← given.addOperand room argument) none rest

end CalcBasic.Command

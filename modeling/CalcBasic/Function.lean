import CalcBasic.Builtin
import CalcBasic.Number.Numeral

/-! The functions a program can call: its own, and the builtins it does not
redefine. -/
namespace CalcBasic

/-- A function of the program. Until its definition is read it has no body. -/
structure UserFunction where
  /-- In lower case. -/
  name : String
  id : Nat
  inline : Bool
  params : List String
  /-- Least number of arguments. -/
  required : Nat
  body : Option Tree

namespace UserFunction

/-- Name of the list that holds the arguments of a call. -/
def argumentList (f : UserFunction) : String := "ARG" ++ Number.base36 f.id

def accepts (f : UserFunction) (count : Nat) : Bool := f.required ≤ count && count ≤ f.params.length

def describeArity (f : UserFunction) : String :=
  if f.required = f.params.length then toString f.required
  else toString f.required ++ " to " ++ toString f.params.length

end UserFunction

inductive Function where
  | builtin (f : Builtin)
  | user (f : UserFunction)

/-- The functions of a program, in order of declaration. -/
structure FunctionTable where
  users : List UserFunction := []

namespace FunctionTable

def user? (table : FunctionTable) (name : String) : Option UserFunction :=
  let lower := name.toLower
  table.users.find? (·.name == lower)

/-- A function of the program hides a builtin of its name. -/
def find? (table : FunctionTable) (name : String) : Option Function :=
  (table.user? name).map .user <|> (Builtin.find? name).map .builtin

/-- The builtins that the program does not redefine. -/
def builtins (table : FunctionTable) : List Builtin :=
  Builtin.catalogue.filter fun builtin => !table.users.any (·.name == builtin.name)

/-- Makes a name known and gives its id. A name keeps its first id. -/
def declare (table : FunctionTable) (name : String) (inline : Bool) : Nat × FunctionTable :=
  match table.user? name with
  | some f => (f.id, table)
  | none =>
    let id := table.users.length
    let f := { name := name.toLower, id, inline, params := [], required := 0, body := none }
    (id, ⟨table.users ++ [f]⟩)

/-- Gives a function its parameters and body, declaring it first if need be. -/
def define (table : FunctionTable) (name : String) (inline : Bool) (params : List String)
    (required : Nat) (body : Tree) : Nat × FunctionTable :=
  let (id, table) := table.declare name inline
  let lower := name.toLower
  let complete := fun f =>
    if f.name == lower then { f with inline, params, required, body := some body } else f
  (id, ⟨table.users.map complete⟩)

/-- The type of what a call gives. Unknown types are guessed from the name. -/
def returnType (table : FunctionTable) (name : String) : ValueType :=
  let lower := name.toLower
  let guess : ValueType :=
    if "str_".toList.isPrefixOf lower.toList then .text
    else if "array_".toList.isPrefixOf lower.toList then .list
    else .number
  match table.find? name with
  | some (.user _) => .number
  | some (.builtin f) => f.returns.getD guess
  | none => guess

end FunctionTable
end CalcBasic

import CalcBasic.Emit.Statement

/-! Code of calls and of the functions they reach. A program calls its own
functions by running itself again, with the id of the function in the selector
and the arguments in a list. -/
namespace CalcBasic
namespace Emit

variable (render : Renderer)

def wrongCount {α : Type} (name : String) (arguments : List Tree) (expected : String) (line : Nat) : Emit α :=
  fail (.argumentCount name arguments.length expected) (some line)

def builtinCall (name : String) (f : Builtin) (arguments : List Tree) (line : Nat) : Emit String := do
  match f.expansion with
  | some expansion => render false (expansion.expand arguments line)
  | none =>
    if !f.arity.accepts arguments.length then wrongCount name arguments f.arity.describe line
    else if arguments.isEmpty then return f.target
    else
      let list := ",".intercalate (← renderAll render arguments)
      return if f.parens then f.target ++ "(" ++ list ++ ")" else f.target ++ " " ++ list

/-- Expands a function in place, after assignments to its parameters. -/
def inlineCall (name : String) (f : UserFunction) (arguments : List Tree) (line : Nat) : Emit String := do
  if (← get).inlining.contains f.name then fail (.inlinedIntoItself name) (some line)
  else
    match f.body with
    | none => fail (.bodiless name) (some line)
    | some body =>
      let setup ← (f.params.zip arguments).mapM fun (param, argument) =>
        assign render (.var param) .set argument line
      let code ← expanding f.name (render false body)
      return Code.joinLines (setup ++ [code])

/-- Runs the program again to reach the section of a function. -/
def sectionCall (f : UserFunction) (arguments : List Tree) : Emit String := do
  let pass ←
    if arguments.isEmpty then pure []
    else
      let list ← listLiteral render arguments
      pure [Code.trimClosers list ++ "→∟" ++ f.argumentList]
  let place ← variableCode selector
  let select := toString f.id ++ "→" ++ place
  return ":".intercalate (pass ++ [select, "prgm" ++ (← get).program, "Ans"])

/-- Arguments that are left out count as zero. -/
def userCall (name : String) (f : UserFunction) (arguments : List Tree) (line : Nat) : Emit String :=
  if !f.accepts arguments.length then wrongCount name arguments f.describeArity line
  else
    let padded := arguments ++ List.replicate (f.params.length - arguments.length) (.number 0)
    if f.inline then inlineCall render name f padded line else sectionCall render f padded

def call (name : String) (arguments : List Tree) (line : Nat) : Emit String := do
  match (← get).symbols.functions.find? name with
  | none => fail (.unknownFunction name) (some line)
  | some (.builtin f) => builtinCall render name f arguments line
  | some (.user f) => userCall render name f arguments line

/-- Counts the equal elements. -/
def membership (value collection : Tree) : Emit String :=
  call render "array_sum" [.compare value .eq collection] 0

/-! ### Function sections -/

/-- No function has the id -1, so the program then runs its main part. -/
def resetSelector : Emit String := return "-1→" ++ (← variableCode selector)

def loadParams (f : UserFunction) (params : List String) : Emit (List String) :=
  params.zipIdx.mapM fun (param, index) => do
    let place ← variableCode param
    return "∟" ++ f.argumentList ++ "(" ++ toString (index + 1) ++ ")→" ++ place

/-- The section of a function: entered when the selector holds its id. A function
that is expanded in place has none. -/
def function (name : String) (params : List String) (body : Tree) (inline : Bool) : Emit String := do
  if inline then return ""
  else
    match (← get).symbols.functions.user? name with
    | none => fail (.unknownFunction name) none
    | some f =>
      let place ← variableCode selector
      let reset ← resetSelector
      let load ← loadParams f params
      let code ← render false body
      let leave := if Tree.returnMarker.toList.isSuffixOf code.toList then [] else [Tree.returnMarker]
      return Code.joinLines (["If " ++ place ++ "=" ++ toString f.id ++ ":Then", reset] ++ load ++
        [code] ++ leave ++ ["End"])

end Emit
end CalcBasic

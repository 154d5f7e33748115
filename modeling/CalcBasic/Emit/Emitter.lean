import CalcBasic.Code.Layout
import CalcBasic.Symbols

/-! The state in which code is emitted. Emitting settles where variables live and
leaves remarks in the symbol table; both stay there after an error. -/
namespace CalcBasic

structure Emitter where
  symbols : Symbols
  /-- Whether the calculator has a function for remainders. -/
  modern : Bool
  /-- Whether constant operations are replaced by their value. -/
  folding : Bool
  /-- Name under which the program calls itself. -/
  program : String
  /-- Functions being expanded in place, the innermost first. -/
  inlining : List String := []

abbrev Emit := ExceptT CompileError (StateM Emitter)

/-- How subtrees are rendered. The flag says that the root of the tree has been
through folding already. -/
abbrev Renderer := Bool → Tree → Emit String

namespace Emit

def fail {α : Type} (fault : Fault) (line : Option Nat) : Emit α := throw ⟨fault, line⟩

/-- Asks the symbol table. -/
def query {α : Type} (ask : Symbols → α × Symbols) : Emit α :=
  modifyGet fun emitter =>
    let (answer, symbols) := ask emitter.symbols
    (answer, { emitter with symbols })

def update (change : Symbols → Symbols) : Emit Unit :=
  modify fun emitter => { emitter with symbols := change emitter.symbols }

def remark (remark : Remark) : Emit Unit := update (·.remark remark none)

def temporary : Emit String := query Symbols.temporary

/-- Runs an action with folding off. -/
def unfolded {α : Type} (action : Emit α) : Emit α := ExceptT.mk do
  let folding := (← get).folding
  modify fun emitter => { emitter with folding := false }
  let result ← action.run
  modify fun emitter => { emitter with folding }
  return result

/-- Runs an action inside the expansion of a function. -/
def expanding {α : Type} (name : String) (action : Emit α) : Emit α := ExceptT.mk do
  let inlining := (← get).inlining
  modify fun emitter => { emitter with inlining := name :: inlining }
  let result ← action.run
  modify fun emitter => { emitter with inlining }
  return result

/-! ### Variables -/

def listCode (name : String) : Emit String := return "∟" ++ (← query (·.listName name))

def textCode (name : String) : Emit String := do
  match ← query (·.textName name) with
  | some code => return code
  | none => fail (.textVariablesExhausted name) none

def scalarCode (name : String) : Emit String := do
  match ← query (·.slot name) with
  | .letter letter => return letter.toString
  | .overflow index => return (← listCode overflowList) ++ "(" ++ toString index ++ ")"

/-- A variable lives where its type says. -/
def variableCode (name : String) : Emit String := do
  match (← get).symbols.type name with
  | .list => listCode name
  | .text => textCode name
  | .number | .boolean => scalarCode name

end Emit
end CalcBasic

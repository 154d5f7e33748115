import CalcBasic.Emit.Call

/-! Rendering of whole trees. Every construct is rendered from trees of lower
rank, except that a call expanded in place renders the body of its function; no
function is expanded within itself, so the depth of a rendering is bounded. -/
namespace CalcBasic
namespace Tree

/-- How much a tree adds to the rank of its highest subtree: more than the trees
it is rendered through add. -/
def weight : Tree → Nat
  | .range .. | .assign .. | .membership .. => 2
  | .forEach .. => 6
  | .call name _ _ =>
    match (Builtin.find? name).bind Builtin.expansion with
    | some .shape => 12
    | some _ => 8
    | none => 4
  | _ => 1

def rank (tree : Tree) : Nat :=
  tree.weight + (tree.children.attach.map fun ⟨child, _⟩ => rank child).foldl max 0
termination_by sizeOf tree
decreasing_by exact sizeOf_lt_of_mem_children ‹_›

end Tree

/-- Enough depth for the rendering of a tree. -/
def Emitter.depth (emitter : Emitter) (tree : Tree) : Nat :=
  let users := emitter.symbols.functions.users
  let highest := (users.filterMap fun f => f.body.map Tree.rank).foldl max tree.rank
  (users.length + 1) * (2 * highest + 2)

namespace Emit

/-- Renders one construct. -/
def construct (render : Renderer) (settled : Bool) (tree : Tree) : Emit String := do
  match tree with
  | .number value => return Number.code value
  | .boolean value => return if value then "1" else "0"
  | .text value => return "\"" ++ value ++ "\""
  | .list items => listLiteral render items
  | .var name => variableCode name
  | .listVar name => listCode name
  | .textVar name => textCode name
  | .commas items => return ",".intercalate (← renderAll render items)
  | .range start stop step inclusive standalone =>
    let code ← rangeValues ⟨start, stop, step, inclusive⟩
    return if standalone then braced code else code
  | .assign target mode value line => assign render target mode value line
  | .element base index =>
    let list ← render false base
    let place ← render false index
    return list ++ "(" ++ place ++ ")"
  | .block statements => return Code.joinLines (← renderAll render statements)
  | .arith left op right =>
    if settled then arithmetic render left op right else render true (← settle render tree)
  | .compare left op right =>
    if settled then comparison render left op right else render true (← settle render tree)
  | .call name arguments line => call render name arguments line
  | .membership value collection => membership render value collection
  | .branch condition body otherwise => branch render condition body otherwise
  | .forEach counter collection body => forEach render counter collection body
  | .loop condition body untilTrue => loop render condition body untilTrue
  | .function name params body inline => function render name params body inline
  | .native code =>
    return if code = Tree.returnMarker && !(← get).inlining.isEmpty then "" else code
  | .line statements => return Code.joinStatements (← renderAll render statements)

/-- Rendering to a limited depth. -/
def render : Nat → Renderer
  | 0 => fun _ _ => fail .tooDeep none
  | depth + 1 => construct (render depth)

/-- The code of a tree. -/
def code (tree : Tree) : Emit String := do render ((← get).depth tree) false tree

/-- A tree with its root folded, if it can be. -/
def folded (tree : Tree) : Emit Tree := do settle (render ((← get).depth tree)) tree

/-! ### Programs -/

def hasSection : Tree → Bool
  | .function _ _ _ inline => !inline
  | _ => false

/-- Sections of functions come first, since calls run the program from its top;
the selector is reset between them and the main part. -/
def layOut (statements : List Tree) : Emit String := do
  let codes ← statements.mapM fun tree => return (hasSection tree, ← code tree)
  let sections := (codes.filter (·.1)).map (·.2)
  let main := (codes.filter (!·.1)).map (·.2)
  if sections.isEmpty then return Code.joinLines main
  else return Code.joinLines (sections ++ [← resetSelector] ++ main)

/-- The code of a program, which is a block or one statement. -/
def program (tree : Tree) : Emit String := do
  let text ← match tree with
    | .block statements => layOut statements
    | other => code other
  return Code.trimBreaks text

end Emit
end CalcBasic

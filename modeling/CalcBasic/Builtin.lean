import CalcBasic.Tree

/-! The functions the language provides, with their rendering in calculator
code. This table is the only place that names them. -/
namespace CalcBasic

/-- Accepted numbers of arguments. -/
inductive Arity where
  | exactly (counts : List Nat)
  | atLeast (least : Nat)
  | any
  deriving DecidableEq, Repr

namespace Arity

def accepts : Arity → Nat → Bool
  | .exactly counts, count => counts.contains count
  | .atLeast least, count => least ≤ count
  | .any, _ => true

def describe : Arity → String
  | .exactly counts => " or ".intercalate (counts.map toString)
  | .atLeast least => "at least " ++ toString least
  | .any => "any number"

end Arity

/-- A function that is replaced by a tree built from its arguments. -/
inductive Expansion where
  | path | shape | between | oneLine
  deriving DecidableEq, Repr

namespace Expansion

/-- Windows of four coordinates, moving on by one point of two coordinates. What
is left at the end may be shorter. -/
def segments : List Tree → List (List Tree)
  | a :: b :: c :: rest => (a :: b :: c :: rest.take 1) :: segments (c :: rest)
  | _ => []

def pathTree (points : List Tree) (line : Nat) : Tree :=
  .line ((segments points).map fun segment => Tree.callOf "draw_line" segment line)

/-- A path and the line from its last point back to the first. -/
def shapeTree (points : List Tree) (line : Nat) : Tree :=
  let closing := points.drop (points.length - 2) ++ points.take 2
  .line [Tree.callOf "draw_path" points line, Tree.callOf "draw_line" closing line]

/-- A random number between two bounds, by default 0 and 1. -/
def betweenTree (bounds : List Tree) (line : Nat) : Tree :=
  let least := bounds[0]?.getD (.number 0)
  let most := bounds[1]?.getD (.number 1)
  .arith least .add (.arith (Tree.callOf "random" [] line) .mul (.arith most .sub least))

def expand : Expansion → List Tree → Nat → Tree
  | .path => pathTree
  | .shape => shapeTree
  | .between => betweenTree
  | .oneLine => fun statements _ => .line statements

end Expansion

structure Builtin where
  name : String
  /-- Name in calculator code. -/
  target : String
  /-- Whether arguments stand in parentheses, not after a blank. -/
  parens : Bool
  arity : Arity
  returns : Option ValueType
  expansion : Option Expansion
  category : String
  description : String
  deriving DecidableEq, Repr

namespace Builtin

def function (name target : String) (arity : Arity) (category description : String) : Builtin :=
  { name, target, parens := true, arity, returns := none, expansion := none, category, description }

def command (name target : String) (arity : Arity) (category description : String) : Builtin :=
  { name, target, parens := false, arity, returns := none, expansion := none, category, description }

def returning (type : ValueType) (builtin : Builtin) : Builtin :=
  { builtin with returns := some type }

def expanding (name : String) (expansion : Expansion) (category description : String) : Builtin :=
  { name, target := "", parens := false, arity := .any, returns := none, expansion := some expansion,
    category, description }

/-- All builtin functions, by lower case name. -/
def catalogue : List Builtin :=
  [
    command "pause" "Pause" (.exactly [0, 1]) "flow" "Wait for enter, optionally showing a value",
    command "goto" "Goto" (.exactly [1]) "flow" "Jump to a label",
    command "label" "Lbl" (.exactly [1]) "flow" "Define a label",
    function "menu" "Menu" (.exactly [3, 5, 7, 9, 11, 13, 15]) "flow"
      "Title followed by text/label pairs",
    command "exit" "Stop" (.exactly [0]) "flow" "Stop the program",
    command "die" "Stop" (.exactly [0]) "flow" "Stop the program",
    function "setgraphstyle" "GraphStyle" (.exactly [1]) "flow" "Set graph style",
    command "disp" "Disp" .any "io" "Display values",
    command "echo" "Disp" .any "io" "Display values",
    command "print" "Disp" .any "io" "Display values",
    command "clrhome" "ClrHome" (.exactly [0]) "io" "Clear the home screen",
    command "clrscreen" "ClrHome:ClrDraw" (.exactly [0]) "io" "Clear home and graph screens",
    function "output" "Output" (.exactly [3]) "io" "Write at row, column",
    command "getkey" "getKey" (.exactly [0]) "io" "Last key pressed",
    command "prompt" "Prompt" .any "io" "Ask for values",
    function "draw_line" "Line" (.exactly [4, 5]) "draw" "Line between two points",
    command "clrdraw" "ClrDraw" (.exactly [0]) "draw" "Clear the graph screen",
    function "text" "Text" (.atLeast 3) "draw" "Draw text at row, column",
    function "circle" "Circle" (.exactly [3]) "draw" "Circle from center and radius",
    function "shade" "Shade" (.exactly [2, 3, 4, 5, 6]) "draw" "Shade between functions",
    function "pton" "Pt-On" (.exactly [2, 3]) "draw" "Turn a point on",
    function "pt_on" "Pt-On" (.exactly [2, 3]) "draw" "Turn a point on",
    function "ptoff" "Pt-Off" (.exactly [2, 3]) "draw" "Turn a point off",
    function "pt_off" "Pt-Off" (.exactly [2, 3]) "draw" "Turn a point off",
    function "ptchange" "Pt-Change" (.exactly [2]) "draw" "Toggle a point",
    function "pt_change" "Pt-Change" (.exactly [2]) "draw" "Toggle a point",
    function "pttoggle" "Pt-Change" (.exactly [2]) "draw" "Toggle a point",
    function "pt_toggle" "Pt-Change" (.exactly [2]) "draw" "Toggle a point",
    function "pxlon" "Pxl-On" (.exactly [2]) "draw" "Turn a pixel on",
    function "pxl_on" "Pxl-On" (.exactly [2]) "draw" "Turn a pixel on",
    function "pxloff" "Pxl-Off" (.exactly [2]) "draw" "Turn a pixel off",
    function "pxl_off" "Pxl-Off" (.exactly [2]) "draw" "Turn a pixel off",
    function "pxlchange" "Pxl-Change" (.exactly [2]) "draw" "Toggle a pixel",
    function "pxl_change" "Pxl-Change" (.exactly [2]) "draw" "Toggle a pixel",
    function "pxltoggle" "Pxl-Change" (.exactly [2]) "draw" "Toggle a pixel",
    function "pxl_toggle" "Pxl-Change" (.exactly [2]) "draw" "Toggle a pixel",
    function "pxltest" "pxl-Test" (.exactly [2]) "draw" "1 if the pixel is on",
    function "abs" "abs" (.exactly [1]) "math" "Absolute value",
    function "round" "round" (.exactly [1, 2]) "math" "Round, optionally to n digits",
    function "rand_int" "randInt" (.exactly [2]) "math" "Random integer in [min, max]",
    command "random" "rand" (.exactly [0]) "math" "Random number in [0, 1)",
    command "gettime" "getTime" (.exactly [0]) "time" "Clock time",
    returning .number (function "array_sum" "sum" (.exactly [1]) "array" "Sum of elements"),
    returning .number (function "array_count" "dim" (.exactly [1]) "array" "Number of elements"),
    returning .number (function "array_length" "dim" (.exactly [1]) "array" "Number of elements"),
    returning .number (function "str_length" "length" (.exactly [1]) "string"
      "Length of a string"),
    returning .text (function "str_sub" "sub" (.exactly [2, 3]) "string" "Substring"),
    returning .boolean (function "not" "not" (.exactly [1]) "bool" "Logical not"),
    expanding "draw_path" .path "draw" "Lines through x,y pairs",
    expanding "draw_shape" .shape "draw" "Closed polygon through x,y pairs",
    expanding "rand" .between "math" "Random number in [min, max), defaults 0 and 1",
    expanding "do" .oneLine "flow" "Run statements on one line"
  ]

/-- The builtin of that name, without regard to ASCII case. -/
def find? (name : String) : Option Builtin :=
  let lower := name.toLower
  catalogue.find? (·.name == lower)

end Builtin
end CalcBasic

import CalcBasic.Diagnostic
import CalcBasic.Function
import CalcBasic.Text.Upper

/-! The symbol table of one program: its variables and where they live, its
functions, and the remarks made on it. -/
namespace CalcBasic

/-- Where a scalar variable lives. -/
inductive Slot where
  | letter (name : Char)
  /-- Place in the overflow list, counted from 1. -/
  | overflow (index : Nat)
  deriving DecidableEq, Repr

/-- The scalar variables of the calculator, in the order they are given out. -/
def alphabet : List Char :=
  ['A', 'B', 'C', 'D', 'E', 'F', 'G', 'H', 'I', 'J', 'K', 'L', 'M', 'N', 'O', 'P', 'Q', 'R', 'S', 'T',
    'U', 'V', 'W', 'X', 'Y', 'Z', 'θ']

def Slot.ofRank (rank : Nat) : Slot :=
  match alphabet[rank]? with
  | some name => .letter name
  | none => .overflow (rank - alphabet.length + 1)

/-- Name of the list that holds the scalars past the alphabet. -/
def overflowList : String := "__GLOBALS"

/-- The variable that holds the id of the function being called. -/
def selector : String := "@fn"

/-- The calculator has this many text variables. -/
def textVariables : Nat := 10

structure Variable where
  /-- In lower case. -/
  name : String
  uses : Nat
  type : ValueType
  deriving DecidableEq, Repr

/-- Keys numbered in the order they were first asked for. -/
abbrev Numbering := List String

namespace Numbering

/-- The number of a key, the next free one for a new key. -/
def number (numbering : Numbering) (key : String) : Nat × Numbering :=
  if numbering.contains key then (numbering.idxOf key, numbering)
  else (numbering.length, numbering ++ [key])

end Numbering

structure Symbols where
  /-- In order of first reference. -/
  entries : List Variable := []
  /-- Ranking of the scalars, settled by the first query. -/
  ranking : Option Numbering := none
  lists : Numbering := [overflowList]
  texts : Numbering := []
  functions : FunctionTable := {}
  temporaries : Nat := 0
  diagnostics : List Diagnostic := []

namespace Symbols

/-! ### Variables -/

def entry? (symbols : Symbols) (name : String) : Option Variable :=
  let lower := name.toLower
  symbols.entries.find? (·.name == lower)

def uses (symbols : Symbols) (name : String) : Nat :=
  ((symbols.entry? name).map Variable.uses).getD 0

def type (symbols : Symbols) (name : String) : ValueType :=
  ((symbols.entry? name).map Variable.type).getD .number

/-- Changes the variable of a name, if there is one. -/
def update (symbols : Symbols) (name : String) (change : Variable → Variable) : Symbols :=
  let lower := name.toLower
  { symbols with entries := symbols.entries.map fun v => if v.name == lower then change v else v }

/-- Counts one more use of a name. -/
def reference (symbols : Symbols) (name : String) : Symbols :=
  match symbols.entry? name with
  | some _ => symbols.update name fun v => { v with uses := v.uses + 1 }
  | none => { symbols with entries := symbols.entries ++ [⟨name.toLower, 1, .number⟩] }

def setType (symbols : Symbols) (name : String) (type : ValueType) : Symbols :=
  symbols.update name fun v => { v with type }

/-- A variable no program can name. -/
def temporary (symbols : Symbols) : String × Symbols :=
  let name := "@" ++ toString symbols.temporaries
  (name, { symbols with temporaries := symbols.temporaries + 1 }.reference name)

/-- Puts a variable behind those used at least as often. -/
def insertByUses (v : Variable) : List Variable → List Variable
  | [] => [v]
  | w :: rest => if v.uses ≤ w.uses then w :: insertByUses v rest else v :: w :: rest

/-- Names by falling number of uses. Equally used names keep their order. -/
def ranked (entries : List Variable) : Numbering :=
  (entries.foldl (fun sorted v => insertByUses v sorted) []).map Variable.name

/-- The home of a scalar. The ranking is fixed by the first query; later names
follow in the order of their queries. -/
def slot (symbols : Symbols) (name : String) : Slot × Symbols :=
  let (rank, ranking) := (symbols.ranking.getD (ranked symbols.entries)).number name.toLower
  (Slot.ofRank rank, { symbols with ranking := some ranking })

/-! ### Lists and texts -/

def listName (symbols : Symbols) (name : String) : String × Symbols :=
  let (number, lists) := symbols.lists.number (Text.upper name)
  ("ARR" ++ Number.base36 number, { symbols with lists })

/-- The text variable of a name; `none` once other names hold all of them. -/
def textName (symbols : Symbols) (name : String) : Option String × Symbols :=
  let (number, texts) := symbols.texts.number name.toLower
  if number < textVariables then
    (some ("Str" ++ toString ((number + 1) % textVariables)), { symbols with texts })
  else (none, symbols)

/-! ### Functions and remarks -/

def declare (symbols : Symbols) (name : String) (inline : Bool) : Nat × Symbols :=
  let (id, functions) := symbols.functions.declare name inline
  (id, { symbols with functions })

def define (symbols : Symbols) (name : String) (inline : Bool) (params : List String)
    (required : Nat) (body : Tree) : Nat × Symbols :=
  let (id, functions) := symbols.functions.define name inline params required body
  (id, { symbols with functions })

def remark (symbols : Symbols) (remark : Remark) (line : Option Nat) : Symbols :=
  { symbols with diagnostics := symbols.diagnostics ++ [⟨remark, line⟩] }

end Symbols

/-- The type of the value of a tree, as far as it shows. -/
def Tree.type (symbols : Symbols) : Tree → ValueType
  | .number _ => .number
  | .boolean _ => .boolean
  | .text _ | .textVar _ => .text
  | .list _ | .listVar _ | .commas _ | .range .. => .list
  | .var name => symbols.type name
  | .arith left _ right =>
    let types := [left.type symbols, right.type symbols]
    if types.contains .list then .list else if types.contains .text then .text else .number
  | .compare left _ right =>
    if left.type symbols == .list || right.type symbols == .list then .list else .boolean
  | .call name _ _ => symbols.functions.returnType name
  | _ => .number

end CalcBasic

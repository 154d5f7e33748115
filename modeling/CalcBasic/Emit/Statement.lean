import CalcBasic.Emit.Expression

/-! Code of assignments, branches and loops. -/
namespace CalcBasic
namespace Tree

def isAssignable : Tree → Bool
  | .var _ | .listVar _ | .textVar _ | .element .. => true
  | _ => false

/-- The truth of a literal condition. -/
def truth? : Tree → Option Bool
  | .boolean value => some value
  | .number value => some (value != 0)
  | _ => none

def isOne : Tree → Bool
  | .number value => value == 1
  | _ => false

/-- A body that is one conditional of at most one statement. Its end would be
taken for the end of the loop around it unless the header of the loop is closed. -/
def isLoneConditional : Tree → Bool
  | .block [only] => only.isLoneConditional
  | .branch _ body none => body.statementCount < 2
  | _ => false

end Tree

/-- The last value that a counter may take. -/
def Range.lastValue (range : Range) : Tree :=
  if range.inclusive then range.stop
  else
    match range.step.constantNumber with
    | .ok (some step) => .arith range.stop (if step < 0 then .add else .sub) (.number 1)
    | _ => .arith range.stop .sub (.number 1)

namespace Emit

variable (render : Renderer)

/-! ### Ranges at run time -/

def store (target value : Tree) : Emit String := do
  let code ← render false value
  let place ← render false target
  return Code.trimClosers code ++ "→" ++ place

/-- A variable takes the type of what is assigned to it. -/
def takeType (target value : Tree) : Emit Unit :=
  match target with
  | .var name => update fun symbols => symbols.setType name (value.type symbols)
  | _ => pure ()

def storeTyped (target value : Tree) : Emit String := do
  takeType target value
  store render target value

/-- The head of a loop over a range, not closed. -/
def countedLoop (counter : Tree) (range : Range) : Emit String := do
  let counter ← render false counter
  let start ← render false range.start
  let stop ← render false range.lastValue
  let step ← settle render range.step
  let header := "For(" ++ counter ++ "," ++ start ++ "," ++ stop
  if step.isOne then return header else return header ++ "," ++ (← render true step)

/-- A loop that fills a list with the values of a range, and the list. -/
def fillList (range : Range) : Emit (String × Tree) := do
  let list := Tree.var (← temporary)
  let count := Tree.var (← temporary)
  let counter := Tree.var (← temporary)
  let create ← storeTyped render list (.list [.number 0])
  let reset ← storeTyped render count (.number 0)
  let header ← countedLoop render counter range
  let next ← storeTyped render count (.arith count .add (.number 1))
  let fill ← storeTyped render (.element list count) counter
  return ("\n".intercalate [create, reset, header, Code.joinLines [next, fill], "End"], list)

/-- The loop that fills a list with a range, if the range cannot be a literal. -/
def fillAtRunTime? (range : Range) : Emit (Option (String × Tree)) := do
  match range.values with
  | .ok (some _) => return none
  | .ok none => return some (← fillList render range)
  | .error reason =>
    remark (.filledAtRunTime reason)
    return some (← fillList render range)

/-! ### Assignments -/

def assignedValue (target : Tree) (mode : Store) (value : Tree) : Tree :=
  match mode with
  | .set => value
  | .update op => .arith target op value

def assign (target : Tree) (mode : Store) (value : Tree) (line : Nat) : Emit String := do
  if !target.isAssignable then fail .notAssignable (some line)
  else
    let value := assignedValue target mode value
    takeType target value
    match value.range? with
    | none => store render target value
    | some range =>
      match ← fillAtRunTime? render range with
      | none => store render target value
      | some (setup, list) =>
        let code ← render false list
        let place ← render false target
        return setup ++ "\n" ++ code ++ "→" ++ place

/-! ### Branches and loops -/

def branch (condition body : Tree) (otherwise : Option Tree) : Emit String := do
  let condition ← settle render condition
  match condition.truth?, otherwise with
  | some true, _ => render false body
  | some false, some other => render false other
  | some false, none => return ""
  | none, _ =>
    let test ← render true condition
    let code ← render false body
    match otherwise with
    | some other =>
      let rest ← render false other
      return "If " ++ test ++ ":Then\n" ++ code ++ "\nElse\n" ++ rest ++ "\nEnd"
    | none =>
      if Code.countStatements code = 1 then return "If " ++ test ++ "\n" ++ code
      else return "If " ++ test ++ ":Then\n" ++ code ++ "\nEnd"

def loop (condition body : Tree) (untilTrue : Bool) : Emit String := do
  let test ← render false condition
  let code ← render false body
  return (if untilTrue then "Repeat " else "While ") ++ test ++ "\n" ++ code ++ "\nEnd"

/-- The list that a loop runs over, and the code that prepares it. -/
def loopList (collection : Tree) : Emit (String × Tree) := do
  match collection.range?, collection with
  | some range, _ => fillList render range
  | none, .var name =>
    update fun symbols => symbols.setType name .list
    return ("", collection)
  | none, .listVar _ => return ("", collection)
  | none, _ =>
    let copy := Tree.var (← temporary)
    return (← storeTyped render copy collection, copy)

/-- A loop over the elements of a list, by their indices. -/
def listLoop (counter collection body : Tree) : Emit String := do
  let (setup, list) ← loopList render collection
  let length := Tree.var (← temporary)
  let index := Tree.var (← temporary)
  let measure ← storeTyped render length (Tree.callOf "array_length" [list] 0)
  let place ← render false index
  let bound ← render false length
  let load ← assign render counter .set (.element list index) 0
  let code ← render false body
  return Code.joinLines [setup, measure, "For(" ++ place ++ ",1," ++ bound, load, code, "End"]

def forEach (counter collection body : Tree) : Emit String := do
  match collection.range?.filter Range.hasSimpleBounds with
  | some range =>
    let header ← countedLoop render counter range
    let code ← render false body
    return header ++ (if body.isLoneConditional then ")\n" else "\n") ++ code ++ "\nEnd"
  | none => listLoop render counter collection body

end Emit
end CalcBasic

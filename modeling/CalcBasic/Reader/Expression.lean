import CalcBasic.Reader.Shape
import CalcBasic.Symbols

/-! Reading expressions. Reading counts the uses of variables and leaves remarks
in the symbol table; both stay there after an error. -/
namespace CalcBasic

abbrev Read := ExceptT CompileError (StateM Symbols)

namespace Read

def remark (remark : Remark) (line : Option Nat) : Read Unit :=
  modify fun symbols => symbols.remark remark line

def fail {α : Type} (fault : Fault) (line : Nat) : Read α := throw ⟨fault, some line⟩

/-- A bracket that is not closed is only remarked on. -/
def checkClosed (closed : Bool) (bracket : Token) : Read Unit :=
  if closed then pure () else remark (.unmatched bracket.text) (some bracket.line)

/-- Counts a use of a variable. -/
def reference (name : String) : Read String := do
  modify fun symbols => symbols.reference name
  return name.toLower

variable (markUnknown : Bool)

/-- Text between the first and the last byte; empty if a longer character stands
at either end. -/
def unquoted (text : String) : String :=
  match text.toList, text.toList.getLast? with
  | first :: rest, some last =>
    if first.utf8Size = 1 && last.utf8Size = 1 then String.ofList rest.dropLast else ""
  | _, _ => ""

/-- Tokens that make no expression: they are dropped, or marked on request. -/
def unknown (tokens : List Token) : Read Tree := do
  remark (.unrecognized (tokens.map Token.text)) (tokens.head?.map Token.line)
  return if markUnknown then .text "unknown_expr" else .native ""

def number (token : Token) : Read Tree :=
  match Number.ofLiteral token.text with
  | .ok value => return .number value
  | .error radix => fail (.impossibleRadix radix) token.line

def word (name : Token) : Read Tree := do
  if name.spells "true" then return .boolean true
  else if name.spells "false" then return .boolean false
  else return .var (← reference name.text)

def literal (token : Token) (alone : Bool) : Read Tree := do
  let tree ← match token.tag with
    | .number => number token
    | .text => pure (.text (unquoted token.text))
    | _ => pure (.native token.text)
  unless alone do remark (.afterLiteral token.text) (some token.line)
  return tree

/-- A range inside a list literal is rendered as part of it. -/
def listItem : Tree → Tree
  | .range start stop step inclusive _ => .range start stop step inclusive false
  | tree => tree

/-- A call of a function that is not expanded in place needs the selector. -/
def callTree (name : Token) (arguments : List Tree) : Read Tree := do
  match (← get).functions.user? name.text with
  | some f => unless f.inline do modify fun symbols => symbols.reference selector
  | none => pure ()
  return Tree.callOf name.text arguments name.line

def operationTree (left : Tree) (op : Operator) (right : Tree) : Tree :=
  match op with
  | .arith op => .arith left op right
  | .compare op => .compare left op right

/-- The part of a token list that belongs to its first statement. -/
def upToTerminator (tokens : List Token) : List Token := tokens.takeWhile (!·.isTerminator)

theorem part_shorter {functions : FunctionTable} {tokens part : List Token} {shape : Shape}
    (isShape : Shape.of functions (upToTerminator tokens) = shape) (isPart : part ∈ shape.parts) :
    part.length < tokens.length := by
  subst isShape
  exact Nat.lt_of_lt_of_le (Shape.length_lt_of_mem_parts isPart) (List.takeWhile_sublist _).length_le

/-- Reads an expression, up to the first terminator. -/
def expression (tokens : List Token) : Read Tree := do
  match _shape : Shape.of (← get).functions (upToTerminator tokens) with
  | .nothing | .unknown => unknown markUnknown (upToTerminator tokens)
  | .group bracket closed inside =>
    checkClosed closed bracket
    expression inside
  | .list bracket closed items =>
    checkClosed closed bracket
    return .list (← items.attach.mapM fun item =>
      return listItem (← expression item.1))
  | .unclosedCall name bracket => fail (.unclosedArguments name.text) bracket.line
  | .call name arguments =>
    callTree name (← arguments.attach.mapM fun argument => expression argument.1)
  | .membership value collection =>
    return .membership (← expression value) (← expression collection)
  | .range start inclusive stop (some step) =>
    return .range (← expression start) (← expression stop)
      (← expression step) inclusive true
  | .range start inclusive stop none =>
    return .range (← expression start) (← expression stop) (.number 1)
      inclusive true
  | .operation left op right =>
    return operationTree (← expression left) op (← expression right)
  | .negative operand => return .arith (.number 0) .sub (← expression operand)
  | .positive operand => expression operand
  | .complement mark operand =>
    return Tree.callOf "not" [← expression operand] mark.line
  | .word name => word name
  | .element name bracket closed index =>
    checkClosed closed bracket
    let key ← reference name.text
    modify fun symbols => symbols.setType key .list
    return .element (.var key) (← expression index)
  | .literal token alone => literal token alone
termination_by tokens.length
decreasing_by
  all_goals apply part_shorter (by assumption)
  all_goals first | exact Subtype.property _ | simp

/-- Reads a call that is a whole statement, if it is one. -/
def call? (name : Token) (rest : List Token) : Read (Option Tree) := do
  match Shape.called? (← get).functions name rest with
  | some (.call name arguments) =>
    return some (← callTree name (← arguments.mapM (expression markUnknown)))
  | some (.unclosedCall name bracket) => fail (.unclosedArguments name.text) bracket.line
  | _ => return none

end Read
end CalcBasic

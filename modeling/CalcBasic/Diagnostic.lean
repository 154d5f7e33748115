import CalcBasic.Tree.Constant

/-! What can go wrong: faults end a compilation, remarks only go on record. Both
are causes; their wording is in one place each. -/
namespace CalcBasic

inductive Fault where
  | inlineWithoutFunction (found : String)
  | loopWithoutMembership
  | namelessFunction
  | compoundDefault (param op : String)
  | unclosedArguments (name : String)
  | impossibleRadix (radix : Nat)
  | textVariablesExhausted (name : String)
  | openRangeInList
  | notAssignable
  | rangeInExpression
  | rangeNotLiteral (reason : FoldFailure)
  | unknownFunction (name : String)
  | argumentCount (name : String) (count : Nat) (expected : String)
  | inlinedIntoItself (name : String)
  | bodiless (name : String)
  /-- The nesting budget of a rendering is used up. -/
  | tooDeep
  deriving DecidableEq, Repr

/-- The stage that a fault belongs to. -/
inductive Stage where
  | reading | emitting
  deriving DecidableEq, Repr

namespace Fault

def stage : Fault → Stage
  | .inlineWithoutFunction _ | .loopWithoutMembership | .namelessFunction | .compoundDefault ..
  | .unclosedArguments _ | .impossibleRadix _ => .reading
  | _ => .emitting

def message : Fault → String
  | .inlineWithoutFunction found =>
    "`inline` must be followed by `function`, found `" ++ found ++ "`"
  | .loopWithoutMembership => "for loop condition must be an `in` expression"
  | .namelessFunction => "expected a function name after `function`"
  | .compoundDefault param op =>
    "invalid default for parameter `" ++ param ++ "`: expected `=`, found `" ++ op ++ "`"
  | .unclosedArguments name => "unclosed argument list for `" ++ name ++ "`"
  | .impossibleRadix radix => "impossible radix " ++ toString radix
  | .textVariablesExhausted name =>
    "out of string variables for `" ++ name ++ "` (the target has ten)"
  | .openRangeInList => "a range inside a list literal must have constant bounds"
  | .notAssignable => "cannot assign to a non-variable"
  | .rangeInExpression => "a range with run-time bounds can only be assigned or looped over"
  | .rangeNotLiteral reason =>
    "this range cannot be a list literal (" ++ reason.message ++ "); assign it or loop over it"
  | .unknownFunction name => "unknown function `" ++ name ++ "`"
  | .argumentCount name count expected =>
    "Wrong parameter count for `" ++ name ++ "`, got " ++ toString count ++ ", expected " ++ expected
  | .inlinedIntoItself name => "inline function `" ++ name ++ "` calls itself"
  | .bodiless name => "function `" ++ name ++ "` has no body"
  | .tooDeep => "nested too deeply"

end Fault

structure CompileError where
  fault : Fault
  line : Option Nat
  deriving DecidableEq, Repr

namespace CompileError

def message (error : CompileError) : String := error.fault.message

def stageName (error : CompileError) : String :=
  match error.fault.stage with
  | .reading => "parser"
  | .emitting => "compiler"

/-- Stage, line and message. -/
def report (error : CompileError) : String :=
  let place := match error.line with
    | some line => " line " ++ toString line ++ ":"
    | none => ""
  "[" ++ error.stageName ++ "]" ++ place ++ " " ++ error.message

/-- Message and line. -/
def display (error : CompileError) : String :=
  match error.line with
  | some line => error.message ++ " on line " ++ toString line
  | none => error.message

end CompileError

inductive Remark where
  | unmatched (bracket : String)
  | unrecognized (texts : List String)
  | labelIgnored (name : String)
  | danglingElse
  | unsupportedKeyword (word : String)
  | afterParameters (name : String)
  | badParameterList (name found : String)
  | badParameter (name : String)
  | afterParameter (found param : String)
  | afterLiteral (text : String)
  | unfolded (code : String) (reason : FoldFailure)
  | filledAtRunTime (reason : FoldFailure)
  | note (message : String)
  deriving DecidableEq, Repr

def Remark.message : Remark → String
  | .unmatched bracket => "unmatched `" ++ bracket ++ "`"
  | .unrecognized texts => "unrecognized expression `" ++ " ".intercalate texts ++ "`"
  | .labelIgnored name => "label `" ++ name ++ "` ignored"
  | .danglingElse => "`else` without a matching `if`"
  | .unsupportedKeyword word => "unsupported keyword `" ++ word ++ "`"
  | .afterParameters name => "ignoring tokens after the parameter list of `" ++ name ++ "`"
  | .badParameterList name found =>
    "invalid parameter list for `" ++ name ++ "` at `" ++ found ++ "`"
  | .badParameter name => "invalid parameter in `" ++ name ++ "`"
  | .afterParameter found param => "ignoring `" ++ found ++ "` after parameter `" ++ param ++ "`"
  | .afterLiteral text => "ignoring tokens after `" ++ text ++ "`"
  | .unfolded code reason => "left `" ++ code ++ "` unfolded: " ++ reason.message
  | .filledAtRunTime reason => "range built at run time: " ++ reason.message
  | .note message => message

/-- A remark on a line of the program. -/
structure Diagnostic where
  remark : Remark
  line : Option Nat
  deriving DecidableEq, Repr

namespace Diagnostic

def message (diagnostic : Diagnostic) : String := diagnostic.remark.message

def display (diagnostic : Diagnostic) : String :=
  match diagnostic.line with
  | some line => "warning: line " ++ toString line ++ ": " ++ diagnostic.message
  | none => "warning: " ++ diagnostic.message

end Diagnostic
end CalcBasic

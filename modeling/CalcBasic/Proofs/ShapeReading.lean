import CalcBasic.Proofs.Actions
import CalcBasic.Reader.Expression

/-! The expression reader as one step: find the shape, then read its parts. -/
namespace CalcBasic.Read
open CalcBasic.Action

variable (markUnknown : Bool)

/-- Reads the parts of a shape that was found for `tokens`. -/
def ofShape (tokens : List Token) : Shape → Read Tree
  | .nothing | .unknown => unknown markUnknown tokens
  | .group bracket closed inside => do
    checkClosed closed bracket
    expression markUnknown inside
  | .list bracket closed items => do
    checkClosed closed bracket
    return .list (← items.mapM fun item => return listItem (← expression markUnknown item))
  | .unclosedCall name bracket => fail (.unclosedArguments name.text) bracket.line
  | .call name arguments => do
    callTree name (← arguments.mapM (expression markUnknown))
  | .membership value collection => do
    return .membership (← expression markUnknown value) (← expression markUnknown collection)
  | .range start inclusive stop (some step) => do
    return .range (← expression markUnknown start) (← expression markUnknown stop)
      (← expression markUnknown step) inclusive true
  | .range start inclusive stop none => do
    return .range (← expression markUnknown start) (← expression markUnknown stop) (.number 1)
      inclusive true
  | .operation left op right => do
    return operationTree (← expression markUnknown left) op (← expression markUnknown right)
  | .negative operand => do return .arith (.number 0) .sub (← expression markUnknown operand)
  | .positive operand => expression markUnknown operand
  | .complement mark operand => do
    return Tree.callOf "not" [← expression markUnknown operand] mark.line
  | .word name => word name
  | .element name bracket closed index => do
    checkClosed closed bracket
    let key ← reference name.text
    modify fun symbols => symbols.setType key .list
    return .element (.var key) (← expression markUnknown index)
  | .literal token alone => literal token alone

theorem mapM_attach {α β : Type} (items : List α) (step : α → Read β) :
    items.attach.mapM (fun item => step item.1) = items.mapM step := by
  rw [List.mapM_subtype (g := step) (fun _ _ => rfl)]
  simp

theorem expression_eq (tokens : List Token) :
    expression markUnknown tokens = get >>= fun symbols =>
      ofShape markUnknown (upToTerminator tokens) (Shape.of symbols.functions (upToTerminator tokens)) := by
  rw [expression]
  congr 1
  funext symbols
  split <;> simp only [*,ofShape]
  case h_4 items _ =>
    rw [mapM_attach items fun item => do return listItem (← expression markUnknown item)]
  case h_6 => rw [mapM_attach]

/-- Reading starts with the shape that the functions known so far give. -/
theorem outcome_expression (tokens : List Token) (symbols : Symbols) :
    outcome (expression markUnknown tokens) symbols =
      outcome (ofShape markUnknown (upToTerminator tokens)
        (Shape.of symbols.functions (upToTerminator tokens))) symbols := by
  rw [expression_eq,outcome_bind_ok (outcome_get symbols)]

end CalcBasic.Read

import CalcBasic.Proofs.Actions
import CalcBasic.Reader.Statement

/-! The statement reader as one step: find the outline, then read its pieces. What holds of the
pieces as soon as it holds of all that they are read through holds of every program. -/
namespace CalcBasic.Read
open Extent (endsHeader)

variable (markUnknown : Bool)

/-- Reads the pieces of an outline. -/
def ofOutline : Outline → Read (Option Tree)
  | .empty => return none
  | .label name rest => do
    remark (.labelIgnored name.text) (some name.line)
    statement markUnknown rest
  | .braces bracket inside => do return some (.block (← braced markUnknown bracket inside))
  | .conditional head tail => do return some (← conditional markUnknown head tail)
  | .forEach head tail => do
    let (counter, collection) ← loopHeader markUnknown head (tail.takeWhile (!endsHeader ·))
    return some (.forEach counter collection (← body markUnknown (tail.dropWhile (!endsHeader ·))))
  | .loop head tail => do
    let condition ← expression markUnknown (tail.takeWhile (!endsHeader ·))
    return some (.loop condition (← body markUnknown (tail.dropWhile (!endsHeader ·)))
      (head.isKeyword "until"))
  | .function name rest inline => do
    let parameters ← parameters markUnknown name (rest.takeWhile (!endsHeader ·))
    checkBody (Body.of (rest.dropWhile (!endsHeader ·)))
    return some (← functionTree name inline parameters
      (← block markUnknown (Body.of (rest.dropWhile (!endsHeader ·))).tokens))
  | .nameless head => fail .namelessFunction head.line
  | .strayInline word next => fail (.inlineWithoutFunction next.text) word.line
  | .giveBack value =>
    if value.isEmpty then return some (.block [.native Tree.returnMarker])
    else do return some (.block [← expression markUnknown value, .native Tree.returnMarker])
  | .leave word rest => do
    match ← call? markUnknown word rest with
    | some tree => return some tree
    | none => return some (← unknown markUnknown (word :: rest))
  | .constant rest => statement markUnknown rest
  | .danglingElse word => do
    remark .danglingElse (some word.line)
    return none
  | .unsupported word => do
    remark (.unsupportedKeyword word.text.toLower) (some word.line)
    return none
  | .assign cut => do return some (← assignment markUnknown cut)
  | .expression tokens => do return some (← expression markUnknown tokens)

theorem statement_eq (tokens : List Token) :
    statement markUnknown tokens = ofOutline markUnknown (Outline.of tokens) := by
  rw [statement]
  split <;> simp only [*,ofOutline] <;> rfl

/-- Reads what follows the body of a conditional. -/
def ofOtherwise : Otherwise → Read (Option Tree)
  | .absent => return none
  | .chain head tail => do return some (.block [← conditional markUnknown head tail])
  | .body branch => do return some (← body markUnknown branch)

theorem conditional_eq (head : Token) (tail : List Token) :
    conditional markUnknown head tail = do
      let condition ← expression markUnknown (tail.takeWhile (!endsHeader ·))
      checkBody (Body.of (tail.dropWhile (!endsHeader ·)))
      let inside ← block markUnknown (Body.of (tail.dropWhile (!endsHeader ·))).tokens
      let otherwise ← ofOtherwise markUnknown
        (Otherwise.of (Body.of (tail.dropWhile (!endsHeader ·))).rest)
      return .branch (if head.isKeyword "unless" then condition.negated else condition)
        (.block inside) otherwise := by
  rw [conditional]
  refine bind_congr fun condition => bind_congr fun _ => bind_congr fun inside => ?_
  generalize (if head.isKeyword "unless" then condition.negated else condition) = test
  split <;> simp only [*,ofOtherwise,bind_assoc,pure_bind]

theorem braced_eq (bracket : Token) (inside : List Token) :
    braced markUnknown bracket inside =
      match Brackets.closing? bracket inside with
      | none => statements markUnknown inside
      | some cut =>
        if cut.after.isEmpty then statements markUnknown cut.before
        else do return .block (← statements markUnknown cut.before) :: (← statements markUnknown cut.after) := by
  rw [braced]
  split <;> simp only [*]

/-! ### Induction over the reader -/

/-- What is said of the tokens that each function of the reader is given. -/
structure Invariant where
  statements : List Token → Prop
  statement : List Token → Prop
  block : List Token → Prop
  braced : Token → List Token → Prop
  body : List Token → Prop
  conditional : Token → List Token → Prop

namespace Invariant

variable (holds : Invariant)

/-- It holds of what the pieces of an outline are read through. -/
def Within : Outline → Prop
  | .label _ rest | .constant rest => holds.statement rest
  | .braces bracket inside => holds.braced bracket inside
  | .conditional head tail => holds.conditional head tail
  | .forEach _ tail | .loop _ tail => holds.body (tail.dropWhile (!endsHeader ·))
  | .function _ rest _ => holds.block (Body.of (rest.dropWhile (!endsHeader ·))).tokens
  | _ => True

/-- It holds of what follows the body of a conditional. -/
def Behind : Otherwise → Prop
  | .absent => True
  | .chain head tail => holds.conditional head tail
  | .body branch => holds.body branch

/-- It holds of what a function is given as soon as it holds of what the function hands on. -/
structure Inherited : Prop where
  nil : holds.statements []
  gap {first : Token} {rest : List Token} : first.isTerminator = true → holds.statements rest → holds.statements (first :: rest)
  cons {first : Token} {rest : List Token} : first.isTerminator = false →
    holds.statement (first :: rest.take (Extent.statement (first :: rest) - 1)) →
    holds.statements (rest.drop (Extent.statement (first :: rest) - 1)) → holds.statements (first :: rest)
  statement {tokens : List Token} : holds.Within (Outline.of tokens) → holds.statement tokens
  empty : holds.block []
  opened {first : Token} {rest : List Token} : first.tag = .blockOpen → holds.braced first rest → holds.block (first :: rest)
  plain {first : Token} {rest : List Token} : first.tag ≠ .blockOpen → holds.statements (first :: rest) →
    holds.block (first :: rest)
  unclosed {bracket : Token} {inside : List Token} : Brackets.closing? bracket inside = none →
    holds.statements inside → holds.braced bracket inside
  closed {bracket : Token} {inside : List Token} {cut : Cut} : Brackets.closing? bracket inside = some cut →
    holds.statements cut.before → holds.statements cut.after → holds.braced bracket inside
  body {code : List Token} : holds.block (Body.of code).tokens → holds.body code
  conditional {head : Token} {tail : List Token} : holds.block (Body.of (tail.dropWhile (!endsHeader ·))).tokens →
    holds.Behind (Otherwise.of (Body.of (tail.dropWhile (!endsHeader ·))).rest) → holds.conditional head tail

structure Everywhere : Prop where
  statements (tokens : List Token) : holds.statements tokens
  statement (tokens : List Token) : holds.statement tokens
  block (tokens : List Token) : holds.block tokens
  braced (bracket : Token) (inside : List Token) : holds.braced bracket inside
  body (code : List Token) : holds.body code
  conditional (head : Token) (tail : List Token) : holds.conditional head tail

variable {holds}

theorem Inherited.everywhere (inherited : holds.Inherited) : holds.Everywhere := by
  have outlined {tokens : List Token} {outline : Outline} (found : Outline.of tokens = outline) (within : holds.Within outline) :
      holds.statement tokens := inherited.statement (found ▸ within)
  obtain ⟨statements,statement,block,braced,body,conditional⟩ :
      (∀ tokens, holds.statements tokens) ∧ (∀ tokens, holds.statement tokens) ∧ (∀ tokens, holds.block tokens) ∧
        (∀ bracket inside, holds.braced bracket inside) ∧ (∀ code, holds.body code) ∧ ∀ head tail, holds.conditional head tail := by
    apply statements.mutual_induct
    case case1 => exact inherited.nil
    case case2 => exact fun _ _ => inherited.gap
    case case3 => exact fun _ _ solid => inherited.cons (by simpa using solid)
    case case4 | case11 | case12 | case15 | case17 | case18 | case19 | case20 =>
      intros
      rename_i found
      exact outlined found trivial
    case case13 | case14 => exact fun _ _ found _ => outlined found trivial
    case case5 | case6 | case7 | case8 | case9 | case10 | case16 =>
      intros
      rename_i found within
      exact outlined found within
    case case21 => exact inherited.empty
    case case22 => exact fun _ _ => inherited.opened
    case case23 => exact fun _ _ => inherited.plain
    case case24 => exact fun _ _ => inherited.unclosed
    case case25 =>
      intro bracket inside cut closed alone before
      refine inherited.closed closed before ?_
      rw [List.isEmpty_iff.mp alone]
      exact inherited.nil
    case case26 => exact fun _ _ _ closed _ => inherited.closed closed
    case case27 => exact fun _ => inherited.body
    case case28 =>
      -- what follows the body decides which of the last two hypotheses is needed
      intro head tail inside chain branch
      refine inherited.conditional inside ?_
      cases found : Otherwise.of (Body.of (tail.dropWhile (!endsHeader ·))).rest with
      | absent => trivial
      | chain next more => exact chain next more found
      | body code => exact branch code found
  exact ⟨statements, statement, block, braced, body, conditional⟩

end Invariant

end CalcBasic.Read

import CalcBasic.Reader.Expression
import CalcBasic.Reader.Outline

/-! Reading statements and whole programs. -/
namespace CalcBasic
namespace Read

variable (markUnknown : Bool)

def checkBody (body : Body) : Read Unit :=
  match body.unclosed with
  | some bracket => remark (.unmatched bracket.text) (some bracket.line)
  | none => pure ()

/-- `x from a to b` stands for `x in [a to b]`. -/
def fromAsMembership : List Token → List Token
  | first :: second :: rest =>
    if second.tag = .source then
      first :: ⟨.keyword, "in", first.line⟩ :: ⟨.listOpen, "[", first.line⟩ :: rest ++
        [⟨.listClose, "]", first.line⟩]
    else first :: second :: rest
  | tokens => tokens

/-! ### Parameters -/

structure Parameters where
  names : List String := []
  /-- Statements that set parameters to their defaults. -/
  guards : List Tree := []
  /-- Number of parameters up to the last that needs an argument. -/
  required : Nat := 0

/-- `if not(name) { name = value }` -/
def defaultGuard (name : String) (value : Tree) (line : Nat) : Read Tree := do
  let test ← reference name
  let target ← reference name
  return .branch (Tree.callOf "not" [.var test] line)
    (.block [.assign (.var target) .set value line]) none

/-- Reads one parameter of the function `name` and adds it to those before. -/
def parameter (name : Token) (before : Parameters) (group : List Token) : Read Parameters := do
  match group with
  | [] =>
    remark (.badParameter name.text) (some name.line)
    return before
  | param :: rest =>
    if param.tag = .identifier then
      let names := before.names ++ [← reference param.text]
      match rest with
      | [] => return { before with names, required := names.length }
      | mark :: value =>
        if mark.tag = .assign then
          let default ← expression markUnknown value
          let guard ← defaultGuard param.text default mark.line
          return { before with names, guards := before.guards ++ [guard] }
        else if mark.tag = .compoundAssign then
          fail (.compoundDefault param.text mark.text) mark.line
        else
          remark (.afterParameter mark.text param.text) (some mark.line)
          return { before with names }
    else
      remark (.badParameter name.text) (some name.line)
      return before

def parameters (name : Token) (header : List Token) : Read Parameters := do
  let list := ParameterList.of name header
  for diagnostic in list.remarks do remark diagnostic.remark diagnostic.line
  list.groups.foldlM (parameter markUnknown name) {}

/-! ### Statements -/

/-- Enters a function into the table. The selector is needed to call it unless
it is expanded in place. -/
def functionTree (name : Token) (inline : Bool) (parameters : Parameters) (statements : List Tree) :
    Read Tree := do
  let body := Tree.block (parameters.guards ++ statements)
  unless inline do modify fun symbols => symbols.reference selector
  modify fun symbols => (symbols.define name.text inline parameters.names parameters.required body).2
  return .function name.text.toLower parameters.names body inline

def assignment (cut : Cut) : Read Tree := do
  let target ← expression markUnknown cut.before
  let value ← expression markUnknown cut.after
  return .assign target ((Store.ofSymbol? cut.token.text).getD .set) value cut.token.line

def loopHeader (head : Token) (condition : List Token) : Read (Tree × Tree) := do
  match ← expression markUnknown (fromAsMembership condition) with
  | .membership value collection => return (value, collection)
  | _ => fail .loopWithoutMembership head.line

mutual

def statements : List Token → Read (List Tree)
  | [] => return []
  | first :: rest => do
    if first.isTerminator then statements rest
    else
      let size := Extent.statement (first :: rest) - 1
      let tree ← statement (first :: rest.take size)
      let others ← statements (rest.drop size)
      return tree.toList ++ others
termination_by tokens => 5 * tokens.length + 1
decreasing_by all_goals simp only [List.length_cons, List.length_take, List.length_drop]; omega

/-- Reads one statement. Some statements leave nothing behind. -/
def statement (tokens : List Token) : Read (Option Tree) := do
  match _outline : Outline.of tokens with
  | .empty => return none
  | .label name rest =>
    remark (.labelIgnored name.text) (some name.line)
    statement rest
  | .braces bracket inside => return some (.block (← braced bracket inside))
  | .conditional head tail => return some (← conditional head tail)
  | .forEach head tail =>
    let (counter, collection) ← loopHeader markUnknown head (tail.takeWhile (!Extent.endsHeader ·))
    return some (.forEach counter collection (← body (tail.dropWhile (!Extent.endsHeader ·))))
  | .loop head tail =>
    let condition ← expression markUnknown (tail.takeWhile (!Extent.endsHeader ·))
    return some (.loop condition (← body (tail.dropWhile (!Extent.endsHeader ·)))
      (head.isKeyword "until"))
  | .function name rest inline =>
    let parameters ← parameters markUnknown name (rest.takeWhile (!Extent.endsHeader ·))
    let code := Body.of (rest.dropWhile (!Extent.endsHeader ·))
    checkBody code
    return some (← functionTree name inline parameters (← block code.tokens))
  | .nameless head => fail .namelessFunction head.line
  | .strayInline word next => fail (.inlineWithoutFunction next.text) word.line
  | .giveBack value =>
    if value.isEmpty then return some (.block [.native Tree.returnMarker])
    else return some (.block [← expression markUnknown value, .native Tree.returnMarker])
  | .leave word rest =>
    match ← call? markUnknown word rest with
    | some tree => return some tree
    | none => return some (← unknown markUnknown (word :: rest))
  | .constant rest => statement rest
  | .danglingElse word =>
    remark .danglingElse (some word.line)
    return none
  | .unsupported word =>
    remark (.unsupportedKeyword word.text.toLower) (some word.line)
    return none
  | .assign cut => return some (← assignment markUnknown cut)
  | .expression tokens => return some (← expression markUnknown tokens)
termination_by 5 * tokens.length
decreasing_by
  all_goals
    have below := Outline.of_below tokens
    simp only [_outline, Outline.Below] at below
    simp_wf
  · omega
  · omega
  · omega
  · have := Extent.length_dropWhile_le (!Extent.endsHeader ·) tail
    omega
  · have := Extent.length_dropWhile_le (!Extent.endsHeader ·) tail
    omega
  · have := Extent.length_dropWhile_le (!Extent.endsHeader ·) rest
    have := Body.length_tokens_le (rest.dropWhile (!Extent.endsHeader ·))
    omega
  · omega

/-- Reads a conditional, of which `head` is the keyword. -/
def conditional (head : Token) (tail : List Token) : Read Tree := do
  let condition ← expression markUnknown (tail.takeWhile (!Extent.endsHeader ·))
  let test := if head.isKeyword "unless" then condition.negated else condition
  let code := Body.of (tail.dropWhile (!Extent.endsHeader ·))
  checkBody code
  let inside ← block code.tokens
  let otherwise ← match _otherwise : Otherwise.of code.rest with
    | .absent => pure none
    | .chain next more => pure (some (.block [← conditional next more]))
    | .body branch => pure (some (← body branch))
  return .branch test (.block inside) otherwise
termination_by 5 * tail.length + 4
decreasing_by
  all_goals
    have header := Extent.length_dropWhile_le (!Extent.endsHeader ·) tail
    simp_wf
  · have := Body.length_tokens_le (tail.dropWhile (!Extent.endsHeader ·))
    omega
  all_goals
    have rest := Body.length_rest_le (tail.dropWhile (!Extent.endsHeader ·))
    have below := Otherwise.of_below code.rest
    rw [_otherwise] at below
    simp only [Otherwise.Below, code] at below
    omega

/-- Reads the body at the start of a token list. -/
def body (code : List Token) : Read Tree := do
  checkBody (Body.of code)
  return .block (← block (Body.of code).tokens)
termination_by 5 * code.length + 3
decreasing_by
  have := Body.length_tokens_le code
  simp_wf
  omega

/-- Reads the statements of a body, with or without braces. -/
def block : List Token → Read (List Tree)
  | [] => return []
  | first :: rest =>
    if first.tag = .blockOpen then braced first rest else statements (first :: rest)
termination_by tokens => 5 * tokens.length + 2

/-- Reads what follows an opening brace. Statements after the closing brace
follow the block. -/
def braced (bracket : Token) (inside : List Token) : Read (List Tree) := do
  match _cut : Brackets.closing? bracket inside with
  | none => statements inside
  | some cut =>
    if cut.after.isEmpty then statements cut.before
    else return .block (← statements cut.before) :: (← statements cut.after)
termination_by 5 * inside.length + 2
decreasing_by
  · simp_wf
  all_goals
    have := Cut.sides_shorter (Brackets.whole_of_closing? _cut)
    simp_wf
    omega

end

/-! ### Programs -/

/-- Declares every function that is defined anywhere, so that calls may come
before definitions. -/
def declareFunctions (previous : Option Token) : List Token → Read Unit
  | [] => pure ()
  | token :: rest => do
    if token.isKeyword "function" then
      match rest with
      | name :: _ =>
        if name.tag = .identifier then
          modify fun symbols => (symbols.declare name.text (previous.any Token.isInline)).2
      | [] => pure ()
    declareFunctions (some token) rest

/-- Reads a whole program as one block. -/
def program (tokens : List Token) : Read Tree := do
  let tokens := tokens.filter (·.tag != .whitespace)
  declareFunctions none tokens
  return .block (← block markUnknown tokens)

end Read
end CalcBasic

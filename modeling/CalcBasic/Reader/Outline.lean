import CalcBasic.Diagnostic
import CalcBasic.Reader.Extent

/-! How a token list reads as a statement. The outline names the pieces without
reading them, so that it can be said which tokens each piece takes. -/
namespace CalcBasic

/-- A body and what surrounds it: terminators before, further tokens after. -/
structure Body where
  gap : List Token
  tokens : List Token
  rest : List Token
  /-- The opening brace, if nothing closes it. -/
  unclosed : Option Token
  deriving DecidableEq, Repr

namespace Body

/-- The body at the start of a token list: a block in braces, or one statement. -/
def of (code : List Token) : Body :=
  let gap := code.takeWhile Token.isTerminator
  match code.dropWhile Token.isTerminator with
  | [] => ⟨gap, [], [], none⟩
  | first :: rest =>
    if first.tag = .blockOpen then
      match Brackets.closing? first rest with
      | some cut => ⟨gap, first :: cut.before ++ [cut.token], cut.after, none⟩
      | none => ⟨gap, first :: rest, [], some first⟩
    else
      let size := Extent.statement (first :: rest)
      ⟨gap, (first :: rest).take size, (first :: rest).drop size, none⟩

theorem of_whole (code : List Token) :
    (of code).gap ++ (of code).tokens ++ (of code).rest = code := by
  have parts := List.takeWhile_append_dropWhile (p := Token.isTerminator) (l := code)
  unfold of
  split
  · rename_i none
    rw [none] at parts
    simpa using parts
  · rename_i first rest found
    rw [found] at parts
    split
    · split
      · rename_i cut closed
        have whole := Brackets.whole_of_closing? closed
        simp only [Cut.whole] at whole
        simp [whole, parts]
      · simp [parts]
    · simp [parts]

theorem length_tokens_le (code : List Token) : (of code).tokens.length ≤ code.length := by
  have whole := congrArg List.length (of_whole code)
  simp only [List.length_append] at whole
  omega

theorem length_rest_le (code : List Token) : (of code).rest.length ≤ code.length := by
  have whole := congrArg List.length (of_whole code)
  simp only [List.length_append] at whole
  omega

end Body

/-- What follows the body of a conditional. -/
inductive Otherwise where
  | absent
  /-- `else if` and `else unless`. -/
  | chain (head : Token) (tail : List Token)
  | body (code : List Token)
  deriving DecidableEq, Repr

namespace Otherwise

def of (rest : List Token) : Otherwise :=
  match rest.dropWhile Token.isTerminator with
  | word :: branch =>
    if word.isKeyword "else" then
      match branch with
      | head :: tail => if Extent.startsConditional head then .chain head tail else .body branch
      | [] => .body []
    else .absent
  | [] => .absent

/-- What follows `else` is fewer than `size` tokens. -/
def Below (size : Nat) : Otherwise → Prop
  | .absent => True
  | .chain _ code | .body code => code.length < size

theorem of_below (rest : List Token) : (of rest).Below rest.length := by
  have bound := Extent.length_dropWhile_le Token.isTerminator rest
  unfold of
  cases found : rest.dropWhile Token.isTerminator with
  | nil => trivial
  | cons word branch =>
    simp only [found, List.length_cons] at bound
    by_cases isElse : word.isKeyword "else"
    · cases branch with
      | nil => simp [isElse, Below]; omega
      | cons head tail =>
        simp only [List.length_cons] at bound
        by_cases chained : Extent.startsConditional head <;> simp [isElse, chained, Below] <;> omega
    · simp [isElse, Below]

end Otherwise

/-- The parameter list of a function header, with the remarks it deserves. -/
structure ParameterList where
  tokens : List Token
  remarks : List Diagnostic
  deriving DecidableEq, Repr

namespace ParameterList

def of (name : Token) : List Token → ParameterList
  | [] => ⟨[], []⟩
  | first :: rest =>
    if first.tag = .parenOpen then
      match Brackets.closing? first rest with
      | none => ⟨rest, [⟨.unmatched first.text, some first.line⟩]⟩
      | some cut =>
        ⟨cut.before, if cut.after.isEmpty then [] else [⟨.afterParameters name.text, some name.line⟩]⟩
    else if first.tag = .identifier then ⟨first :: rest, []⟩
    else ⟨[], [⟨.badParameterList name.text first.text, some first.line⟩]⟩

/-- The tokens of each parameter. Commas part parameters even inside brackets. -/
def groups (list : ParameterList) : List (List Token) :=
  if list.tokens.isEmpty then [] else Groups.split (·.tag == .delimiter) list.tokens

end ParameterList

inductive Outline where
  | empty
  | label (name : Token) (rest : List Token)
  | braces (bracket : Token) (inside : List Token)
  | conditional (head : Token) (tail : List Token)
  | forEach (head : Token) (tail : List Token)
  | loop (head : Token) (tail : List Token)
  | function (name : Token) (rest : List Token) (inline : Bool)
  | nameless (head : Token)
  | strayInline (word next : Token)
  | giveBack (value : List Token)
  | leave (word : Token) (rest : List Token)
  | constant (rest : List Token)
  | danglingElse (word : Token)
  | unsupported (word : Token)
  | assign (cut : Cut)
  | expression (tokens : List Token)
  deriving DecidableEq, Repr

namespace Outline

def isAssignment (token : Token) : Bool := token.tag == .assign || token.tag == .compoundAssign

/-- A function definition, of which `head` is the keyword. -/
def ofFunction (head : Token) (tail : List Token) (inline : Bool) : Outline :=
  match tail with
  | name :: rest => if name.tag = .identifier then .function name rest inline else .nameless head
  | [] => .nameless head

/-- A statement that starts with a keyword. -/
def ofKeyword (head : Token) (tail : List Token) : Outline :=
  match head.text.toLower with
  | "if" | "unless" => .conditional head tail
  | "for" | "foreach" => .forEach head tail
  | "while" | "until" => .loop head tail
  | "function" => ofFunction head tail false
  | "return" => .giveBack (tail.takeWhile (!·.isTerminator))
  | "exit" | "die" => .leave head tail
  | "const" => .constant tail
  | "else" => .danglingElse head
  | _ => .unsupported head

/-- A statement without a keyword. -/
def ofPlain (tokens : List Token) : Outline :=
  let line := tokens.takeWhile (!·.isTerminator)
  match Brackets.cutFirst isAssignment line with
  | some cut => .assign cut
  | none => .expression line

def of : List Token → Outline
  | [] => .empty
  | first :: rest =>
    if first.tag = .label then .label first rest
    else if first.tag = .keyword then ofKeyword first rest
    else if first.tag = .blockOpen then .braces first rest
    else
      match first.isInline, rest with
      | true, next :: more =>
        if next.tag = .keyword then
          if next.isKeyword "function" then ofFunction next more true else .strayInline first next
        else ofPlain (first :: rest)
      | _, _ => ofPlain (first :: rest)

/-- The tokens after the head are fewer than all. -/
def Below (size : Nat) : Outline → Prop
  | .label _ rest | .braces _ rest | .constant rest | .function _ rest _ => rest.length < size
  | .conditional _ tail | .forEach _ tail | .loop _ tail => tail.length < size
  | _ => True

theorem ofPlain_below (tokens : List Token) (size : Nat) : (ofPlain tokens).Below size := by
  simp only [ofPlain]
  split <;> trivial

theorem ofFunction_below (head : Token) (tail : List Token) (inline : Bool) {size : Nat}
    (bound : tail.length ≤ size) : (ofFunction head tail inline).Below size := by
  unfold ofFunction
  split
  · split
    · simp only [List.length_cons] at bound; simp only [Below]; omega
    · trivial
  · trivial

theorem ofKeyword_below (head : Token) (tail : List Token) :
    (ofKeyword head tail).Below (tail.length + 1) := by
  have := ofFunction_below head tail false (Nat.le_succ tail.length)
  unfold ofKeyword
  split <;> simp_all [Below]

theorem of_below (tokens : List Token) : (of tokens).Below tokens.length := by
  unfold of
  split
  · trivial
  · rename_i first rest
    split
    · simp [Below]
    split
    · exact ofKeyword_below first rest
    split
    · simp [Below]
    split
    · split
      · split
        · exact ofFunction_below _ _ _ (by simp; omega)
        · trivial
      · exact ofPlain_below _ _
    · exact ofPlain_below _ _

end Outline
end CalcBasic

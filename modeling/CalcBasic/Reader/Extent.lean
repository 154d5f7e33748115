import CalcBasic.Brackets

/-! How far a statement reaches. Statements with a body end with it; all others
end before a terminator outside brackets. -/
namespace CalcBasic.Extent

/-- Ends the header of a statement with a body. -/
def endsHeader (token : Token) : Bool := token.tag == .terminator || token.tag == .blockOpen

def startsConditional (token : Token) : Bool := token.isKeyword "if" || token.isKeyword "unless"

/-- Keywords of the statements that have a body. -/
def bodyKeywords : List String :=
  ["if", "unless", "while", "until", "for", "foreach", "function"]

def isCompound : List Token → Bool
  | [] => false
  | first :: rest =>
    if first.tag = .keyword then bodyKeywords.any first.spells
    else first.isInline && rest.head?.any (·.isKeyword "function")

theorem length_dropWhile_le {α : Type} (p : α → Bool) (items : List α) :
    (items.dropWhile p).length ≤ items.length := (List.dropWhile_sublist p).length_le

theorem branch_shorter {tokens branch : List Token} {word : Token} {size : Nat}
    (rest : (tokens.drop size).dropWhile Token.isTerminator = word :: branch) :
    branch.length < tokens.length := by
  have shorter := length_dropWhile_le Token.isTerminator (tokens.drop size)
  simp only [rest, List.length_cons, List.length_drop] at shorter
  omega

mutual

/-- Number of tokens of the first statement. -/
def statement : List Token → Nat
  | [] => 0
  | first :: rest =>
    if first.tag = .blockOpen then
      match Brackets.closing? first rest with
      | some cut => cut.before.length + 2
      | none => rest.length + 1
    else if isCompound (first :: rest) then compound first rest
    else
      match Brackets.cutFirst Token.isTerminator (first :: rest) with
      | some cut => cut.before.length
      | none => rest.length + 1
termination_by tokens => 3 * tokens.length

/-- Number of tokens of a statement with a body, and of the branches that
follow it. -/
def compound (head : Token) (tail : List Token) : Nat :=
  let header := tail.takeWhile (!endsHeader ·)
  let code := tail.dropWhile (!endsHeader ·)
  let size := 1 + header.length + body code
  let rest := (head :: tail).drop size
  let gap := rest.takeWhile Token.isTerminator
  if startsConditional head then
    match _rest : rest.dropWhile Token.isTerminator with
    | word :: branch =>
      if word.isKeyword "else" then
        size + gap.length + 1 +
          match branch with
          | [] => 0
          | next :: more => if isCompound (next :: more) then compound next more else body (next :: more)
      else size
    | [] => size
  else size
termination_by 3 * tail.length + 2
decreasing_by
  · have := length_dropWhile_le (!endsHeader ·) tail
    simp_wf
    omega
  all_goals
    have shorter := branch_shorter (by assumption)
    simp_wf
    simp at shorter
    omega

/-- Number of tokens of a body, with the terminators before it. -/
def body (code : List Token) : Nat :=
  let gap := code.takeWhile Token.isTerminator
  match _rest : code.dropWhile Token.isTerminator with
  | [] => gap.length
  | first :: rest => gap.length + statement (first :: rest)
termination_by 3 * code.length + 1
decreasing_by
  have shorter := length_dropWhile_le Token.isTerminator code
  rw [_rest] at shorter
  simp_wf
  simp at shorter
  omega

end

end CalcBasic.Extent

import CalcBasic.Proofs.Extents
import CalcBasic.Proofs.OutlineReading

/-! The pieces of a statement with a body. What the extent of such a statement counts
is what its reader takes: keywords, header, terminators, body and the branches after it
stand one after the other and leave no token over. -/
namespace CalcBasic
open List
open Token (isTerminator isInline spells)

variable {head : Token} {tail rest : List Token}

/-! ### Bodies -/
namespace Body

theorem length_of (code : List Token) : Extent.body code = (of code).gap.length + (of code).tokens.length := by
  rw [Extent.body_eq,of]
  cases code.dropWhile isTerminator with
  | nil => rw [Extent.statement_nil]; rfl
  | cons first rest =>
    by_cases opens : first.tag = .blockOpen
    · rw [Extent.statement_of_block opens]
      cases closed : Brackets.closing? first rest <;> simp [opens,closed]
    · have bound := Extent.statement_le (first :: rest)
      simp only [opens,if_false,length_take]
      omega

theorem take_body (code : List Token) : code.take (Extent.body code) = (of code).gap ++ (of code).tokens := by
  have size : ((of code).gap ++ (of code).tokens).length = Extent.body code := by
    rw [length_append,length_of]
  calc code.take (Extent.body code)
      = ((of code).gap ++ (of code).tokens ++ (of code).rest).take (Extent.body code) := by rw [of_whole]
    _ = (of code).gap ++ (of code).tokens := take_left' size

theorem drop_body (code : List Token) : code.drop (Extent.body code) = (of code).rest := by
  have size : ((of code).gap ++ (of code).tokens).length = Extent.body code := by
    rw [length_append,length_of]
  calc code.drop (Extent.body code)
      = ((of code).gap ++ (of code).tokens ++ (of code).rest).drop (Extent.body code) := by rw [of_whole]
    _ = (of code).rest := drop_left' size

theorem of_alone (code : List Token) :
    of ((of code).gap ++ (of code).tokens) = { of code with rest := [] } := by
  have gap : (code.takeWhile isTerminator).length ≤ Extent.body code := by
    rw [Extent.body_eq]
    omega
  have size : Extent.body code - (code.takeWhile isTerminator).length =
      Extent.statement (code.dropWhile isTerminator) := by
    rw [Extent.body_eq]
    omega
  rw [← take_body,of,Extent.takeWhile_take gap,Extent.dropWhile_take,size,of]
  cases code.dropWhile isTerminator with
  | nil => rw [take_nil]
  | cons first rest =>
    by_cases opens : first.tag = .blockOpen
    · rw [Extent.statement_of_block opens]
      cases closed : Brackets.closing? first rest with
      | none => simp [opens,closed]
      | some cut =>
        have again := Extent.closing?_alone closed
        simp [opens,closed,again]
    · cases size : Extent.statement (first :: rest) with
      | zero => simp [opens,size]
      | succ count =>
        have again := Extent.statement_take (first :: rest) (Nat.le_refl _)
        rw [size,take_succ_cons] at again
        simp [opens,size,again,take_take]

end Body

/-! ### Pieces -/

/-- A word that some rule accepts. -/
abbrev Word (rule : Token → Bool) := {token : Token // rule token = true}

/-- Tokens that all keep to some rule. -/
abbrev Words (rule : Token → Bool) := {tokens : List Token // ∀ token ∈ tokens, rule token = true}

/-- A body and the terminators before it, cut out of what surrounds them. -/
structure Stretch where
  body : Body
  alone : Body.of (body.gap ++ body.tokens) = body

namespace Stretch

def tokens (stretch : Stretch) : List Token := stretch.body.gap ++ stretch.body.tokens

def read (markUnknown : Bool) (stretch : Stretch) : Read (List Tree) := do
  Read.checkBody stretch.body
  Read.block markUnknown stretch.body.tokens

/-- The body that a token list starts with. -/
def of (code : List Token) : Stretch := ⟨{ Body.of code with rest := [] }, Body.of_alone code⟩

theorem tokens_of (code : List Token) : (of code).tokens ++ (Body.of code).rest = code := Body.of_whole code

theorem body_eq (markUnknown : Bool) (code : List Token) :
    Read.body markUnknown code = do return .block (← (of code).read markUnknown) := by
  rw [Read.body,read,bind_assoc]
  rfl

end Stretch

abbrev Header := Words (!Extent.endsHeader ·)

abbrev Gap := Words isTerminator

/-- What follows the body of a conditional. -/
inductive Branch where
  | absent
  | body (gap : Gap) (word : Word (·.isKeyword "else")) (code : Stretch)
  | chain (gap : Gap) (word : Word (·.isKeyword "else")) (head : Word Extent.startsConditional)
      (header : Header) (code : Stretch) (next : Branch)

/-- A statement with a body. -/
inductive Pieces where
  | conditional (head : Word Extent.startsConditional) (header : Header) (code : Stretch) (next : Branch)
  | forEach (head : Word fun token => token.isKeyword "for" || token.isKeyword "foreach")
      (header : Header) (code : Stretch)
  | loop (head : Word fun token => token.isKeyword "while" || token.isKeyword "until")
      (header : Header) (code : Stretch)
  | function (mark : Option (Word isInline)) (head : Word (·.isKeyword "function"))
      (name : Word (·.tag == .identifier)) (header : Header) (code : Stretch)

namespace Branch

def tokens : Branch → List Token
  | absent => []
  | body gap word code => gap.1 ++ word.1 :: code.tokens
  | chain gap word head header code next =>
    gap.1 ++ word.1 :: head.1 :: header.1 ++ code.tokens ++ next.tokens

end Branch

namespace Pieces

def tokens : Pieces → List Token
  | conditional head header code next => head.1 :: header.1 ++ code.tokens ++ next.tokens
  | forEach head header code | loop head header code => head.1 :: header.1 ++ code.tokens
  | function mark head name header code =>
    (mark.map Subtype.val).toList ++ head.1 :: name.1 :: header.1 ++ code.tokens

end Pieces

/-! ### Reading pieces -/

section Reading

variable (markUnknown : Bool)

/-- Reads a conditional from its header, its body and the reader of what follows. -/
def readConditional (head : Token) (header : List Token) (code : Stretch) (otherwise : Read (Option Tree)) :
    Read Tree := do
  let condition ← Read.expression markUnknown header
  let inside ← code.read markUnknown
  let otherwise ← otherwise
  return .branch (if head.isKeyword "unless" then condition.negated else condition) (.block inside) otherwise

def Branch.read : Branch → Read (Option Tree)
  | absent => return none
  | body _ _ code => do return some (.block (← code.read markUnknown))
  | chain _ _ head header code next => do
    return some (.block [← readConditional markUnknown head.1 header.1 code next.read])

/-- Reads each piece by itself. -/
def Pieces.read : Pieces → Read (Option Tree)
  | conditional head header code next => do
    return some (← readConditional markUnknown head.1 header.1 code (next.read markUnknown))
  | forEach head header code => do
    let (counter, collection) ← Read.loopHeader markUnknown head.1 header.1
    return some (.forEach counter collection (.block (← code.read markUnknown)))
  | loop head header code => do
    let condition ← Read.expression markUnknown header.1
    return some (.loop condition (.block (← code.read markUnknown)) (head.1.isKeyword "until"))
  | function mark _ name header code => do
    let parameters ← Read.parameters markUnknown name.1 header.1
    let inside ← code.read markUnknown
    return some (← Read.functionTree name.1 mark.isSome parameters inside)

theorem conditional_eq_pieces (head : Token) (tail : List Token) :
    Read.conditional markUnknown head tail =
      readConditional markUnknown head (tail.takeWhile (!Extent.endsHeader ·))
        (Stretch.of (tail.dropWhile (!Extent.endsHeader ·)))
        (Read.ofOtherwise markUnknown
          (Otherwise.of (Body.of (tail.dropWhile (!Extent.endsHeader ·))).rest)) := by
  rw [Read.conditional_eq,readConditional]
  refine bind_congr fun condition => ?_
  rw [Stretch.read,bind_assoc]
  rfl

end Reading

/-! ### No token is left over -/

namespace Extent

theorem drop_trunk (head : Token) (tail : List Token) :
    (head :: tail).drop (trunk tail) = (Body.of (tail.dropWhile (!endsHeader ·))).rest := by
  have parts := takeWhile_append_dropWhile (p := fun token => !endsHeader token) (l := tail)
  have size : trunk tail =
      (tail.takeWhile (!endsHeader ·)).length + body (tail.dropWhile (!endsHeader ·)) + 1 := by
    unfold trunk
    omega
  rw [size,drop_succ_cons,← drop_drop,← Body.drop_body]
  congr 1
  calc tail.drop (tail.takeWhile (!endsHeader ·)).length
      = (tail.takeWhile (!endsHeader ·) ++ tail.dropWhile (!endsHeader ·)).drop
          (tail.takeWhile (!endsHeader ·)).length := by rw [parts]
    _ = tail.dropWhile (!endsHeader ·) := drop_left

theorem branches_of_filled {head : Token} {tail : List Token} (filled : compound head tail = tail.length + 1) :
    (if startsConditional head then branches (Body.of (tail.dropWhile (!endsHeader ·))).rest else 0) =
      (Body.of (tail.dropWhile (!endsHeader ·))).rest.length := by
  have bound := trunk_le (fun tokens _ => statement_le tokens) (Nat.le_refl tail.length)
  have remaining := congrArg List.length (drop_trunk head tail)
  rw [length_drop,length_cons] at remaining
  rw [compound_eq,drop_trunk] at filled
  omega

theorem rest_of_filled {head : Token} {tail : List Token} (plain : startsConditional head = false)
    (filled : compound head tail = tail.length + 1) : (Body.of (tail.dropWhile (!endsHeader ·))).rest = [] := by
  have left := branches_of_filled filled
  rw [plain,if_neg Bool.false_ne_true] at left
  exact length_eq_zero_iff.mp left.symm

theorem isCompound_of_startsConditional {head : Token} (conditional : startsConditional head = true)
    (tail : List Token) : isCompound (head :: tail) = true := by
  rw [startsConditional,Bool.or_eq_true,Token.isKeyword,Token.isKeyword,Bool.and_eq_true,Bool.and_eq_true,
    beq_iff_eq] at conditional
  rcases conditional with ⟨keyword,spelled⟩ | ⟨keyword,spelled⟩ <;>
    simp [isCompound,keyword,bodyKeywords,spelled]

theorem take_statement {tokens : List Token} (starts : isCompound tokens = true) :
    ∃ first rest, tokens.take (statement tokens) = first :: rest ∧ isCompound (first :: rest) = true ∧
      compound first rest = rest.length + 1 := by
  cases tokens with
  | nil => cases starts
  | cons first rest =>
    have same := statement_take (first :: rest) (Nat.le_refl _)
    have bound := statement_le (first :: rest)
    rw [statement_of_isCompound starts] at same bound ⊢
    obtain ⟨count,size⟩ := Nat.exists_eq_add_one.mpr (compound_pos first rest)
    rw [size,take_succ_cons] at same
    rw [size,length_cons] at bound
    have header : trunk rest ≤ count + 1 := by rw [← size,compound_eq]; omega
    have reaches := isCompound_take starts header
    rw [statement_of_isCompound reaches] at same
    rw [size,take_succ_cons]
    refine ⟨first, rest.take count, rfl, reaches, ?_⟩
    rw [same,length_take_of_le (by omega)]

end Extent

/-- The tokens that a list starts with and that keep to a rule. -/
def Words.leading (rule : Token → Bool) (tokens : List Token) : Words rule :=
  ⟨tokens.takeWhile rule, fun _ member => mem_takeWhile_imp member⟩

theorem Stretch.tokens_after_header (tail : List Token) :
    tail.takeWhile (!Extent.endsHeader ·) ++ (Stretch.of (tail.dropWhile (!Extent.endsHeader ·))).tokens ++
      (Body.of (tail.dropWhile (!Extent.endsHeader ·))).rest = tail := by
  rw [append_assoc,Stretch.tokens_of,takeWhile_append_dropWhile]

section Covered

variable (markUnknown : Bool)

/-- The branch takes all tokens, and reading its pieces reads them. -/
def Branch.Covers (branch : Branch) (rest : List Token) : Prop :=
  branch.tokens = rest ∧ branch.read markUnknown = Read.ofOtherwise markUnknown (Otherwise.of rest)

theorem covers_body {branch : List Token} {word : Token} (found : rest.dropWhile isTerminator = word :: branch)
    (isElse : word.isKeyword "else" = true) (plain : branch.head?.any Extent.startsConditional = false)
    (left : (Body.of branch).rest = []) :
    (Branch.body (.leading _ rest) ⟨word,isElse⟩ (.of branch)).Covers markUnknown rest := by
  constructor
  · have taken := Stretch.tokens_of branch
    rw [left,append_nil] at taken
    rw [Branch.tokens,taken,← found]
    exact takeWhile_append_dropWhile
  · have otherwise : Otherwise.of rest = .body branch := by
      cases branch with
      | nil => simp [Otherwise.of,found,isElse]
      | cons head tail =>
        have plain : Extent.startsConditional head = false := plain
        simp [Otherwise.of,found,isElse,plain]
    rw [otherwise,Read.ofOtherwise,Stretch.body_eq,Branch.read]
    simp only [bind_assoc,pure_bind]

theorem covers_chain {word : Token} {next : Branch} (found : rest.dropWhile isTerminator = word :: head :: tail)
    (isElse : word.isKeyword "else" = true) (conditional : Extent.startsConditional head = true)
    (covers : next.Covers markUnknown (Body.of (tail.dropWhile (!Extent.endsHeader ·))).rest) :
    (Branch.chain (.leading _ rest) ⟨word,isElse⟩ ⟨head,conditional⟩ (.leading _ tail)
      (.of (tail.dropWhile (!Extent.endsHeader ·))) next).Covers markUnknown rest := by
  obtain ⟨tokens,read⟩ := covers
  constructor
  · have whole := Stretch.tokens_after_header tail
    rw [Branch.tokens,tokens]
    calc rest.takeWhile isTerminator ++ word :: head :: tail.takeWhile (!Extent.endsHeader ·) ++
          (Stretch.of (tail.dropWhile (!Extent.endsHeader ·))).tokens ++
          (Body.of (tail.dropWhile (!Extent.endsHeader ·))).rest
        = rest.takeWhile isTerminator ++ word :: head :: (tail.takeWhile (!Extent.endsHeader ·) ++
          (Stretch.of (tail.dropWhile (!Extent.endsHeader ·))).tokens ++
          (Body.of (tail.dropWhile (!Extent.endsHeader ·))).rest) := by
            simp only [append_assoc,cons_append]
      _ = rest := by rw [whole,← found,takeWhile_append_dropWhile]
  · have otherwise : Otherwise.of rest = .chain head tail := by
      simp [Otherwise.of,found,isElse,conditional]
    rw [otherwise,Read.ofOtherwise,conditional_eq_pieces,Branch.read,read]
    rfl

theorem exists_branch (rest : List Token) (filled : Extent.branches rest = rest.length) :
    ∃ branch : Branch, branch.Covers markUnknown rest := by
  -- every link of a chain leaves fewer tokens after its body
  induction size : rest.length using Nat.strong_induction_on generalizing rest with
  | _ size shorter =>
  have absent (none : Extent.branches rest = 0) : ∃ branch : Branch, branch.Covers markUnknown rest := by
    have empty : rest = [] := length_eq_zero_iff.mp (filled.symm.trans none)
    subst empty
    exact ⟨.absent, rfl, rfl⟩
  cases found : rest.dropWhile isTerminator with
  | nil => exact absent (by rw [Extent.branches,found])
  | cons word branch =>
    cases isElse : word.isKeyword "else" with
    | false => exact absent (by simp [Extent.branches,found,isElse])
    | true =>
      have lengths := Extent.length_parts isTerminator rest
      rw [found,length_cons] at lengths
      have exhausted : Extent.body branch = branch.length := by
        simp only [Extent.branches,found,isElse,if_true] at filled
        omega
      cases chained : branch.head?.any Extent.startsConditional with
      | false =>
        have left : (Body.of branch).rest = [] := by rw [← Body.drop_body,exhausted,drop_length]
        exact ⟨_, covers_body markUnknown found isElse chained left⟩
      | true =>
        obtain ⟨head,tail,rfl⟩ : ∃ head tail, branch = head :: tail := by
          cases branch with
          | nil => cases chained
          | cons head tail => exact ⟨head, tail, rfl⟩
        have conditional : Extent.startsConditional head = true := chained
        rw [Extent.body_of_isCompound (Extent.isCompound_of_startsConditional conditional tail)] at exhausted
        have filledBelow := Extent.branches_of_filled exhausted
        rw [conditional,if_pos rfl] at filledBelow
        have fewer := Body.length_rest_le (tail.dropWhile (!Extent.endsHeader ·))
        have tailParts := Extent.length_parts (!Extent.endsHeader ·) tail
        rw [length_cons] at lengths
        obtain ⟨next,covers⟩ := shorter _ (by omega) _ filledBelow rfl
        exact ⟨_, covers_chain markUnknown found isElse conditional covers⟩

/-- The pieces are all tokens, and reading them reads the statement. -/
def Pieces.Covers (pieces : Pieces) (tokens : List Token) : Prop :=
  pieces.tokens = tokens ∧ pieces.read markUnknown = Read.statement markUnknown tokens

theorem covers_conditional (conditional : Extent.startsConditional head = true)
    (outline : Outline.of (head :: tail) = .conditional head tail) (filled : Extent.compound head tail = tail.length + 1) :
    ∃ pieces : Pieces, pieces.Covers markUnknown (head :: tail) := by
  have filledBelow := Extent.branches_of_filled filled
  rw [conditional,if_pos rfl] at filledBelow
  obtain ⟨next,tokens,read⟩ := exists_branch markUnknown _ filledBelow
  refine ⟨.conditional ⟨head,conditional⟩ (.leading _ tail)
    (.of (tail.dropWhile (!Extent.endsHeader ·))) next, ?_, ?_⟩
  · rw [Pieces.tokens,tokens]
    exact congrArg (head :: ·) (Stretch.tokens_after_header tail)
  · rw [Read.statement_eq,outline,Read.ofOutline,conditional_eq_pieces,Pieces.read,read]
    rfl

theorem covers_forEach (word : (head.isKeyword "for" || head.isKeyword "foreach") = true)
    (outline : Outline.of (head :: tail) = .forEach head tail)
    (left : (Body.of (tail.dropWhile (!Extent.endsHeader ·))).rest = []) :
    ∃ pieces : Pieces, pieces.Covers markUnknown (head :: tail) := by
  have whole := Stretch.tokens_after_header tail
  rw [left,append_nil] at whole
  refine ⟨.forEach ⟨head,word⟩ (.leading _ tail) (.of (tail.dropWhile (!Extent.endsHeader ·))), ?_, ?_⟩
  · exact congrArg (head :: ·) whole
  · rw [Read.statement_eq,outline,Read.ofOutline,Stretch.body_eq,Pieces.read]
    simp only [bind_assoc,pure_bind]
    rfl

theorem covers_loop (word : (head.isKeyword "while" || head.isKeyword "until") = true)
    (outline : Outline.of (head :: tail) = .loop head tail)
    (left : (Body.of (tail.dropWhile (!Extent.endsHeader ·))).rest = []) :
    ∃ pieces : Pieces, pieces.Covers markUnknown (head :: tail) := by
  have whole := Stretch.tokens_after_header tail
  rw [left,append_nil] at whole
  refine ⟨.loop ⟨head,word⟩ (.leading _ tail) (.of (tail.dropWhile (!Extent.endsHeader ·))), ?_, ?_⟩
  · exact congrArg (head :: ·) whole
  · rw [Read.statement_eq,outline,Read.ofOutline,Stretch.body_eq,Pieces.read]
    simp only [bind_assoc,pure_bind]
    rfl

theorem covers_function (mark : Option (Word isInline)) (word : head.isKeyword "function" = true)
    (outline : Outline.of ((mark.map Subtype.val).toList ++ head :: tail) =
      Outline.ofFunction head tail mark.isSome) (left : (Body.of (tail.dropWhile (!Extent.endsHeader ·))).rest = []) :
    (∃ pieces : Pieces, pieces.Covers markUnknown ((mark.map Subtype.val).toList ++ head :: tail)) ∨
      Read.statement markUnknown ((mark.map Subtype.val).toList ++ head :: tail) =
        Read.fail .namelessFunction head.line := by
  have nameless (none : Outline.ofFunction head tail mark.isSome = .nameless head) :
      Read.statement markUnknown ((mark.map Subtype.val).toList ++ head :: tail) =
        Read.fail .namelessFunction head.line := by
    rw [Read.statement_eq,outline,none,Read.ofOutline]
  cases tail with
  | nil => exact .inr (nameless rfl)
  | cons name rest =>
    by_cases named : name.tag = .identifier
    · left
      have passed : (!Extent.endsHeader name) = true := by rw [Extent.endsHeader,named]; rfl
      have code : (name :: rest).dropWhile (!Extent.endsHeader ·) = rest.dropWhile (!Extent.endsHeader ·) :=
        dropWhile_cons_of_pos passed
      have whole := Stretch.tokens_after_header rest
      rw [code] at left
      rw [left,append_nil] at whole
      refine ⟨.function mark ⟨head,word⟩ ⟨name,beq_iff_eq.mpr named⟩ (.leading _ rest)
        (.of (rest.dropWhile (!Extent.endsHeader ·))), ?_, ?_⟩
      · rw [Pieces.tokens,append_assoc]
        exact congrArg (fun others => (mark.map Subtype.val).toList ++ head :: name :: others) whole
      · rw [Read.statement_eq,outline,Outline.ofFunction,if_pos named,Read.ofOutline,Pieces.read,Stretch.read]
        simp only [bind_assoc]
        rfl
    · exact .inr (nameless (if_neg named))

theorem outline_of_keyword (keyword : head.tag = .keyword) (tail : List Token) :
    Outline.of (head :: tail) = Outline.ofKeyword head tail := by
  simp [Outline.of,keyword]

theorem outline_of_inline {mark : Token} (isMark : mark.isInline = true) (word : head.isKeyword "function" = true)
    (tail : List Token) :
    Outline.of (mark :: head :: tail) = Outline.ofFunction head tail true := by
  rw [isInline,Bool.and_eq_true,beq_iff_eq] at isMark
  have keyword : head.tag = .keyword := by
    rw [Token.isKeyword,Bool.and_eq_true,beq_iff_eq] at word
    exact word.1
  simp [Outline.of,isInline,isMark,keyword,word]

/-- A statement with a body that fills a token list has pieces, unless it is a function
without a name. -/
theorem exists_pieces {first : Token} (reaches : Extent.isCompound (first :: rest) = true)
    (filled : Extent.compound first rest = rest.length + 1) :
    (∃ pieces : Pieces, pieces.Covers markUnknown (first :: rest)) ∨
      ∃ line, Read.statement markUnknown (first :: rest) = Read.fail .namelessFunction line := by
  rw [Extent.isCompound] at reaches
  split at reaches
  · rename_i keyword
    have outline := outline_of_keyword keyword rest
    have isKeyword {word : String} (spelled : first.text.toLower = word) : first.isKeyword word = true := by
      simp [Token.isKeyword,spells,keyword,spelled]
    have left (plain : Extent.startsConditional first = false) := Extent.rest_of_filled plain filled
    simp only [Extent.bodyKeywords,spells,any_cons,any_nil,Bool.or_false,Bool.or_eq_true,
      beq_iff_eq] at reaches
    rcases reaches with spelled | spelled | spelled | spelled | spelled | spelled | spelled
    all_goals simp only [Outline.ofKeyword,spelled] at outline
    · exact .inl (covers_conditional markUnknown (by simp [Extent.startsConditional,isKeyword spelled]) outline filled)
    · exact .inl (covers_conditional markUnknown (by simp [Extent.startsConditional,isKeyword spelled]) outline filled)
    all_goals
      have plain : Extent.startsConditional first = false := by
        simp [Extent.startsConditional,Token.isKeyword,spells,spelled]
    · exact .inl (covers_loop markUnknown (by simp [isKeyword spelled]) outline (left plain))
    · exact .inl (covers_loop markUnknown (by simp [isKeyword spelled]) outline (left plain))
    · exact .inl (covers_forEach markUnknown (by simp [isKeyword spelled]) outline (left plain))
    · exact .inl (covers_forEach markUnknown (by simp [isKeyword spelled]) outline (left plain))
    · exact (covers_function markUnknown none (isKeyword spelled) outline (left plain)).imp_right (⟨_, ·⟩)
  · -- the header of the extent starts with the keyword, that of the reader after the name
    rw [Bool.and_eq_true] at reaches
    obtain ⟨head,tail,rfl⟩ : ∃ head tail, rest = head :: tail := by
      cases rest with
      | nil => cases reaches.2
      | cons head tail => exact ⟨head, tail, rfl⟩
    have isMark : first.isInline = true := reaches.1
    have word : head.isKeyword "function" = true := reaches.2
    have plain : Extent.startsConditional first = false := by
      rw [isInline,Bool.and_eq_true,beq_iff_eq] at isMark
      simp [Extent.startsConditional,Token.isKeyword,isMark.1]
    have passed : (!Extent.endsHeader head) = true := by
      rw [Token.isKeyword,Bool.and_eq_true,beq_iff_eq] at word
      rw [Extent.endsHeader,word.1]
      rfl
    have code : (head :: tail).dropWhile (!Extent.endsHeader ·) = tail.dropWhile (!Extent.endsHeader ·) :=
      dropWhile_cons_of_pos passed
    have left := Extent.rest_of_filled plain filled
    rw [code] at left
    exact (covers_function markUnknown (some ⟨first,isMark⟩) word (outline_of_inline isMark word tail)
      left).imp_right (⟨_, ·⟩)

end Covered

/-- The tokens that a statement with a body reaches over reach as far without what follows
them. Unless reading them fails, they are the pieces of the statement, one after the other,
and reading the statement is reading these. -/
theorem statement_covered (markUnknown : Bool) (tokens : List Token) (starts : Extent.isCompound tokens = true) :
    Extent.statement (tokens.take (Extent.statement tokens)) = Extent.statement tokens ∧
    ∀ symbols tree,
      (Action.outcome (Read.statement markUnknown (tokens.take (Extent.statement tokens))) symbols).1 = .ok tree →
      ∃ pieces : Pieces, pieces.tokens = tokens.take (Extent.statement tokens) ∧
        pieces.read markUnknown = Read.statement markUnknown (tokens.take (Extent.statement tokens)) := by
  have same := Extent.statement_take tokens (Nat.le_refl _)
  refine ⟨same, ?_⟩
  intro symbols tree done
  obtain ⟨first,rest,taken,reaches,filled⟩ := Extent.take_statement starts
  rw [taken] at done ⊢
  rcases exists_pieces markUnknown reaches filled with covered | ⟨line,fails⟩
  · exact covered
  · rw [fails,Read.fail,Action.outcome_throw] at done
    cases done

/-- A chain of branches with and without braces, and a word after it. -/
def ladder : List Token :=
  [⟨.keyword,"if",1⟩, ⟨.identifier,"a",1⟩, ⟨.blockOpen,"\x7b",1⟩, ⟨.identifier,"b",1⟩, ⟨.blockClose,"\x7d",1⟩,
    ⟨.terminator,"\n",1⟩, ⟨.keyword,"else",2⟩, ⟨.keyword,"unless",2⟩, ⟨.identifier,"c",2⟩,
    ⟨.terminator,"\n",2⟩, ⟨.identifier,"d",3⟩, ⟨.terminator,"\n",3⟩, ⟨.keyword,"else",4⟩,
    ⟨.blockOpen,"\x7b",4⟩, ⟨.blockClose,"\x7d",4⟩, ⟨.identifier,"e",4⟩]

theorem statement_covered_ladder :
    Extent.isCompound ladder = true ∧ Extent.statement ladder = 15 ∧ Extent.statement (ladder.take 15) = 15 ∧
    ∃ tree, (Action.outcome (Read.statement false (ladder.take 15)) {}).1 = .ok tree ∧
      ∃ pieces : Pieces, pieces.tokens = ladder.take 15 ∧
        pieces.read false = Read.statement false (ladder.take 15) := by
  have starts : Extent.isCompound ladder = true := by decide +kernel
  have size : Extent.statement ladder = 15 := by decide +kernel
  have done : (Action.outcome (Read.statement false (ladder.take 15)) {}).1.isOk = true := by decide +kernel
  have covered := statement_covered false ladder starts
  rw [size] at covered
  cases result : (Action.outcome (Read.statement false (ladder.take 15)) {}).1 with
  | error fault =>
    rw [result] at done
    cases done
  | ok tree => exact ⟨starts, size, covered.1, tree, rfl, covered.2 {} tree result⟩

end CalcBasic

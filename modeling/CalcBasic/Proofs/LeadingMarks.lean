import CalcBasic.Proofs.ReadWalk
import CalcBasic.Proofs.Variants

/-! Labels and `const` in front of a statement. They are passed over after it was found how
far the statement reaches, and a statement that starts with one of them reaches to the end
of its line. Where the statement behind ends there too, nothing else changes; a body that
ends before takes the rest of the line with it, and one that ends later is cut off. -/
namespace CalcBasic
open List
open Token (isTerminator spells)

/-! ### Remarks made before -/

namespace Read
open CalcBasic.Action

/-- The action adds to the remarks and never looks at those made before. -/
def Appends {α : Type} (action : Read α) : Prop :=
  ∀ symbols, ∃ added, ∀ notes, outcome action (symbols.noting notes) =
    ((outcome action symbols).1, (outcome action symbols).2.noting (notes ++ added))

theorem appends_of_noting {α : Type} {action : Read α} (blind : ∀ symbols notes, outcome action (symbols.noting notes) =
    ((outcome action symbols).1, (outcome action symbols).2.noting notes)) : Appends action := by
  intro symbols
  refine ⟨[], fun notes => ?_⟩
  rw [blind,append_nil]

theorem appends_bind {α β : Type} {first : Read α} {next : α → Read β} (start : Appends first)
    (continued : ∀ value, Appends (next value)) : Appends (first >>= next) := by
  intro symbols
  obtain ⟨early,reached⟩ := start symbols
  rcases done : outcome first symbols with ⟨error | value,after⟩
  · refine ⟨early, fun notes => ?_⟩
    rw [outcome_bind,outcome_bind,reached,done]
  · obtain ⟨late,finished⟩ := continued value after
    refine ⟨early ++ late, fun notes => ?_⟩
    have ended := reached notes
    rw [done] at ended
    rw [outcome_bind_ok ended,outcome_bind_ok done,finished,append_assoc]

theorem appends_pervade : Pervades Appends where
  pure _ := appends_of_noting fun _ _ => rfl
  fail _ _ := appends_of_noting fun _ _ => rfl
  bind := appends_bind
  look blind each symbols := by
    obtain ⟨added,reached⟩ := each symbols symbols
    refine ⟨added, fun notes => ?_⟩
    rw [outcome_bind_ok (outcome_get _),outcome_bind_ok (outcome_get _),blind symbols (symbols.noting notes) rfl,reached]
  remark note line symbols := ⟨[⟨note, line⟩], fun _ => rfl⟩
  use name := appends_of_noting fun symbols notes => by
    rw [outcome_modify,outcome_modify,symbols.reference_noting]
  listType _ := appends_of_noting fun _ _ => rfl
  declare _ _ := appends_of_noting fun _ _ => rfl
  define _ _ _ _ _ := appends_of_noting fun _ _ => rfl

/-- A remark before a reading stands between those made earlier and those of the reading. -/
theorem outcome_after_remark {α : Type} {action : Read α} (appends : Appends action) (note : Remark) (line : Option Nat)
    (symbols : Symbols) : ∃ added, (outcome action symbols).2.diagnostics = symbols.diagnostics ++ added ∧
      outcome (remark note line >>= fun _ => action) symbols = ((outcome action symbols).1,
        (outcome action symbols).2.noting (symbols.diagnostics ++ ⟨note, line⟩ :: added)) := by
  obtain ⟨added,reached⟩ := appends symbols
  refine ⟨added, congrArg (·.2.diagnostics) (reached symbols.diagnostics), ?_⟩
  have remarked : outcome (remark note line) symbols = (.ok (), symbols.noting (symbols.diagnostics ++ [⟨note, line⟩])) := rfl
  rw [outcome_bind_ok remarked,reached,append_assoc,singleton_append]

end Read

/-! ### What follows a statement with a body -/

theorem Stretch.ext {stretch other : Stretch} (same : stretch.body = other.body) : stretch = other := by
  cases stretch
  cases other
  cases same
  rfl

theorem Stretch.of_take {code : List Token} {count : Nat} (room : Extent.body code ≤ count) :
    Stretch.of (code.take count) = Stretch.of code := by
  have size := Extent.body_take (fun tokens _ count room => Extent.statement_take tokens room) (Nat.le_refl code.length) room
  apply Stretch.ext
  show { Body.of (code.take count) with rest := [] } = { Body.of code with rest := [] }
  rw [← Body.of_alone,← Body.of_alone,← Body.take_body,← Body.take_body,size,take_take,Nat.min_eq_left room]

theorem Body.rest_take {code : List Token} {count : Nat} (room : Extent.body code ≤ count) :
    (Body.of (code.take count)).rest = (Body.of code).rest.take (count - Extent.body code) := by
  have size := Extent.body_take (fun tokens _ count room => Extent.statement_take tokens room) (Nat.le_refl code.length) room
  rw [← Body.drop_body,size,drop_take,Body.drop_body]

namespace Read

variable {count : Nat} {tail : List Token}

variable (markUnknown : Bool)

theorem header_take (room : Extent.trunk tail ≤ count + 1) :
    (tail.take count).takeWhile (!Extent.endsHeader ·) = tail.takeWhile (!Extent.endsHeader ·) ∧
    (tail.take count).dropWhile (!Extent.endsHeader ·) =
      (tail.dropWhile (!Extent.endsHeader ·)).take (count - (tail.takeWhile (!Extent.endsHeader ·)).length) ∧
    Extent.body (tail.dropWhile (!Extent.endsHeader ·)) ≤ count - (tail.takeWhile (!Extent.endsHeader ·)).length := by
  unfold Extent.trunk at room
  exact ⟨Extent.takeWhile_take (by omega), Extent.dropWhile_take _ _ _, by omega⟩

theorem body_take {code : List Token} (room : Extent.body code ≤ count) :
    body markUnknown (code.take count) = body markUnknown code := by
  rw [Stretch.body_eq,Stretch.body_eq,Stretch.of_take room]

theorem ofOtherwise_take {rest : List Token} (room : Extent.branches rest ≤ count)
    (chain : ∀ head tail count, tail.length < rest.length → Extent.startsConditional head = true →
      Extent.compound head tail ≤ count + 1 → conditional markUnknown head (tail.take count) = conditional markUnknown head tail) :
    ofOtherwise markUnknown (Otherwise.of (rest.take count)) = ofOtherwise markUnknown (Otherwise.of rest) := by
  have lengths := Extent.length_parts isTerminator rest
  unfold Extent.branches at room
  unfold Otherwise.of
  rw [Extent.dropWhile_take]
  cases found : rest.dropWhile isTerminator with
  | nil => rw [take_nil]
  | cons word branch =>
    rw [found,length_cons] at lengths
    rw [found] at room
    cases isElse : word.isKeyword "else" with
    | false => cases count - (rest.takeWhile isTerminator).length <;> simp [isElse]
    | true =>
      have fits : (rest.takeWhile isTerminator).length + 1 + Extent.body branch ≤ count := by
        simpa only [isElse,if_true] using room
      obtain ⟨fewer,left⟩ : ∃ fewer, count - (rest.takeWhile isTerminator).length = fewer + 1 :=
        Nat.exists_eq_add_one.mpr (by omega)
      have enough : Extent.body branch ≤ fewer := by omega
      rw [left,take_succ_cons]
      simp only [isElse,if_true]
      cases branch with
      | nil => rw [take_nil]
      | cons head tail =>
        rw [length_cons] at lengths
        cases chained : Extent.startsConditional head with
        | true =>
          have reaches := Extent.body_of_isCompound (Extent.isCompound_of_startsConditional chained tail)
          have positive := Extent.compound_pos head tail
          rw [reaches] at enough
          obtain ⟨least,rfl⟩ := Nat.exists_eq_add_one.mpr (show 0 < fewer by omega)
          have same := chain head tail least (by omega) chained enough
          simp only [take_succ_cons,chained,if_true,ofOtherwise,same]
        | false =>
          have same := body_take markUnknown enough
          cases fewer with
          | zero => simpa [chained,ofOtherwise] using congrArg (· >>= fun tree => pure (some tree)) same
          | succ least => simpa [chained,ofOtherwise] using congrArg (· >>= fun tree => pure (some tree)) same

theorem conditional_take {head : Token} (starts : Extent.startsConditional head = true)
    (room : Extent.compound head tail ≤ count + 1) :
    conditional markUnknown head (tail.take count) = conditional markUnknown head tail := by
  induction size : tail.length using Nat.strong_induction_on generalizing head tail count with
  | _ size shorter =>
  rw [Extent.compound_eq,if_pos starts,Extent.drop_trunk] at room
  have trunk : Extent.trunk tail ≤ count + 1 := by omega
  have isTrunk : Extent.trunk tail = 1 + (tail.takeWhile (!Extent.endsHeader ·)).length +
      Extent.body (tail.dropWhile (!Extent.endsHeader ·)) := rfl
  obtain ⟨header,code,enough⟩ := header_take trunk
  have below := Body.length_rest_le (tail.dropWhile (!Extent.endsHeader ·))
  have lengths := Extent.length_parts (!Extent.endsHeader ·) tail
  rw [conditional_eq_pieces,conditional_eq_pieces,header,code,Stretch.of_take enough,Body.rest_take enough,
    ofOtherwise_take markUnknown (by omega)]
  intro next more fewer fits chained enough
  exact shorter more.length (by omega) chained enough rfl

theorem ofOutline_function (name : Token) (rest : List Token) (inline : Bool) :
    ofOutline markUnknown (.function name rest inline) = do
      let parameters ← parameters markUnknown name (rest.takeWhile (!Extent.endsHeader ·))
      let inside ← (Stretch.of (rest.dropWhile (!Extent.endsHeader ·))).read markUnknown
      return some (← functionTree name inline parameters inside) := by
  rw [ofOutline,Stretch.read]
  simp only [bind_assoc]
  rfl

theorem ofFunction_take {head : Token} (inline : Bool) (room : Extent.trunk tail ≤ count + 1) :
    ofOutline markUnknown (Outline.ofFunction head (tail.take count) inline) =
      ofOutline markUnknown (Outline.ofFunction head tail inline) := by
  cases tail with
  | nil => rw [take_nil]
  | cons name rest =>
    by_cases named : name.tag = .identifier
    · -- the name is the first token of the header
      have passed : (!Extent.endsHeader name) = true := by rw [Extent.endsHeader,named]; rfl
      have header : (name :: rest).takeWhile (!Extent.endsHeader ·) = name :: rest.takeWhile (!Extent.endsHeader ·) :=
        takeWhile_cons_of_pos passed
      have code : (name :: rest).dropWhile (!Extent.endsHeader ·) = rest.dropWhile (!Extent.endsHeader ·) :=
        dropWhile_cons_of_pos passed
      rw [Extent.trunk,header,code,length_cons] at room
      obtain ⟨fewer,rfl⟩ := Nat.exists_eq_add_one.mpr (show 0 < count by omega)
      obtain ⟨params,after,enough⟩ := header_take (show Extent.trunk rest ≤ fewer + 1 by unfold Extent.trunk; omega)
      simp only [take_succ_cons,Outline.ofFunction,if_pos named]
      rw [ofOutline_function,ofOutline_function,params,after,Stretch.of_take enough]
    · cases count <;> simp [Outline.ofFunction,named]

theorem statement_take {first : Token} {rest : List Token} (reaches : Extent.isCompound (first :: rest) = true)
    {size : Nat} (enough : Extent.statement (first :: rest) ≤ size) :
    statement markUnknown ((first :: rest).take size) = statement markUnknown (first :: rest) := by
  rw [Extent.statement_of_isCompound reaches] at enough
  obtain ⟨count,rfl⟩ := Nat.exists_eq_add_one.mpr (Nat.le_trans (Extent.compound_pos first rest) enough)
  have room : Extent.compound first rest ≤ count + 1 := enough
  have trunk : Extent.trunk rest ≤ count + 1 := by rw [Extent.compound_eq] at room; omega
  rw [take_succ_cons]
  obtain ⟨header,code,enough⟩ := header_take trunk
  rw [statement_eq,statement_eq]
  rw [Extent.isCompound] at reaches
  split at reaches
  · rename_i keyword
    rw [outline_of_keyword keyword,outline_of_keyword keyword]
    have isKeyword {word : String} (spelled : first.text.toLower = word) : first.isKeyword word = true := by
      simp [Token.isKeyword,spells,keyword,spelled]
    simp only [Extent.bodyKeywords,spells,any_cons,any_nil,Bool.or_false,Bool.or_eq_true,
      beq_iff_eq] at reaches
    rcases reaches with spelled | spelled | spelled | spelled | spelled | spelled | spelled
    all_goals simp only [Outline.ofKeyword,spelled]
    · rw [ofOutline,ofOutline,conditional_take markUnknown (by simp [Extent.startsConditional,isKeyword spelled]) room]
    · rw [ofOutline,ofOutline,conditional_take markUnknown (by simp [Extent.startsConditional,isKeyword spelled]) room]
    · rw [ofOutline,ofOutline,header,code,body_take markUnknown enough]
    · rw [ofOutline,ofOutline,header,code,body_take markUnknown enough]
    · rw [ofOutline,ofOutline,header,code,body_take markUnknown enough]
    · rw [ofOutline,ofOutline,header,code,body_take markUnknown enough]
    · exact ofFunction_take markUnknown false trunk
  · rw [Bool.and_eq_true] at reaches
    obtain ⟨head,tail,rfl⟩ : ∃ head tail, rest = head :: tail := by
      cases rest with
      | nil => cases reaches.2
      | cons head tail => exact ⟨head, tail, rfl⟩
    have word : head.isKeyword "function" = true := reaches.2
    have passed : (!Extent.endsHeader head) = true := by
      rw [Token.isKeyword,Bool.and_eq_true,beq_iff_eq] at word
      rw [Extent.endsHeader,word.1]
      rfl
    have start : (head :: tail).takeWhile (!Extent.endsHeader ·) = head :: tail.takeWhile (!Extent.endsHeader ·) :=
      takeWhile_cons_of_pos passed
    have after : (head :: tail).dropWhile (!Extent.endsHeader ·) = tail.dropWhile (!Extent.endsHeader ·) :=
      dropWhile_cons_of_pos passed
    rw [Extent.trunk,start,after,length_cons] at trunk
    obtain ⟨fewer,rfl⟩ := Nat.exists_eq_add_one.mpr (show 0 < count by omega)
    rw [take_succ_cons,outline_of_inline reaches.1 word,outline_of_inline reaches.1 word]
    exact ofFunction_take markUnknown true (by unfold Extent.trunk; omega)

end Read

/-! ### Marks -/

/-- A token that is passed over in front of a statement. -/
def Token.isMark (token : Token) : Bool := token.tag == .label || token.isKeyword "const"

theorem Token.tag_of_isMark {mark : Token} (isMark : mark.isMark = true) : mark.tag = .label ∨ mark.tag = .keyword := by
  rw [Token.isMark,Bool.or_eq_true,beq_iff_eq,isKeyword,Bool.and_eq_true,beq_iff_eq] at isMark
  exact isMark.imp_right And.left

namespace Extent

/-- Number of tokens up to the first terminator outside brackets. -/
def line (tokens : List Token) : Nat := ((Brackets.leveled 0 tokens).takeWhile inside).length

theorem isCompound_mark {mark : Token} (isMark : mark.isMark = true) (tokens : List Token) :
    isCompound (mark :: tokens) = false := by
  rw [Token.isMark,Bool.or_eq_true,beq_iff_eq,Token.isKeyword,Bool.and_eq_true,beq_iff_eq,spells,beq_iff_eq] at isMark
  rcases isMark with label | ⟨keyword,spelled⟩
  · simp [isCompound,label,Token.isInline]
  · simp [isCompound,keyword,bodyKeywords,spells,spelled]

/-- A statement with a mark reaches to the end of its line. -/
theorem statement_mark {mark : Token} (isMark : mark.isMark = true) (tokens : List Token) :
    statement (mark :: tokens) = line tokens + 1 := by
  have opens : mark.tag ≠ .blockOpen := by
    rcases Token.tag_of_isMark isMark with tag | tag <;> simp [tag]
  rw [statement_of_plain opens (isCompound_mark isMark tokens)]
  rcases Token.tag_of_isMark isMark with tag | tag
  all_goals
    rw [Brackets.leveled,takeWhile_cons_of_pos (by simp [inside,isTerminator,tag]),length_cons,tag]
    rfl

end Extent

namespace Read

variable {first mark : Token}

variable (markUnknown : Bool)

/-- Labels are remarked on. -/
def announce (mark : Token) : Read Unit :=
  if mark.tag = .label then remark (.labelIgnored mark.text) (some mark.line) else pure ()

/-- Reads one statement and then those after it. -/
def readParts (front back : List Token) : Read (List Tree) := do
  let tree ← statement markUnknown front
  let others ← statements markUnknown back
  return tree.toList ++ others

theorem statements_eq_parts (solid : first.isTerminator = false) (rest : List Token) :
    statements markUnknown (first :: rest) = readParts markUnknown
      ((first :: rest).take (Extent.statement (first :: rest))) ((first :: rest).drop (Extent.statement (first :: rest))) := by
  obtain ⟨size,isSize⟩ := Nat.exists_eq_add_one.mpr (Extent.statement_pos solid rest)
  rw [statements,if_neg (by simp [solid]),isSize]
  rfl

theorem statement_mark (isMark : mark.isMark = true) (tokens : List Token) :
    statement markUnknown (mark :: tokens) = announce mark >>= fun _ => statement markUnknown tokens := by
  rw [statement_eq,announce]
  by_cases label : mark.tag = .label
  · have outline : Outline.of (mark :: tokens) = .label mark tokens := by simp [Outline.of,label]
    rw [outline,if_pos label,ofOutline]
  · rw [Token.isMark,Bool.or_eq_true,beq_iff_eq,Token.isKeyword,Bool.and_eq_true,beq_iff_eq,spells,beq_iff_eq] at isMark
    obtain ⟨keyword,spelled⟩ := isMark.resolve_left label
    rw [outline_of_keyword keyword,if_neg label,pure_bind]
    simp only [Outline.ofKeyword,spelled,ofOutline]

/-- Behind a mark the tokens are cut at the end of the line, whatever statement they start with. -/
theorem block_mark (isMark : mark.isMark = true) (tokens : List Token) :
    block markUnknown (mark :: tokens) = announce mark >>= fun _ =>
      readParts markUnknown (tokens.take (Extent.line tokens)) (tokens.drop (Extent.line tokens)) := by
  have tag := Token.tag_of_isMark isMark
  have opens : mark.tag ≠ .blockOpen := by
    rcases tag with tag | tag <;> simp [tag]
  have solid : mark.isTerminator = false := by
    rcases tag with tag | tag <;> simp [isTerminator,tag]
  rw [block,if_neg opens,statements_eq_parts markUnknown solid,Extent.statement_mark isMark,take_succ_cons,
    drop_succ_cons,readParts,statement_mark markUnknown isMark,bind_assoc]
  rfl

/-- Unless it is in braces and all there is, the first statement is read before the others. -/
theorem block_eq_parts (solid : first.isTerminator = false) {rest : List Token}
    (followed : first.tag = .blockOpen → (first :: rest).drop (Extent.statement (first :: rest)) ≠ []) :
    block markUnknown (first :: rest) = readParts markUnknown
      ((first :: rest).take (Extent.statement (first :: rest))) ((first :: rest).drop (Extent.statement (first :: rest))) := by
  by_cases opens : first.tag = .blockOpen
  · have more := followed opens
    rw [Extent.statement_of_block opens] at more ⊢
    rw [block,if_pos opens,braced_eq]
    cases closed : Brackets.closing? first rest with
    | none =>
      rw [closed] at more
      exact absurd (drop_length (l := first :: rest)) more
    | some cut =>
      rw [closed] at more
      have whole := Brackets.whole_of_closing? closed
      have after : rest.drop (cut.before.length + 1) = cut.after := by
        rw [← whole,Cut.whole]
        simp
      have left : cut.after.isEmpty = false := by
        rw [← after]
        simpa using more
      have outline : Outline.of (first :: rest.take (cut.before.length + 1)) = .braces first (rest.take (cut.before.length + 1)) := by
        simp [Outline.of,opens]
      simp only [left,Bool.false_eq_true,if_false,take_succ_cons,drop_succ_cons,after,readParts,statement_eq,outline,
        ofOutline,braced_eq,Extent.closing?_alone closed,isEmpty_nil,if_true,bind_assoc,pure_bind]
      rfl
  · rw [block,if_neg opens,statements_eq_parts markUnknown solid]

/-- Behind a mark, a block in braces that is all there is keeps its braces. -/
theorem readParts_braces (opens : first.tag = .blockOpen) (rest : List Token) :
    readParts markUnknown (first :: rest) [] = do return [.block (← block markUnknown (first :: rest))] := by
  have outline : Outline.of (first :: rest) = .braces first rest := by simp [Outline.of,opens]
  rw [readParts,statement_eq,outline,ofOutline,block,if_pos opens,statements]
  simp only [bind_assoc,pure_bind]
  rfl

end Read

open CalcBasic.Action CalcBasic.Read in
/-- How tokens are read behind a mark, next to how they are read without it. -/
structure PassesOver (markUnknown : Bool) (mark : Token) (tokens : List Token) : Prop where
  /-- A statement without a body ends with its line. -/
  plain : tokens.head?.any (·.tag == .blockOpen) = false → Extent.isCompound tokens = false →
    Extent.statement tokens = Extent.line tokens
  /-- Where the statement ends with its line, nothing changes but for a remark on the label. -/
  same : Extent.statement tokens = Extent.line tokens →
    (tokens.head?.any (·.tag == .blockOpen) = true → tokens.drop (Extent.statement tokens) ≠ []) → ∀ symbols,
      if mark.tag = .label then
        ∃ added, (outcome (block markUnknown tokens) symbols).2.diagnostics = symbols.diagnostics ++ added ∧
          outcome (block markUnknown (mark :: tokens)) symbols = ((outcome (block markUnknown tokens) symbols).1,
            (outcome (block markUnknown tokens) symbols).2.noting
              (symbols.diagnostics ++ ⟨.labelIgnored mark.text, some mark.line⟩ :: added))
      else outcome (block markUnknown (mark :: tokens)) symbols = outcome (block markUnknown tokens) symbols
  /-- A body that ends before the line is all that is read of the line. -/
  dropped : Extent.isCompound tokens = true → Extent.statement tokens ≤ Extent.line tokens →
    block markUnknown (mark :: tokens) = announce mark >>= fun _ =>
      readParts markUnknown (tokens.take (Extent.statement tokens)) (tokens.drop (Extent.line tokens))
  /-- A statement that ends after the line is cut off there. -/
  cut : block markUnknown (mark :: tokens) = announce mark >>= fun _ =>
    readParts markUnknown (tokens.take (Extent.line tokens)) (tokens.drop (Extent.line tokens))
  /-- A block in braces that is all there is keeps its braces. -/
  braces : tokens.head?.any (·.tag == .blockOpen) = true → Extent.line tokens = tokens.length →
    block markUnknown (mark :: tokens) = announce mark >>= fun _ => do return [.block (← block markUnknown tokens)]

open CalcBasic.Action CalcBasic.Read in
/-- A label or `const` changes nothing but itself in front of a statement that ends with its line. -/
theorem mark_passed_over (markUnknown : Bool) {mark first : Token} (isMark : mark.isMark = true)
    (solid : first.isTerminator = false) (rest : List Token) : PassesOver markUnknown mark (first :: rest) := by
  have reads := block_mark markUnknown isMark (first :: rest)
  constructor
  case cut => exact reads
  case plain =>
    intro opens starts
    exact Extent.statement_of_plain (by simpa using opens) starts
  case same =>
    intro ends followed symbols
    have parts : block markUnknown (first :: rest) = _ := block_eq_parts markUnknown solid (by simpa using followed)
    rw [← ends,← parts] at reads
    rw [reads,announce]
    split
    · exact outcome_after_remark (appends_pervade.block markUnknown _) _ _ symbols
    · rw [pure_bind]
  case dropped =>
    intro starts ends
    rw [reads,readParts,readParts,statement_take markUnknown starts ends,statement_take markUnknown starts (Nat.le_refl _)]
  case braces =>
    intro opens whole
    rw [reads,whole,take_length,drop_length,readParts_braces markUnknown (by simpa using opens)]

/-- `if a { b = 1 }` -/
def guardedStore : List Token :=
  [⟨.keyword,"if",1⟩, ⟨.identifier,"a",1⟩, ⟨.blockOpen,"\x7b",1⟩, ⟨.identifier,"b",1⟩, ⟨.assign,"=",1⟩, ⟨.number,"1",1⟩,
    ⟨.blockClose,"\x7d",1⟩]

/-- `c = 2` -/
def nextStore : List Token := [⟨.identifier,"c",1⟩, ⟨.assign,"=",1⟩, ⟨.number,"2",1⟩]

def pointMark : Token := ⟨.label,"l",1⟩

def constMark : Token := ⟨.keyword,"const",1⟩

open CalcBasic.Action CalcBasic.Read in
theorem mark_passed_over_guardedStore :
    pointMark.isMark = true ∧
    Extent.statement (guardedStore ++ ⟨.terminator,";",1⟩ :: nextStore) =
      Extent.line (guardedStore ++ ⟨.terminator,";",1⟩ :: nextStore) ∧
    (outcome (block false (pointMark :: guardedStore ++ ⟨.terminator,";",1⟩ :: nextStore)) {}).1 =
      (outcome (block false (guardedStore ++ ⟨.terminator,";",1⟩ :: nextStore)) {}).1 ∧
    (outcome (block false (pointMark :: guardedStore ++ ⟨.terminator,";",1⟩ :: nextStore)) {}).2.diagnostics =
      [⟨.labelIgnored "l", some 1⟩] := by
  have ends : Extent.statement (guardedStore ++ ⟨.terminator,";",1⟩ :: nextStore) =
      Extent.line (guardedStore ++ ⟨.terminator,";",1⟩ :: nextStore) := by decide +kernel
  have silent : (outcome (block false (guardedStore ++ ⟨.terminator,";",1⟩ :: nextStore)) {}).2.diagnostics = [] := by
    decide +kernel
  have passes := (@mark_passed_over false pointMark ⟨.keyword,"if",1⟩ (by decide +kernel) rfl
    (guardedStore.tail ++ ⟨.terminator,";",1⟩ :: nextStore)).same ends nofun {}
  obtain ⟨added,remarked,read⟩ := passes
  refine ⟨by decide +kernel, ends, congrArg (·.1) read, ?_⟩
  rw [show added = [] from (silent.symm.trans remarked).symm] at read
  exact congrArg (·.2.diagnostics) read

open CalcBasic.Action CalcBasic.Read in
/-- Without a terminator the statement after a body is lost behind a mark. -/
theorem mark_drops_statement :
    Extent.statement (guardedStore ++ nextStore) = guardedStore.length ∧
    (outcome (block false (guardedStore ++ nextStore)) {}).1.toOption.map List.length = some 2 ∧
    ∀ mark ∈ [pointMark, constMark],
      (outcome (block false (mark :: guardedStore ++ nextStore)) {}).1.toOption.map List.length = some 1 := by
  decide +kernel

end CalcBasic

import CalcBasic.Proofs.Segments

/-! The tokens of a scan: where they come from, which lines they are on, and what the
names among them are spelled with. -/
namespace CalcBasic

namespace Lexeme

theorem line_of_mem_tokens {lexeme : Lexeme} {keepBlanks : Bool} {line : Nat} {token : Token}
    (given : token ∈ lexeme.tokens keepBlanks line) : token.line = line := by
  cases lexeme with
  | blank =>
    cases keepBlanks with
    | true =>
      obtain rfl := List.mem_singleton.mp given
      rfl
    | false => cases given
  | comment => cases given
  | step sign =>
    simp only [tokens,List.mem_cons,List.not_mem_nil,or_false] at given
    rcases given with rfl | rfl <;> rfl
  | word | label | native | plain =>
    obtain rfl := List.mem_singleton.mp given
    rfl

theorem exists_first_of_mem_scan {text : List Char} {lexeme : Lexeme} (member : lexeme ∈ scan text) :
    ∃ c rest, lexeme = first c rest := by
  fun_induction scan text with
  | case1 => cases member
  | case2 c rest found ih =>
    rcases List.mem_cons.mp member with rfl | later
    · exact ⟨c, rest, rfl⟩
    · exact ih later

/-! ### Names -/

theorem symbol_ne_plain {tag : Tag} (other : tag ∈ [.identifier, .number]) (c : Char) (rest characters : List Char) :
    symbol c rest ≠ .plain tag characters := by
  have single : symbolTag c ≠ tag := by
    rintro rfl
    revert other
    unfold symbolTag
    split <;> decide
  unfold symbol
  split
  · simp [single]
  · split
    · rename_i found given
      have apart : found ≠ tag := by
        rintro rfl
        unfold pairTag? at given
        split at given <;> cases given <;> revert other <;> decide
      simp [apart]
    · split
      · exact Lexeme.noConfusion
      · simp [single]

theorem ofWord_identifier {word rest characters : List Char} (named : ofWord word rest = .plain .identifier characters) :
    characters = word := by
  simp only [ofWord] at named
  grind

theorem isWordPart_of_first {c d : Char} {rest characters : List Char}
    (named : first c rest = .plain .identifier characters) (member : d ∈ characters) : isWordPart d = true := by
  have start (isStart : isWordStart c = true) : isWordPart c = true := by
    simp only [isWordStart,isWordPart,Char.isAlphanum,Bool.or_eq_true] at isStart ⊢
    exact isStart.imp_left Or.inl
  unfold first at named
  split at named
  · rename_i isStart
    rw [ofWord_identifier named] at member
    rcases List.mem_cons.mp member with rfl | later
    · exact start isStart
    · exact List.mem_takeWhile_imp later
  · repeat' split at named
    all_goals first | cases named | exact absurd named (symbol_ne_plain (by decide) c rest characters)

end Lexeme

namespace Token

variable {keepBlanks : Bool} {token : Token} {source : String}

theorem exists_of_mem_ofLexemes {line : Nat} {lexemes : List Lexeme} (member : token ∈ ofLexemes keepBlanks line lexemes) :
    ∃ lexeme ∈ lexemes, ∃ start ≥ line, token ∈ lexeme.tokens keepBlanks start := by
  induction lexemes generalizing line with
  | nil => cases member
  | cons lexeme rest ih =>
    rcases List.mem_append.mp member with here | later
    · exact ⟨lexeme, List.mem_cons_self, line, le_rfl, here⟩
    · obtain ⟨other,inside,start,after,given⟩ := ih later
      exact ⟨other, List.mem_cons_of_mem lexeme inside, start, Nat.le_of_add_right_le after, given⟩

/-- Lines are counted from one. -/
theorem line_pos_of_mem_scan (member : token ∈ scan keepBlanks source) : 0 < token.line := by
  obtain ⟨lexeme,_,start,first,given⟩ := exists_of_mem_ofLexemes member
  rw [Lexeme.line_of_mem_tokens given]
  exact first

/-- A name or a number is scanned as it stands, except for the number that `++` and `--` stand for. -/
theorem exists_plain_of_mem_scan (member : token ∈ scan keepBlanks source) (tagged : token.tag ∈ [.identifier, .number]) :
    (∃ c rest characters, Lexeme.first c rest = .plain token.tag characters ∧ token.text = String.ofList characters) ∨
      token.tag = .number ∧ token.text = "1" := by
  obtain ⟨lexeme,scanned,start,_,given⟩ := exists_of_mem_ofLexemes member
  obtain ⟨c,rest,isFirst⟩ := Lexeme.exists_first_of_mem_scan scanned
  obtain ⟨after,_,_,sound⟩ := Lexeme.starts_first c rest
  rw [← isFirst] at sound
  cases lexeme with
  | comment => cases given
  | blank =>
    cases keepBlanks with
    | true =>
      obtain rfl := List.mem_singleton.mp given
      simp at tagged
    | false => cases given
  | step sign =>
    simp only [Lexeme.tokens,List.mem_cons,List.not_mem_nil,or_false] at given
    rcases given with rfl | rfl
    · simp at tagged
    · exact .inr ⟨rfl, rfl⟩
  | label | native =>
    obtain rfl := List.mem_singleton.mp given
    simp at tagged
  | word tag characters =>
    obtain rfl := List.mem_singleton.mp given
    simp only [Lexeme.Sound,List.mem_cons,List.not_mem_nil,or_false] at sound tagged
    rcases sound with rfl | rfl | rfl <;> simp at tagged
  | plain tag characters =>
    obtain rfl := List.mem_singleton.mp given
    exact .inl ⟨c, rest, characters, isFirst.symm, rfl⟩

theorem isWordPart_of_mem_scan (member : token ∈ scan keepBlanks source)
    (named : token.tag = .identifier) : ∀ c ∈ token.text.toList, Lexeme.isWordPart c = true := by
  rcases exists_plain_of_mem_scan member (by simp [named]) with ⟨c,rest,characters,isFirst,text⟩ | ⟨isNumber,_⟩
  · rw [named] at isFirst
    intro d inside
    rw [text,String.toList_ofList] at inside
    exact Lexeme.isWordPart_of_first isFirst inside
  · rw [named] at isNumber
    cases isNumber

end Token
end CalcBasic

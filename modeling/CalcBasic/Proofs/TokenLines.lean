import CalcBasic.Proofs.NumeralForms
import CalcBasic.Proofs.ScannedTokens

/-! The lines of tokens. A token is on the line that its first character stands on in the
source, less the line breaks inside texts and native code before it: those are passed over
without being counted, and so are no others. -/
namespace CalcBasic
open List

namespace Token

/-- The token shows unless it is a blank and blanks are not kept. -/
def isKept (keepBlanks : Bool) (token : Token) : Bool := keepBlanks || token.tag != .whitespace

/-- Tokens between quotes or back-ticks. -/
def isQuoted (token : Token) : Bool := token.tag == .text || token.tag == .native

/-- The line breaks inside quoted tokens. -/
def quotedBreaks (tokens : List Token) : Nat :=
  ((tokens.filter isQuoted).map fun token => token.text.toList.count '\n').sum

theorem quotedBreaks_append (tokens others : List Token) :
    quotedBreaks (tokens ++ others) = quotedBreaks tokens + quotedBreaks others := by
  simp [quotedBreaks]

theorem quotedBreaks_eq_zero_iff (tokens : List Token) :
    quotedBreaks tokens = 0 ↔ ∀ token ∈ tokens, token.isQuoted = true → '\n' ∉ token.text.toList := by
  simp only [quotedBreaks,sum_eq_zero_iff,forall_mem_map,mem_filter,count_eq_zero,and_imp]

end Token

namespace Lexeme

variable {numeral text : List Char}

/-- No line break but those of blanks and quoted text. -/
def Tight : Lexeme → Prop
  | .comment body => '\n' ∉ body
  | .blank _ | .native _ => True
  | .word tag characters => tag ∈ [.range, .rangeStep, .source] ∧ '\n' ∉ characters
  | .label name gap => '\n' ∉ name ∧ '\n' ∉ gap
  | .step sign => sign ≠ '\n'
  | .plain tag characters => tag = .text ∨ '\n' ∉ characters

theorem takeWhile_unbroken (isPart : Char → Bool) (apart : isPart '\n' = false) (text : List Char) :
    '\n' ∉ text.takeWhile isPart := by
  intro member
  rw [mem_takeWhile_imp member] at apart
  cases apart

theorem numeral_unbroken (found : Lexeme.numeral text = some numeral) : '\n' ∉ numeral := fun member =>
  absurd ((shape_of_numeral found).characters '\n' member) (by decide)

theorem tight_ofWord {characters : List Char} (unbroken : '\n' ∉ characters) (rest : List Char) :
    (ofWord characters rest).Tight := by
  have gap := takeWhile_unbroken Text.isInlineBlank (by decide) rest
  simp only [ofWord]
  split
  · exact ⟨by decide, unbroken⟩
  split
  · exact ⟨by decide, unbroken⟩
  split
  · exact ⟨by decide, unbroken⟩
  split
  · exact .inr unbroken
  split
  · exact .inr unbroken
  · exact ⟨unbroken, gap⟩
  · exact .inr unbroken

theorem tight_symbol {c : Char} (solid : c ≠ '\n') (rest : List Char) : (symbol c rest).Tight := by
  have single : (Lexeme.plain (symbolTag c) [c]).Tight := by
    exact .inr (by simpa using solid.symm)
  unfold symbol
  split
  · exact single
  · split
    · rename_i tag found
      refine .inr ?_
      unfold pairTag? at found
      split at found
      case h_13 => cases found
      all_goals decide
    · split
      · exact solid
      · exact single

theorem tight_first (c : Char) (rest : List Char) : (first c rest).Tight := by
  unfold first
  split
  · rename_i isStart
    refine tight_ofWord ?_ _
    rw [mem_cons]
    rintro (rfl | later)
    · exact absurd isStart (by decide)
    · exact takeWhile_unbroken isWordPart (by decide) rest later
  split
  · exact takeWhile_unbroken _ (by decide) _
  split
  · trivial
  rename_i notBlank
  have solid : c ≠ '\n' := by
    rintro rfl
    exact notBlank (by decide)
  split
  · exact .inl rfl
  · rename_i digits _ found
    exact .inr (numeral_unbroken found)
  · trivial
  · exact tight_symbol solid rest

theorem tight_of_mem_scan {lexeme : Lexeme} (member : lexeme ∈ scan text) : lexeme.Tight := by
  fun_induction scan text with
  | case1 => cases member
  | case2 c rest found ih =>
    rcases mem_cons.mp member with rfl | later
    · exact tight_first c rest
    · exact ih later

theorem count_source {lexeme : Lexeme} (tight : lexeme.Tight) (line : Nat) :
    lexeme.source.count '\n' = lexeme.lineBreaks + Token.quotedBreaks (lexeme.tokens true line) := by
  have unquoted {token : Token} {characters : List Char} (written : token.text = String.ofList characters)
      (unbroken : '\n' ∉ characters) : Token.quotedBreaks [token] = 0 := by
    simp [Token.quotedBreaks_eq_zero_iff,written,unbroken]
  cases lexeme with
  | comment body =>
    have none : body.count '\n' = 0 := count_eq_zero.mpr tight
    simp [source,lineBreaks,tokens,Token.quotedBreaks,none]
  | blank characters => simp [source,lineBreaks,tokens,Token.quotedBreaks,Token.isQuoted]
  | word tag characters =>
    obtain ⟨tag,unbroken⟩ := tight
    have none : characters.count '\n' = 0 := count_eq_zero.mpr unbroken
    simp only [mem_cons,not_mem_nil,or_false] at tag
    rcases tag with rfl | rfl | rfl <;>
      simp [source,lineBreaks,tokens,Token.quotedBreaks,Token.isQuoted,none]
  | label name gap =>
    have noName : name.count '\n' = 0 := count_eq_zero.mpr tight.1
    have noGap : gap.count '\n' = 0 := count_eq_zero.mpr tight.2
    simp [source,lineBreaks,tokens,Token.quotedBreaks,Token.isQuoted,noName,noGap]
  | native body => simp [source,lineBreaks,tokens,Token.quotedBreaks,Token.isQuoted]
  | step sign =>
    have other : sign ≠ '\n' := tight
    simp [source,lineBreaks,tokens,Token.quotedBreaks,Token.isQuoted,other]
  | plain tag characters =>
    rcases tight with rfl | unbroken
    · simp [source,lineBreaks,tokens,Token.quotedBreaks,Token.isQuoted]
    · rw [source,tokens,unquoted rfl unbroken,count_eq_zero.mpr unbroken]
      rfl

theorem line_of_segments {line : Nat} {lexemes : List Lexeme} (tight : ∀ lexeme ∈ lexemes, lexeme.Tight)
    {before after : List Segment} {segment : Segment} (split : segments line lexemes = before ++ segment :: after)
    {token : Token} (given : token ∈ segment.tokens) :
    token.line + Token.quotedBreaks (before.flatMap Segment.tokens) = line + (before.flatMap Segment.text).count '\n' := by
  induction lexemes generalizing line before with
  | nil => simp [segments] at split
  | cons lexeme rest ih =>
    rw [segments] at split
    cases before with
    | nil =>
      obtain ⟨rfl,_⟩ := List.cons.inj split
      rw [line_of_mem_tokens given]
      rfl
    | cons _ before =>
      obtain ⟨rfl,later⟩ := List.cons.inj split
      have behind := ih (fun other member => tight other (mem_cons_of_mem lexeme member)) later
      have counted := count_source (tight lexeme mem_cons_self) line
      simp only [flatMap_cons,count_append,Token.quotedBreaks_append]
      omega

end Lexeme

/-- The segment starts in the source behind `front`, which is the text of the segments before
it and the carriage returns between. -/
def Segment.StartsBehind (segment : Segment) (front : List Char) (before : List Segment) (source : List Char) : Prop :=
  front.filter (· != '\r') = before.flatMap Segment.text ∧
    ∃ c more back, segment.text = c :: more ∧ source = front ++ c :: back

theorem Segment.exists_front {segment : Segment} {before after : List Segment} {source tail : List Char} (filled : segment.text ≠ [])
    (whole : source.filter (· != '\r') = (before ++ segment :: after).flatMap Segment.text ++ tail) :
    ∃ front, segment.StartsBehind front before source := by
  obtain ⟨c,more,isText⟩ := exists_cons_of_ne_nil filled
  rw [flatMap_append,flatMap_cons,isText,append_assoc,cons_append,cons_append] at whole
  obtain ⟨early,late,rfl,isBefore,isRest⟩ := filter_eq_append_iff.mp whole
  obtain ⟨returns,back,rfl,dropped,_,_⟩ := filter_eq_cons_iff.mp isRest
  refine ⟨early ++ returns, ?_, c, more, back, isText, by rw [append_assoc]⟩
  rw [filter_append,isBefore,filter_eq_nil_iff.mpr dropped,append_nil]

/-- A token is on the line of its first character, as long as no quoted token before it holds a
line break; each such break is missing in the line. This is so with blanks kept or not. -/
theorem lines_of_source (keepBlanks : Bool) (source : String) : ∃ segments,
    Segmented ((source.toList.filter (· != '\r')).rdropWhile Text.isBlank) (Token.scan true source) segments ∧
    (segments.flatMap Segment.tokens).filter (Token.isKept keepBlanks) = Token.scan keepBlanks source ∧
    ∀ before segment after, segments = before ++ segment :: after →
      ∃ front, segment.StartsBehind front before source.toList ∧ ∀ token ∈ segment.tokens,
        token.line + Token.quotedBreaks (before.flatMap Segment.tokens) = 1 + front.count '\n' ∧
        (token.line = 1 + front.count '\n' ↔
          ∀ earlier ∈ before.flatMap Segment.tokens, earlier.isQuoted = true → '\n' ∉ earlier.text.toList) := by
  have segmented := segmented_lexemes source
  refine ⟨_, segmented, ?_, fun before segment after split => ?_⟩
  · rw [segmented.given]
    cases keepBlanks with
    | true => exact filter_eq_self.mpr fun _ _ => rfl
    | false => exact Token.scan_solid true source
  · obtain ⟨tail,whole,_⟩ := Text.trimEndWhile_append Text.isBlank (source.toList.filter (· != '\r'))
    have text : (before ++ segment :: after).flatMap Segment.text = Token.cleaned source := split ▸ segmented.whole
    obtain ⟨front,starts⟩ := Segment.exists_front (segmented.forms before segment after split).1
      (text.symm ▸ whole.symm : source.toList.filter (· != '\r') = (before ++ segment :: after).flatMap Segment.text ++ tail)
    refine ⟨front, starts, fun token given => ?_⟩
    have placed := Lexeme.line_of_segments (fun _ => Lexeme.tight_of_mem_scan) split given
    rw [← starts.1,count_filter (by decide)] at placed
    refine ⟨placed, ?_⟩
    rw [← Token.quotedBreaks_eq_zero_iff]
    omega

/-- The name behind a text of two lines is said to be on the first. -/
theorem break_in_text_uncounted : ∃ front back token,
    "\"a\nb\" x".toList = front ++ 'x' :: back ∧ token ∈ Token.scan false "\"a\nb\" x" ∧ token.text = "x" ∧
      token.line ≠ 1 + front.count '\n' := by
  refine ⟨"\"a\nb\" ".toList, [], ⟨.identifier, "x", 1⟩, ?_⟩
  decide +kernel

end CalcBasic

import CalcBasic.Compilation
import Mathlib

/-! The segments of a source text. Every character of the cleaned text belongs to one
segment, each segment gives its tokens in one of six forms, and the tokens of the
segments are all tokens there are. Blanks are segments like others: keeping their
tokens or not changes no other token, and nothing that is compiled from them. -/
namespace CalcBasic
open List

/-- A stretch of source and the tokens it gives. -/
structure Segment where
  text : List Char
  tokens : List Token

/-- The tokens with the text of their segment. -/
def Tag.isVerbatim : Tag → Bool
  | .label | .native | .range | .rangeStep | .source => false
  | _ => true

/-- The ways a segment gives tokens. -/
inductive Form where
  | comment | verbatim | word | label | native | step
  deriving DecidableEq

/-- The segment, with the given text behind it, gives its tokens in the form. -/
def Form.Fits (segment : Segment) (after : List Char) : Form → Prop
  | .comment => ∃ body, segment.text = '/' :: '/' :: body ∧ '\n' ∉ body ∧ (∀ c ∈ after.head?, c = '\n') ∧ segment.tokens = []
  | .verbatim => ∃ token : Token, segment.tokens = [token] ∧ token.tag.isVerbatim = true ∧ token.text.toList = segment.text
  | .word => ∃ token : Token, segment.tokens = [token] ∧ token.tag ∈ [.range, .rangeStep, .source] ∧
      token.text.toLower = (String.ofList segment.text).toLower
  | .label => ∃ token : Token, ∃ gap, segment.tokens = [token] ∧ token.tag = .label ∧
      segment.text = token.text.toList ++ gap ++ [':'] ∧ ∀ c ∈ gap, Text.isBlank c = true ∧ c ≠ '\n'
  | .native => ∃ token : Token, segment.tokens = [token] ∧ token.tag = .native ∧
      segment.text = '`' :: token.text.toList ++ ['`']
  | .step => ∃ sign line, (sign = '+' ∨ sign = '-') ∧ segment.text = [sign, sign] ∧
      segment.tokens = [⟨.compoundAssign, String.ofList [sign, '='], line⟩, ⟨.number, "1", line⟩]

/-- The segments make up the text and give the tokens. -/
structure Segmented (text : List Char) (tokens : List Token) (segments : List Segment) : Prop where
  whole : segments.flatMap Segment.text = text
  given : segments.flatMap Segment.tokens = tokens
  forms : ∀ before segment after, segments = before ++ segment :: after →
    segment.text ≠ [] ∧ ∃! form : Form, form.Fits segment (after.flatMap Segment.text)
  /-- Between segments no character is split. -/
  boundaries : ∀ before after, segments = before ++ after →
    String.Pos.Raw.IsValid (String.ofList text) ⟨(before.map fun segment => (String.ofList segment.text).utf8ByteSize).sum⟩

/-- The form that tokens are given in. -/
def Form.ofTokens : List Token → Form
  | [] => .comment
  | [token] =>
    match token.tag with
    | .label => .label
    | .native => .native
    | .range | .rangeStep | .source => .word
    | _ => .verbatim
  | _ => .step

theorem Form.eq_ofTokens {segment : Segment} {after : List Char} {form : Form} (fits : form.Fits segment after) :
    form = ofTokens segment.tokens := by
  cases form with
  | comment =>
    obtain ⟨_,_,_,_,tokens⟩ := fits
    rw [tokens]
    rfl
  | step =>
    obtain ⟨_,_,_,_,tokens⟩ := fits
    rw [tokens]
    rfl
  | label =>
    obtain ⟨token,_,tokens,tag,_⟩ := fits
    rw [tokens,ofTokens,tag]
  | native =>
    obtain ⟨token,tokens,tag,_⟩ := fits
    rw [tokens,ofTokens,tag]
  | word =>
    obtain ⟨token,tokens,tag,_⟩ := fits
    simp only [mem_cons,not_mem_nil,or_false] at tag
    rcases tag with tag | tag | tag <;> rw [tokens,ofTokens,tag]
  | verbatim =>
    obtain ⟨token,tokens,tag,_⟩ := fits
    rw [tokens,ofTokens]
    cases isTag : token.tag <;> rw [isTag] at tag <;> first | rfl | cases tag

namespace Lexeme

variable {numeral text : List Char}

/-! ### Quoted text and numerals -/

theorem closeQuote_some {quote : Char} {rest body : List Char} (closed : closeQuote quote rest = some body) :
    ∃ inner after, body = inner ++ [quote] ∧ body ++ after = rest := by
  fun_induction closeQuote quote rest generalizing body with
  | case1 | case2 => cases closed
  | case3 escaped rest ih =>
    obtain ⟨tail,found,rfl⟩ := Option.map_eq_some_iff.mp closed
    obtain ⟨inner,after,rfl,rfl⟩ := ih found
    exact ⟨'\\' :: escaped :: inner, after, rfl, rfl⟩
  | case4 rest =>
    cases closed
    exact ⟨[], rest, rfl, rfl⟩
  | case5 c rest _ _ _ ih =>
    obtain ⟨tail,found,rfl⟩ := Option.map_eq_some_iff.mp closed
    obtain ⟨inner,after,rfl,rfl⟩ := ih found
    exact ⟨c :: inner, after, rfl, rfl⟩

theorem marked_some {lead rest : List Char} {isDigit : Char → Bool}
    (found : marked lead isDigit rest = some numeral) : numeral <+: lead ++ rest ∧ numeral ≠ [] := by
  have part := takeWhile_prefix isDigit (l := rest)
  unfold marked at found
  split at found
  · cases found
  · rename_i digits filled
    cases found
    exact ⟨(prefix_append_right_inj lead).mpr part, fun none => filled (append_eq_nil_iff.mp none).2⟩

theorem radixNumeralOf_some {size : Nat} (found : radixNumeralOf size text = some numeral) :
    numeral <+: text ∧ numeral ≠ [] := by
  simp only [radixNumeralOf] at found
  split at found
  · rename_i rest split
    split at found
    · have taken := marked_some found
      rwa [append_assoc,singleton_append,← split,take_append_drop] at taken
    · cases found
  · cases found

theorem mantissa_leads (text : List Char) : mantissa text <+: text := by
  have whole := takeWhile_prefix Char.isDigit (l := text)
  have parts := takeWhile_append_dropWhile (p := Char.isDigit) (l := text)
  simp only [mantissa]
  split
  · rename_i rest point
    cases found : marked (text.takeWhile Char.isDigit ++ ['.']) Char.isDigit rest with
    | none => exact whole
    | some numeral =>
      have taken := (marked_some found).1
      rwa [append_assoc,singleton_append,← point,parts] at taken
  · exact whole

theorem exponent_leads (text : List Char) : exponent text <+: text := by
  have taken {lead rest : List Char} : (marked lead Char.isDigit rest).getD [] <+: lead ++ rest := by
    cases found : marked lead Char.isDigit rest with
    | none => exact nil_prefix
    | some numeral => exact (marked_some found).1
  unfold exponent
  split
  · exact taken
  · exact taken
  · exact taken
  · exact nil_prefix

theorem decimalNumeral_some (found : decimalNumeral text = some numeral) : numeral <+: text ∧ numeral ≠ [] := by
  unfold decimalNumeral at found
  split at found
  · cases found
  · rename_i digits filled
    cases found
    refine ⟨?_, fun none => filled (append_eq_nil_iff.mp none).1⟩
    obtain ⟨after,whole⟩ := mantissa_leads text
    generalize mantissa text = digits at whole
    subst whole
    rw [drop_left]
    exact (prefix_append_right_inj digits).mpr (exponent_leads after)

theorem numeral_some (found : Lexeme.numeral text = some numeral) : numeral <+: text ∧ numeral ≠ [] := by
  simp only [Lexeme.numeral,radixNumeral,Option.orElse_eq_orElse,Option.orElse_eq_or,Option.or_eq_some_iff] at found
  rcases found with hex | ⟨_,(two | ⟨_,one⟩) | ⟨_,octal | ⟨_,binary | ⟨_,decimal⟩⟩⟩⟩
  · unfold hexNumeral at hex
    split at hex
    · exact marked_some hex
    · cases hex
  · exact radixNumeralOf_some two
  · exact radixNumeralOf_some one
  · unfold octalNumeral at octal
    split at octal
    · exact marked_some octal
    · cases octal
  · unfold binaryNumeral at binary
    split at binary
    · exact marked_some binary
    · cases binary
  · exact decimalNumeral_some decimal

/-! ### Lexemes -/

/-- What a lexeme that stands before the given text keeps to. -/
def Sound (after : List Char) : Lexeme → Prop
  | .comment body => '\n' ∉ body ∧ ∀ c ∈ after.head?, c = '\n'
  | .word tag _ => tag ∈ [.range, .rangeStep, .source]
  | .label _ gap => ∀ c ∈ gap, Text.isInlineBlank c = true
  | .step sign => sign = '+' ∨ sign = '-'
  | .plain tag _ => tag.isVerbatim = true ∧ tag ≠ .whitespace
  | .blank _ | .native _ => True

/-- The lexeme is a first part of the text. -/
def Starts (text : List Char) (lexeme : Lexeme) : Prop :=
  ∃ after, lexeme.source ++ after = text ∧ lexeme.source ≠ [] ∧ lexeme.Sound after

theorem starts_plain {tag : Tag} {characters : List Char} (solid : tag.isVerbatim = true ∧ tag ≠ .whitespace)
    (part : characters <+: text) (filled : characters ≠ []) : Starts text (.plain tag characters) := by
  obtain ⟨after,whole⟩ := part
  exact ⟨after, whole, filled, solid⟩

theorem starts_ofWord {characters : List Char} (rest : List Char) (filled : characters ≠ []) :
    Starts (characters ++ rest) (ofWord characters rest) := by
  have gap := takeWhile_append_dropWhile (p := Text.isInlineBlank) (l := rest)
  have part : characters <+: characters ++ rest := prefix_append characters rest
  have word {tag : Tag} (isWord : tag ∈ [Tag.range, .rangeStep, .source]) : Starts (characters ++ rest) (.word tag characters) :=
    ⟨rest, rfl, filled, isWord⟩
  simp only [ofWord]
  split
  · exact word (by decide)
  split
  · exact word (by decide)
  split
  · exact word (by decide)
  split
  · exact starts_plain (by decide) part filled
  split
  · exact starts_plain (by decide) part filled
  · rename_i after _ colon
    refine ⟨after, ?_, by simp [source], fun c member => mem_takeWhile_imp member⟩
    rw [colon] at gap
    simp [source,gap]
  · exact starts_plain (by decide) part filled

theorem starts_symbol (c : Char) (rest : List Char) : Starts (c :: rest) (symbol c rest) := by
  have single : Starts (c :: rest) (.plain (symbolTag c) [c]) := by
    refine starts_plain ?_ ⟨rest, rfl⟩ (cons_ne_nil c [])
    unfold symbolTag
    split <;> decide
  unfold symbol
  split
  · exact single
  · rename_i second more
    split
    · rename_i tag found
      refine starts_plain ?_ ⟨more, rfl⟩ (cons_ne_nil c [second])
      unfold pairTag? at found
      split at found <;> cases found <;> decide
    · split
      · rename_i double
        simp only [Bool.and_eq_true,Bool.or_eq_true,decide_eq_true_eq,beq_iff_eq] at double
        exact ⟨more, by rw [double.1]; rfl, cons_ne_nil c [c], double.2⟩
      · exact single

theorem starts_first (c : Char) (rest : List Char) : Starts (c :: rest) (first c rest) := by
  unfold first
  split
  · have word := starts_ofWord (rest.dropWhile isWordPart) (cons_ne_nil c (rest.takeWhile isWordPart))
    rwa [cons_append,takeWhile_append_dropWhile] at word
  split
  · rename_i slashes
    obtain ⟨rfl,second⟩ : c = '/' ∧ rest.head? = some '/' := by simpa using slashes
    obtain ⟨more,rfl⟩ := head?_eq_some_iff.mp second
    refine ⟨more.dropWhile (· != '\n'), by simp [source], by simp [source], fun member => ?_, fun d isHead => ?_⟩
    · simpa using mem_takeWhile_imp member
    · have stopped := head?_dropWhile_not (· != '\n') more
      rw [Option.mem_def.mp isHead] at stopped
      simpa using stopped
  split
  · exact ⟨rest.dropWhile Text.isBlank, by simp [source], by simp [source], trivial⟩
  split
  · rename_i body closed
    split at closed
    · obtain ⟨_,after,_,rfl⟩ := closeQuote_some closed
      exact starts_plain (by decide) ⟨after, rfl⟩ (cons_ne_nil c body)
    · cases closed
  · rename_i digits _ found
    exact starts_plain (by decide) (numeral_some found).1 (numeral_some found).2
  · rename_i body _ _ closed
    split at closed
    · rename_i tick
      obtain ⟨inner,after,rfl,rfl⟩ := closeQuote_some closed
      obtain rfl : c = '`' := by simpa using tick
      exact ⟨after, by simp [source], by simp [source], trivial⟩
    · cases closed
  · exact starts_symbol c rest

/-- Nothing of a text is lost, and every lexeme is sound before what follows it. -/
theorem scan_sound (text : List Char) : (scan text).flatMap source = text ∧
    ∀ before lexeme after, scan text = before ++ lexeme :: after →
      lexeme.source ≠ [] ∧ lexeme.Sound (after.flatMap source) := by
  fun_induction scan text with
  | case1 => exact ⟨rfl, fun before lexeme after none => by simp at none⟩
  | case2 c rest found ih =>
    obtain ⟨after,whole,filled,sound⟩ := starts_first c rest
    have size : found.source.length - 1 + 1 = found.source.length := Nat.sub_add_cancel (length_pos_iff.mpr filled)
    have behind : rest.drop (found.source.length - 1) = after := by
      have cut := congrArg (List.drop found.source.length) whole
      rwa [drop_left,← size,drop_succ_cons,eq_comm] at cut
    rw [behind] at ih ⊢
    refine ⟨by rw [flatMap_cons,ih.1]; exact whole, fun before lexeme later split => ?_⟩
    cases before with
    | nil =>
      obtain ⟨rfl,rfl⟩ := List.cons.inj split
      exact ⟨filled, ih.1.symm ▸ sound⟩
    | cons _ before => exact ih.2 before lexeme later (List.cons.inj split).2

/-! ### Segments -/

/-- The segments of lexemes whose first one starts on `line`. -/
def segments (line : Nat) : List Lexeme → List Segment
  | [] => []
  | lexeme :: rest => ⟨lexeme.source, lexeme.tokens true line⟩ :: segments (line + lexeme.lineBreaks) rest

theorem text_segments (line : Nat) (lexemes : List Lexeme) :
    (segments line lexemes).flatMap Segment.text = lexemes.flatMap source := by
  induction lexemes generalizing line with
  | nil => rfl
  | cons lexeme rest ih => rw [segments,flatMap_cons,flatMap_cons,ih]

theorem tokens_segments (line : Nat) (lexemes : List Lexeme) :
    (segments line lexemes).flatMap Segment.tokens = Token.ofLexemes true line lexemes := by
  induction lexemes generalizing line with
  | nil => rfl
  | cons lexeme rest ih => rw [segments,flatMap_cons,Token.ofLexemes,ih]

theorem exists_form {lexeme : Lexeme} {after : List Char} (sound : lexeme.Sound after) (line : Nat) :
    ∃ form : Form, form.Fits ⟨lexeme.source, lexeme.tokens true line⟩ after := by
  cases lexeme with
  | comment body => exact ⟨.comment, body, rfl, sound.1, sound.2, rfl⟩
  | blank characters => exact ⟨.verbatim, _, rfl, rfl, String.toList_ofList⟩
  | word tag characters => exact ⟨.word, _, rfl, sound, Text.toLower_toLower _⟩
  | label name gap =>
    refine ⟨.label, _, gap, rfl, rfl, ?_, fun c member => ?_⟩
    · rw [String.toList_ofList]
      rfl
    · simpa [Text.isInlineBlank] using sound c member
  | native body =>
    refine ⟨.native, _, rfl, rfl, ?_⟩
    rw [String.toList_ofList]
    rfl
  | step sign => exact ⟨.step, sign, line, sound, rfl, rfl⟩
  | plain tag characters => exact ⟨.verbatim, _, rfl, sound.1, String.toList_ofList⟩

theorem segments_split {line : Nat} {lexemes : List Lexeme} {before after : List Segment} {segment : Segment}
    (split : segments line lexemes = before ++ segment :: after) :
    ∃ front lexeme back start, lexemes = front ++ lexeme :: back ∧ segment = ⟨lexeme.source, lexeme.tokens true start⟩ ∧
      after = segments (start + lexeme.lineBreaks) back := by
  induction lexemes generalizing line before with
  | nil => simp [segments] at split
  | cons lexeme rest ih =>
    rw [segments] at split
    cases before with
    | nil =>
      obtain ⟨rfl,rfl⟩ := List.cons.inj split
      exact ⟨[], lexeme, rest, line, rfl, rfl, rfl⟩
    | cons _ before =>
      obtain ⟨front,found,back,start,rfl,same⟩ := ih (List.cons.inj split).2
      exact ⟨lexeme :: front, found, back, start, rfl, same⟩

end Lexeme

/-- The bytes of the first segments end between two characters. -/
theorem Segment.isValid_boundary (before after : List Segment) :
    String.Pos.Raw.IsValid (String.ofList ((before ++ after).flatMap Segment.text))
      ⟨(before.map fun segment => (String.ofList segment.text).utf8ByteSize).sum⟩ := by
  refine String.Pos.Raw.isValid_iff_exists_append.mpr
    ⟨String.ofList (before.flatMap Segment.text), String.ofList (after.flatMap Segment.text), ?_, ?_⟩
  · rw [flatMap_append,String.ofList_append]
  · rw [String.rawEndPos,String.Pos.Raw.mk.injEq]
    induction before with
    | nil => rfl
    | cons segment rest ih =>
      rw [map_cons,sum_cons,ih,flatMap_cons,String.ofList_append,String.utf8ByteSize_append]

theorem segmented_lexemes (source : String) :
    Segmented ((source.toList.filter (· != '\r')).rdropWhile Text.isBlank) (Token.scan true source)
      (Lexeme.segments 1 (Lexeme.scan (Token.cleaned source))) := by
  have scanned := Lexeme.scan_sound (Token.cleaned source)
  have whole := (Lexeme.text_segments 1 _).trans scanned.1
  refine ⟨whole, Lexeme.tokens_segments 1 _, fun before segment after split => ?_, fun before after split => ?_⟩
  · obtain ⟨front,lexeme,back,start,isScan,rfl,rfl⟩ := Lexeme.segments_split split
    obtain ⟨filled,sound⟩ := scanned.2 front lexeme back isScan
    rw [Lexeme.text_segments]
    obtain ⟨form,fits⟩ := Lexeme.exists_form sound start
    exact ⟨filled, form, fits, fun other alike => (Form.eq_ofTokens alike).trans (Form.eq_ofTokens fits).symm⟩
  · rw [split] at whole
    exact (congrArg String.ofList whole : _ = String.ofList (Token.cleaned source)) ▸ Segment.isValid_boundary before after

/-- Scanning loses nothing: with blanks kept, the source without carriage returns and
trailing blanks falls into segments that give the tokens, each in one form. -/
theorem scan_segmented (source : String) : ∃ segments,
    Segmented ((source.toList.filter (· != '\r')).rdropWhile Text.isBlank) (Token.scan true source) segments :=
  ⟨_, segmented_lexemes source⟩

/-! ### Blanks -/

theorem Lexeme.tokens_solid {lexeme : Lexeme} {after : List Char} (sound : lexeme.Sound after) (keep : Bool) (line : Nat) :
    (lexeme.tokens keep line).filter (·.tag != .whitespace) = lexeme.tokens false line := by
  cases lexeme with
  | comment | label | native | step => rfl
  | blank characters => cases keep <;> rfl
  | word tag characters =>
    have solid : tag ≠ .whitespace := by
      rintro rfl
      simp [Sound] at sound
    simp [tokens,solid]
  | plain tag characters => simp [tokens,sound.2]

theorem Token.ofLexemes_solid {lexemes : List Lexeme} (sound : ∀ lexeme ∈ lexemes, ∃ after, lexeme.Sound after) (keep : Bool)
    (line : Nat) : (ofLexemes keep line lexemes).filter (·.tag != .whitespace) = ofLexemes false line lexemes := by
  induction lexemes generalizing line with
  | nil => rfl
  | cons lexeme rest ih =>
    obtain ⟨after,first⟩ := sound lexeme (by simp)
    rw [ofLexemes,filter_append,Lexeme.tokens_solid first,ih fun other member => sound other (by simp [member])]
    rfl

theorem Token.scan_solid (keep : Bool) (source : String) :
    (scan keep source).filter (·.tag != .whitespace) = scan false source := by
  refine ofLexemes_solid (fun lexeme member => ?_) keep 1
  obtain ⟨before,after,split⟩ := append_of_mem member
  exact ⟨_, ((Lexeme.scan_sound (cleaned source)).2 before lexeme after split).2⟩

/-- A compilation does not see whether blanks are kept. -/
theorem Compilation.ofTokens_scan (settings : Settings) (keep : Bool) (source : String) :
    ofTokens settings (Token.scan keep source) = ofTokens settings (Token.scan false source) := by
  have read : Symbols.read {} settings (Token.scan keep source) = Symbols.read {} settings (Token.scan false source) := by
    rw [Symbols.read,Symbols.read,Read.program,Read.program,Token.scan_solid,Token.scan_solid]
  rw [ofTokens,ofTokens,read]

/-- Blanks are invisible: without them the tokens are those of a scan that keeps none,
and what a source compiles to hangs neither on how it is scanned nor on the dialect. -/
theorem blanks_invisible (settings : Settings) (lex : LexSettings) (target : Dialect) (source : String) :
    (Token.scan true source).filter (·.tag != .whitespace) = Token.scan false source ∧
      compile { settings with lex, target } source = compile settings source := by
  refine ⟨Token.scan_solid true source, ?_⟩
  have same : Compilation.ofSource { settings with lex, target } source = Compilation.ofSource settings source := by
    calc Compilation.ofSource { settings with lex, target } source
        = Compilation.ofTokens settings (Token.scan lex.preserve source) := rfl
      _ = Compilation.ofTokens settings (Token.scan settings.lex.preserve source) := by
        rw [Compilation.ofTokens_scan settings lex.preserve,Compilation.ofTokens_scan settings settings.lex.preserve]
      _ = Compilation.ofSource settings source := rfl
  rw [compile,compile,same]

end CalcBasic

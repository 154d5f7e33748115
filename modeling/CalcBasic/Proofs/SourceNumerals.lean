import CalcBasic.Proofs.Lasting
import CalcBasic.Proofs.NumeralForms
import CalcBasic.Proofs.ScannedTokens

/-! Numerals in source. A numeral is recognised twice: by the scanner, which tries one form
after the other, and by the reader, which looks for a radix first. Both find the same form
with the same digits, and what neither takes for a radix numeral is a decimal one. -/
namespace CalcBasic

/-- What a digit stands for in radices up to 36. -/
def Number.digitOf (c : Char) : Nat := if c.isDigit then c.toNat - '0'.toNat else c.toNat - 'a'.toNat + 10

/-- The digits from the highest to the lowest, each added to the radix times those before it. -/
def Number.horner (radix : Nat) (digits : List Char) : Float :=
  digits.foldl (fun value c => value * Float.ofNat radix + Float.ofNat (digitOf c)) 0

/-- Digits of the radix, letters in lower case. -/
def Number.IsDigits (radix : Nat) (digits : List Char) : Prop :=
  digits ≠ [] ∧ ∀ c ∈ digits, (c.isDigit = true ∨ c.isLower = true) ∧ digitOf c < radix

/-- The text is one token, which is read as the number. -/
def Number.Reads (text : List Char) (value : Float) : Prop :=
  (∀ keepBlanks, Token.scan keepBlanks (String.ofList text) = [⟨.number, String.ofList text, 1⟩]) ∧
    ∀ line, Read.number ⟨.number, String.ofList text, line⟩ = pure (.number value)

/-! ### Scanning -/

namespace Lexeme

variable {c : Char} {digits : List Char}

theorem cleaned_of_isRadixDigit {text : List Char} (digits : ∀ c ∈ text, isRadixDigit c = true) :
    Token.cleaned (String.ofList text) = text := by
  have kept : text.filter (· != '\r') = text := by
    rw [List.filter_eq_self]
    intro c member
    rw [bne_iff_ne]
    rintro rfl
    exact absurd (digits _ member) (by decide)
  obtain ⟨tail,whole,blanks⟩ := Text.trimEndWhile_append Text.isBlank text
  have none : tail = [] := by
    rw [List.eq_nil_iff_forall_not_mem]
    intro c member
    have digit := isBlank_of_isRadixDigit (digits c (whole ▸ List.mem_append_right _ member))
    rw [blanks c member] at digit
    cases digit
  rw [none,List.append_nil] at whole
  rw [Token.cleaned,String.toList_ofList,kept,whole]

theorem scan_of_numeral {rest : List Char} (lead : c.isDigit = true)
    (whole : numeral (c :: rest) = some (c :: rest)) : scan (c :: rest) = [.plain .number (c :: rest)] := by
  have code := isDigit_iff_code.mp lead
  have other (d : Char) (apart : d.isDigit = false) : (c == d) = false := by
    rw [beq_eq_false_iff_ne]
    rintro rfl
    rw [lead] at apart
    cases apart
  have word : isWordStart c = false := by
    have letter : c.isAlpha = false := by
      rw [Bool.eq_false_iff,Char.isAlpha,ne_eq,Bool.or_eq_true,isUpper_iff_code,isLower_iff_code]
      omega
    rw [isWordStart,letter,other '_' rfl]
    rfl
  have blank := isBlank_of_isRadixDigit (isRadixDigit_iff.mpr (.inl lead))
  have isFirst : first c rest = .plain .number (c :: rest) := by
    simp [first,word,blank,whole,other '/' rfl,other '"' rfl,other '\'' rfl]
  rw [scan]
  simp only [isFirst,source,List.length_cons,Nat.add_sub_cancel,List.drop_length]
  rw [scan]

/-! ### Marked digits -/

theorem marked_of_all {lead : List Char} {isDigit : Char → Bool} (filled : digits ≠ [])
    (all : ∀ c ∈ digits, isDigit c = true) : marked lead isDigit digits = some (lead ++ digits) := by
  rw [marked,List.takeWhile_eq_self_iff.mpr all]
  cases digits with
  | nil => contradiction
  | cons c rest => rfl

theorem hexNumeral_of_ne {a b : Char} (other : b ≠ 'x') (rest : List Char) : hexNumeral (a :: b :: rest) = none := by
  rw [hexNumeral.eq_def]
  split
  · simp_all
  · rfl

theorem radixNumeralOf_two_of_letter {a b : Char} (letter : b.isDigit = false) (rest : List Char) :
    radixNumeralOf 2 (a :: b :: rest) = none := by
  simp only [radixNumeralOf]
  split
  · simp [letter]
  · rfl

theorem numeral_of_radix {lead : List Char} (short : lead.length = 1 ∨ lead.length = 2) (leads : ∀ c ∈ lead, c.isDigit = true)
    (filled : digits ≠ []) (all : ∀ c ∈ digits, isRadixDigit c = true) :
    numeral (lead ++ 'r' :: digits) = some (lead ++ 'r' :: digits) := by
  have found {size : Nat} (long : lead.length = size) :
      radixNumeralOf size (lead ++ 'r' :: digits) = some (lead ++ 'r' :: digits) := by
    subst long
    have isRadix : lead.all Char.isDigit = true := List.all_eq_true.mpr leads
    simp [radixNumeralOf,isRadix,marked_of_all filled all]
  rcases short with one | two
  · obtain ⟨a,rfl⟩ := List.length_eq_one_iff.mp one
    have none := @radixNumeralOf_two_of_letter a 'r' rfl digits
    have hex := @hexNumeral_of_ne a 'r' (by decide) digits
    rw [List.singleton_append] at found ⊢
    simp [numeral,radixNumeral,hex,none,found one]
  · obtain ⟨a,b,rfl⟩ := List.length_eq_two.mp two
    have digit : b.isDigit = true := leads b (by simp)
    have hex := @hexNumeral_of_ne a b (by rintro rfl; cases digit) ('r' :: digits)
    have found := found two
    simp only [List.cons_append,List.nil_append] at found ⊢
    simp [numeral,radixNumeral,hex,found]

/-- A numeral that starts with `0` and a letter other than `r` names no radix. -/
theorem radixNumeral_of_prefixed {mark : Char} (letter : mark.isDigit = false) (other : mark ≠ 'r') (rest : List Char) :
    radixNumeral ('0' :: mark :: rest) = none := by
  have one : radixNumeralOf 1 ('0' :: mark :: rest) = none := by
    simp only [radixNumeralOf,List.drop_succ_cons,List.drop_zero]
    split
    · simp_all
    · rfl
  rw [radixNumeral,radixNumeralOf_two_of_letter letter,one]
  rfl

theorem numeral_of_hex (filled : digits ≠ []) (all : ∀ c ∈ digits, isHexDigit c = true) :
    numeral ('0' :: 'x' :: digits) = some ('0' :: 'x' :: digits) := by
  simp [numeral,hexNumeral,marked_of_all filled all]

theorem numeral_of_octal (filled : digits ≠ []) (all : ∀ c ∈ digits, isOctalDigit c = true) :
    numeral ('0' :: 'o' :: digits) = some ('0' :: 'o' :: digits) := by
  have hex := @hexNumeral_of_ne '0' 'o' (by decide) digits
  have radix := @radixNumeral_of_prefixed 'o' rfl (by decide) digits
  simp [numeral,hex,radix,octalNumeral,marked_of_all filled all]

theorem numeral_of_binary (filled : digits ≠ []) (all : ∀ c ∈ digits, isBinaryDigit c = true) :
    numeral ('0' :: 'b' :: digits) = some ('0' :: 'b' :: digits) := by
  have hex := @hexNumeral_of_ne '0' 'b' (by decide) digits
  have radix := @radixNumeral_of_prefixed 'b' rfl (by decide) digits
  simp [numeral,hex,radix,octalNumeral,binaryNumeral,marked_of_all filled all]

end Lexeme

theorem Token.scan_of_numeral {c : Char} {rest : List Char} (digits : ∀ d ∈ c :: rest, Lexeme.isRadixDigit d = true)
    (lead : c.isDigit = true) (whole : Lexeme.numeral (c :: rest) = some (c :: rest)) (keepBlanks : Bool) :
    Token.scan keepBlanks (String.ofList (c :: rest)) = [⟨.number, String.ofList (c :: rest), 1⟩] := by
  rw [scan,Lexeme.cleaned_of_isRadixDigit digits,Lexeme.scan_of_numeral lead whole]
  rfl

/-! ### Reading -/

namespace Number

variable {digits text : List Char} {radix : Nat} {c : Char}

theorem toLower_ofList (lower : ∀ c ∈ text, c.toLower = c) : (String.ofList text).toLower = String.ofList text := by
  rw [String.toLower,← String.toList_inj,String.toList_map,String.toList_ofList,List.map_congr_left lower,List.map_id']

theorem IsDigits.isRadixDigit (valid : IsDigits radix digits) : ∀ c ∈ digits, Lexeme.isRadixDigit c = true :=
  fun c member => Lexeme.isRadixDigit_iff.mpr (valid.2 c member).1

theorem radixDigit?_eq (digit : Lexeme.isRadixDigit c = true) (small : digitOf c < radix) :
    radixDigit? radix c = some (digitOf c) := by
  have lower := Lexeme.toLower_of_isRadixDigit digit
  have value : (if c.isDigit then some (c.toNat - '0'.toNat)
      else if c.toLower.isLower then some (c.toLower.toNat - 'a'.toNat + 10) else none) = some (digitOf c) := by
    unfold digitOf
    rw [lower]
    split
    · rfl
    · rename_i letter
      rw [if_pos ((Lexeme.isRadixDigit_iff.mp digit).resolve_left letter)]
  rw [radixDigit?,value]
  exact Option.filter_some_pos (decide_eq_true small)

/-- No digit is dropped. -/
theorem readRadix_eq (valid : ∀ c ∈ digits, (c.isDigit = true ∨ c.isLower = true) ∧ digitOf c < radix) (start : Float) :
    readRadix radix digits start =
      digits.foldl (fun value c => value * Float.ofNat radix + Float.ofNat (digitOf c)) start := by
  induction digits generalizing start with
  | nil => rfl
  | cons c rest ih =>
    obtain ⟨digit,small⟩ := valid c (by simp)
    rw [readRadix,radixDigit?_eq (Lexeme.isRadixDigit_iff.mpr digit) small]
    exact ih (fun d member => valid d (by simp [member])) _

theorem ofLiteral_eq (lower : ∀ c ∈ text, c.toLower = c) (parts : radixParts? text = some (radix, digits)) (least : 2 ≤ radix)
    (most : radix ≤ 36) (valid : IsDigits radix digits) : ofLiteral (String.ofList text) = .ok (horner radix digits) := by
  simp only [ofLiteral,toLower_ofList lower,String.toList_ofList,parts]
  rw [if_pos (by simp [least,most]),readRadix_eq valid.2]
  rfl

theorem utf8Len_digits (all : ∀ c ∈ digits, c.isDigit = true) : String.utf8Len digits = digits.length := by
  induction digits with
  | nil => rfl
  | cons c rest ih =>
    have code := (Lexeme.isDigit_iff_code.mp (all c (by simp))).2
    have size : c.utf8Size = 1 := by
      rw [Char.utf8Size_eq_one_iff,UInt32.le_iff_toNat_le]
      exact Nat.le_trans code (by decide)
    simp [String.utf8Len,size,ih fun d member => all d (by simp [member])]

theorem radixForm?_eq {lead : List Char} (short : lead.length = 1 ∨ lead.length = 2)
    (leads : ∀ c ∈ lead, c.isDigit = true) : radixForm? (lead ++ 'r' :: digits) = some (natOfDigits lead, digits) := by
  have apart : ∀ c ∈ lead, (c != 'r') = true := by
    intro c member
    rw [bne_iff_ne]
    rintro rfl
    exact absurd (leads _ member) (by decide)
  have taken : (lead ++ 'r' :: digits).takeWhile (· != 'r') = lead := by
    rw [List.takeWhile_append_of_pos apart]
    simp
  have dropped : (lead ++ 'r' :: digits).dropWhile (· != 'r') = 'r' :: digits := by
    rw [List.dropWhile_append_of_pos apart]
    simp
  have isLead : radixOf (String.ofList lead) = natOfDigits lead := by
    cases lead with
    | nil => simp at short
    | cons c rest =>
      have unsigned : c ≠ '+' := by
        rintro rfl
        exact absurd (leads '+' (by simp)) (by decide)
      have isRadix : (c :: rest).all Char.isDigit = true := List.all_eq_true.mpr leads
      simp [radixOf,unsigned,isRadix]
  simp only [radixForm?,taken,dropped,String.utf8ByteSize_ofList,utf8Len_digits leads,isLead]
  rw [if_pos (by simp; omega)]

theorem radixForm?_eq_none (absent : 'r' ∉ text) : radixForm? text = none := by
  have none : text.dropWhile (· != 'r') = [] := by
    rw [List.dropWhile_eq_nil_iff]
    intro c member
    rw [bne_iff_ne]
    rintro rfl
    exact absent member
  simp only [radixForm?,none]

theorem number_of_literal {token : Token} {value : Float} (read : ofLiteral token.text = .ok value) :
    Read.number token = pure (.number value) := by
  rw [Read.number,read]

theorem reads_of_parts {rest : List Char} (lead : c.isDigit = true) (whole : Lexeme.numeral (c :: rest) = some (c :: rest))
    (all : ∀ d ∈ c :: rest, Lexeme.isRadixDigit d = true) (parts : radixParts? (c :: rest) = some (radix, digits))
    (least : 2 ≤ radix) (most : radix ≤ 36) (valid : IsDigits radix digits) : Reads (c :: rest) (horner radix digits) := by
  refine ⟨Token.scan_of_numeral all lead whole, fun line => number_of_literal ?_⟩
  exact ofLiteral_eq (fun d member => Lexeme.toLower_of_isRadixDigit (all d member)) parts least most valid

theorem reads_radix (least : 2 ≤ radix) (most : radix ≤ 36)
    (valid : IsDigits radix digits) : Reads ((toString radix).toList ++ 'r' :: digits) (horner radix digits) := by
  have written : ∀ radix ≤ 36, ((toString radix).toList.length = 1 ∨ (toString radix).toList.length = 2) ∧
      natOfDigits (toString radix).toList = radix := by decide
  obtain ⟨short,value⟩ := written radix most
  have leads : ∀ c ∈ (toString radix).toList, c.isDigit = true := fun c => Code.isDigit_of_mem_natural
  have whole := Lexeme.numeral_of_radix short leads valid.1 valid.isRadixDigit
  have parts : radixParts? ((toString radix).toList ++ 'r' :: digits) = some (radix, digits) := by
    simp only [radixParts?,radixForm?_eq short leads,value]
    rfl
  have all : ∀ c ∈ (toString radix).toList ++ 'r' :: digits, Lexeme.isRadixDigit c = true := by
    intro c member
    rcases List.mem_append.mp member with early | late
    · exact Lexeme.isRadixDigit_iff.mpr (.inl (leads c early))
    · rcases List.mem_cons.mp late with rfl | inside
      · rfl
      · exact valid.isRadixDigit c inside
  generalize (toString radix).toList = lead at short leads whole parts all ⊢
  cases lead with
  | nil => simp at short
  | cons c rest => exact reads_of_parts (leads c (by simp)) whole all parts least most valid

theorem digitOf_code (digit : Lexeme.isRadixDigit c = true) :
    48 ≤ c.toNat ∧ c.toNat ≤ 57 ∧ digitOf c = c.toNat - 48 ∨ 97 ≤ c.toNat ∧ c.toNat ≤ 122 ∧ digitOf c = c.toNat - 97 + 10 := by
  have code := Lexeme.isRadixDigit_iff_code.mp digit
  by_cases decimal : c.isDigit = true
  · have value : digitOf c = c.toNat - 48 := if_pos decimal
    have bounds := Lexeme.isDigit_iff_code.mp decimal
    omega
  · have value : digitOf c = c.toNat - 97 + 10 := if_neg decimal
    rw [Lexeme.isDigit_iff_code] at decimal
    omega

theorem reads_prefixed {mark : Char} (known : (mark, radix) ∈ [('x', 16), ('o', 8), ('b', 2)])
    (valid : IsDigits radix digits) : Reads ('0' :: mark :: digits) (horner radix digits) := by
  have small (c : Char) (member : c ∈ digits) : digitOf c < radix ∧ (48 ≤ c.toNat ∧ c.toNat ≤ 57 ∧ digitOf c = c.toNat - 48 ∨
      97 ≤ c.toNat ∧ c.toNat ≤ 122 ∧ digitOf c = c.toNat - 97 + 10) :=
    ⟨(valid.2 c member).2, digitOf_code (valid.isRadixDigit c member)⟩
  have reads (letter : Lexeme.isRadixDigit mark = true) (apart : mark ≠ 'r') (least : 2 ≤ radix) (most : radix ≤ 16)
      (whole : Lexeme.numeral ('0' :: mark :: digits) = some ('0' :: mark :: digits))
      (parts : radixForm? ('0' :: mark :: digits) = none → radixParts? ('0' :: mark :: digits) = some (radix, digits)) :
      Reads ('0' :: mark :: digits) (horner radix digits) := by
    have unnamed : 'r' ∉ '0' :: mark :: digits := by
      simp only [List.mem_cons,not_or]
      refine ⟨by decide, apart.symm, fun member => ?_⟩
      have value : digitOf 'r' = 27 := by decide
      have bounded := (small 'r' member).1
      omega
    have all : ∀ c ∈ '0' :: mark :: digits, Lexeme.isRadixDigit c = true := by
      simpa using ⟨rfl, letter, valid.isRadixDigit⟩
    exact reads_of_parts rfl whole all (parts (radixForm?_eq_none unnamed)) least (by omega) valid
  simp only [List.mem_cons,List.not_mem_nil,or_false,Prod.mk.injEq] at known
  rcases known with ⟨rfl,rfl⟩ | ⟨rfl,rfl⟩ | ⟨rfl,rfl⟩
  · refine reads rfl (by decide) (by decide) (by decide) (Lexeme.numeral_of_hex valid.1 fun c member => ?_) fun none => ?_
    · have bounds := small c member
      exact Lexeme.isHexDigit_iff_code.mpr (by omega)
    · rw [radixParts?,none]
      rfl
  · refine reads rfl (by decide) (by decide) (by decide) (Lexeme.numeral_of_octal valid.1 fun c member => ?_) fun none => ?_
    · have bounds := small c member
      exact Lexeme.isOctalDigit_iff_code.mpr (by omega)
    · rw [radixParts?,none]
      rfl
  · refine reads rfl (by decide) (by decide) (by decide) (Lexeme.numeral_of_binary valid.1 fun c member => ?_) fun none => ?_
    · have bounds := small c member
      exact Lexeme.isBinaryDigit_iff_code.mpr (by omega)
    · rw [radixParts?,none]
      rfl

end Number

/-! ### Decimal numerals -/

namespace Lexeme

/-- A numeral is a radix numeral to the reader, or it is decimal. -/
theorem Numeral.parts_or_decimal {text : List Char} (shape : Numeral text) :
    (Number.radixParts? text).isSome = true ∨ Decimal text := by
  cases shape with
  | prefixed known all =>
    simp only [List.mem_cons,List.not_mem_nil,or_false] at known
    rcases known with rfl | rfl | rfl <;> exact .inl (by simp [Number.radixParts?])
  | radix short leads all =>
    simp only [Number.radixParts?,Number.radixForm?_eq short leads]
    exact .inl rfl
  | decimal decimal => exact .inr decimal

theorem numeral_of_first {c : Char} {rest characters : List Char} (scanned : first c rest = .plain .number characters) :
    numeral (c :: rest) = some characters := by
  unfold first at scanned
  split at scanned
  · simp only [ofWord] at scanned
    repeat' split at scanned
    all_goals cases scanned
  · split at scanned
    · cases scanned
    · split at scanned
      · cases scanned
      · split at scanned
        · cases scanned
        · rename_i digits _ found
          cases scanned
          exact found
        · cases scanned
        · exact absurd scanned (symbol_ne_plain (by decide) c rest characters)

end Lexeme

namespace Number

theorem readExponent_of_shape {text : List Char} (shape : Lexeme.Exponent text) : ∃ power, readExponent text = some power := by
  cases shape with
  | absent => exact ⟨0, rfl⟩
  | @given sign digits signed filled =>
    obtain ⟨some,all⟩ := filled
    have isDigits : digits.all Char.isDigit = true := List.all_eq_true.mpr all
    simp only [List.mem_cons,List.not_mem_nil,or_false] at signed
    rcases signed with rfl | rfl | rfl
    · cases digits with
      | nil => contradiction
      | cons c rest =>
        have plus : c ≠ '+' := by rintro rfl; exact absurd (all '+' (by simp)) (by decide)
        have minus : c ≠ '-' := by rintro rfl; exact absurd (all '-' (by simp)) (by decide)
        exact ⟨natOfDigits (c :: rest), by simp [readExponent,plus,minus,isDigits]⟩
    · exact ⟨natOfDigits digits, by simp [readExponent,some,isDigits]⟩
    · exact ⟨-natOfDigits digits, by simp [readExponent,some,isDigits]⟩

theorem span_digits {digits rest : List Char} (all : ∀ c ∈ digits, c.isDigit = true)
    (ends : ∀ c ∈ rest.head?, c.isDigit = false) :
    (digits ++ rest).takeWhile Char.isDigit = digits ∧ (digits ++ rest).dropWhile Char.isDigit = rest := by
  rw [List.takeWhile_append_of_pos all,List.dropWhile_append_of_pos all]
  cases rest with
  | nil => simp
  | cons c tail => simp [ends c (by simp)]

theorem readMagnitude_of_decimal {text : List Char} (decimal : Lexeme.Decimal text) : ∃ value, readMagnitude text = some value := by
  obtain ⟨mantissa,exponent,rfl,shape,power⟩ := decimal
  have ends : ∀ c ∈ exponent.head?, c.isDigit = false := by
    cases power with
    | absent => simp
    | given => simp
  obtain ⟨value,read⟩ := readExponent_of_shape power
  unfold readMagnitude
  split
  · exact ⟨_, rfl⟩
  · exact ⟨_, rfl⟩
  · exact ⟨_, rfl⟩
  · cases shape with
    | whole filled =>
      obtain ⟨taken,dropped⟩ := span_digits filled.2 ends
      have some : mantissa.isEmpty = false := by simpa using filled.1
      rw [taken,dropped]
      cases power with
      | absent => simp [some,read]
      | given => simp [some,read]
    | @fraction lead digits leads filled =>
      obtain ⟨taken,dropped⟩ := @span_digits lead ('.' :: (digits ++ exponent)) leads (by simp)
      obtain ⟨fraction,rest⟩ := span_digits filled.2 ends
      have some : digits.isEmpty = false := by simpa using filled.1
      rw [List.append_assoc,List.cons_append,taken,dropped]
      simp [fraction,rest,some,read]

theorem read?_of_decimal {text : List Char} (decimal : Lexeme.Decimal text) : ∃ value, read? (String.ofList text) = some value := by
  obtain ⟨value,read⟩ := readMagnitude_of_decimal decimal
  have unsigned {c : Char} {tail : List Char} (starts : text = c :: tail) : c.isDigit = true ∨ c = '.' := by
    obtain ⟨mantissa,exponent,rfl,shape,_⟩ := decimal
    cases shape with
    | whole filled =>
      cases mantissa with
      | nil => exact absurd rfl filled.1
      | cons d rest =>
        cases starts
        exact .inl (filled.2 c (by simp))
    | @fraction lead digits leads filled =>
      cases lead with
      | nil =>
        cases starts
        exact .inr rfl
      | cons d rest =>
        cases starts
        exact .inl (leads c (by simp))
  refine ⟨value, ?_⟩
  rw [read?,String.toList_ofList]
  split
  · exact absurd (unsigned rfl) (by decide)
  · exact absurd (unsigned rfl) (by decide)
  · exact read

/-- A scanned number is a radix numeral to the reader, or a decimal one. -/
theorem forms_of_mem_scan {keepBlanks : Bool} {source : String} {token : Token} (member : token ∈ Token.scan keepBlanks source)
    (isNumber : token.tag = .number) : token.text.toLower = token.text ∧
      ((radixParts? token.text.toList).isSome = true ∨ Lexeme.Decimal token.text.toList) := by
  rcases Token.exists_plain_of_mem_scan member (by simp [isNumber]) with ⟨c,rest,characters,isFirst,text⟩ | ⟨_,text⟩
  · rw [isNumber] at isFirst
    have shape := Lexeme.shape_of_numeral (Lexeme.numeral_of_first isFirst)
    rw [text,String.toList_ofList]
    exact ⟨toLower_ofList shape.toLower_eq, shape.parts_or_decimal⟩
  · rw [text]
    exact ⟨by decide +kernel, .inr ⟨['1'], [], rfl, .whole ⟨by simp, by simp⟩, .absent⟩⟩

/-- Scanner and reader agree on numerals: what is written in a radix from 2 to 36, or behind
`0x`, `0o` or `0b`, is one token and is read with all its digits, and every other number of a
scanned source is a decimal numeral, which is read as such. -/
theorem scanned_numerals_read :
    (∀ radix digits, 2 ≤ radix → radix ≤ 36 → IsDigits radix digits →
      Reads ((toString radix).toList ++ 'r' :: digits) (horner radix digits)) ∧
    (∀ mark radix digits, (mark, radix) ∈ [('x', 16), ('o', 8), ('b', 2)] → IsDigits radix digits →
      Reads ('0' :: mark :: digits) (horner radix digits)) ∧
    ∀ keepBlanks source, ∀ token ∈ Token.scan keepBlanks source, token.tag = .number →
      radixParts? token.text.toLower.toList = none →
        Lexeme.Decimal token.text.toList ∧
          ∃ value, read? token.text.toLower = some value ∧ Read.number token = pure (.number value) := by
  refine ⟨fun radix digits => reads_radix, fun mark radix digits known => reads_prefixed known,
    fun keepBlanks source token member isNumber unnamed => ?_⟩
  obtain ⟨lower,forms⟩ := forms_of_mem_scan member isNumber
  rw [lower] at unnamed ⊢
  have decimal := forms.resolve_left (by simp [unnamed])
  obtain ⟨value,read⟩ := read?_of_decimal decimal
  rw [String.ofList_toList] at read
  refine ⟨decimal, value, read, number_of_literal ?_⟩
  simp only [ofLiteral,lower,unnamed,read]
  rfl

/-- A radix digit `r`, a digit that is also an exponent sign, and a decimal numeral without whole part. -/
theorem scanned_numerals_read_lookalikes :
    (IsDigits 36 ['r', 'e'] ∧ Reads "36rre".toList (horner 36 ['r', 'e'])) ∧
    (IsDigits 16 ['b', 'e'] ∧ Reads "0xbe".toList (horner 16 ['b', 'e'])) ∧
    ⟨.number, ".5e-3", 1⟩ ∈ Token.scan false "x.5e-3" ∧ radixParts? ".5e-3".toLower.toList = none ∧
      ∃ value, read? ".5e-3".toLower = some value ∧ Read.number ⟨.number, ".5e-3", 1⟩ = pure (.number value) := by
  obtain ⟨radix,prefixed,decimal⟩ := scanned_numerals_read
  have named : IsDigits 36 ['r', 'e'] := ⟨by simp, by simp [digitOf]⟩
  have hex : IsDigits 16 ['b', 'e'] := ⟨by simp, by simp [digitOf]⟩
  have member : ⟨.number, ".5e-3", 1⟩ ∈ Token.scan false "x.5e-3" := by decide +kernel
  have unnamed : radixParts? ".5e-3".toLower.toList = none := by decide +kernel
  exact ⟨⟨named, radix 36 _ (by decide) (by decide) named⟩, ⟨hex, prefixed 'x' 16 _ (by decide) hex⟩, member, unnamed,
    (decimal false "x.5e-3" _ member rfl unnamed).2⟩

end Number
end CalcBasic

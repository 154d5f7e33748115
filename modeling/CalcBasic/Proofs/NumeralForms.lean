import CalcBasic.Token.Lexeme
import Mathlib

/-! The forms of numerals. What the scanner takes for a numeral has its digits behind a mark
or behind a radix, or it is decimal. -/
namespace CalcBasic
namespace Lexeme

variable {c : Char} {text : List Char}

/-! ### Characters -/

theorem isDigit_iff_code : c.isDigit = true ↔ 48 ≤ c.toNat ∧ c.toNat ≤ 57 := by
  simp [Char.isDigit,UInt32.le_iff_toNat_le,← Char.toNat_val]

theorem isUpper_iff_code : c.isUpper = true ↔ 65 ≤ c.toNat ∧ c.toNat ≤ 90 := by
  simp [Char.isUpper,UInt32.le_iff_toNat_le,← Char.toNat_val]

theorem isLower_iff_code : c.isLower = true ↔ 97 ≤ c.toNat ∧ c.toNat ≤ 122 := by
  simp [Char.isLower,UInt32.le_iff_toNat_le,← Char.toNat_val]

theorem isRadixDigit_iff : isRadixDigit c = true ↔ c.isDigit = true ∨ c.isLower = true := by
  rw [isRadixDigit,Bool.or_eq_true]

theorem isRadixDigit_iff_code : isRadixDigit c = true ↔ 48 ≤ c.toNat ∧ c.toNat ≤ 57 ∨ 97 ≤ c.toNat ∧ c.toNat ≤ 122 := by
  rw [isRadixDigit_iff,isDigit_iff_code,isLower_iff_code]

theorem isHexDigit_iff_code : isHexDigit c = true ↔ 48 ≤ c.toNat ∧ c.toNat ≤ 57 ∨ 97 ≤ c.toNat ∧ c.toNat ≤ 102 := by
  simp only [isHexDigit,Bool.or_eq_true,isDigit_iff_code,Bool.and_eq_true,decide_eq_true_eq,Char.le_def,
    UInt32.le_iff_toNat_le,Char.toNat_val,Char.reduceToNat]

theorem isOctalDigit_iff_code : isOctalDigit c = true ↔ 48 ≤ c.toNat ∧ c.toNat ≤ 55 := by
  simp only [isOctalDigit,Bool.and_eq_true,decide_eq_true_eq,Char.le_def,UInt32.le_iff_toNat_le,Char.toNat_val,
    Char.reduceToNat]

theorem isBinaryDigit_iff_code : isBinaryDigit c = true ↔ c.toNat = 48 ∨ c.toNat = 49 := by
  simp only [isBinaryDigit,Bool.or_eq_true,beq_iff_eq,← Char.toNat_inj,Char.reduceToNat]

theorem toLower_of_code (other : ¬(65 ≤ c.toNat ∧ c.toNat ≤ 90)) : c.toLower = c := dif_neg other

theorem toLower_of_isRadixDigit (digit : isRadixDigit c = true) : c.toLower = c := by
  have code := isRadixDigit_iff_code.mp digit
  exact toLower_of_code (by omega)

theorem toLower_of_isDigit (digit : c.isDigit = true) : c.toLower = c :=
  toLower_of_isRadixDigit (isRadixDigit_iff.mpr (.inl digit))

theorem isBlank_of_isRadixDigit (digit : isRadixDigit c = true) : Text.isBlank c = false := by
  have code := isRadixDigit_iff_code.mp digit
  simp only [Text.isBlank,Bool.or_eq_false_iff,Bool.and_eq_false_iff,decide_eq_false_iff_not,beq_eq_false_iff_ne]
  omega

/-! ### Forms -/

/-- At least one digit, and digits only. -/
def Digits (text : List Char) : Prop := text ≠ [] ∧ ∀ c ∈ text, c.isDigit = true

/-- Digits, or digits behind a point with or without digits before it. -/
inductive Mantissa : List Char → Prop
  | whole {digits : List Char} (filled : Digits digits) : Mantissa digits
  | fraction {lead digits : List Char} (leads : ∀ c ∈ lead, c.isDigit = true) (filled : Digits digits) :
      Mantissa (lead ++ '.' :: digits)

/-- Nothing, or an `e`, an optional sign and digits. -/
inductive Exponent : List Char → Prop
  | absent : Exponent []
  | given {sign digits : List Char} (signed : sign ∈ [[], ['+'], ['-']]) (filled : Digits digits) :
      Exponent ('e' :: (sign ++ digits))

/-- A decimal numeral. -/
def Decimal (text : List Char) : Prop := ∃ mantissa exponent, text = mantissa ++ exponent ∧ Mantissa mantissa ∧ Exponent exponent

/-- A numeral of any form. -/
inductive Numeral : List Char → Prop
  | prefixed {mark : Char} {digits : List Char} (known : mark ∈ ['x', 'o', 'b'])
      (all : ∀ c ∈ digits, isRadixDigit c = true) : Numeral ('0' :: mark :: digits)
  | radix {lead digits : List Char} (short : lead.length = 1 ∨ lead.length = 2) (leads : ∀ c ∈ lead, c.isDigit = true)
      (all : ∀ c ∈ digits, isRadixDigit c = true) : Numeral (lead ++ 'r' :: digits)
  | decimal {text : List Char} (decimal : Decimal text) : Numeral text

theorem digits_of_marked {lead rest numeral : List Char} {isDigit : Char → Bool}
    (found : marked lead isDigit rest = some numeral) :
    ∃ digits, numeral = lead ++ digits ∧ digits ≠ [] ∧ ∀ c ∈ digits, isDigit c = true := by
  unfold marked at found
  split at found
  · cases found
  · rename_i digits filled
    cases found
    exact ⟨_, rfl, filled, fun c => List.mem_takeWhile_imp⟩

theorem mantissa_shape {text : List Char} (filled : mantissa text ≠ []) : Mantissa (mantissa text) := by
  have digits : ∀ c ∈ text.takeWhile Char.isDigit, c.isDigit = true := fun c => List.mem_takeWhile_imp
  unfold mantissa at filled ⊢
  dsimp only at filled ⊢
  split at filled
  · rename_i rest point
    cases found : marked (text.takeWhile Char.isDigit ++ ['.']) Char.isDigit rest with
    | none =>
      rw [found] at filled
      exact .whole ⟨filled, digits⟩
    | some numeral =>
      obtain ⟨fraction,rfl,some,all⟩ := digits_of_marked found
      have shape := Mantissa.fraction digits ⟨some, all⟩
      simpa using shape
  · exact .whole ⟨filled, digits⟩

theorem exponent_shape (text : List Char) : Exponent (exponent text) := by
  have given {sign rest : List Char} (signed : sign ∈ [[], ['+'], ['-']]) :
      Exponent ((marked ('e' :: sign) Char.isDigit rest).getD []) := by
    cases found : marked ('e' :: sign) Char.isDigit rest with
    | none => exact .absent
    | some numeral =>
      obtain ⟨digits,rfl,filled,all⟩ := digits_of_marked found
      exact .given signed ⟨filled, all⟩
  unfold exponent
  split
  · exact given (by simp)
  · exact given (by simp)
  · exact given (by simp)
  · exact .absent

theorem decimal_of_decimalNumeral {text numeral : List Char} (found : decimalNumeral text = some numeral) : Decimal numeral := by
  unfold decimalNumeral at found
  split at found
  · cases found
  · rename_i filled
    cases found
    exact ⟨_, _, rfl, mantissa_shape filled, exponent_shape _⟩

theorem radix_of_radixNumeralOf {size : Nat} (short : size = 1 ∨ size = 2) {numeral : List Char}
    (found : radixNumeralOf size text = some numeral) : Numeral numeral := by
  simp only [radixNumeralOf] at found
  split at found
  · rename_i rest later
    split at found
    · rename_i isRadix
      obtain ⟨digits,rfl,_,all⟩ := digits_of_marked found
      have long : (text.take size).length = size := by
        have more := congrArg List.length later
        simp only [List.length_drop,List.length_cons] at more
        rw [List.length_take]
        omega
      rw [← long] at short
      rw [List.append_assoc,List.singleton_append]
      exact .radix short (List.all_eq_true.mp isRadix) all
    · cases found
  · cases found

/-- What the scanner takes for a numeral is one. -/
theorem shape_of_numeral {numeral : List Char} (found : Lexeme.numeral text = some numeral) : Numeral numeral := by
  have prefixed {mark : Char} {isDigit : Char → Bool} {rest : List Char} (known : mark ∈ ['x', 'o', 'b'])
      (digit : ∀ c, isDigit c = true → isRadixDigit c = true) (found : marked ['0', mark] isDigit rest = some numeral) :
      Numeral numeral := by
    obtain ⟨digits,rfl,_,all⟩ := digits_of_marked found
    exact .prefixed known fun c member => digit c (all c member)
  simp only [Lexeme.numeral,radixNumeral,Option.orElse_eq_orElse,Option.orElse_eq_or,Option.or_eq_some_iff] at found
  rcases found with hex | ⟨_,(two | ⟨_,one⟩) | ⟨_,octal | ⟨_,binary | ⟨_,decimal⟩⟩⟩⟩
  · unfold hexNumeral at hex
    split at hex
    · refine prefixed (by decide) (fun c digit => ?_) hex
      have code := isHexDigit_iff_code.mp digit
      exact isRadixDigit_iff_code.mpr (by omega)
    · cases hex
  · exact radix_of_radixNumeralOf (.inr rfl) two
  · exact radix_of_radixNumeralOf (.inl rfl) one
  · unfold octalNumeral at octal
    split at octal
    · refine prefixed (by decide) (fun c digit => ?_) octal
      have code := isOctalDigit_iff_code.mp digit
      exact isRadixDigit_iff_code.mpr (by omega)
    · cases octal
  · unfold binaryNumeral at binary
    split at binary
    · refine prefixed (by decide) (fun c digit => ?_) binary
      have code := isBinaryDigit_iff_code.mp digit
      exact isRadixDigit_iff_code.mpr (by omega)
    · cases binary
  · exact .decimal (decimal_of_decimalNumeral decimal)

/-! ### Characters of a numeral -/

theorem Decimal.characters (decimal : Decimal text) : ∀ c ∈ text, isRadixDigit c = true ∨ c ∈ ['.', '+', '-'] := by
  have digit {c : Char} (isDigit : c.isDigit = true) : isRadixDigit c = true ∨ c ∈ ['.', '+', '-'] :=
    .inl (isRadixDigit_iff.mpr (.inl isDigit))
  obtain ⟨mantissa,exponent,rfl,shape,power⟩ := decimal
  intro c member
  rcases List.mem_append.mp member with early | late
  · cases shape with
    | whole filled => exact digit (filled.2 c early)
    | fraction leads filled =>
      rcases List.mem_append.mp early with lead | point
      · exact digit (leads c lead)
      · rcases List.mem_cons.mp point with rfl | inside
        · exact .inr (by decide)
        · exact digit (filled.2 c inside)
  · cases power with
    | absent => cases late
    | given signed filled =>
      simp only [List.mem_cons,List.mem_append,List.not_mem_nil,or_false] at late signed
      rcases late with rfl | sign | inside
      · exact .inl rfl
      · rcases signed with rfl | rfl | rfl <;> simp_all
      · exact digit (filled.2 c inside)

theorem Numeral.characters (shape : Numeral text) : ∀ c ∈ text, isRadixDigit c = true ∨ c ∈ ['.', '+', '-'] := by
  intro c member
  cases shape with
  | prefixed known all =>
    rcases List.mem_cons.mp member with rfl | member
    · exact .inl rfl
    · rcases List.mem_cons.mp member with rfl | inside
      · have marks : ∀ mark ∈ ['x', 'o', 'b'], isRadixDigit mark = true := by simp [isRadixDigit]
        exact .inl (marks c known)
      · exact .inl (all c inside)
  | radix short leads all =>
    rcases List.mem_append.mp member with early | late
    · exact .inl (isRadixDigit_iff.mpr (.inl (leads c early)))
    · rcases List.mem_cons.mp late with rfl | inside
      · exact .inl rfl
      · exact .inl (all c inside)
  | decimal decimal => exact decimal.characters c member

theorem Numeral.toLower_eq (shape : Numeral text) : ∀ c ∈ text, c.toLower = c := by
  intro c member
  have signs : ∀ c ∈ ['.', '+', '-'], c.toLower = c := by simp
  exact (shape.characters c member).elim toLower_of_isRadixDigit (signs c)

end Lexeme
end CalcBasic

import CalcBasic.Number.Numeral
import Mathlib

/-! Numerals in calculator code: the text of a finite number that is not negative
has digits and points only, and just the negative numbers start with a sign. -/
namespace CalcBasic

theorem Code.isDigit_of_mem_natural {c : Char} {n : Nat} (member : c ∈ (toString n).toList) : c.isDigit = true := by
  rw [Nat.toString_eq_ofList_toDigits,String.toList_ofList] at member
  exact Nat.isDigit_of_mem_toDigits (by decide) (by decide) member

namespace Number

open Float.Model Float.Model.UnpackedFloat

/-! ### Numbers through their packed form -/

section Packing

variable {spec : Format}

theorem isFinite_unpack {exponent : BitVec spec.exponentBits} (proper : exponent ≠ -1#_)
    (mantissa : BitVec spec.mantissaBitsWithoutImplicit) (sign : Sign) :
    (UnpackedFloat.unpack spec (packComponents spec sign exponent mantissa)).isFinite = true := by
  simp only [UnpackedFloat.unpack,unpackExponent_packComponents,unpackMantissa_packComponents,proper,if_false]
  split
  · split
    · rfl
    · rfl
  · rfl

theorem exponent_of_finite (wide : 2 ≤ spec.exponentBits) {bits : BitVec spec.numBits} {sign : Sign}
    {m : Nat} {e : Int} {positive : 0 < m} (unpacked : UnpackedFloat.unpack spec bits = .finite sign m e positive) :
    (e + spec.exponentBias + spec.mantissaBitsWithoutImplicit).toNat + 1 < 2 ^ spec.exponentBits := by
  have four : 2 ^ 2 ≤ 2 ^ spec.exponentBits := Nat.pow_le_pow_right (by decide) wide
  have bounded := (unpackExponent bits).isLt
  simp only [UnpackedFloat.unpack] at unpacked
  split at unpacked
  · split at unpacked
    · cases unpacked
    · cases unpacked
  · rename_i notTop
    have below : (unpackExponent bits).toNat ≠ 2 ^ spec.exponentBits - 1 := by
      intro top
      apply notTop
      rw [BitVec.neg_one_eq_allOnes,← BitVec.toNat_inj,top,BitVec.toNat_allOnes]
    split at unpacked
    · rename_i bottom
      have smallest : (unpackExponent bits).toNat = 0 := by rw [bottom]; rfl
      split at unpacked
      · cases unpacked
      · obtain ⟨_,_,exponent⟩ := UnpackedFloat.finite.inj unpacked
        omega
    · obtain ⟨_,_,exponent⟩ := UnpackedFloat.finite.inj unpacked
      omega

/-- A positive number that came out of its packed form goes back into one with
room in the exponent. -/
theorem pack_of_unpack (wide : 2 ≤ spec.exponentBits) {bits : BitVec spec.numBits} {sign : Sign}
    {m : Nat} {e : Int} {positive : 0 < m} (unpacked : UnpackedFloat.unpack spec bits = .finite sign m e positive) :
    ∃ exponent mantissa, exponent ≠ -1#_ ∧
      UnpackedFloat.pack spec (.finite sign m e positive) = packComponents spec sign exponent mantissa := by
  have room := exponent_of_finite wide unpacked
  simp only [UnpackedFloat.pack]
  rw [if_neg (by omega)]
  split
  · refine ⟨_, _, ?_, rfl⟩
    rw [BitVec.neg_one_eq_allOnes,Ne,← BitVec.toNat_inj,BitVec.toNat_ofNat,BitVec.toNat_allOnes,
      Nat.mod_eq_of_lt (by omega)]
    omega
  · refine ⟨_, _, ?_, rfl⟩
    rw [BitVec.neg_one_eq_allOnes,Ne,← BitVec.toNat_inj,BitVec.toNat_allOnes]
    have none : (BitVec.ofNat spec.exponentBits 0).toNat = 0 := rfl
    omega

end Packing

theorem negative_of_packed {y : Float} {sign : Sign} {exponent : BitVec 11} {mantissa : BitVec 52}
    (packed : y.toModel.toBits.toBitVec = packComponents .binary64 sign exponent mantissa) :
    (parts y).negative = (sign == .negative) := by
  have top : ((sign.toBitVec ++ exponent) ++ mantissa).msb = (sign == .negative) := by
    rw [BitVec.msb_append,BitVec.msb_append]
    cases sign <;> rfl
  have first : y.toModel.toBits.toBitVec.msb = (sign == .negative) := by rw [packed]; exact top
  have small : y.toBits.toNat < 2 ^ 64 := y.toBits.toNat_lt
  have half : (y.toBits.toNat / Nat.pow 2 63 == 1) = decide (2 ^ 63 ≤ y.toBits.toNat) := by
    rw [show Nat.pow 2 63 = 2 ^ 63 from rfl,Bool.eq_iff_iff,beq_iff_eq,decide_eq_true_iff]
    omega
  rw [BitVec.msb_eq_decide] at first
  exact half.trans first

theorem finite_of_packed {y : Float} {sign : Sign} {exponent : BitVec 11} {mantissa : BitVec 52} (proper : exponent ≠ -1#11)
    (packed : y.toModel.toBits.toBitVec = packComponents .binary64 sign exponent mantissa) : y.isFinite = true := by
  have finite := @isFinite_unpack .binary64 exponent proper mantissa sign
  rw [← packed] at finite
  exact finite

theorem positive_of_packed {y : Float} {exponent : BitVec 11} {mantissa : BitVec 52} (proper : exponent ≠ -1#11)
    (packed : y.toModel.toBits.toBitVec = packComponents .binary64 .positive exponent mantissa) :
    y.isFinite = true ∧ (parts y).negative = false :=
  ⟨finite_of_packed proper packed, negative_of_packed packed⟩

theorem ordinary_of_finite {y : Float} (finite : y.isFinite = true) : y.isNaN = false ∧ y.isInf = false := by
  change y.toModel.unpack.isFinite = true at finite
  change y.toModel.unpack.isNaN = false ∧ y.toModel.unpack.isInf = false
  cases unpacked : y.toModel.unpack with
  | notANumber => rw [unpacked] at finite; cases finite
  | infinity sign => rw [unpacked] at finite; cases finite
  | zero sign => exact ⟨rfl, rfl⟩
  | finite sign m e positive => exact ⟨rfl, rfl⟩

/-- Adding zero takes the sign of a zero away and nothing else. -/
theorem add_zero_positive {x : Float} (finite : x.isFinite = true) (least : 0 ≤ x) :
    (x + 0).isFinite = true ∧ (parts (x + 0)).negative = false := by
  have zero : (0 : Float).toModel.unpack = .zero .positive := rfl
  have sum : (x + 0).toModel.toBits.toBitVec =
      UnpackedFloat.pack .binary64 (UnpackedFloat.add .binary64 x.toModel.unpack (0 : Float).toModel.unpack) := rfl
  rw [zero] at sum
  change x.toModel.unpack.isFinite = true at finite
  cases unpacked : x.toModel.unpack with
  | notANumber => rw [unpacked] at finite; cases finite
  | infinity sign => rw [unpacked] at finite; cases finite
  | zero sign =>
    rw [unpacked] at sum
    refine @positive_of_packed _ 0#11 0#52 (by decide) (sum.trans ?_)
    cases sign <;> rfl
  | finite sign m e positive =>
    rw [unpacked] at sum
    have upward : sign = .positive := by
      cases sign with
      | positive => rfl
      | negative =>
        have ordered : UnpackedFloat.le (0 : Float).toModel.unpack x.toModel.unpack = true :=
          of_decide_eq_true least
        rw [zero,unpacked] at ordered
        cases ordered
    subst upward
    obtain ⟨exponent,mantissa,proper,packed⟩ := @pack_of_unpack .binary64 (by decide) _ _ _ _ _ unpacked
    exact positive_of_packed proper (sum.trans packed)

/-! ### Texts -/

theorem Decimal.text_numeric (d : Decimal) :
    d.text ≠ "" ∧ ∀ c ∈ d.text.toList, c.isDigit = true ∨ c = '.' := by
  have digits : ∀ c ∈ Nat.toDigits 10 d.digits, c.isDigit = true :=
    fun c member => Nat.isDigit_of_mem_toDigits (by decide) (by decide) member
  have zeros (count : Nat) : ∀ c ∈ List.replicate count '0', c.isDigit = true := by
    intro c member
    rw [(List.mem_replicate.mp member).2]
    rfl
  unfold Decimal.text
  extract_lets written places padded whole
  have paddedDigits : ∀ c ∈ padded, c.isDigit = true := by
    intro c member
    rcases List.mem_append.mp member with filler | digit
    · exact zeros _ c filler
    · exact digits c digit
  have wholeDigits : ∀ c ∈ whole, c.isDigit = true := by
    intro c member
    rcases List.mem_append.mp member with taken | filler
    · exact paddedDigits c (List.mem_of_mem_take taken)
    · exact zeros _ c filler
  have long : places + 1 ≤ padded.length := by
    rw [List.length_append,List.length_replicate]
    omega
  have nonempty : whole ≠ [] := by
    intro empty
    have none : (padded.take (padded.length - places)).length = 0 := by
      rw [(List.append_eq_nil_iff.mp empty).1]
      rfl
    rw [List.length_take] at none
    omega
  split
  · refine ⟨?_, ?_⟩
    · rwa [Ne,String.ofList_eq_empty_iff]
    · rw [String.toList_ofList]
      exact fun c member => .inl (wholeDigits c member)
  · refine ⟨?_, ?_⟩
    · simp
    · rw [String.toList_ofList]
      intro c member
      rcases List.mem_append.mp member with inWhole | point
      · exact .inl (wholeDigits c inWhole)
      · rcases List.mem_cons.mp point with rfl | fraction
        · exact .inr rfl
        · exact .inl (paddedDigits c (List.mem_of_mem_drop fraction))

theorem code_numeric {x : Float} (finite : x.isFinite = true) (least : 0 ≤ x) :
    code x ≠ "" ∧ ∀ c ∈ (code x).toList, c.isDigit = true ∨ c = '.' := by
  obtain ⟨real,upward⟩ := add_zero_positive finite least
  obtain ⟨notNaN,notInf⟩ := ordinary_of_finite real
  unfold code text
  rw [notNaN,notInf]
  simp only [upward,Bool.false_eq_true,if_false]
  split
  · exact ⟨by decide, by simp⟩
  · exact Decimal.text_numeric _

/-- Whether the code of a number starts with a sign. -/
def isSigned (x : Float) : Bool := !(x + 0).isNaN && (parts (x + 0)).negative

/-- A number is a magnitude, and a sign before it where it is signed. -/
theorem code_shape (x : Float) : ∃ magnitude : String, magnitude ≠ "" ∧
    (∀ c ∈ magnitude.toList, c.isDigit = true ∨ c ∈ ['.', 'i', 'n', 'f', 'N', 'a']) ∧
    code x = (if isSigned x then "-" else "") ++ magnitude := by
  have signed (negative : Bool) (magnitude : String) :
      (if negative = true then "-" ++ magnitude else magnitude) = (if negative then "-" else "") ++ magnitude := by
    cases negative <;> simp
  have magnitude (infinite : Bool) (significand : Nat) (d : Decimal) :
      (if infinite then "inf" else if significand = 0 then "0" else d.text) ≠ "" ∧
      ∀ c ∈ (if infinite then "inf" else if significand = 0 then "0" else d.text).toList,
        c.isDigit = true ∨ c ∈ ['.', 'i', 'n', 'f', 'N', 'a'] := by
    split
    · exact ⟨by decide, by simp⟩
    · split
      · exact ⟨by decide, by simp⟩
      · exact d.text_numeric.imp_right fun numeric c member => (numeric c member).imp_right fun point => by simp [point]
  unfold code text isSigned
  split
  · rename_i none
    exact ⟨"NaN", by decide, by simp, by rw [none]; rfl⟩
  · rename_i real
    dsimp only
    rw [Bool.eq_false_iff.mpr real,Bool.not_false,Bool.true_and,signed]
    exact ⟨_, (magnitude _ _ _).1, (magnitude _ _ _).2, rfl⟩

theorem decide_lt (x y : Float) : decide (x < y) = UnpackedFloat.lt x.toModel.unpack y.toModel.unpack := by
  rw [Bool.eq_iff_iff,decide_eq_true_iff]
  exact ⟨of_decide_eq_true, decide_eq_true⟩

theorem isSigned_eq (x : Float) : isSigned x = decide (x < 0) := by
  have zero : (0 : Float).toModel.unpack = .zero .positive := rfl
  have sum : (x + 0).toModel.toBits.toBitVec =
      UnpackedFloat.pack .binary64 (UnpackedFloat.add .binary64 x.toModel.unpack (0 : Float).toModel.unpack) := rfl
  have kind : (x + 0).isNaN = (UnpackedFloat.unpack .binary64 (x + 0).toModel.toBits.toBitVec).isNaN := rfl
  rw [zero] at sum
  rw [decide_lt,zero,isSigned]
  cases unpacked : x.toModel.unpack with
  | notANumber =>
    rw [unpacked] at sum
    rw [kind,sum]
    rfl
  | infinity sign =>
    rw [unpacked] at sum
    rw [kind,@negative_of_packed _ sign (-1#11) 0#52 sum,sum]
    cases sign <;> rfl
  | zero sign =>
    rw [unpacked] at sum
    rw [kind,@negative_of_packed _ .positive 0#11 0#52 (sum.trans (by cases sign <;> rfl)),sum]
    cases sign <;> rfl
  | finite sign m e positive =>
    rw [unpacked] at sum
    obtain ⟨exponent,mantissa,proper,packed⟩ := @pack_of_unpack .binary64 (by decide) _ _ _ _ _ unpacked
    rw [(ordinary_of_finite (finite_of_packed proper (sum.trans packed))).1,negative_of_packed (sum.trans packed)]
    cases sign <;> rfl

end Number
end CalcBasic

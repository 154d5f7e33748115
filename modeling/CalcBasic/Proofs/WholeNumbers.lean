import CalcBasic.Proofs.NumeralText

/-! Whole numbers in binary. Below `2^53` they are held exactly, their sums and
differences are exact, and calculator code shows all their digits. -/
namespace CalcBasic.Number

variable {n k : Nat} {x : Float} {u : UnpackedFloat}

open Float.Model Float.Model.UnpackedFloat

/-- The value in units of the least power of two. -/
def Parts.scaled (p : Parts) : Int :=
  (if p.negative then -1 else 1) * (p.significand * 2 ^ (p.exponent - leastExponent).toNat : Nat)

/-- The number is this whole one. -/
def Holds (x : Float) (n : Int) : Prop := x.isFinite = true ∧ (parts x).scaled = n * 2 ^ leastExponent.natAbs

/-- The unpacked form of a whole number. -/
inductive Whole : UnpackedFloat → Int → Prop
  | zero (sign : Sign) : Whole (.zero sign) 0
  | finite (sign : Sign) (n : Nat) (positive : 0 < n * 2 ^ (52 - n.log2)) (small : n < 2 ^ 53) :
      Whole (.finite sign (n * 2 ^ (52 - n.log2)) (n.log2 - 52) positive) (sign.apply n)

/-! ### Rounding -/

theorem log2_mul_pow (positive : 0 < n) (k : Nat) : (n * 2 ^ k).log2 = n.log2 + k := by
  have factor : 0 < 2 ^ k := Nat.two_pow_pos k
  rw [Nat.log2_eq_iff (Nat.mul_pos positive factor).ne',Nat.pow_add,Nat.add_right_comm,Nat.pow_add]
  have low := Nat.log2_self_le positive.ne'
  have high := @Nat.lt_log2_self n
  exact ⟨Nat.mul_le_mul_right _ low, (Nat.mul_lt_mul_right factor).mpr high⟩

theorem log2_le_of_small (positive : 0 < n) (small : n < 2 ^ 53) : n.log2 ≤ 52 :=
  Nat.lt_succ_iff.mp ((Nat.log2_lt positive.ne').mpr small)

theorem shift_exact (m k : Nat) :
    ExtendedMantissa.mk (m * 2 ^ k) false false >>> k = ExtendedMantissa.mk m false false := by
  induction k generalizing m with
  | zero => simp [HShiftRight.hShiftRight,Nat.repeat]
  | succ k ih =>
    have halved := ih (2 * m)
    rw [Nat.pow_succ',← Nat.mul_assoc,Nat.mul_comm m 2]
    change (ExtendedMantissa.mk (2 * m * 2 ^ k) false false >>> k).shiftRightOne = _
    rw [halved]
    simp [ExtendedMantissa.shiftRightOne]

/-- Where a whole number stands in binary does not change what it rounds to. -/
theorem targetExponent_whole (positive : 0 < n) (k : Nat) :
    Format.binary64.targetExponent (totalExponent (n * 2 ^ k) (-k)) = n.log2 - 52 := by
  rw [totalExponent,log2_mul_pow positive,Format.targetExponent]
  simp only [Format.mantissaBits,Format.minExponent]
  omega

theorem shiftToTarget_whole (positive : 0 < n) (small : n < 2 ^ 53)
    (fine : 52 - n.log2 ≤ k) : shiftToTargetExponent .binary64 (n * 2 ^ k) (-k) .exact =
      (⟨n * 2 ^ (52 - n.log2), false, false⟩, (n.log2 : Int) - 52) := by
  have size := log2_le_of_small positive small
  have amount : ((n.log2 : Int) - 52 - -(k : Int)).toNat = k - (52 - n.log2) := by omega
  have split : n * 2 ^ k = n * 2 ^ (52 - n.log2) * 2 ^ (k - (52 - n.log2)) := by
    rw [Nat.mul_assoc,← Nat.pow_add,Nat.add_sub_cancel' fine]
  unfold shiftToTargetExponent
  rw [targetExponent_whole positive,shiftToExponent,amount,split,ExtendedMantissa.ofMantissaAndAccuracy,shift_exact]
  congr 1
  omega

/-- Nothing is lost where there is room for all bits. -/
theorem roundWithAccuracy_whole (positive : 0 < n) (small : n < 2 ^ 53) (sign : Sign)
    (fine : 52 - n.log2 ≤ k) : roundWithAccuracy .binary64 sign (n * 2 ^ k) (-k) .exact =
      .finite sign (n * 2 ^ (52 - n.log2)) (n.log2 - 52) (Nat.mul_pos positive (Nat.two_pow_pos _)) := by
  have size := log2_le_of_small positive small
  have standing : -((52 - n.log2 : Nat) : Int) = (n.log2 : Int) - 52 := by omega
  have again := shiftToTarget_whole positive small (Nat.le_refl (52 - n.log2))
  rw [standing] at again
  dsimp only [roundWithAccuracy]
  rw [shiftToTarget_whole positive small fine]
  have whole : (ExtendedMantissa.mk (n * 2 ^ (52 - n.log2)) false false).roundedMantissa = n * 2 ^ (52 - n.log2) := rfl
  rw [whole,again]
  exact dif_neg (Nat.mul_pos positive (Nat.two_pow_pos _)).ne'

theorem round_whole (positive : 0 < n) (small : n < 2 ^ 53) (sign : Sign) (k : Nat) : round .binary64 sign (n * 2 ^ k) (-k) =
      .finite sign (n * 2 ^ (52 - n.log2)) (n.log2 - 52) (Nat.mul_pos positive (Nat.two_pow_pos _)) := by
  -- the number is first brought to an exponent that is fine enough
  have finer : decreaseExponent (n * 2 ^ k) (-k) (n.log2 - 52) =
      (n * 2 ^ max k (52 - n.log2), -((max k (52 - n.log2) : Nat) : Int)) := by
    have size := log2_le_of_small positive small
    have amount : (-(k : Int) - ((n.log2 : Int) - 52)).toNat = max k (52 - n.log2) - k := by omega
    unfold decreaseExponent
    rw [amount]
    dsimp only
    rw [Nat.shiftLeft_eq,Nat.mul_assoc,← Nat.pow_add]
    congr 2
    · congr 1
      omega
    · omega
  unfold UnpackedFloat.round
  rw [targetExponent_whole positive]
  dsimp only
  rw [finer]
  exact roundWithAccuracy_whole positive small sign (Nat.le_max_right k _)

/-! ### Packing -/

theorem unpackSign_packComponents {spec : Format} (sign : Sign) (exponent : BitVec spec.exponentBits)
    (mantissa : BitVec spec.mantissaBitsWithoutImplicit) :
    unpackSign (packComponents spec sign exponent mantissa) = sign.toBitVec := by
  ext i bounded
  have first : i = 0 := by omega
  subst first
  simp [unpackSign,packComponents,BitVec.getLsbD_append,BitVec.getElem_append]

theorem ofBitVec_toBitVec (sign : Sign) : Sign.ofBitVec sign.toBitVec = sign := by
  cases sign <;> rfl

theorem significand_bounds (positive : 0 < n) (small : n < 2 ^ 53) :
    2 ^ 52 ≤ n * 2 ^ (52 - n.log2) ∧ n * 2 ^ (52 - n.log2) < 2 ^ 53 := by
  have size := log2_le_of_small positive small
  have scaled := log2_mul_pow positive (52 - n.log2)
  rw [Nat.add_sub_cancel' size] at scaled
  exact (Nat.log2_eq_iff (Nat.mul_pos positive (Nat.two_pow_pos _)).ne').mp scaled

theorem unpack_pack_normal (sign : Sign) {m : Nat} (positive : 0 < m) (low : 2 ^ 52 ≤ m) (high : m < 2 ^ 53)
    {e : Int} (least : -1075 < e) (greatest : e < 972) :
    UnpackedFloat.unpack .binary64 (UnpackedFloat.pack .binary64 (.finite sign m e positive)) =
      .finite sign m e positive := by
  have size : m.log2 + 1 = Format.binary64.mantissaBits := by
    rw [(Nat.log2_eq_iff positive.ne').mpr ⟨low, high⟩]
    rfl
  have bias : e + (Format.binary64.exponentBias : Int) + (Format.binary64.mantissaBitsWithoutImplicit : Int) = e + 1075 := by
    simp only [Format.exponentBias]
    omega
  have field : (BitVec.ofNat 11 (e + 1075).toNat).toNat = (e + 1075).toNat := by
    rw [BitVec.toNat_ofNat,Nat.mod_eq_of_lt (by omega)]
  have proper : BitVec.ofNat 11 (e + 1075).toNat ≠ -1#11 := by
    intro top
    have value := congrArg BitVec.toNat top
    rw [field] at value
    have most : (-1#11).toNat = 2047 := rfl
    omega
  have normal : BitVec.ofNat 11 (e + 1075).toNat ≠ 0#11 := by
    intro bottom
    have value := congrArg BitVec.toNat bottom
    rw [field] at value
    have none : (0#11).toNat = 0 := rfl
    omega
  have implicit : (1#1 ++ BitVec.ofNat 52 m).toNat = m := by
    have stored : (BitVec.ofNat 52 m).toNat = m - 2 ^ 52 := by
      rw [BitVec.toNat_ofNat]
      omega
    rw [BitVec.toNat_append,← Nat.shiftLeft_add_eq_or_of_lt (BitVec.isLt _),stored,Nat.shiftLeft_eq]
    have one : (1#1).toNat = 1 := rfl
    omega
  have packed : UnpackedFloat.pack .binary64 (.finite sign m e positive) =
      packComponents .binary64 sign (BitVec.ofNat 11 (e + 1075).toNat) (BitVec.ofNat 52 m) := by
    simp only [UnpackedFloat.pack]
    rw [bias,if_neg (by omega),if_pos size]
  rw [packed]
  simp only [UnpackedFloat.unpack,unpackExponent_packComponents,unpackMantissa_packComponents,
    unpackSign_packComponents,ofBitVec_toBitVec,proper,normal,if_false]
  congr 1
  rw [field]
  simp only [Format.exponentBias]
  omega

theorem Whole.unpack_pack {n : Int} (whole : Whole u n) : (Float.Model.pack u).unpack = u := by
  cases whole with
  | zero sign => cases sign <;> rfl
  | finite sign n positive small =>
    have size := log2_le_of_small (Nat.pos_of_mul_pos_right positive) small
    obtain ⟨low,high⟩ := significand_bounds (Nat.pos_of_mul_pos_right positive) small
    exact unpack_pack_normal sign positive low high (by omega) (by omega)

/-! ### Sums and differences -/

theorem normalize_whole {n : Int} (small : n.natAbs < 2 ^ 53) (k : Nat) :
    Whole (normalize .binary64 (n * 2 ^ k) (-k) .positive) n := by
  have factor : (0 : Int) < 2 ^ k := Int.pow_pos (by decide)
  rcases lt_trichotomy n 0 with negative | rfl | positive
  · obtain ⟨m,rfl⟩ : ∃ m : Nat, n = -m := ⟨n.natAbs, by omega⟩
    have nonzero : 0 < m := by omega
    have order : compare (-(m : Int) * 2 ^ k) 0 = .lt := compare_lt_iff_lt.mpr (Int.mul_neg_of_neg_of_pos negative factor)
    have magnitude : (-(-(m : Int) * 2 ^ k)).toNat = m * 2 ^ k := by
      rw [Int.neg_mul,Int.neg_neg]
      norm_cast
    rw [UnpackedFloat.normalize,order]
    dsimp only
    rw [magnitude,round_whole nonzero (by omega)]
    exact .finite .negative m _ (by omega)
  · rw [Int.zero_mul]
    exact .zero .positive
  · obtain ⟨m,rfl⟩ : ∃ m : Nat, n = m := ⟨n.natAbs, by omega⟩
    have nonzero : 0 < m := by omega
    have order : compare ((m : Int) * 2 ^ k) 0 = .gt := compare_gt_iff_gt.mpr (Int.mul_pos positive factor)
    have magnitude : ((m : Int) * 2 ^ k).toNat = m * 2 ^ k := by norm_cast
    rw [UnpackedFloat.normalize,order]
    dsimp only
    rw [magnitude,round_whole nonzero (by omega)]
    exact .finite .positive m _ (by omega)

theorem Whole.add {u v : UnpackedFloat} {a b : Int} (first : Whole u a) (second : Whole v b)
    (small : (a + b).natAbs < 2 ^ 53) : Whole (UnpackedFloat.add .binary64 u v) (a + b) := by
  cases first with
  | zero sign =>
    rw [Int.zero_add]
    cases second with
    | zero other => cases sign <;> cases other <;> exact .zero _
    | finite other b positive bounded => exact .finite other b positive bounded
  | finite sign a positive bounded =>
    cases second with
    | zero other =>
      rw [Int.add_zero]
      exact .finite sign a positive bounded
    | finite other b positive' bounded' =>
      have sizeA := log2_le_of_small (Nat.pos_of_mul_pos_right positive) bounded
      have sizeB := log2_le_of_small (Nat.pos_of_mul_pos_right positive') bounded'
      let k := max (52 - a.log2) (52 - b.log2)
      -- both are brought to the finer of the two exponents
      have common : min ((a.log2 : Int) - 52) ((b.log2 : Int) - 52) = -(k : Int) := by omega
      have brought {n : Nat} (size : n.log2 ≤ 52) (finer : 52 - n.log2 ≤ k) :
          decreaseExponent (n * 2 ^ (52 - n.log2)) ((n.log2 : Int) - 52) (-(k : Int)) = (n * 2 ^ k, -(k : Int)) := by
        have amount : ((n.log2 : Int) - 52 - -(k : Int)).toNat = k - (52 - n.log2) := by omega
        unfold decreaseExponent
        rw [amount]
        dsimp only
        rw [Nat.shiftLeft_eq,Nat.mul_assoc,← Nat.pow_add,Nat.add_sub_cancel' finer]
        congr 1
        omega
      have sum : sign.apply ((a * 2 ^ k : Nat) : Int) + other.apply ((b * 2 ^ k : Nat) : Int) =
          (sign.apply a + other.apply b) * 2 ^ k := by
        cases sign <;> cases other <;> simp only [Sign.apply] <;> push_cast <;> ring
      have summed := normalize_whole small k
      rw [← sum] at summed
      simp only [UnpackedFloat.add]
      rw [common,brought sizeA (Nat.le_max_left _ _),brought sizeB (Nat.le_max_right _ _)]
      exact summed

theorem apply_neg (sign : Sign) (m : Int) : (-sign).apply m = -sign.apply m := by
  cases sign with
  | negative => exact (Int.neg_neg m).symm
  | positive => rfl

theorem Whole.neg {n : Int} (whole : Whole u n) : Whole u.neg (-n) := by
  cases whole with
  | zero sign => exact .zero (-sign)
  | finite sign n positive small =>
    rw [← apply_neg]
    exact .finite (-sign) n positive small

theorem sub_eq_add_neg {v : UnpackedFloat} {a b : Int} (first : Whole u a) (second : Whole v b) :
    UnpackedFloat.sub .binary64 u v = UnpackedFloat.add .binary64 u v.neg := by
  cases first with
  | zero sign =>
    cases second with
    | zero other => rfl
    | finite other b positive bounded => rfl
  | finite sign a positive bounded =>
    cases second with
    | zero other => rfl
    | finite other b positive' bounded' =>
      simp only [UnpackedFloat.sub,UnpackedFloat.add,UnpackedFloat.neg,apply_neg,Int.sub_eq_add_neg]

/-! ### Parts -/

def isNegative : Sign → Bool
  | .negative => true
  | .positive => false

section Fields

variable (x : Float)

theorem mantissa_field : (@unpackMantissa .binary64 x.toModel.toBits.toBitVec).toNat = x.toBits.toNat % 2 ^ 52 := by
  simp only [unpackMantissa,BitVec.toNat_cast,BitVec.extractLsb_toNat,Nat.shiftRight_zero]
  rfl

theorem exponent_field :
    (@unpackExponent .binary64 x.toModel.toBits.toBitVec).toNat = x.toBits.toNat / 2 ^ 52 % 2 ^ 11 := by
  simp only [unpackExponent,BitVec.toNat_cast,BitVec.extractLsb_toNat,Nat.shiftRight_eq_div_pow]
  rfl

theorem sign_field :
    (x.toBits.toNat / 2 ^ 63 == 1) = isNegative (.ofBitVec (@unpackSign .binary64 x.toModel.toBits.toBitVec)) := by
  have bounded : x.toBits.toNat < 2 ^ 64 := x.toBits.toNat_lt
  have field : (@unpackSign .binary64 x.toModel.toBits.toBitVec).toNat = x.toBits.toNat / 2 ^ 63 % 2 := by
    simp only [unpackSign,BitVec.toNat_cast,BitVec.extractLsb_toNat,Nat.shiftRight_eq_div_pow]
    rfl
  rw [Nat.mod_eq_of_lt (by omega)] at field
  rw [← field]
  generalize @unpackSign .binary64 x.toModel.toBits.toBitVec = bit
  revert bit
  decide

end Fields

theorem parts_eq (x : Float) :
    let field := (@unpackExponent .binary64 x.toModel.toBits.toBitVec).toNat
    let fraction := (@unpackMantissa .binary64 x.toModel.toBits.toBitVec).toNat
    parts x = ⟨isNegative (.ofBitVec (@unpackSign .binary64 x.toModel.toBits.toBitVec)),
      if field = 0 then fraction else 2 ^ 52 + fraction,
      if field = 0 then leastExponent else leastExponent + (field - 1 : Nat)⟩ := by
  intro field fraction
  rw [← sign_field]
  simp only [field,fraction,mantissa_field,exponent_field]
  rfl

theorem unpacked_normal {sign : Sign} {m : Nat} {e : Int} {positive : 0 < m}
    (unpacked : x.toModel.unpack = .finite sign m e positive) :
    parts x = ⟨isNegative sign, m, e⟩ ∧ m < 2 ^ 53 ∧ -1074 ≤ e ∧ (2 ^ 52 ≤ m ∨ e = -1074) := by
  have fields := parts_eq x
  have bounded := (@unpackMantissa .binary64 x.toModel.toBits.toBitVec).isLt
  change UnpackedFloat.unpack .binary64 x.toModel.toBits.toBitVec = _ at unpacked
  simp only [UnpackedFloat.unpack] at unpacked
  dsimp only at fields bounded
  split at unpacked
  · split at unpacked <;> cases unpacked
  · split at unpacked
    · rename_i _ bottom
      have none : (@unpackExponent .binary64 x.toModel.toBits.toBitVec).toNat = 0 := by rw [bottom]; rfl
      split at unpacked
      · cases unpacked
      · obtain ⟨rfl,rfl,rfl⟩ := UnpackedFloat.finite.inj unpacked
        rw [none,if_pos rfl,if_pos rfl] at fields
        rw [none]
        exact ⟨fields, by omega, by decide, .inr (by decide)⟩
    · rename_i _ normal
      have some : (@unpackExponent .binary64 x.toModel.toBits.toBitVec).toNat ≠ 0 := by
        intro none
        exact normal (BitVec.eq_of_toNat_eq none)
      obtain ⟨rfl,same,rfl⟩ := UnpackedFloat.finite.inj unpacked
      have implicit : (1#1 ++ @unpackMantissa .binary64 x.toModel.toBits.toBitVec).toNat =
          2 ^ 52 + (@unpackMantissa .binary64 x.toModel.toBits.toBitVec).toNat := by
        rw [BitVec.toNat_append,← Nat.shiftLeft_add_eq_or_of_lt bounded]
        rfl
      rw [implicit] at same
      rw [if_neg some,if_neg some] at fields
      have bias : (Format.binary64.exponentBias : Int) = 1023 := by decide
      rw [bias]
      refine ⟨?_, by omega, by omega, .inl (by omega)⟩
      rw [fields,same]
      congr 1
      simp only [leastExponent]
      omega

theorem unpacked_zero {sign : Sign} (unpacked : x.toModel.unpack = .zero sign) :
    parts x = ⟨isNegative sign, 0, leastExponent⟩ := by
  have fields := parts_eq x
  change UnpackedFloat.unpack .binary64 x.toModel.toBits.toBitVec = _ at unpacked
  simp only [UnpackedFloat.unpack] at unpacked
  dsimp only at fields
  split at unpacked
  · split at unpacked <;> cases unpacked
  · split at unpacked
    · rename_i _ bottom
      have none : (@unpackExponent .binary64 x.toModel.toBits.toBitVec).toNat = 0 := by rw [bottom]; rfl
      split at unpacked
      · rename_i empty
        have nothing : (@unpackMantissa .binary64 x.toModel.toBits.toBitVec).toNat = 0 := by rw [empty]; rfl
        obtain rfl := UnpackedFloat.zero.inj unpacked
        rw [fields,none,if_pos rfl,if_pos rfl,nothing]
      · cases unpacked
    · cases unpacked

/-! ### Whole numbers through their parts -/

theorem scaled_sign (sign : Sign) (m : Nat) (e : Int) :
    (Parts.mk (isNegative sign) m e).scaled = sign.apply (m * 2 ^ (e - leastExponent).toNat : Nat) := by
  cases sign with
  | negative => exact Int.neg_one_mul _
  | positive => exact Int.one_mul _

theorem holds_of_whole {n : Int} (whole : Whole x.toModel.unpack n) : Holds x n := by
  generalize unpacked : x.toModel.unpack = u at whole
  have finite : x.isFinite = u.isFinite := congrArg UnpackedFloat.isFinite unpacked
  refine ⟨finite.trans (by cases whole <;> rfl), ?_⟩
  cases whole with
  | zero sign =>
    rw [unpacked_zero unpacked,scaled_sign,Nat.zero_mul,Int.zero_mul]
    cases sign <;> rfl
  | finite sign n positive small =>
    have size := log2_le_of_small (Nat.pos_of_mul_pos_right positive) small
    have powers : (52 - n.log2) + ((n.log2 : Int) - 52 - leastExponent).toNat = leastExponent.natAbs := by
      have value : leastExponent = -1074 := rfl
      omega
    rw [(unpacked_normal unpacked).1,scaled_sign,Nat.mul_assoc,← Nat.pow_add,powers]
    cases sign <;> simp only [Sign.apply] <;> push_cast <;> ring

/-- A number has the sign of its product with a power of two. -/
theorem sign_of_product {sign : Sign} {n : Int} {product places : Nat} (positive : 0 < product)
    (same : sign.apply product = n * 2 ^ places) : n = sign.apply n.natAbs := by
  have power : (0 : Int) < 2 ^ places := Int.pow_pos (by decide)
  cases sign with
  | negative =>
    simp only [Sign.apply] at same ⊢
    have below : n < 0 := by
      by_contra nonnegative
      have product := Int.mul_nonneg (Int.not_lt.mp nonnegative) power.le
      omega
    omega
  | positive =>
    simp only [Sign.apply] at same ⊢
    have above : 0 < n := by
      by_contra nonpositive
      have product := Int.mul_nonpos_of_nonpos_of_nonneg (Int.not_lt.mp nonpositive) power.le
      omega
    omega

theorem whole_of_holds {n : Int} (holds : Holds x n) (small : n.natAbs < 2 ^ 53) : Whole x.toModel.unpack n := by
  obtain ⟨finite,valued⟩ := holds
  change x.toModel.unpack.isFinite = true at finite
  cases unpacked : x.toModel.unpack with
  | notANumber => rw [unpacked] at finite; cases finite
  | infinity sign => rw [unpacked] at finite; cases finite
  | zero sign =>
    rw [unpacked_zero unpacked,scaled_sign,Nat.zero_mul] at valued
    have nothing : n = 0 := by
      cases sign <;> simpa [Sign.apply] using valued
    rw [nothing]
    exact .zero sign
  | finite sign m e positive =>
    obtain ⟨fields,high,least,normal⟩ := unpacked_normal unpacked
    rw [fields,scaled_sign] at valued
    have value : leastExponent = -1074 := rfl
    have magnitude : m * 2 ^ (e - leastExponent).toNat = n.natAbs * 2 ^ leastExponent.natAbs := by
      have absolute := congrArg Int.natAbs valued
      rw [Int.natAbs_mul] at absolute
      cases sign <;> simpa [Sign.apply,Int.natAbs_mul,Int.natAbs_pow] using absolute
    have nonzero : 0 < n.natAbs := by
      by_contra zero
      rw [Nat.eq_zero_of_not_pos zero,Nat.zero_mul] at magnitude
      exact (Nat.mul_pos positive (Nat.two_pow_pos _)).ne' magnitude
    have signed : n = sign.apply n.natAbs := sign_of_product (Nat.mul_pos positive (Nat.two_pow_pos _)) valued
    -- the same value has as many bits in both forms
    have sizes := congrArg Nat.log2 magnitude
    rw [log2_mul_pow positive,log2_mul_pow nonzero] at sizes
    have size := log2_le_of_small nonzero small
    have mSize := log2_le_of_small positive high
    have full : m.log2 = 52 := by
      rcases normal with low | bottom
      · exact (Nat.log2_eq_iff positive.ne').mpr ⟨low, high⟩
      · omega
    have exponent : e = (n.natAbs.log2 : Int) - 52 := by omega
    have significand : m = n.natAbs * 2 ^ (52 - n.natAbs.log2) := by
      have powers : leastExponent.natAbs = (52 - n.natAbs.log2) + (e - leastExponent).toNat := by omega
      rw [powers,Nat.pow_add,← Nat.mul_assoc] at magnitude
      exact Nat.eq_of_mul_eq_mul_right (Nat.two_pow_pos _) magnitude
    have formed := Whole.finite sign n.natAbs (significand ▸ positive) small
    rw [← signed] at formed
    subst exponent
    simpa only [← significand] using formed

theorem holds_zero : Holds 0 0 := holds_of_whole (.zero .positive)

theorem holds_one : Holds 1 1 := holds_of_whole (.finite .positive 1 (by decide) (by decide))

section Exact

variable {x y : Float} {a b : Int} (first : Holds x a) (smallA : a.natAbs < 2 ^ 53)
include first smallA

theorem holds_add (second : Holds y b) (smallB : b.natAbs < 2 ^ 53) (small : (a + b).natAbs < 2 ^ 53) :
    Holds (x + y) (a + b) := by
  have sum := (whole_of_holds first smallA).add (whole_of_holds second smallB) small
  apply holds_of_whole
  change Whole (Float.Model.pack (UnpackedFloat.add .binary64 x.toModel.unpack y.toModel.unpack)).unpack (a + b)
  rwa [sum.unpack_pack]

theorem holds_sub (second : Holds y b) (smallB : b.natAbs < 2 ^ 53) (small : (a - b).natAbs < 2 ^ 53) :
    Holds (x - y) (a - b) := by
  have left := whole_of_holds first smallA
  have right := whole_of_holds second smallB
  have difference := left.add right.neg (by rwa [← Int.sub_eq_add_neg])
  rw [← sub_eq_add_neg left right,← Int.sub_eq_add_neg] at difference
  apply holds_of_whole
  change Whole (Float.Model.pack (UnpackedFloat.sub .binary64 x.toModel.unpack y.toModel.unpack)).unpack (a - b)
  rwa [difference.unpack_pack]

theorem lt_zero_iff : x < 0 ↔ a < 0 := by
  have whole := whole_of_holds first smallA
  have ordered : x < 0 ↔ UnpackedFloat.lt x.toModel.unpack (.zero .positive) = true := decide_eq_true_iff
  rw [ordered]
  generalize x.toModel.unpack = u at whole
  cases whole with
  | zero sign => simp [UnpackedFloat.lt,UnpackedFloat.compare]
  | finite sign n positive small =>
    have nonzero := Nat.pos_of_mul_pos_right positive
    cases sign with
    | negative =>
      simp only [UnpackedFloat.lt,UnpackedFloat.compare,Sign.apply,BEq.rfl,true_iff]
      omega
    | positive =>
      simp only [UnpackedFloat.lt,UnpackedFloat.compare,Sign.apply]
      have above : ¬(n : Int) < 0 := by omega
      simp [above]

theorem eq_one_iff : (x == 1) = true ↔ a = 1 := by
  have whole := whole_of_holds first smallA
  have same : (x == 1) = UnpackedFloat.beq x.toModel.unpack (1 : Float).toModel.unpack := rfl
  have one : (1 : Float).toModel.unpack = .finite .positive (2 ^ 52) (-52) (by decide) := by rfl
  rw [same,one]
  generalize x.toModel.unpack = u at whole
  cases whole with
  | zero sign => simp [UnpackedFloat.beq,UnpackedFloat.compare]
  | finite sign n positive small =>
    have nonzero := Nat.pos_of_mul_pos_right positive
    cases sign with
    | negative =>
      have other : ¬-(n : Int) = 1 := by omega
      simp [UnpackedFloat.beq,UnpackedFloat.compare,Sign.apply,other]
    | positive =>
      simp only [UnpackedFloat.beq,UnpackedFloat.compare,Sign.apply,beq_iff_eq,Option.some.injEq,
        Ordering.then_eq_eq,compare_eq_iff_eq]
      constructor
      · rintro ⟨exponents,significands⟩
        have bits : n.log2 = 0 := by omega
        rw [bits] at significands
        omega
      · intro unit
        obtain rfl : n = 1 := by omega
        exact ⟨by decide, by decide⟩

end Exact

/-! ### Digits -/

theorem toDigits_mul_pow {d : Nat} (positive : 0 < d) (k : Nat) :
    Nat.toDigits 10 (d * 10 ^ k) = Nat.toDigits 10 d ++ List.replicate k '0' := by
  induction k with
  | zero => simp
  | succ k ih =>
    have longer := @Nat.toDigits_append_toDigits 10 (d * 10 ^ k) 0 (by decide)
      (Nat.mul_pos positive (Nat.pow_pos (by decide))) (by decide)
    rw [Nat.pow_succ,← Nat.mul_assoc,Nat.mul_comm _ 10,← Nat.add_zero (10 * _),← longer,ih,List.append_assoc,
      List.replicate_succ']
    rfl

theorem Decimal.text_of_multiple (positive : 0 < n) (multiple : 10 ^ k ∣ n) : Decimal.text ⟨n / 10 ^ k, k⟩ = toString n := by
  have leading : 0 < n / 10 ^ k := Nat.div_pos (Nat.le_of_dvd positive multiple) (Nat.pow_pos (by decide))
  have digits := toDigits_mul_pow leading k
  rw [Nat.div_mul_cancel multiple] at digits
  have written : 0 < (Nat.toDigits 10 (n / 10 ^ k)).length := Nat.length_toDigits_pos
  have padding : 0 + 1 - (Nat.toDigits 10 (n / 10 ^ k)).length = 0 := by omega
  have places : (-(k : Int)).toNat = 0 := by omega
  unfold Decimal.text
  dsimp only
  rw [places,padding,Nat.toString_eq_ofList_toDigits,digits]
  simp

theorem Interval.nearest?_of_wide {interval : Interval} {exponent : Int} {width : Nat}
    (scaled : scale interval.exponent exponent = (1, width))
    (above : interval.high < (interval.value / width + 1) * width)
    (below : width ∣ interval.value ∧ interval.low < interval.value ∨
      ¬width ∣ interval.value ∧ interval.value / width * width < interval.low) :
    interval.nearest? exponent =
      if width ∣ interval.value then some ⟨interval.value / width, exponent⟩ else none := by
  unfold Interval.nearest?
  rw [scaled]
  simp only [Nat.mul_one]
  rcases below with ⟨divides,less⟩ | ⟨misses,less⟩
  · rw [Nat.div_mul_cancel divides]
    cases interval.closed <;> simp [divides,less,Nat.le_of_lt less,Nat.not_le_of_lt above,Nat.lt_asymm above]
  · cases interval.closed <;>
      simp [misses,Nat.not_le_of_lt less,Nat.lt_asymm less,Nat.not_le_of_lt above,Nat.lt_asymm above]

/-- Of the multiples of a power of ten only a whole number itself rounds to it. -/
theorem nearest_whole (positive : 0 < n) (small : n < 2 ^ 53) (negative : Bool) (k : Nat) :
    (Parts.mk negative (n * 2 ^ (52 - n.log2)) (n.log2 - 52)).interval.nearest? k =
      if 10 ^ k ∣ n then some ⟨n / 10 ^ k, k⟩ else none := by
  have size := log2_le_of_small positive small
  -- in quarters of the last place, neighbouring whole numbers are at least four apart
  obtain ⟨q,quarters⟩ : ∃ q, q = 2 ^ (54 - n.log2) := ⟨_, rfl⟩
  have split : 54 - n.log2 = 52 - n.log2 + 2 := by omega
  have value : 4 * (n * 2 ^ (52 - n.log2)) = n * q := by
    rw [quarters,split,Nat.pow_add]
    ring
  have wide : 4 ≤ q := by
    rw [quarters,split,Nat.pow_add]
    exact Nat.le_mul_of_pos_left 4 (Nat.two_pow_pos _)
  have scaled : scale ((n.log2 : Int) - 52 - 2) k = (1, 10 ^ k * q) := by
    have up : ((n.log2 : Int) - 52 - 2).toNat = 0 := by omega
    have down : (-((n.log2 : Int) - 52 - 2)).toNat = 54 - n.log2 := by omega
    have whole : (-(k : Int)).toNat = 0 := by omega
    unfold scale
    rw [up,down,whole,quarters,Nat.mul_comm (10 ^ k)]
    rfl
  have divides : 10 ^ k * q ∣ n * q ↔ 10 ^ k ∣ n := Nat.mul_dvd_mul_iff_right (by omega)
  have quotient : n * q / (10 ^ k * q) = n / 10 ^ k := Nat.mul_div_mul_right _ _ (by omega)
  have parted := Nat.div_add_mod n (10 ^ k)
  have rest : n % 10 ^ k < 10 ^ k := Nat.mod_lt _ (Nat.pow_pos (by decide))
  have apart {a b : Nat} (less : a < b) : a * q + 4 ≤ b * q := by
    have bound := Nat.mul_le_mul_right q (Nat.succ_le_of_lt less)
    rw [Nat.succ_mul] at bound
    omega
  have large : 4 ≤ n * q := Nat.le_trans wide (Nat.le_mul_of_pos_left q positive)
  obtain ⟨gap,least,most,low⟩ : ∃ gap, 1 ≤ gap ∧ gap ≤ 2 ∧
      (Parts.mk negative (n * 2 ^ (52 - n.log2)) (n.log2 - 52)).interval.low = n * q - gap := by
    refine ⟨_, ?_, ?_, congrArg (· - _) value⟩ <;> split <;> decide
  have high : (Parts.mk negative (n * 2 ^ (52 - n.log2)) (n.log2 - 52)).interval.high = n * q + 2 :=
    congrArg (· + 2) value
  have standing : (Parts.mk negative (n * 2 ^ (52 - n.log2)) (n.log2 - 52)).interval.value = n * q := value
  have nearest := @Interval.nearest?_of_wide (Parts.mk negative (n * 2 ^ (52 - n.log2)) (n.log2 - 52)).interval k _ scaled
  rw [standing,high,low,quotient] at nearest
  simp only [divides,← Nat.mul_assoc] at nearest
  apply nearest
  · have next : n < (n / 10 ^ k + 1) * 10 ^ k := by
      rw [Nat.succ_mul,Nat.mul_comm]
      omega
    have bound := apart next
    omega
  · by_cases multiple : 10 ^ k ∣ n
    · exact .inl ⟨multiple, by omega⟩
    · have remainder : n % 10 ^ k ≠ 0 := fun none => multiple (Nat.dvd_of_mod_eq_zero none)
      have less : n / 10 ^ k * 10 ^ k < n := by
        rw [Nat.mul_comm]
        omega
      have bound := apart less
      exact .inr ⟨multiple, by omega⟩

theorem shortest_whole (positive : 0 < n) (small : n < 2 ^ 53) (negative : Bool) : ∃ k : Nat, 10 ^ k ∣ n ∧
      (Parts.mk negative (n * 2 ^ (52 - n.log2)) (n.log2 - 52)).shortest = ⟨n / 10 ^ k, k⟩ := by
  have size := log2_le_of_small positive small
  have bits := log2_mul_pow positive (52 - n.log2)
  rw [Nat.add_sub_cancel' size] at bits
  obtain ⟨top,first,room⟩ : ∃ top : Nat,
      topExponent ((n.log2 : Int) - 52 + (n * 2 ^ (52 - n.log2)).log2) = top ∧ top < 22 := by
    refine ⟨(topExponent ((n.log2 : Int) - 52 + (n * 2 ^ (52 - n.log2)).log2)).toNat, ?_, ?_⟩ <;>
      rw [bits] <;> unfold topExponent <;> omega
  unfold Parts.shortest
  dsimp only
  rw [first]
  -- the search comes to the exponent 0 before it comes to a negative one
  have parted : List.range 22 = List.range (top + 1) ++ (List.range (21 - top)).map (top + 1 + ·) := by
    rw [← List.range_add]
    congr 1
    omega
  have reached : ((List.range (top + 1)).findSome? fun (down : Nat) =>
      (Parts.mk negative (n * 2 ^ (52 - n.log2)) (n.log2 - 52)).interval.nearest? (top - down)).isSome = true := by
    rw [List.findSome?_isSome_iff]
    refine ⟨top, by simp, ?_⟩
    have zero : (top : Int) - top = (0 : Nat) := by omega
    rw [zero,nearest_whole positive small]
    simp
  obtain ⟨found,result⟩ := Option.isSome_iff_exists.mp reached
  obtain ⟨down,member,nearest⟩ := List.exists_of_findSome?_eq_some result
  have above : (top : Int) - down = (top - down : Nat) := by
    have bounded := List.mem_range.mp member
    omega
  rw [above,nearest_whole positive small] at nearest
  split at nearest
  · rename_i multiple
    cases nearest
    refine ⟨top - down, multiple, ?_⟩
    rw [parted,List.findSome?_append,result]
    rfl
  · cases nearest

/-- Calculator code shows a whole number with its sign and all its digits. -/
theorem code_whole {n : Int} (holds : Holds x n) (small : n.natAbs < 2 ^ 53) : code x = toString n := by
  have unsigned : (x + 0).toModel.unpack = (Float.Model.pack (UnpackedFloat.add .binary64 x.toModel.unpack
    (.zero .positive))).unpack := rfl
  have whole := whole_of_holds holds small
  generalize x.toModel.unpack = u at unsigned whole
  cases whole with
  | zero sign =>
    have zero : (x + 0).toModel.unpack = .zero .positive := by
      rw [unsigned]
      cases sign <;> rfl
    have finite : (x + 0).isFinite = true := congrArg UnpackedFloat.isFinite zero
    obtain ⟨notNaN,notInf⟩ := ordinary_of_finite finite
    unfold code text
    rw [notNaN,notInf,unpacked_zero zero]
    rfl
  | finite sign n positive bounded =>
    have nonzero := Nat.pos_of_mul_pos_right positive
    have same : (x + 0).toModel.unpack = .finite sign (n * 2 ^ (52 - n.log2)) (n.log2 - 52) positive :=
      unsigned.trans (Whole.finite sign n positive bounded).unpack_pack
    have finite : (x + 0).isFinite = true := congrArg UnpackedFloat.isFinite same
    obtain ⟨notNaN,notInf⟩ := ordinary_of_finite finite
    obtain ⟨k,multiple,shortest⟩ := shortest_whole nonzero bounded (isNegative sign)
    unfold code text
    rw [notNaN,notInf,(unpacked_normal same).1]
    simp only [Bool.false_eq_true,if_false,positive.ne',shortest,Decimal.text_of_multiple nonzero multiple]
    cases sign with
    | negative =>
      obtain ⟨m,rfl⟩ := Nat.exists_eq_succ_of_ne_zero nonzero.ne'
      rfl
    | positive => rfl

end CalcBasic.Number

import CalcBasic.Proofs.WholeNumbers
import Mathlib.Order.WithBot

/-! The order of numbers. Comparing numbers is comparing their exact values, with the
infinities outside of all others; what is no number compares with nothing. -/
namespace CalcBasic.Number

variable {x y : Float}

open Float.Model Float.Model.UnpackedFloat

/-- The exact value in units of the least power of two, between the infinities. -/
abbrev Standing := WithBot (WithTop Int)

/-- Where a number stands in the order. -/
def standing (x : Float) : Option Standing :=
  match x.toModel.unpack with
  | .notANumber => none
  | .infinity .negative => some ⊥
  | .infinity .positive => some ((⊤ : WithTop Int) : Standing)
  | .zero _ | .finite .. => some (((parts x).scaled : WithTop Int) : Standing)

/-! ### Magnitudes -/

/-- A significand and an exponent as finite numbers have them. -/
structure IsCanonical (m : Nat) (e : Int) : Prop where
  narrow : m < 2 ^ 53
  least : -1074 ≤ e
  full : 2 ^ 52 ≤ m ∨ e = -1074

/-- The magnitude in units of the least power of two. -/
def magnitude (m : Nat) (e : Int) : Nat := m * 2 ^ (e - leastExponent).toNat

section Magnitudes

variable {m n : Nat} {e f : Int} (first : IsCanonical m e) (second : IsCanonical n f)
include first second

theorem magnitude_lt_of_exponent (below : e < f) : magnitude m e < magnitude n f := by
  have value : leastExponent = -1074 := rfl
  have wide := second.full.resolve_right (by have := first.least; omega)
  have apart : (f - leastExponent).toNat = 1 + (f - e - 1).toNat + (e - leastExponent).toNat := by
    have := first.least
    omega
  have narrow := first.narrow
  calc magnitude m e < 2 ^ 53 * 2 ^ (e - leastExponent).toNat :=
        (Nat.mul_lt_mul_right (Nat.two_pow_pos _)).mpr narrow
    _ = 2 ^ 52 * 2 ^ (1 + (e - leastExponent).toNat) := by rw [Nat.pow_add 2 1]; ring
    _ ≤ n * 2 ^ (f - leastExponent).toNat := by
        rw [apart]
        exact Nat.mul_le_mul wide (Nat.pow_le_pow_right (by decide) (by omega))

/-- Magnitudes are in the order of their exponents, and then of their significands. -/
theorem magnitude_lt_iff : magnitude m e < magnitude n f ↔ e < f ∨ e = f ∧ m < n := by
  rcases lt_trichotomy e f with below | rfl | above
  · simp [magnitude_lt_of_exponent first second below,below]
  · simp [magnitude,Nat.mul_lt_mul_right (Nat.two_pow_pos _)]
  · have other := magnitude_lt_of_exponent second first above
    simp only [not_lt.mpr above.le,above.ne',false_and,or_self,iff_false]
    omega

theorem compare_magnitude : (compare e f).then (compare m n) = compare (magnitude m e) (magnitude n f) := by
  have less := magnitude_lt_iff first second
  have more := magnitude_lt_iff second first
  rcases order : compare (magnitude m e) (magnitude n f) with _ | _ | _
  · rw [compare_lt_iff_lt,less] at order
    rw [Ordering.then_eq_lt,compare_lt_iff_lt,compare_lt_iff_lt,compare_eq_iff_eq]
    exact order
  · rw [compare_eq_iff_eq] at order
    rw [Ordering.then_eq_eq,compare_eq_iff_eq,compare_eq_iff_eq]
    constructor <;> by_contra apart <;> omega
  · rw [compare_gt_iff_gt,more] at order
    rw [Ordering.then_eq_gt,compare_gt_iff_gt,compare_gt_iff_gt,compare_eq_iff_eq]
    exact order.imp_right fun ⟨same,above⟩ => ⟨same.symm, above⟩

end Magnitudes

/-! ### Comparisons -/

theorem cmp_standing (a b : Int) : cmp ((a : WithTop Int) : Standing) ((b : WithTop Int) : Standing) = compare a b := by
  rw [WithBot.coe_strictMono.cmp_map_eq,WithTop.coe_strictMono.cmp_map_eq,cmp_eq_compare]

theorem compare_neg (m n : Nat) : compare (-(m : Int)) (-(n : Int)) = (compare m n).swap := by
  rcases lt_trichotomy m n with less | rfl | more
  · rw [compare_gt_iff_gt.mpr (by omega),compare_lt_iff_lt.mpr less]
    rfl
  · simp
  · rw [compare_lt_iff_lt.mpr (by omega),compare_gt_iff_gt.mpr more]
    rfl

theorem compare_cast (m n : Nat) : compare (m : Int) (n : Int) = compare m n := by
  rcases lt_trichotomy m n with less | rfl | more
  · rw [compare_lt_iff_lt.mpr (by omega),compare_lt_iff_lt.mpr less]
  · simp
  · rw [compare_gt_iff_gt.mpr (by omega),compare_gt_iff_gt.mpr more]

theorem scaled_of_finite {sign : Sign} {m : Nat} {e : Int} {positive : 0 < m}
    (unpacked : x.toModel.unpack = .finite sign m e positive) :
    IsCanonical m e ∧ (parts x).scaled = sign.apply (magnitude m e) ∧ 0 < magnitude m e := by
  obtain ⟨fields,narrow,least,full⟩ := unpacked_normal unpacked
  refine ⟨⟨narrow, least, full⟩, ?_, Nat.mul_pos positive (Nat.two_pow_pos _)⟩
  rw [fields,scaled_sign,magnitude]

theorem scaled_of_zero {sign : Sign} (unpacked : x.toModel.unpack = .zero sign) : (parts x).scaled = 0 := by
  rw [unpacked_zero unpacked,scaled_sign,Nat.zero_mul]
  cases sign <;> rfl

theorem compare_unpack (x y : Float) : x.toModel.unpack.compare y.toModel.unpack =
    (standing x).bind fun p => (standing y).map fun q => cmp p q := by
  unfold standing
  cases left : x.toModel.unpack with
  | notANumber => rfl
  | infinity sign =>
    cases right : y.toModel.unpack with
    | notANumber => cases sign <;> rfl
    | infinity other => cases sign <;> cases other <;> rfl
    | zero other => cases sign <;> rfl
    | finite other n f positive => cases sign <;> rfl
  | zero sign =>
    cases right : y.toModel.unpack with
    | notANumber => rfl
    | infinity other => cases other <;> rfl
    | zero other =>
      simp only [UnpackedFloat.compare,Option.bind_some,Option.map_some,cmp_standing,scaled_of_zero left,scaled_of_zero right]
      rfl
    | finite other n f positive =>
      obtain ⟨-,value,above⟩ := scaled_of_finite right
      simp only [Option.bind_some,Option.map_some,cmp_standing,scaled_of_zero left,value]
      cases other with
      | positive => exact congrArg some (compare_lt_iff_lt.mpr (Int.natCast_pos.mpr above)).symm
      | negative => exact congrArg some (compare_gt_iff_gt.mpr (Int.neg_neg_of_pos (Int.natCast_pos.mpr above))).symm
  | finite sign m e positive =>
    obtain ⟨canonical,value,above⟩ := scaled_of_finite left
    cases right : y.toModel.unpack with
    | notANumber => rfl
    | infinity other => cases other <;> rfl
    | zero other =>
      simp only [Option.bind_some,Option.map_some,cmp_standing,scaled_of_zero right,value]
      cases sign with
      | positive => exact congrArg some (compare_gt_iff_gt.mpr (Int.natCast_pos.mpr above)).symm
      | negative => exact congrArg some (compare_lt_iff_lt.mpr (Int.neg_neg_of_pos (Int.natCast_pos.mpr above))).symm
    | finite other n f positive' =>
      obtain ⟨canonical',value',above'⟩ := scaled_of_finite right
      simp only [Option.bind_some,Option.map_some,cmp_standing,value,value']
      cases sign with
      | positive =>
        cases other with
        | positive =>
          simp only [UnpackedFloat.compare,Sign.apply,compare_cast]
          rw [compare_magnitude canonical canonical']
        | negative => exact congrArg some (compare_gt_iff_gt.mpr (show -(magnitude n f : Int) < magnitude m e by omega)).symm
      | negative =>
        cases other with
        | positive => exact congrArg some (compare_lt_iff_lt.mpr (show -(magnitude m e : Int) < magnitude n f by omega)).symm
        | negative =>
          simp only [UnpackedFloat.compare,Sign.apply,compare_neg]
          rw [compare_magnitude canonical canonical']

theorem lt_iff_standing : x < y ↔ ∃ p ∈ standing x, ∃ q ∈ standing y, p < q := by
  have ordered : x < y ↔ UnpackedFloat.lt x.toModel.unpack y.toModel.unpack = true := decide_eq_true_iff
  rw [ordered,UnpackedFloat.lt,compare_unpack,beq_iff_eq,Option.bind_eq_some_iff]
  simp only [Option.map_eq_some_iff,cmp_eq_lt_iff,Option.mem_def]

theorem le_iff_standing : x ≤ y ↔ ∃ p ∈ standing x, ∃ q ∈ standing y, p ≤ q := by
  have ordered : x ≤ y ↔ UnpackedFloat.le x.toModel.unpack y.toModel.unpack = true := decide_eq_true_iff
  rw [ordered,UnpackedFloat.le,compare_unpack]
  cases standing x with
  | none => simp
  | some p =>
    cases standing y with
    | none => simp
    | some q =>
      have below : (cmp p q).isLE = true ↔ p ≤ q := by
        rw [Ordering.isLE_iff_ne_gt,cmp_eq_gt_iff,not_lt]
      simpa using below

theorem beq_iff_standing : (x == y) = true ↔ ∃ p ∈ standing x, ∃ q ∈ standing y, p = q := by
  have same : (x == y) = UnpackedFloat.beq x.toModel.unpack y.toModel.unpack := rfl
  rw [same,UnpackedFloat.beq,compare_unpack,beq_iff_eq,Option.bind_eq_some_iff]
  simp only [Option.map_eq_some_iff,cmp_eq_eq_iff,Option.mem_def]

theorem lt_of_le_of_lt {z : Float} (first : x ≤ y) (second : y < z) : x < z := by
  obtain ⟨p,isP,q,isQ,below⟩ := le_iff_standing.mp first
  obtain ⟨q',isQ',r,isR,above⟩ := lt_iff_standing.mp second
  obtain rfl := Option.some.inj (isQ.symm.trans isQ')
  exact lt_iff_standing.mpr ⟨p, isP, r, isR, below.trans_lt above⟩

theorem lt_of_lt_of_le {z : Float} (first : x < y) (second : y ≤ z) : x < z := by
  obtain ⟨p,isP,q,isQ,below⟩ := lt_iff_standing.mp first
  obtain ⟨q',isQ',r,isR,above⟩ := le_iff_standing.mp second
  obtain rfl := Option.some.inj (isQ.symm.trans isQ')
  exact lt_iff_standing.mpr ⟨p, isP, r, isR, below.trans_le above⟩

/-! ### Whole numbers -/

theorem standing_of_finite (finite : x.isFinite = true) : standing x = some (((parts x).scaled : WithTop Int) : Standing) := by
  change x.toModel.unpack.isFinite = true at finite
  unfold standing
  split
  · rename_i unpacked
    rw [unpacked] at finite
    cases finite
  · rename_i unpacked
    rw [unpacked] at finite
    cases finite
  · rename_i unpacked
    rw [unpacked] at finite
    cases finite
  · rfl
  · rfl

theorem standing_of_holds {n : Int} (holds : Holds x n) :
    standing x = some (((n * 2 ^ leastExponent.natAbs : Int) : WithTop Int) : Standing) := by
  rw [standing_of_finite holds.1,holds.2]

section Whole

variable {x y : Float} {a b : Int} (first : Holds x a) (second : Holds y b)
include first second

theorem lt_iff_of_holds : x < y ↔ a < b := by
  have unit : (0 : Int) < 2 ^ leastExponent.natAbs := Int.pow_pos (by decide)
  rw [lt_iff_standing,standing_of_holds first,standing_of_holds second]
  simp only [Option.mem_some_iff,exists_eq_left',WithBot.coe_lt_coe,WithTop.coe_lt_coe,Int.mul_lt_mul_right unit]

theorem le_iff_of_holds : x ≤ y ↔ a ≤ b := by
  have unit : (0 : Int) < 2 ^ leastExponent.natAbs := Int.pow_pos (by decide)
  rw [le_iff_standing,standing_of_holds first,standing_of_holds second]
  simp only [Option.mem_some_iff,exists_eq_left',WithBot.coe_le_coe,WithTop.coe_le_coe,Int.mul_le_mul_right unit]

theorem beq_iff_of_holds : (x == y) = true ↔ a = b := by
  have unit : (2 : Int) ^ leastExponent.natAbs ≠ 0 := (Int.pow_pos (by decide)).ne'
  rw [beq_iff_standing,standing_of_holds first,standing_of_holds second]
  simp only [Option.mem_some_iff,exists_eq_left',WithBot.coe_inj,WithTop.coe_inj,Int.mul_eq_mul_right_iff unit]

end Whole

theorem apply_mul (sign other : Sign) (a b : Nat) : (sign * other).apply ((a * b : Nat) : Int) = sign.apply a * other.apply b := by
  rw [Int.natCast_mul]
  cases sign <;> cases other
  · exact (Int.neg_mul_neg _ _).symm
  · exact (Int.neg_mul _ _).symm
  · exact (Int.mul_neg _ _).symm
  · rfl

theorem Whole.mul {u v : UnpackedFloat} {a b : Int} (first : Whole u a) (second : Whole v b)
    (small : (a * b).natAbs < 2 ^ 53) : Whole (UnpackedFloat.mul .binary64 u v) (a * b) := by
  cases first with
  | zero sign =>
    rw [Int.zero_mul]
    cases second <;> exact .zero _
  | finite sign a positive bounded =>
    cases second with
    | zero other =>
      rw [Int.mul_zero]
      exact .zero _
    | finite other b positive' bounded' =>
      have sizeA := log2_le_of_small (Nat.pos_of_mul_pos_right positive) bounded
      have sizeB := log2_le_of_small (Nat.pos_of_mul_pos_right positive') bounded'
      have nonzero : 0 < a * b := Nat.mul_pos (Nat.pos_of_mul_pos_right positive) (Nat.pos_of_mul_pos_right positive')
      rw [← apply_mul] at small ⊢
      have fits : a * b < 2 ^ 53 := by
        cases sign <;> cases other <;> simpa [Sign.apply,HMul.hMul] using small
      -- the product of both has room for all bits of the product
      have bits : a.log2 + b.log2 ≤ (a * b).log2 := by
        rw [Nat.le_log2 nonzero.ne',Nat.pow_add]
        exact Nat.mul_le_mul (Nat.log2_self_le (Nat.pos_of_mul_pos_right positive).ne')
          (Nat.log2_self_le (Nat.pos_of_mul_pos_right positive').ne')
      have powers : a * 2 ^ (52 - a.log2) * (b * 2 ^ (52 - b.log2)) = a * b * 2 ^ ((52 - a.log2) + (52 - b.log2)) := by
        rw [Nat.pow_add]
        ring
      have exponents : (a.log2 : Int) - 52 + ((b.log2 : Int) - 52) = -(((52 - a.log2) + (52 - b.log2) : Nat) : Int) := by omega
      have rounded := roundWithAccuracy_whole nonzero fits (sign * other) (show 52 - (a * b).log2 ≤ (52 - a.log2) + (52 - b.log2) by omega)
      rw [← powers,← exponents] at rounded
      rw [UnpackedFloat.mul,rounded]
      exact .finite (sign * other) (a * b) _ fits

theorem holds_mul {a b : Int} (first : Holds x a) (smallA : a.natAbs < 2 ^ 53) (second : Holds y b) (smallB : b.natAbs < 2 ^ 53)
    (small : (a * b).natAbs < 2 ^ 53) : Holds (x * y) (a * b) := by
  have product := (whole_of_holds first smallA).mul (whole_of_holds second smallB) small
  apply holds_of_whole
  change Whole (Float.Model.pack (UnpackedFloat.mul .binary64 x.toModel.unpack y.toModel.unpack)).unpack (a * b)
  rwa [product.unpack_pack]

end CalcBasic.Number

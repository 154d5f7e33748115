import CalcBasic.Proofs.NumberOrder
import CalcBasic.Proofs.ScalarCode
import Mathlib.Data.Rat.Floor

/-! Remainders of constants. Folding takes them without rounding, and so does a calculator
with a function for remainders. The formula that stands for the function elsewhere keeps the
whole part of the remainder only. -/
namespace CalcBasic
namespace Number

variable {p q : Parts}

open Float.Model Float.Model.UnpackedFloat

/-- The exact value of a finite number. -/
def exact (x : Float) : ℚ := (parts x).scaled / 2 ^ leastExponent.natAbs

/-! ### Numbers from their bits -/

theorem isFinite_iff_field (x : Float) : x.isFinite = true ↔ x.toBits.toNat / 2 ^ 52 % 2 ^ 11 ≠ 2047 := by
  have top : @unpackExponent .binary64 x.toModel.toBits.toBitVec = -1#_ ↔ x.toBits.toNat / 2 ^ 52 % 2 ^ 11 = 2047 := by
    rw [← BitVec.toNat_inj,exponent_field]
    rfl
  change (UnpackedFloat.unpack .binary64 x.toModel.toBits.toBitVec).isFinite = true ↔ _
  rw [ne_eq,← top]
  simp only [UnpackedFloat.unpack]
  split
  · rename_i isTop
    simp only [isTop,not_true_eq_false,iff_false]
    split <;> exact Bool.false_ne_true
  · rename_i proper
    simp only [proper,not_false_eq_true,iff_true]
    split
    · split <;> rfl
    · rfl

theorem toBits_ofBits {bits : UInt64} (proper : bits.toNat / 2 ^ 52 % 2 ^ 11 ≠ 2047) : (Float.ofBits bits).toBits = bits := by
  have field : (@unpackExponent .binary64 bits.toBitVec).toNat = bits.toNat / 2 ^ 52 % 2 ^ 11 := by
    simp only [unpackExponent,BitVec.toNat_cast,BitVec.extractLsb_toNat,Nat.shiftRight_eq_div_pow]
    rfl
  have valid : Format.binary64.Valid bits.toBitVec := by
    refine ⟨fun top => ?_⟩
    have value := congrArg BitVec.toNat top
    rw [field] at value
    exact absurd value proper
  exact UInt64.toBitVec_inj.mp (pack_unpack_of_valid valid)

theorem parts_bits (x : Float) :
    parts x = ⟨x.toBits.toNat / 2 ^ 63 == 1,
      if x.toBits.toNat / 2 ^ 52 % 2 ^ 11 = 0 then x.toBits.toNat % 2 ^ 52 else 2 ^ 52 + x.toBits.toNat % 2 ^ 52,
      if x.toBits.toNat / 2 ^ 52 % 2 ^ 11 = 0 then leastExponent
      else leastExponent + (x.toBits.toNat / 2 ^ 52 % 2 ^ 11 - 1 : Nat)⟩ := rfl

theorem parts_ofBits (negative : Bool) {field fraction : Nat} (proper : field < 2047) (narrow : fraction < 2 ^ 52) :
    let x := Float.ofBits ((if negative then 2 ^ 63 else 0) + field * 2 ^ 52 + fraction).toUInt64
    x.isFinite = true ∧ parts x = ⟨negative, if field = 0 then fraction else 2 ^ 52 + fraction,
      if field = 0 then leastExponent else leastExponent + (field - 1 : Nat)⟩ := by
  obtain ⟨sign,isSign⟩ : ∃ sign, sign = if negative then 2 ^ 63 else 0 := ⟨_, rfl⟩
  have signs : sign = 0 ∨ sign = 2 ^ 63 := by rw [isSign]; split <;> simp
  rw [← isSign]
  intro x
  have whole : ((sign + field * 2 ^ 52 + fraction).toUInt64).toNat = sign + field * 2 ^ 52 + fraction :=
    UInt64.toNat_ofNat_of_lt' (by simp only [UInt64.size]; omega)
  have exponent : (sign + field * 2 ^ 52 + fraction) / 2 ^ 52 % 2 ^ 11 = field := by omega
  have bits : x.toBits.toNat = sign + field * 2 ^ 52 + fraction := by
    rw [toBits_ofBits (by rw [whole,exponent]; omega),whole]
  refine ⟨(isFinite_iff_field x).mpr (by rw [bits,exponent]; omega), ?_⟩
  have rest : (sign + field * 2 ^ 52 + fraction) % 2 ^ 52 = fraction := by omega
  have signed : ((sign + field * 2 ^ 52 + fraction) / 2 ^ 63 == 1) = negative := by
    rw [isSign]
    cases negative
    · simp only [Bool.false_eq_true,if_false,beq_eq_false_iff_ne]
      omega
    · simp only [if_true,beq_iff_eq]
      omega
  rw [parts_bits,bits,exponent,rest,signed]

/-- The bounds that the parts of every finite number keep. -/
structure Parts.Bounded (p : Parts) : Prop where
  narrow : p.significand < 2 ^ 53
  least : leastExponent ≤ p.exponent
  greatest : p.exponent ≤ 971

theorem bounded_parts {x : Float} (finite : x.isFinite = true) : (parts x).Bounded := by
  have proper := (isFinite_iff_field x).mp finite
  have value : leastExponent = -1074 := rfl
  rw [parts_bits]
  by_cases zero : x.toBits.toNat / 2 ^ 52 % 2 ^ 11 = 0
  · rw [if_pos zero,if_pos zero]
    constructor <;> dsimp only <;> omega
  · rw [if_neg zero,if_neg zero]
    constructor <;> dsimp only <;> omega

theorem ofParts_exact (bounded : p.Bounded) : (ofParts p).isFinite = true ∧ (parts (ofParts p)).scaled = p.scaled := by
  obtain ⟨negative,significand,exponent⟩ := p
  obtain ⟨narrow,least,greatest⟩ := bounded
  dsimp only at narrow least greatest
  have value : leastExponent = -1074 := rfl
  obtain ⟨shift,isShift⟩ : ∃ shift, shift = (exponent - leastExponent).toNat := ⟨_, rfl⟩
  obtain ⟨room,isRoom⟩ : ∃ room, room = min (52 - significand.log2) shift := ⟨_, rfl⟩
  have fits : significand * 2 ^ room < 2 ^ 53 := by
    rcases Nat.eq_zero_or_pos significand with rfl | positive
    · rw [Nat.zero_mul]
      exact Nat.two_pow_pos 53
    · have size := log2_le_of_small positive narrow
      calc significand * 2 ^ room < 2 ^ (significand.log2 + 1) * 2 ^ room :=
            (Nat.mul_lt_mul_right (Nat.two_pow_pos _)).mpr Nat.lt_log2_self
        _ = 2 ^ (significand.log2 + 1 + room) := (Nat.pow_add ..).symm
        _ ≤ 2 ^ 53 := Nat.pow_le_pow_right (by decide) (by omega)
  have same : ofParts ⟨negative, significand, exponent⟩ = Float.ofBits ((if negative then 2 ^ 63 else 0) +
      (if significand * 2 ^ room < 2 ^ 52 then 0 else shift - room) * 2 ^ 52 + significand * 2 ^ room).toUInt64 := by
    rw [isRoom,isShift]
    rfl
  rw [same]
  by_cases small : significand * 2 ^ room < 2 ^ 52
  · -- all of the shift is in the significand, or there is nothing to shift
    obtain ⟨finite,fields⟩ := parts_ofBits negative (show 0 < 2047 by decide) small
    rw [if_pos small]
    refine ⟨finite, ?_⟩
    have shifted : significand * 2 ^ room = significand * 2 ^ shift := by
      rcases Nat.eq_zero_or_pos significand with rfl | positive
      · simp
      · have all : room = shift := by
          by_contra less
          have full : room = 52 - significand.log2 := by omega
          have wide := (significand_bounds positive narrow).1
          rw [← full] at wide
          omega
        rw [all]
    rw [fields]
    simp only [Parts.scaled,if_true,shifted,← isShift]
    simp
  · obtain ⟨finite,fields⟩ := parts_ofBits negative (show shift - room + 1 < 2047 by omega)
      (show significand * 2 ^ room - 2 ^ 52 < 2 ^ 52 by omega)
    have carried : (if negative then 2 ^ 63 else 0) + (shift - room) * 2 ^ 52 + significand * 2 ^ room =
        (if negative then 2 ^ 63 else 0) + (shift - room + 1) * 2 ^ 52 + (significand * 2 ^ room - 2 ^ 52) := by
      omega
    rw [if_neg small,carried]
    refine ⟨finite, ?_⟩
    rw [fields]
    have back : 2 ^ 52 + (significand * 2 ^ room - 2 ^ 52) = significand * 2 ^ room := by omega
    have place : (leastExponent + ((shift - room + 1 - 1 : Nat) : Int) - leastExponent).toNat = shift - room := by omega
    have joined : 2 ^ room * 2 ^ (shift - room) = 2 ^ shift := by
      rw [← Nat.pow_add,Nat.add_sub_cancel' (by omega)]
    simp only [Parts.scaled,Nat.succ_ne_zero,if_false,back,place,Nat.mul_assoc,joined,← isShift]

/-! ### Remainders -/

section Finite

variable {x : Float} (finite : x.isFinite = true)
include finite

theorem nonneg_iff_scaled : 0 ≤ x ↔ 0 ≤ (parts x).scaled := by
  rw [le_iff_standing,standing_of_holds holds_zero,standing_of_finite finite]
  simp

theorem pos_iff_scaled : 0 < x ↔ 0 < (parts x).scaled := by
  rw [lt_iff_standing,standing_of_holds holds_zero,standing_of_finite finite]
  simp

theorem nonneg_iff_exact : 0 ≤ x ↔ 0 ≤ exact x := by
  have unit : (0 : ℚ) < 2 ^ leastExponent.natAbs := by positivity
  rw [nonneg_iff_scaled finite,exact,le_div_iff₀ unit,zero_mul,Int.cast_nonneg_iff]

theorem pos_iff_exact : 0 < x ↔ 0 < exact x := by
  have unit : (0 : ℚ) < 2 ^ leastExponent.natAbs := by positivity
  rw [pos_iff_scaled finite,exact,lt_div_iff₀ unit,zero_mul,Int.cast_pos]

theorem not_neg_of_nonneg (nonneg : 0 ≤ x) : ¬x < 0 := by
  rw [lt_iff_standing,standing_of_holds holds_zero,standing_of_finite finite]
  simpa using (nonneg_iff_scaled finite).mp nonneg

end Finite

theorem scaled_eq (p : Parts) :
    p.scaled = if p.negative then -(magnitude p.significand p.exponent : Int) else magnitude p.significand p.exponent := by
  unfold Parts.scaled
  split
  · exact Int.neg_one_mul _
  · exact Int.one_mul _

theorem scaled_nonneg_iff : 0 ≤ p.scaled ↔ (p.negative = true → magnitude p.significand p.exponent = 0) := by
  rw [scaled_eq]
  split
  · rename_i negative
    simp [negative]
  · rename_i positive
    simp [positive]

theorem scaled_of_nonneg (nonneg : 0 ≤ p.scaled) : p.scaled = magnitude p.significand p.exponent := by
  rw [scaled_nonneg_iff] at nonneg
  rw [scaled_eq,ite_eq_right_iff]
  intro negative
  rw [nonneg negative]
  rfl

theorem aligned_magnitude (first : leastExponent ≤ p.exponent) (second : leastExponent ≤ q.exponent) :
    magnitude p.significand p.exponent = magnitude (aligned p q).1 (aligned p q).2.2 ∧
    magnitude q.significand q.exponent = magnitude (aligned p q).2.1 (aligned p q).2.2 := by
  have split {e : Int} (least : min p.exponent q.exponent ≤ e) : (e - leastExponent).toNat =
      (e - min p.exponent q.exponent).toNat + (min p.exponent q.exponent - leastExponent).toNat := by omega
  dsimp only [aligned,magnitude]
  rw [split (Int.min_le_left ..),split (Int.min_le_right ..),Nat.pow_add,Nat.pow_add,← Nat.mul_assoc,← Nat.mul_assoc]
  exact ⟨rfl, rfl⟩

theorem aligned_bounded (first : p.Bounded) (second : q.Bounded) (nonzero : 0 < q.significand) (negative : Bool) :
    (Parts.mk negative ((aligned p q).1 % (aligned p q).2.1) (aligned p q).2.2).Bounded := by
  obtain ⟨narrow,least,greatest⟩ := first
  obtain ⟨narrow',least',greatest'⟩ := second
  dsimp only [aligned]
  refine ⟨?_, by dsimp only; omega, by dsimp only; omega⟩
  dsimp only
  -- at the smaller exponent one of the two significands is as it was
  rcases Int.le_total p.exponent q.exponent with less | more
  · rw [Int.min_eq_left less,Int.sub_self]
    exact Nat.lt_of_le_of_lt (Nat.mod_le ..) (by simpa using narrow)
  · rw [Int.min_eq_right more,Int.sub_self]
    exact Nat.lt_trans (Nat.mod_lt _ (by simpa using nonzero)) (by simpa using narrow')

section Remainder

variable {x y : Float} (finiteX : x.isFinite = true) (finiteY : y.isFinite = true) (positive : 0 < y)
include finiteX finiteY positive

theorem remainder_eq : remainder x y = ofParts ⟨(parts x).negative,
    (aligned (parts x) (parts y)).1 % (aligned (parts x) (parts y)).2.1, (aligned (parts x) (parts y)).2.2⟩ := by
  obtain ⟨notNaN,notInf⟩ := ordinary_of_finite finiteY
  have nonzero : (y == 0) = false := by
    have above := (pos_iff_scaled finiteY).mp positive
    rw [Bool.eq_false_iff,ne_eq,beq_iff_standing,standing_of_holds holds_zero,standing_of_finite finiteY]
    simpa using above.ne'
  unfold remainder
  rw [finiteX,notNaN,notInf,nonzero]
  rfl

theorem remainder_bounded : (Parts.mk (parts x).negative
    ((aligned (parts x) (parts y)).1 % (aligned (parts x) (parts y)).2.1) (aligned (parts x) (parts y)).2.2).Bounded := by
  have above := (pos_iff_scaled finiteY).mp positive
  rw [scaled_of_nonneg above.le,Int.natCast_pos] at above
  exact aligned_bounded (bounded_parts finiteX) (bounded_parts finiteY) (Nat.pos_of_mul_pos_right above) _

theorem remainder_finite : (remainder x y).isFinite = true := by
  rw [remainder_eq finiteX finiteY positive]
  exact (ofParts_exact (remainder_bounded finiteX finiteY positive)).1

theorem remainder_scaled (nonneg : 0 ≤ x) : (parts (remainder x y)).scaled = (parts x).scaled % (parts y).scaled := by
  have above := (nonneg_iff_scaled finiteX).mp nonneg
  have same := scaled_of_nonneg above
  have sameY := scaled_of_nonneg ((pos_iff_scaled finiteY).mp positive).le
  obtain ⟨first,second⟩ := aligned_magnitude (bounded_parts finiteX).least (bounded_parts finiteY).least
  rw [remainder_eq finiteX finiteY positive,(ofParts_exact (remainder_bounded finiteX finiteY positive)).2]
  generalize aligned (parts x) (parts y) = pair at first second
  obtain ⟨a,b,exponent⟩ := pair
  dsimp only at first second ⊢
  have rest : magnitude (a % b) exponent = magnitude a exponent % magnitude b exponent := (Nat.mul_mod_mul_right ..).symm
  have whole : (Parts.mk (parts x).negative (a % b) exponent).scaled = (magnitude (a % b) exponent : Int) := by
    apply scaled_of_nonneg
    rw [scaled_nonneg_iff] at above ⊢
    intro negative
    rw [rest,← first,above negative,Nat.zero_mod]
  rw [whole,same,sameY,first,second,rest,Int.natCast_mod]

/-- The remainder is not rounded. -/
theorem exact_remainder (nonneg : 0 ≤ x) : exact (remainder x y) = exact x - exact y * ⌊exact x / exact y⌋ := by
  have unit : (2 : ℚ) ^ leastExponent.natAbs ≠ 0 := by positivity
  have below := (pos_iff_scaled finiteY).mp positive
  obtain ⟨divisor,isDivisor⟩ : ∃ divisor : Nat, (parts y).scaled = divisor := ⟨_, (Int.toNat_of_nonneg below.le).symm⟩
  have quotient : exact x / exact y = (parts x).scaled / divisor := by
    rw [exact,exact,div_div_div_cancel_right₀ unit,isDivisor,Int.cast_natCast]
  rw [quotient,Rat.floor_intCast_div_natCast,exact,exact,exact,remainder_scaled finiteX finiteY positive nonneg,Int.emod_def,isDivisor]
  push_cast
  ring

end Remainder
end Number

/-! ### Calculators -/

/-- The calculator computes without rounding, cuts towards zero, lets a true comparison count
one, and reads the numerals of these numbers as they are. -/
structure Meaning.Exact (meaning : Meaning) (numbers : List Float) : Prop where
  numerals : ∀ x ∈ numbers, meaning.numeral (Number.code x) = Number.exact x
  zero : meaning.numeral "0" = 0
  less : ∀ a b, meaning.free .less a b = if a < b then 1 else 0
  remainder : ∀ a b, meaning.remainder a b = a - b * ⌊a / b⌋
  wholePart : ∀ a, meaning.wholePart a = if 0 ≤ a then ⌊a⌋ else ⌈a⌉
  fractionPart : ∀ a, meaning.fractionPart a = a - meaning.wholePart a

/-- The calculator gets this value from the code of the tree. -/
def Symbols.Computes (symbols : Symbols) (settings : Settings) (meaning : Meaning) (tree : Tree) (value : ℚ) : Prop :=
  ∃ text after formula, symbols.emit settings (Emit.code tree) = (.ok text,after) ∧
    Formula.read? text = some formula ∧ meaning.value formula = value

theorem Symbols.Computes.unique {symbols : Symbols} {settings : Settings} {meaning : Meaning} {tree : Tree} {value other : ℚ}
    (first : symbols.Computes settings meaning tree value) (second : symbols.Computes settings meaning tree other) :
    value = other := by
  obtain ⟨text,after,formula,done,reads,valued⟩ := first
  obtain ⟨text',after',formula',done',reads',valued'⟩ := second
  obtain ⟨same,-⟩ := Prod.mk.inj (done.symm.trans done')
  cases same
  cases reads.symm.trans reads'
  exact valued.symm.trans valued'

section Values

variable {meaning : Meaning} {numbers : List Float} (exact : meaning.Exact numbers)
include exact

/-- Without a function for remainders the whole part is left of them. -/
theorem Meaning.Exact.wholeRemainder {a b : ℚ} (nonneg : 0 ≤ a) (positive : 0 < b) :
    b * meaning.free .less a (meaning.numeral "0") + meaning.wholePart (b * meaning.fractionPart (a / b)) =
      ⌊a - b * ⌊a / b⌋⌋ := by
  have fraction : b * meaning.fractionPart (a / b) = a - b * ⌊a / b⌋ := by
    rw [exact.fractionPart,exact.wholePart,if_pos (div_nonneg nonneg positive.le),mul_sub,mul_div_cancel₀ _ positive.ne']
  have below : b * ⌊a / b⌋ ≤ a := by
    have floor := Int.floor_le (a / b)
    rwa [le_div_iff₀ positive,mul_comm] at floor
  rw [fraction,exact.less,exact.zero,if_neg (not_lt.mpr nonneg),exact.wholePart,if_pos (sub_nonneg.mpr below),mul_zero,zero_add]

end Values

/-! ### Code of remainders -/

section Literals
open CalcBasic.Action

variable (a b : Float)

/-- The code is the same whether or not constants are folded: literals are not folded again. -/
theorem Emit.outcome_remainder (depth : Nat) (emitter : Emitter) (home : String → Slot) :
    outcome (render (depth + 2) true (.arith (.number a) .mod (.number b))) emitter =
      (.ok ((Tree.arith (.number a) .mod (.number b)).settledCode emitter.modern home),emitter) := by
  have literal (outer : Operator) (right : Bool) (x : Float) : outcome (operand (render (depth + 1)) outer right (.number x)) emitter =
      (.ok ((Tree.number x).operandCode emitter.modern outer right (Number.code x)),emitter) := by
    unfold operand
    rw [settle_of_plain rfl]
    rfl
  change outcome (arithmetic (render (depth + 1)) (.number a) .mod (.number b)) emitter = _
  unfold arithmetic
  rw [outcome_bind_ok (show outcome (get : Emit Emitter) emitter = (.ok emitter,emitter) from rfl)]
  cases modern : emitter.modern with
  | true => rfl
  | false =>
    rw [← modern]
    simp only [modern,Bool.and_false,Bool.false_eq_true,if_false]
    rw [outcome_bind_ok (literal _ _ _),outcome_bind_ok (literal _ _ _),modern]
    rfl

theorem Emit.outcome_settle_remainder {r : Float} (evaluated : (Tree.arith (.number a) .mod (.number b)).evaluate = .ok (some (.number r)))
    (depth : Nat) (emitter : Emitter) :
    ∃ settled, outcome (settle (render (depth + 2)) (.arith (.number a) .mod (.number b))) emitter = (.ok settled,emitter) ∧
      (settled = .arith (.number a) .mod (.number b) ∨ emitter.folding = true ∧ settled = .number r) := by
  cases folding : emitter.folding with
  | false => exact ⟨_, outcome_settle folding _ _, .inl rfl⟩
  | true =>
    let code := (Tree.arith (.number a) .mod (.number b)).settledCode emitter.modern emitter.symbols.home
    have plain : outcome (unfolded (render (depth + 2) true (.arith (.number a) .mod (.number b)))) emitter = (.ok code,emitter) := by
      rw [outcome_unfolded,outcome_remainder a b depth _ emitter.symbols.home]
    have done : outcome (settle (render (depth + 2)) (.arith (.number a) .mod (.number b))) emitter =
        (.ok (if (Number.code r).length ≤ code.length then .number r else .arith (.number a) .mod (.number b)),emitter) := by
      unfold settle
      rw [outcome_bind_ok (show outcome (get : Emit Emitter) emitter = (.ok emitter,emitter) from rfl),folding]
      have simple : (true && (Tree.arith (.number a) .mod (.number b)).isOperation &&
        (Tree.arith (.number a) .mod (.number b)).isSimple) = true := rfl
      rw [simple,if_pos rfl,evaluated]
      dsimp only
      rw [outcome_bind_ok plain]
      simp only [Constant.code?,Option.any_some,decide_eq_true_eq]
      rfl
    refine ⟨_, done, ?_⟩
    split
    · exact .inr ⟨rfl, rfl⟩
    · exact .inl rfl

end Literals

section Constants
open Number

variable {a b : Float} (finiteA : a.isFinite = true) (nonneg : 0 ≤ a) (finiteB : b.isFinite = true) (positive : 0 < b)
include finiteA nonneg finiteB positive

theorem Number.remainder_nonneg : 0 ≤ remainder a b := by
  rw [nonneg_iff_scaled (remainder_finite finiteA finiteB positive),remainder_scaled finiteA finiteB positive nonneg]
  exact Int.emod_nonneg _ ((pos_iff_scaled finiteB).mp positive).ne'

theorem Tree.evaluate_remainder :
    (Tree.arith (.number a) .mod (.number b)).evaluate = .ok (some (.number (remainder a b))) := by
  have above : 0 ≤ b := (nonneg_iff_scaled finiteB).mpr ((pos_iff_scaled finiteB).mp positive).le
  have applied : Arith.evaluate .mod (.number a) (.number b) =
      if (a < 0 || b < 0) then .ok none
      else if (remainder a b).isFinite then .ok (some (.number (remainder a b))) else .error (.notFinite .mod) := rfl
  change Arith.evaluate .mod (.number a) (.number b) = _
  rw [applied,remainder_finite finiteA finiteB positive]
  simp only [not_neg_of_nonneg finiteA nonneg,not_neg_of_nonneg finiteB above,decide_false,Bool.or_false,
    Bool.false_eq_true,if_false,if_true]

/-- Whatever the settings, the calculator computes the value of the remainder as it stands or,
where constants are folded, that of one literal. -/
theorem Symbols.computes_remainder (symbols : Symbols) (settings : Settings) :
    ∃ settled : Tree, (settled = .arith (.number a) .mod (.number b) ∨ settings.simplify = true ∧ settled = .number (remainder a b)) ∧
      ∀ meaning, symbols.Computes settings meaning (.arith (.number a) .mod (.number b))
        (settled.value meaning settings.modern symbols.home) := by
  let tree : Tree := .arith (.number a) .mod (.number b)
  let start : Emitter :=
    { symbols, modern := settings.modern, folding := settings.simplify, program := settings.programName }
  obtain ⟨depth,deep⟩ : ∃ depth, start.depth tree = depth + 3 := by
    have enough := Emit.rank_le_depth start tree
    rw [Emit.rank_arith] at enough
    have one := Emit.rank_pos (.number a)
    exact ⟨start.depth tree - 3, by omega⟩
  obtain ⟨settled,done,cases⟩ := Emit.outcome_settle_remainder a b
    (Tree.evaluate_remainder finiteA nonneg finiteB positive) depth start
  refine ⟨settled, cases, fun meaning => ?_⟩
  have rendered : Action.outcome (Emit.code tree) start = (.ok (settled.settledCode settings.modern symbols.home),start) := by
    unfold Emit.code
    rw [Action.outcome_bind_ok (show Action.outcome (get : Emit Emitter) start = (.ok start,start) from rfl),deep]
    change Action.outcome (Emit.settle (Emit.render (depth + 2)) tree >>= Emit.render (depth + 2) true) start = _
    rw [Action.outcome_bind_ok done]
    rcases cases with rfl | ⟨_,rfl⟩
    · exact Emit.outcome_remainder a b depth start _
    · rfl
  have scalar : settled.isScalar symbols = true := by
    have above : 0 ≤ b := (nonneg_iff_scaled finiteB).mpr ((pos_iff_scaled finiteB).mp positive).le
    rcases cases with rfl | ⟨_,rfl⟩
    · simp only [Tree.isScalar,finiteA,finiteB,nonneg,above,decide_true,Bool.and_self]
    · simp only [Tree.isScalar,remainder_finite finiteA finiteB positive,
        remainder_nonneg finiteA nonneg finiteB positive,decide_true,Bool.and_self]
  have denotes : Formula.Denotes (settled.settledCode settings.modern symbols.home) _ _ :=
    Formula.denotes_code (fun _ _ => home_mem) settled scalar
  obtain ⟨formula,reads,valued⟩ := denotes.read
  exact ⟨_, symbols, formula, congrArg (fun reached : Except CompileError String × Emitter => (reached.1,reached.2.symbols)) rendered,
    reads, valued meaning⟩

variable {meaning : Meaning} (faithful : meaning.Exact [a,b,remainder a b])
include faithful

theorem Tree.value_remainder (modern : Bool) (home : String → Slot) :
    (Tree.arith (.number a) .mod (.number b)).value meaning modern home =
      if modern then exact (remainder a b) else ⌊exact (remainder a b)⌋ := by
  have first : meaning.numeral (code a) = exact a := faithful.numerals a (by simp)
  have second : meaning.numeral (code b) = exact b := faithful.numerals b (by simp)
  have cut := faithful.wholeRemainder ((nonneg_iff_exact finiteA).mp nonneg) ((pos_iff_exact finiteB).mp positive)
  rw [exact_remainder finiteA finiteB positive nonneg]
  simp only [Tree.value,first,second,faithful.remainder,cut]

/-- What the calculator may compute: the remainder, or its whole part where it has no function
for remainders. It computes no other value where nothing is folded. -/
theorem Symbols.computes_constant_remainder (symbols : Symbols) (settings : Settings) :
    symbols.Computes settings meaning (.arith (.number a) .mod (.number b))
      (if settings.modern then exact (remainder a b) else ⌊exact (remainder a b)⌋) ∨
    settings.simplify = true ∧
      symbols.Computes settings meaning (.arith (.number a) .mod (.number b)) (exact (remainder a b)) := by
  obtain ⟨settled,cases,computes⟩ := symbols.computes_remainder finiteA nonneg finiteB positive settings
  have computed := computes meaning
  rcases cases with rfl | ⟨folding,rfl⟩
  · rw [Tree.value_remainder finiteA nonneg finiteB positive faithful] at computed
    exact .inl computed
  · have valued : meaning.numeral (code (remainder a b)) = exact (remainder a b) := faithful.numerals _ (by simp)
    rw [Tree.value,valued] at computed
    exact .inr ⟨folding, computed⟩

end Constants

open Number in
theorem constant_remainder_by_settings (symbols : Symbols) {a b : Float} (finiteA : a.isFinite = true) (nonneg : 0 ≤ a)
    (finiteB : b.isFinite = true) (positive : 0 < b) {meaning : Meaning} (faithful : meaning.Exact [a,b,remainder a b]) :
    let tree : Tree := .arith (.number a) .mod (.number b)
    let rest : ℚ := exact a - exact b * ⌊exact a / exact b⌋
    (∃ r, tree.evaluate = .ok (some (.number r)) ∧ exact r = rest) ∧
    (∀ settings : Settings, settings.modern = true → symbols.Computes settings meaning tree rest) ∧
    (∀ settings : Settings, settings.modern = false → settings.simplify = false →
      symbols.Computes settings meaning tree ⌊rest⌋) ∧
    (∀ settings : Settings, settings.modern = false → settings.simplify = true →
      symbols.Computes settings meaning tree rest ∨ symbols.Computes settings meaning tree ⌊rest⌋) ∧
    ((∃ value, ∀ settings, symbols.Computes settings meaning tree value) ↔ (⌊rest⌋ : ℚ) = rest) := by
  intro tree rest
  have same : exact (remainder a b) = rest := exact_remainder finiteA finiteB positive nonneg
  have computes := symbols.computes_constant_remainder finiteA nonneg finiteB positive faithful
  rw [same] at computes
  have modern (settings : Settings) (isModern : settings.modern = true) : symbols.Computes settings meaning tree rest := by
    have computed := computes settings
    rw [isModern,if_pos rfl] at computed
    exact computed.elim id And.right
  have legacy (settings : Settings) (isLegacy : settings.modern = false) (plain : settings.simplify = false) :
      symbols.Computes settings meaning tree ⌊rest⌋ := by
    have computed := computes settings
    rw [isLegacy,plain] at computed
    simpa using computed
  have either (settings : Settings) (isLegacy : settings.modern = false) :
      symbols.Computes settings meaning tree rest ∨ symbols.Computes settings meaning tree ⌊rest⌋ := by
    have computed := computes settings
    rw [isLegacy] at computed
    simp only [Bool.false_eq_true,if_false] at computed
    exact computed.symm.imp_left And.right
  refine ⟨⟨_, Tree.evaluate_remainder finiteA nonneg finiteB positive, same⟩, modern, legacy,
    fun settings isLegacy _ => either settings isLegacy, ?_⟩
  constructor
  · rintro ⟨value,always⟩
    have whole := (always { modern := false, simplify := false }).unique (legacy _ rfl rfl)
    exact whole.symm.trans ((always { modern := true }).unique (modern _ rfl))
  · intro whole
    refine ⟨rest, fun settings => ?_⟩
    cases chosen : settings.modern with
    | true => exact modern settings chosen
    | false =>
      have computed := either settings chosen
      rwa [whole,or_self] at computed

/-- A calculator that does not round, with nothing in its memory. -/
def Meaning.decimal : Meaning where
  numeral written := Nat.ofDigitChars 10 (written.toList.filter Char.isDigit) 0 /
    10 ^ (written.toList.dropWhile (· != '.')).tail.length
  memory _ := 0
  free sign a b := if sign = .less ∧ a < b then 1 else 0
  remainder a b := a - b * ⌊a / b⌋
  wholePart a := if 0 ≤ a then ⌊a⌋ else ⌈a⌉
  fractionPart a := a - (if 0 ≤ a then ⌊a⌋ else ⌈a⌉ : ℤ)

theorem Meaning.decimal_exact {numbers : List Float}
    (numerals : ∀ x ∈ numbers, decimal.numeral (Number.code x) = Number.exact x) : decimal.Exact numbers where
  numerals := numerals
  zero := by decide +kernel
  less a b := by simp [decimal]
  remainder _ _ := rfl
  wholePart a := by simp [decimal]
  fractionPart _ := by simp [decimal]

theorem Number.exact_of_scaled {x : Float} {n : Int} {k j : Nat} (scaled : (parts x).scaled = n * 2 ^ k)
    (places : leastExponent.natAbs = k + j) : exact x = n / 2 ^ j := by
  rw [exact,scaled,places,pow_add,Int.cast_mul,Int.cast_pow,Int.cast_ofNat,mul_comm,mul_div_mul_left _ _ (by positivity)]

section Halves
open Number

theorem Meaning.decimal_halves : decimal.Exact [5.5,2,Number.remainder 5.5 2] := by
  have halves {x : Float} {n : Int} (scaled : (parts x).scaled = n * 2 ^ 1073) : exact x = n / 2 ^ 1 :=
    exact_of_scaled scaled rfl
  apply Meaning.decimal_exact
  intro x member
  simp only [List.mem_cons,List.not_mem_nil,or_false] at member
  rcases member with rfl | rfl | rfl
  · rw [@halves 5.5 11 (by decide +kernel)]
    decide +kernel
  · rw [@halves 2 4 (by decide +kernel)]
    decide +kernel
  · rw [@halves (Number.remainder 5.5 2) 3 (by decide +kernel)]
    decide +kernel

theorem constant_remainder_of_halves :
    (5.5 : Float).isFinite = true ∧ (0 : Float) ≤ 5.5 ∧ (2 : Float).isFinite = true ∧ (0 : Float) < 2 ∧
    Meaning.decimal.Exact [5.5,2,remainder 5.5 2] ∧
    let tree : Tree := .arith (.number 5.5) .mod (.number 2)
    let rest : ℚ := exact 5.5 - exact 2 * ⌊exact 5.5 / exact 2⌋
    (∃ r, tree.evaluate = .ok (some (.number r)) ∧ exact r = rest) ∧
    ((∃ value, ∀ settings, ({} : Symbols).Computes settings .decimal tree value) ↔ (⌊rest⌋ : ℚ) = rest) := by
  have finite : (5.5 : Float).isFinite = true := by decide +kernel
  have nonneg : (0 : Float) ≤ 5.5 := by decide +kernel
  have finiteTwo : (2 : Float).isFinite = true := by decide +kernel
  have positive : (0 : Float) < 2 := by decide +kernel
  obtain ⟨folded,_,_,_,agree⟩ :=
    constant_remainder_by_settings {} finite nonneg finiteTwo positive Meaning.decimal_halves
  exact ⟨finite, nonneg, finiteTwo, positive, Meaning.decimal_halves, folded, agree⟩

/-- Of `5.5 % 2` the formula keeps 1, and folding keeps 1.5. -/
theorem half_cut_from_remainder :
    let tree : Tree := .arith (.number 5.5) .mod (.number 2)
    (∃ r, tree.evaluate = .ok (some (.number r)) ∧ exact r = 3 / 2) ∧
    ({} : Symbols).Computes { modern := false, simplify := false } .decimal tree 1 := by
  have finite : (5.5 : Float).isFinite = true := by decide +kernel
  have nonneg : (0 : Float) ≤ 5.5 := by decide +kernel
  have finiteTwo : (2 : Float).isFinite = true := by decide +kernel
  have positive : (0 : Float) < 2 := by decide +kernel
  have rest : exact (remainder 5.5 2) = 3 / 2 ^ 1 :=
    @exact_of_scaled (remainder 5.5 2) 3 1073 1 (by decide +kernel) rfl
  intro tree
  refine ⟨⟨_, Tree.evaluate_remainder finite nonneg finiteTwo positive, rest.trans (by norm_num)⟩, ?_⟩
  have computes := ({} : Symbols).computes_constant_remainder finite nonneg finiteTwo positive
    Meaning.decimal_halves { modern := false, simplify := false }
  rw [rest] at computes
  simp only [Bool.false_eq_true,if_false,false_and,or_false] at computes
  have cut : ((⌊(3 / 2 ^ 1 : ℚ)⌋ : ℤ) : ℚ) = 1 := by norm_num
  rwa [cut] at computes

end Halves
end CalcBasic

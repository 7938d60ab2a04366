import Hellfire.FixedProducts
import Mathlib.Data.Rat.Floor
import Mathlib.Tactic.FieldSimp

/-!
Results of `fix_div` where `FIX_IBITS` is 16: how far it is from the exact quotient. It multiplies
by the reciprocal of the divisor, which is cut off to 32 bits.
-/

namespace Hellfire

def exactQuotient (x y : Fixed) : ℚ := (x.toInt : ℚ) * 2 ^ 16 / y.toInt

def reciprocalOf (y : Fixed) : Nat := 2 * (2 ^ 31 / y.abs.toNat)

/-- `0x80000000` is its own opposite, so the product has the sign of the other factor twice. -/
theorem fixMul_minimum {x : Fixed} (sign : x.msb = false) :
    fixMul 16 x (BitVec.intMin 32) = BitVec.ofNat 32 (x.toNat * 2 ^ 31 / 2 ^ 16) := by
  have nonneg : x.slt 0 = false := by rw [← sign]; exact BitVec.slt_zero_eq_msb
  have negative : (BitVec.intMin 32).slt 0 = true := by decide
  have minus : -BitVec.intMin 32 = BitVec.intMin 32 := by decide
  have high : (BitVec.intMin 32).sshiftRight 16 = 0xFFFF8000#32 := by decide
  have low : BitVec.intMin 32 &&& fixFmask 16 = 0 := by decide
  have bits : fixFbits 16 = 16 := rfl
  unfold fixMul
  simp only [nonneg, negative, minus, high, low, Bool.false_eq_true, ↓reduceIte,
    Bool.not_false, masked_eq (le_refl 16), shifted_eq sign, bits]
  apply BitVec.eq_of_toNat_eq
  have size := x.isLt
  simp [Nat.shiftLeft_eq]
  omega

theorem abs_of_msb_false {x : Fixed} (sign : x.msb = false) : x.abs = x := by
  simp [BitVec.abs, sign]

/-- `fix_mul` with a word that may have its highest bit set, which stands for `0x80000000`. -/
theorem fixMul_unsigned {x r : Fixed} (sign : x.msb = false) (bound : r.toNat ≤ 2 ^ 31) :
    fixMul 16 x r = BitVec.ofNat 32 (x.toNat * r.toNat / 2 ^ 16) := by
  by_cases lowest : r = BitVec.intMin 32
  · subst lowest
    exact fixMul_minimum sign
  · have size := (ne_intMin_iff r).mp lowest
    have smallX : x ≠ BitVec.intMin 32 := by
      rintro rfl
      exact absurd sign (by decide)
    have signR : r.msb = false := by
      have : r.toNat ≠ 2 ^ 31 := fun same => lowest (BitVec.eq_of_toNat_eq same)
      rw [BitVec.msb_eq_decide]
      simp only [decide_eq_false_iff_not]
      omega
    rw [fixMul_eq (le_refl 16) smallX lowest, sign, signR, abs_of_msb_false sign,
      abs_of_msb_false signR]
    rfl

theorem abs_ne_zero {y : Fixed} (nonzero : y ≠ 0) : y.abs ≠ 0 := by
  intro zero
  apply nonzero
  apply BitVec.eq_of_toInt_eq
  have magnitude : y.toInt.natAbs = 0 := by rw [← toNat_abs_eq, zero]; rfl
  rw [Int.natAbs_eq_zero.mp magnitude]
  rfl

theorem toNat_reciprocal (y : Fixed) :
    ((0x80000000#32 / y.abs) <<< 1).toNat = reciprocalOf y % 2 ^ 32 := by
  rw [BitVec.toNat_shiftLeft, BitVec.toNat_udiv, Nat.shiftLeft_eq, reciprocalOf, Nat.mul_comm]
  rfl

theorem reciprocal_le {y : Fixed} (nonzero : y ≠ 0) : reciprocalOf y % 2 ^ 32 ≤ 2 ^ 31 := by
  have positive : y.abs.toNat ≠ 0 := fun zero => abs_ne_zero nonzero (BitVec.eq_of_toNat_eq zero)
  unfold reciprocalOf
  by_cases one : y.abs.toNat = 1
  · rw [one]
    decide
  · have half : 2 ^ 31 / y.abs.toNat ≤ 2 ^ 31 / 2 := Nat.div_le_div_left (by omega) (by decide)
    exact (Nat.mod_le ..).trans (by omega)

theorem fixDiv_eq {x y : Fixed} (smallX : x ≠ BitVec.intMin 32) (nonzero : y ≠ 0) :
    fixDiv 16 x y = some (if (x.msb ^^ y.msb) then
        -BitVec.ofNat 32 (x.abs.toNat * (reciprocalOf y % 2 ^ 32) / 2 ^ 16)
      else BitVec.ofNat 32 (x.abs.toNat * (reciprocalOf y % 2 ^ 32) / 2 ^ 16)) := by
  have signX : x.slt 0 = x.msb := BitVec.slt_zero_eq_msb
  have signY : y.slt 0 = y.msb := BitVec.slt_zero_eq_msb
  have bound : ((0x80000000#32 / y.abs) <<< 1).toNat ≤ 2 ^ 31 := by
    rw [toNat_reciprocal]
    exact reciprocal_le nonzero
  rw [← toNat_reciprocal, ← fixMul_unsigned (msb_abs smallX) bound]
  unfold fixDiv
  simp only [magnitude_eq, if_neg (abs_ne_zero nonzero), le_refl, ↓reduceIte]
  rw [signX, signY]
  cases x.msb <;> cases y.msb <;> rfl

theorem toInt_signed_le (negative : Bool) (magnitude : Nat)
    (bound : magnitude < 2 ^ 31 ∨ negative ∧ magnitude = 2 ^ 31) :
    (if negative then -BitVec.ofNat 32 magnitude else BitVec.ofNat 32 magnitude).toInt =
      if negative then -(magnitude : Int) else magnitude := by
  rcases bound with bound | ⟨rfl, rfl⟩
  · exact toInt_signed negative magnitude bound
  · decide

theorem exactQuotient_eq (x y : Fixed) :
    exactQuotient x y =
      if (x.msb ^^ y.msb) then -((x.abs.toNat : ℚ) * 2 ^ 16 / y.abs.toNat)
      else (x.abs.toNat : ℚ) * 2 ^ 16 / y.abs.toNat := by
  unfold exactQuotient
  rw [toInt_eq_abs x, toInt_eq_abs y]
  generalize x.abs.toNat = magnitudeX
  generalize y.abs.toNat = magnitudeY
  cases x.msb <;> cases y.msb <;> simp [neg_div, div_neg]

theorem quotient_split (x y : Nat) :
    x * 2 ^ 32 = y * (x * (2 * (2 ^ 31 / y)) / 2 ^ 16) * 2 ^ 16 +
      (2 * (2 ^ 31 % y) * x + y * (x * (2 * (2 ^ 31 / y)) % 2 ^ 16)) := by
  have product := Nat.div_add_mod (x * (2 * (2 ^ 31 / y))) (2 ^ 16)
  have reciprocal := Nat.div_add_mod (2 ^ 31) y
  generalize 2 ^ 31 / y = recip at *
  generalize 2 ^ 31 % y = rest at *
  generalize x * (2 * recip) / 2 ^ 16 = quotient at *
  generalize x * (2 * recip) % 2 ^ 16 = remainder at *
  calc x * 2 ^ 32 = 2 * x * 2 ^ 31 := by ring
    _ = 2 * x * (y * recip + rest) := by rw [reciprocal]
    _ = y * (x * (2 * recip)) + 2 * rest * x := by ring
    _ = y * (2 ^ 16 * quotient + remainder) + 2 * rest * x := by rw [product]
    _ = _ := by ring

/-- The quotient of the magnitudes before it is cut off. -/
def cutQuotient (x y : Nat) : Nat := x * (2 * (2 ^ 31 / y)) / 2 ^ 16

section Magnitudes

variable {x y : Nat}

theorem cutQuotient_le (positive : 0 < y) : (cutQuotient x y : ℚ) ≤ x * 2 ^ 16 / y := by
  have split := quotient_split x y
  have whole : y * cutQuotient x y * 2 ^ 16 ≤ x * 2 ^ 32 := by
    unfold cutQuotient
    omega
  have cast : (y : ℚ) * cutQuotient x y * 2 ^ 16 ≤ x * 2 ^ 32 := by exact_mod_cast whole
  have positive' : (0 : ℚ) < y := by exact_mod_cast positive
  rw [le_div_iff₀ positive']
  linarith

theorem cutQuotient_near_iff (positive : 0 < y) :
    (x : ℚ) * 2 ^ 16 / y - cutQuotient x y < 2 ↔
      2 * (2 ^ 31 % y) * x + y * (x * (2 * (2 ^ 31 / y)) % 2 ^ 16) < 2 ^ 17 * y := by
  have split := quotient_split x y
  have positive' : (0 : ℚ) < y := by exact_mod_cast positive
  have whole : x * 2 ^ 32 < y * cutQuotient x y * 2 ^ 16 + 2 ^ 17 * y ↔
      2 * (2 ^ 31 % y) * x + y * (x * (2 * (2 ^ 31 / y)) % 2 ^ 16) < 2 ^ 17 * y := by
    unfold cutQuotient
    omega
  rw [← whole, sub_lt_iff_lt_add, div_lt_iff₀ positive']
  have cast : ((x * 2 ^ 32 : Nat) : ℚ) < (y * cutQuotient x y * 2 ^ 16 + 2 ^ 17 * y : Nat) ↔
      x * 2 ^ 32 < y * cutQuotient x y * 2 ^ 16 + 2 ^ 17 * y := Nat.cast_lt
  rw [← cast]
  push_cast
  constructor <;> intro below <;> linarith

end Magnitudes

def QuotientFits (x y : Fixed) : Prop :=
  -2 ^ 31 ≤ exactQuotient x y ∧ exactQuotient x y ≤ 2 ^ 31 - 1

/-- The divisor is not the smallest one, unless there is nothing to divide, and what the two cuts
take away is less than two units: the rest of the reciprocal times the dividend, and the part of
the product below the last place. -/
def FixDivAccurate (x y : Fixed) : Prop :=
  (y.toInt.natAbs = 1 → x = 0) ∧
    2 * (2 ^ 31 % y.toInt.natAbs) * x.toInt.natAbs +
        y.toInt.natAbs * (x.toInt.natAbs * (2 * (2 ^ 31 / y.toInt.natAbs)) % 2 ^ 16) <
      2 ^ 17 * y.toInt.natAbs

instance (x y : Fixed) : Decidable (FixDivAccurate x y) := by
  unfold FixDivAccurate
  infer_instance

section Words

variable {x y : Fixed}

theorem toNat_abs_pos (nonzero : y ≠ 0) : 0 < y.abs.toNat := by
  apply Nat.pos_of_ne_zero
  intro zero
  exact abs_ne_zero nonzero (BitVec.eq_of_toNat_eq zero)

theorem cutQuotient_fits (nonzero : y ≠ 0) (fits : QuotientFits x y) :
    cutQuotient x.abs.toNat y.abs.toNat < 2 ^ 31 ∨
      (x.msb ^^ y.msb) ∧ cutQuotient x.abs.toNat y.abs.toNat = 2 ^ 31 := by
  have below := cutQuotient_le (x := x.abs.toNat) (toNat_abs_pos nonzero)
  obtain ⟨lower, upper⟩ := fits
  rw [exactQuotient_eq] at lower upper
  cases negative : (x.msb ^^ y.msb) with
  | false =>
      left
      simp only [negative, Bool.false_eq_true, ↓reduceIte] at upper
      have cast : (cutQuotient x.abs.toNat y.abs.toNat : ℚ) < (2 ^ 31 : Nat) := by
        push_cast
        linarith
      exact_mod_cast cast
  | true =>
      simp only [negative, ↓reduceIte] at lower
      have cast : (cutQuotient x.abs.toNat y.abs.toNat : ℚ) ≤ (2 ^ 31 : Nat) := by
        push_cast
        linarith
      have most : cutQuotient x.abs.toNat y.abs.toNat ≤ 2 ^ 31 := by exact_mod_cast cast
      simp only [true_and]
      omega

theorem fixDiv_value (smallX : x ≠ BitVec.intMin 32) (large : 2 ≤ y.abs.toNat)
    (fits : QuotientFits x y) :
    ∃ res, fixDiv 16 x y = some res ∧
      res.toInt = if (x.msb ^^ y.msb) then -(cutQuotient x.abs.toNat y.abs.toNat : Int)
        else cutQuotient x.abs.toNat y.abs.toNat := by
  have nonzero : y ≠ 0 := by
    rintro rfl
    exact absurd large (by decide)
  have half : 2 ^ 31 / y.abs.toNat ≤ 2 ^ 31 / 2 := Nat.div_le_div_left large (by decide)
  have word : reciprocalOf y % 2 ^ 32 = reciprocalOf y := by
    apply Nat.mod_eq_of_lt
    unfold reciprocalOf
    omega
  refine ⟨_, fixDiv_eq smallX nonzero, ?_⟩
  rw [word]
  exact toInt_signed_le _ _ (cutQuotient_fits nonzero fits)

/-- The reciprocal of the smallest divisor does not fit, and what is left of it is zero. -/
theorem fixDiv_one (smallX : x ≠ BitVec.intMin 32) (one : y.abs.toNat = 1) :
    fixDiv 16 x y = some 0 := by
  have nonzero : y ≠ 0 := by
    rintro rfl
    exact absurd one (by decide)
  have lost : reciprocalOf y % 2 ^ 32 = 0 := by
    unfold reciprocalOf
    rw [one]
    decide
  rw [fixDiv_eq smallX nonzero, lost, Nat.mul_zero]
  cases x.msb <;> cases y.msb <;> rfl

theorem abs_error (negative : Bool) (value quotient : ℚ) (below : value ≤ quotient) :
    |(if negative then -value else value) - (if negative then -quotient else quotient)| =
      quotient - value := by
  cases negative with
  | false =>
      simp only [Bool.false_eq_true, ↓reduceIte]
      rw [abs_sub_comm, abs_of_nonneg (by linarith)]
  | true =>
      simp only [↓reduceIte]
      rw [abs_of_nonneg (by linarith)]
      ring

theorem cast_signed (negative : Bool) (magnitude : Nat) :
    ((if negative then -(magnitude : Int) else magnitude : Int) : ℚ) =
      if negative then -(magnitude : ℚ) else magnitude := by
  cases negative <;> simp

theorem fixDiv_near_iff (smallX : x ≠ BitVec.intMin 32) (nonzero : y ≠ 0)
    (fits : QuotientFits x y) :
    (∃ res, fixDiv 16 x y = some res ∧ |(res.toInt : ℚ) - exactQuotient x y| < 2) ↔
      FixDivAccurate x y := by
  have positive := toNat_abs_pos nonzero
  unfold FixDivAccurate
  rw [← toNat_abs_eq, ← toNat_abs_eq]
  by_cases one : y.abs.toNat = 1
  · have error : |((0 : Fixed).toInt : ℚ) - exactQuotient x y| = (x.abs.toNat * 2 ^ 16 : Nat) := by
      have value := abs_error (x.msb ^^ y.msb) 0 ((x.abs.toNat : ℚ) * 2 ^ 16 / y.abs.toNat)
        (by positivity)
      rw [neg_zero, ite_self, ← exactQuotient_eq, one] at value
      push_cast
      norm_num [-BitVec.toNat_abs] at value ⊢
      exact value
    have least : x = 0 ↔ x.abs.toNat * 2 ^ 16 < 2 := by
      constructor
      · rintro rfl
        decide
      · intro below
        by_contra nonzeroX
        have := toNat_abs_pos nonzeroX
        omega
    simp only [fixDiv_one smallX one, Option.some.injEq, exists_eq_left', one, forall_const]
    rw [error, least]
    norm_cast
    omega
  · obtain ⟨res, returned, value⟩ := fixDiv_value smallX (by omega) fits
    have error : |(res.toInt : ℚ) - exactQuotient x y| =
        (x.abs.toNat : ℚ) * 2 ^ 16 / y.abs.toNat - cutQuotient x.abs.toNat y.abs.toNat := by
      rw [value, cast_signed, exactQuotient_eq]
      exact abs_error _ _ _ (cutQuotient_le positive)
    simp only [returned, Option.some.injEq, exists_eq_left', one, false_implies, true_and]
    rw [error]
    exact cutQuotient_near_iff positive

theorem toInt_scaled64 (x : Fixed) :
    (x.signExtend 64 <<< fixFbits 16).toInt = x.toInt * 2 ^ 16 := by
  have upper := BitVec.toInt_lt (x := x)
  have lower := BitVec.le_toInt (x := x)
  have factor : (BitVec.twoPow 64 16).toInt = 2 ^ 16 := by decide
  rw [BitVec.shiftLeft_eq_mul_twoPow, BitVec.toInt_mul, BitVec.toInt_signExtend_of_le (by decide)]
  change (x.toInt * (BitVec.twoPow 64 16).toInt).bmod (2 ^ 64) = x.toInt * 2 ^ 16
  rw [factor]
  apply Int.bmod_eq_of_le <;> omega

theorem scaled_tdiv (x y : Fixed) :
    (x.toInt * 2 ^ 16).tdiv y.toInt =
      if (x.msb ^^ y.msb) then -((x.abs.toNat * 2 ^ 16 / y.abs.toNat : Nat) : Int)
      else (x.abs.toNat * 2 ^ 16 / y.abs.toNat : Nat) := by
  have scaled : x.toInt * 2 ^ 16 =
      if x.msb then -((x.abs.toNat * 2 ^ 16 : Nat) : Int) else (x.abs.toNat * 2 ^ 16 : Nat) := by
    rw [toInt_eq_abs x]
    split <;> push_cast <;> ring
  rw [scaled, toInt_eq_abs y]
  generalize x.abs.toNat * 2 ^ 16 = dividend
  generalize y.abs.toNat = divisor
  cases x.msb <;> cases y.msb <;> simp [Int.neg_tdiv, Int.tdiv_neg]

theorem floor_near (dividend : Nat) {divisor : Nat} (positive : 0 < divisor) :
    ((dividend / divisor : Nat) : ℚ) ≤ dividend / divisor ∧
      (dividend : ℚ) / divisor - (dividend / divisor : Nat) < 1 := by
  have split := Nat.div_add_mod dividend divisor
  have rest := Nat.mod_lt dividend positive
  have positive' : (0 : ℚ) < divisor := by exact_mod_cast positive
  constructor
  · rw [le_div_iff₀ positive']
    exact_mod_cast Nat.div_mul_le_self dividend divisor
  · rw [sub_lt_iff_lt_add, div_lt_iff₀ positive']
    have below : dividend < (1 + dividend / divisor) * divisor := by
      rw [Nat.add_mul, Nat.one_mul, Nat.mul_comm (dividend / divisor)]
      omega
    exact_mod_cast below

theorem fixDiv64_near (nonzero : y ≠ 0) (fits : QuotientFits x y) :
    ∃ res, fixDiv64 16 x y = some res ∧ |(res.toInt : ℚ) - exactQuotient x y| < 1 := by
  have positive := toNat_abs_pos nonzero
  obtain ⟨below, near⟩ := floor_near (x.abs.toNat * 2 ^ 16) positive
  simp only [Nat.cast_mul, Nat.cast_pow, Nat.cast_ofNat] at below near
  have upperX := BitVec.toInt_lt (x := x)
  have lowerX := BitVec.le_toInt (x := x)
  have inner : (x.signExtend 64 <<< fixFbits 16) ≠ BitVec.intMin 64 := by
    intro same
    have value := congrArg BitVec.toInt same
    have least : (BitVec.intMin 64).toInt = -2 ^ 63 := by decide
    rw [toInt_scaled64, least] at value
    omega
  have wide : ((x.signExtend 64 <<< fixFbits 16).sdiv (y.signExtend 64)).toInt =
      (x.toInt * 2 ^ 16).tdiv y.toInt := by
    rw [BitVec.toInt_sdiv_of_ne_or_ne _ _ (Or.inl inner), toInt_scaled64,
      BitVec.toInt_signExtend_of_le (by decide)]
  have close : |(((x.signExtend 64 <<< fixFbits 16).sdiv (y.signExtend 64)).toInt : ℚ) -
      exactQuotient x y| < 1 := by
    rw [wide, scaled_tdiv, cast_signed, exactQuotient_eq, abs_error _ _ _ below]
    exact near
  obtain ⟨lower, upper⟩ := fits
  obtain ⟨closeLower, closeUpper⟩ := abs_lt.mp close
  have narrowed := toInt_narrowed ((x.signExtend 64 <<< fixFbits 16).sdiv (y.signExtend 64))
    (Int.lt_add_one_iff.mp (by rw [← Int.cast_lt (R := ℚ)]; push_cast; linarith))
    (by rw [← Int.cast_lt (R := ℚ)]; push_cast; linarith)
  refine ⟨_, if_neg nonzero, ?_⟩
  rwa [narrowed]

/-- `fix_div` is within two units of the exact quotient for exactly these operands, the macro for
all. -/
theorem fixDiv_accurate_iff (x y : Fixed) (smallX : x ≠ BitVec.intMin 32)
    (_ : y ≠ BitVec.intMin 32) (nonzero : y ≠ 0) (fits : QuotientFits x y) :
    (∃ res, fixDiv64 16 x y = some res ∧ |(res.toInt : ℚ) - exactQuotient x y| < 1) ∧
      ((∃ res, fixDiv 16 x y = some res ∧ |(res.toInt : ℚ) - exactQuotient x y| < 2) ↔
        FixDivAccurate x y) :=
  ⟨fixDiv64_near nonzero fits, fixDiv_near_iff smallX nonzero fits⟩

theorem fixDiv_accurate_half :
    ∃ res, fixDiv 16 0x8000 0x30000 = some res ∧
      |(res.toInt : ℚ) - exactQuotient 0x8000 0x30000| < 2 := by
  have fits : QuotientFits 0x8000 0x30000 := by
    have value : exactQuotient 0x8000 0x30000 = 2 ^ 31 / 196608 := by
      have dividend : (0x8000 : Fixed).toInt = 32768 := by decide
      have divisor : (0x30000 : Fixed).toInt = 196608 := by decide
      rw [exactQuotient, dividend, divisor]
      norm_num
    rw [QuotientFits, value]
    norm_num
  exact (fixDiv_accurate_iff 0x8000 0x30000 (by decide) (by decide) (by decide) fits).2.mpr
    (by decide)

/-- One hundred divided by itself. -/
theorem fixDiv_self_inaccurate :
    ¬ ∀ x y : Fixed, x ≠ BitVec.intMin 32 → y ≠ BitVec.intMin 32 → y ≠ 0 → QuotientFits x y →
      ∃ res, fixDiv 16 x y = some res ∧ |(res.toInt : ℚ) - exactQuotient x y| < 2 := by
  intro accurate
  have operand : (0x640000 : Fixed).toInt = 6553600 := by decide
  have value : exactQuotient 0x640000 0x640000 = 65536 := by
    rw [exactQuotient, operand]
    norm_num
  have fits : QuotientFits 0x640000 0x640000 := by
    rw [QuotientFits, value]
    norm_num
  obtain ⟨res, returned, near⟩ :=
    accurate 0x640000 0x640000 (by decide) (by decide) (by decide) fits
  have computed : fixDiv 16 0x640000 0x640000 = some 65400 := by decide
  rw [computed, Option.some.injEq] at returned
  have number : (65400 : Fixed).toInt = 65400 := by decide
  rw [value, ← returned, number] at near
  norm_num at near

/-- Where the rest of the reciprocal is below half a unit of the dividend, the quotient is near. -/
theorem fixDivAccurate_of_rest (large : 2 ≤ y.toInt.natAbs)
    (rest : 2 ^ 31 % y.toInt.natAbs * x.toInt.natAbs < 2 ^ 15 * y.toInt.natAbs) :
    FixDivAccurate x y := by
  refine ⟨by omega, ?_⟩
  have part : x.toInt.natAbs * (2 * (2 ^ 31 / y.toInt.natAbs)) % 2 ^ 16 < 2 ^ 16 :=
    Nat.mod_lt _ (by decide)
  have product := Nat.mul_le_mul_left y.toInt.natAbs (Nat.le_of_lt part)
  rw [Nat.mul_assoc]
  omega

end Words

end Hellfire

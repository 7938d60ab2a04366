import Hellfire.FixedCore
import Mathlib.Tactic.Ring
import Mathlib.Tactic.Linarith
import Mathlib.Tactic.Positivity

/-!
Results of `fix_mul`: its four partial products add up to the truncated product.
-/

namespace Hellfire

theorem magnitude_eq (x : Fixed) : (if x.slt 0 then -x else x) = x.abs := by
  have sign : x.slt 0 = x.msb := BitVec.slt_zero_eq_msb
  rw [sign]
  rfl

theorem toNat_abs_eq (x : Fixed) : x.abs.toNat = x.toInt.natAbs := by
  have bound := x.isLt
  rw [BitVec.toNat_abs, BitVec.toInt_eq_msb_cond]
  cases x.msb with
  | false => simp
  | true =>
      simp only [↓reduceIte]
      omega

theorem toInt_eq_abs (x : Fixed) :
    x.toInt = if x.msb then -(x.abs.toNat : Int) else x.abs.toNat := by
  rw [toNat_abs_eq]
  cases sign : x.msb with
  | false =>
      have := BitVec.toInt_nonneg_of_msb_false sign
      simp only [Bool.false_eq_true, ↓reduceIte]
      omega
  | true =>
      have := BitVec.toInt_neg_of_msb_true sign
      simp only [↓reduceIte]
      omega

theorem ne_intMin_iff (x : Fixed) : x ≠ BitVec.intMin 32 ↔ x.abs.toNat < 2 ^ 31 := by
  have bound := x.isLt
  rw [ne_eq, ← BitVec.toNat_inj, BitVec.toNat_intMin, BitVec.toNat_abs, BitVec.msb_eq_decide]
  split <;> simp_all <;> omega

theorem msb_abs {x : Fixed} (small : x ≠ BitVec.intMin 32) : x.abs.msb = false := by
  have bound := (ne_intMin_iff x).mp small
  rw [BitVec.msb_eq_decide]
  simpa using bound

theorem toInt_neg_eq {x : Fixed} (small : x ≠ BitVec.intMin 32) : (-x).toInt = -x.toInt :=
  BitVec.toInt_neg_of_ne_intMin small

theorem msb_ofNat {value : Nat} (small : value < 2 ^ 31) : (BitVec.ofNat 32 value).msb = false := by
  rw [BitVec.msb_eq_decide, BitVec.toNat_ofNat, Nat.mod_eq_of_lt (by omega)]
  simpa using small

theorem toNat_word {value : Nat} (small : value < 2 ^ 31) :
    (BitVec.ofNat 32 value).toNat = value := by
  rw [BitVec.toNat_ofNat, Nat.mod_eq_of_lt (by omega)]

theorem toInt_word {value : Nat} (small : value < 2 ^ 31) :
    (BitVec.ofNat 32 value).toInt = value := by
  rw [BitVec.toInt_eq_toNat_of_msb (msb_ofNat small), toNat_word small]

theorem toInt_signed (negative : Bool) (magnitude : Nat) (bound : magnitude < 2 ^ 31) :
    (if negative then -BitVec.ofNat 32 magnitude else BitVec.ofNat 32 magnitude).toInt =
      if negative then -(magnitude : Int) else magnitude := by
  have value : (BitVec.ofNat 32 magnitude).toInt = magnitude := toInt_word bound
  cases negative with
  | false => simpa using value
  | true =>
      have inRange : BitVec.ofNat 32 magnitude ≠ BitVec.intMin 32 := by
        intro same
        have := congrArg BitVec.toInt same
        rw [value, BitVec.toInt_intMin] at this
        omega
      simpa [value] using toInt_neg_eq inRange

section Width

variable {ibits : Nat}

theorem shifted_eq {x : Fixed} (sign : x.msb = false) (n : Nat) :
    x.sshiftRight n = BitVec.ofNat 32 (x.toNat / 2 ^ n) := by
  apply BitVec.eq_of_toNat_eq
  have bound : x.toNat / 2 ^ n < 2 ^ 32 := Nat.lt_of_le_of_lt (Nat.div_le_self ..) x.isLt
  rw [BitVec.toNat_sshiftRight_of_msb_false sign, BitVec.toNat_ofNat, Nat.shiftRight_eq_div_pow,
    Nat.mod_eq_of_lt bound]

theorem toNat_fixFmask (large : 16 ≤ ibits) : (fixFmask ibits).toNat = 2 ^ fixFbits ibits - 1 := by
  have few : fixFbits ibits ≤ 16 := by
    unfold fixFbits
    omega
  have each : ∀ fbits, fbits ≤ 16 → (((1 : Fixed) <<< fbits) - 1).toNat = 2 ^ fbits - 1 := by decide
  exact each _ few

theorem masked_eq (large : 16 ≤ ibits) (x : Fixed) :
    x &&& fixFmask ibits = BitVec.ofNat 32 (x.toNat % 2 ^ fixFbits ibits) := by
  apply BitVec.eq_of_toNat_eq
  have bound : x.toNat % 2 ^ fixFbits ibits < 2 ^ 32 :=
    Nat.lt_of_le_of_lt (Nat.mod_le ..) x.isLt
  rw [BitVec.toNat_and, toNat_fixFmask large, Nat.and_two_pow_sub_one_eq_mod, BitVec.toNat_ofNat,
    Nat.mod_eq_of_lt bound]

theorem ofNat_shiftLeft (value n : Nat) :
    BitVec.ofNat 32 value <<< n = BitVec.ofNat 32 (value * 2 ^ n) := by
  apply BitVec.eq_of_toNat_eq
  simp [Nat.shiftLeft_eq]

theorem ofNat_shiftRight {value : Nat} (bound : value < 2 ^ 32) (n : Nat) :
    BitVec.ofNat 32 value >>> n = BitVec.ofNat 32 (value / 2 ^ n) := by
  apply BitVec.eq_of_toNat_eq
  have quotient : value / 2 ^ n < 2 ^ 32 := Nat.lt_of_le_of_lt (Nat.div_le_self ..) bound
  rw [BitVec.toNat_ushiftRight, BitVec.toNat_ofNat, BitVec.toNat_ofNat, Nat.mod_eq_of_lt bound,
    Nat.mod_eq_of_lt quotient, Nat.shiftRight_eq_div_pow]

end Width

theorem product_split (base x y : Nat) (positive : 0 < base) :
    x * y / base = (y % base) * (x % base) / base + (y % base) * (x / base) +
      (y / base) * (x % base) + (y / base) * (x / base) * base := by
  have whole : x * y = (y % base) * (x % base) + base * ((y % base) * (x / base) +
      (y / base) * (x % base) + (y / base) * (x / base) * base) := by
    conv_lhs => rw [← Nat.div_add_mod x base, ← Nat.div_add_mod y base]
    ring
  rw [whole, Nat.add_mul_div_left _ _ positive]
  ring

section Width

variable {ibits : Nat}

theorem partialProducts (large : 16 ≤ ibits) {x y : Fixed} (signX : x.msb = false)
    (signY : y.msb = false) :
    (((y &&& fixFmask ibits) * (x &&& fixFmask ibits)) >>> fixFbits ibits) +
        ((y &&& fixFmask ibits) * x.sshiftRight (fixFbits ibits)) +
        (y.sshiftRight (fixFbits ibits) * (x &&& fixFmask ibits)) +
        ((y.sshiftRight (fixFbits ibits) * x.sshiftRight (fixFbits ibits)) <<< fixFbits ibits) =
      BitVec.ofNat 32 (x.toNat * y.toNat / 2 ^ fixFbits ibits) := by
  have few : 2 ^ fixFbits ibits ≤ 2 ^ 16 :=
    Nat.pow_le_pow_right (by decide) (by unfold fixFbits; omega)
  have positive : 0 < 2 ^ fixFbits ibits := by positivity
  have lowest : (y.toNat % 2 ^ fixFbits ibits) * (x.toNat % 2 ^ fixFbits ibits) < 2 ^ 32 :=
    calc (y.toNat % 2 ^ fixFbits ibits) * (x.toNat % 2 ^ fixFbits ibits)
        < 2 ^ fixFbits ibits * 2 ^ fixFbits ibits :=
          Nat.mul_lt_mul'' (Nat.mod_lt _ positive) (Nat.mod_lt _ positive)
      _ ≤ 2 ^ 16 * 2 ^ 16 := Nat.mul_le_mul few few
      _ = 2 ^ 32 := by decide
  rw [shifted_eq signX, shifted_eq signY, masked_eq large, masked_eq large]
  rw [product_split _ _ _ positive]
  simp only [← BitVec.ofNat_mul, ofNat_shiftRight lowest, ofNat_shiftLeft, ← BitVec.ofNat_add]

theorem fixMul_eq (large : 16 ≤ ibits) {x y : Fixed} (smallX : x ≠ BitVec.intMin 32)
    (smallY : y ≠ BitVec.intMin 32) :
    fixMul ibits x y = if (x.msb ^^ y.msb) then
        -BitVec.ofNat 32 (x.abs.toNat * y.abs.toNat / 2 ^ fixFbits ibits)
      else BitVec.ofNat 32 (x.abs.toNat * y.abs.toNat / 2 ^ fixFbits ibits) := by
  have signX : x.slt 0 = x.msb := BitVec.slt_zero_eq_msb
  have signY : y.slt 0 = y.msb := BitVec.slt_zero_eq_msb
  rw [← partialProducts large (msb_abs smallX) (msb_abs smallY)]
  unfold fixMul
  simp only [magnitude_eq]
  rw [signX, signY]
  cases x.msb <;> cases y.msb <;> rfl

theorem product_eq_abs (x y : Fixed) :
    x.toInt * y.toInt =
      (if x.msb ^^ y.msb then -((x.abs.toNat * y.abs.toNat : Nat) : Int)
      else (x.abs.toNat * y.abs.toNat : Nat)) := by
  rw [toInt_eq_abs x, toInt_eq_abs y, Nat.cast_mul]
  generalize (x.abs.toNat : Int) = magnitudeX
  generalize (y.abs.toNat : Int) = magnitudeY
  cases x.msb <;> cases y.msb <;> simp

theorem tdiv_signed (negative : Bool) (value base : Nat) :
    (if negative then -(value : Int) else value).tdiv base =
      if negative then -((value / base : Nat) : Int) else (value / base : Nat) := by
  cases negative <;> simp [Int.neg_tdiv]

theorem toInt_fixMul (large : 16 ≤ ibits) {x y : Fixed} (smallX : x ≠ BitVec.intMin 32)
    (smallY : y ≠ BitVec.intMin 32)
    (fits : |x.toInt * y.toInt| < 2 ^ (31 + fixFbits ibits)) :
    (fixMul ibits x y).toInt = (x.toInt * y.toInt).tdiv (2 ^ fixFbits ibits) := by
  have magnitude : x.abs.toNat * y.abs.toNat < 2 ^ 31 * 2 ^ fixFbits ibits := by
    rw [abs_mul, Int.abs_eq_natAbs, Int.abs_eq_natAbs, ← toNat_abs_eq, ← toNat_abs_eq,
      pow_add] at fits
    exact_mod_cast fits
  have quotient : x.abs.toNat * y.abs.toNat / 2 ^ fixFbits ibits < 2 ^ 31 :=
    Nat.div_lt_of_lt_mul (by rwa [Nat.mul_comm (2 ^ 31)] at magnitude)
  have base : (2 : Int) ^ fixFbits ibits = (2 ^ fixFbits ibits : Nat) := by push_cast; rfl
  rw [fixMul_eq large smallX smallY, toInt_signed _ _ quotient, product_eq_abs, base, tdiv_signed]

theorem toInt_product64 (x y : Fixed) :
    (x.signExtend 64 * y.signExtend 64).toInt = x.toInt * y.toInt := by
  have upper := BitVec.toInt_mul_toInt_le (x := x) (y := y)
  have lower := BitVec.le_toInt_mul_toInt (x := x) (y := y)
  rw [BitVec.toInt_mul, BitVec.toInt_signExtend_of_le (by decide),
    BitVec.toInt_signExtend_of_le (by decide)]
  apply Int.bmod_eq_of_le
  · norm_num at lower ⊢
    omega
  · norm_num at upper ⊢
    omega

theorem toInt_narrowed (wide : BitVec 64) (lower : -2 ^ 31 ≤ wide.toInt)
    (upper : wide.toInt < 2 ^ 31) : (wide.setWidth 32).toInt = wide.toInt := by
  have kept : (wide.toInt).bmod (2 ^ 32) = (wide.toNat : Int).bmod (2 ^ 32) := by
    rw [BitVec.toInt_eq_toNat_bmod]
    exact Int.bmod_bmod_of_dvd (by decide)
  rw [BitVec.toInt_setWidth, ← kept]
  exact Int.bmod_eq_of_le (by omega) (by omega)

theorem toInt_fixMul64 {x y : Fixed} (fits : |x.toInt * y.toInt| < 2 ^ (31 + fixFbits ibits)) :
    (fixMul64 ibits x y).toInt = x.toInt * y.toInt / 2 ^ fixFbits ibits := by
  have positive : (0 : Int) < 2 ^ fixFbits ibits := by positivity
  have shifted : ((x.signExtend 64 * y.signExtend 64).sshiftRight (fixFbits ibits)).toInt =
      x.toInt * y.toInt / 2 ^ fixFbits ibits := by
    rw [BitVec.toInt_sshiftRight, toInt_product64, Int.shiftRight_eq_div_pow]
    norm_num
  rw [pow_add, abs_lt] at fits
  unfold fixMul64
  rw [toInt_narrowed, shifted]
  · rw [shifted]
    apply Int.le_ediv_of_mul_le positive
    linarith [fits.1]
  · rw [shifted]
    exact Int.ediv_lt_of_lt_mul positive fits.2

theorem abs_tdiv_sub_ediv (value base : Int) (positive : 0 < base) :
    |value.tdiv base - value / base| ≤ 1 := by
  rw [Int.tdiv_eq_ediv, Int.sign_eq_one_of_pos positive]
  split <;> simp

/-- In the 32-bit build the product is cut off toward zero. -/
theorem fixMul_truncates (ibits : Nat) (large : 16 ≤ ibits) (_ : ibits ≤ 31) (x y : Fixed)
    (smallX : x ≠ BitVec.intMin 32) (smallY : y ≠ BitVec.intMin 32)
    (fits : |x.toInt * y.toInt| < 2 ^ (31 + fixFbits ibits)) :
    (fixMul ibits x y).toInt = (x.toInt * y.toInt).tdiv (2 ^ fixFbits ibits) ∧
      fixMul ibits x y = fixMul ibits y x ∧
      (fixMul ibits (-x) y).toInt = -(fixMul ibits x y).toInt ∧
      (fixMul ibits x (-y)).toInt = -(fixMul ibits x y).toInt ∧
      |(fixMul ibits x y).toInt - (fixMul64 ibits x y).toInt| ≤ 1 := by
  have swapped : |y.toInt * x.toInt| < 2 ^ (31 + fixFbits ibits) := by rwa [mul_comm]
  have negX : -x ≠ BitVec.intMin 32 := by
    rw [ne_eq, BitVec.neg_eq_iff_eq_neg, BitVec.neg_intMin]
    exact smallX
  have negY : -y ≠ BitVec.intMin 32 := by
    rw [ne_eq, BitVec.neg_eq_iff_eq_neg, BitVec.neg_intMin]
    exact smallY
  have value := toInt_fixMul large smallX smallY fits
  refine ⟨value, ?_, ?_, ?_, ?_⟩
  · apply BitVec.eq_of_toInt_eq
    rw [value, toInt_fixMul large smallY smallX swapped, mul_comm]
  · have opposite : (-x).toInt * y.toInt = -(x.toInt * y.toInt) := by
      rw [toInt_neg_eq smallX, neg_mul]
    rw [value, toInt_fixMul large negX smallY (by rwa [opposite, abs_neg]), opposite, Int.neg_tdiv]
  · have opposite : x.toInt * (-y).toInt = -(x.toInt * y.toInt) := by
      rw [toInt_neg_eq smallY, mul_neg]
    rw [value, toInt_fixMul large smallX negY (by rwa [opposite, abs_neg]), opposite, Int.neg_tdiv]
  · rw [value, toInt_fixMul64 fits]
    exact abs_tdiv_sub_ediv _ _ (by positivity)

theorem fixMul_truncates_halves :
    (fixMul 16 (-0x18000) 0x8001).toInt = -0xc001 ∧ (fixMul64 16 (-0x18000) 0x8001).toInt = -0xc002 :=
  have result := fixMul_truncates 16 (by decide) (by decide) (-0x18000) 0x8001 (by decide) (by decide)
    (by decide)
  ⟨result.1.trans (by decide), by decide⟩

end Width

end Hellfire

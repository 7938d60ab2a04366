import Mathlib.Tactic.Linarith
import Mathlib.Tactic.FieldSimp
import Hellfire.SoftArithmeticCore
import Hellfire.SoftFloatCasts
import Hellfire.SoftFloatOrder

/-!
The fields of single precision numbers as the macros of `libc.h` read and write them, and
what a result is compared with: an exact number in the range of the normal ones.
-/

namespace Hellfire

open BinaryFloats Format Loops

namespace SoftArithmetic

section Fields

variable (a : Word)

theorem bit_ne_zero_iff (place : Nat) (inside : place < 32) :
    a &&& (1 <<< place : Word) ≠ 0 ↔ a.toNat / 2 ^ place % 2 = 1 := by
  have mask : (1 <<< place : Word) = BitVec.twoPow 32 place := rfl
  have bit : a.getLsbD place = decide (a.toNat / 2 ^ place % 2 = 1) := by
    rw [BitVec.getLsbD, Nat.testBit_eq_decide_div_mod_eq]
  have some : BitVec.twoPow 32 place ≠ 0 := by
    intro zero
    have value := congrArg BitVec.toNat zero
    rw [BitVec.toNat_twoPow_of_lt inside] at value
    exact absurd value (Nat.pos_iff_ne_zero.mp (Nat.pow_pos (by decide)))
  rw [mask, BitVec.and_twoPow, bit]
  simp only [decide_eq_true_eq]
  split
  · rename_i set
    simp only [ne_eq, some, not_false_eq_true, set]
  · rename_i clear
    simp [clear]

theorem toNat_expOf : (expOf a).toNat = single.exponent a.toNat := by
  have small := a.isLt
  have low : (expOf a).toNat = (a.sshiftRight 23).toNat % 2 ^ 8 := by
    rw [expOf, BitVec.toNat_and]
    exact Nat.and_two_pow_sub_one_eq_mod _ 8
  have shifted : (a.sshiftRight 23).toNat % 2 ^ 8 = a.toNat / 2 ^ 23 % 2 ^ 8 := by
    cases top : a.msb with
    | false =>
        rw [BitVec.sshiftRight_eq_of_msb_false top, BitVec.toNat_ushiftRight, Nat.shiftRight_eq_div_pow]
    | true =>
        rw [BitVec.sshiftRight_eq_of_msb_true top, BitVec.toNat_not, BitVec.toNat_ushiftRight,
          BitVec.toNat_not, Nat.shiftRight_eq_div_pow]
        omega
  rw [low, shifted]
  change _ = a.toNat % 2 ^ 31 / 2 ^ 23
  omega

theorem toInt_expOf : (expOf a).toInt = single.exponent a.toNat := by
  have small := exponent_lt a
  rw [BitVec.toInt_eq_toNat_of_lt, toNat_expOf]
  rw [toNat_expOf]
  omega

theorem toNat_mantOf : (mantOf a).toNat = 2 ^ 23 + single.fraction a.toNat := by
  have fraction : (a &&& 0x007fffff).toNat = single.fraction a.toNat := by
    have low : (a &&& 0x007fffff).toNat = a.toNat % 2 ^ 23 := by
      rw [BitVec.toNat_and]
      exact Nat.and_two_pow_sub_one_eq_mod _ 23
    rw [low]
    change _ = a.toNat % 2 ^ 31 % 2 ^ 23
    omega
  have place : (hidden : Word).toNat = 2 ^ 23 := rfl
  rw [mantOf, BitVec.toNat_or, fraction, place, Nat.or_comm]
  exact (Nat.two_pow_add_eq_or_of_lt (single.fraction_lt _) 1).symm

theorem signOf_ne_zero_iff : signOf a ≠ 0 ↔ single.Negative a.toNat := and_signbit_ne_zero a

end Fields

theorem toNat_packed_fields {s e m : Word} {sign : Bool} (s_eq : s.toNat = sign.toNat * 2 ^ 31)
    (finite : e.toNat < 2 ^ 8) (low : 2 ^ 23 ≤ m.toNat) (high : m.toNat < 2 ^ 24) :
    (pack s e (m &&& ~~~hidden)).toNat =
      sign.toNat * 2 ^ 31 + e.toNat * 2 ^ 23 + (m.toNat - 2 ^ 23) := by
  have bit := sign.toNat_le
  have cleared : (m &&& ~~~hidden).toNat = m.toNat - 2 ^ 23 := by
    have place : (hidden : Word) = BitVec.twoPow 32 23 := rfl
    have same : m &&& ~~~hidden = m &&& 0x007fffff := by
      apply BitVec.eq_of_getLsbD_eq
      intro index inside
      have mask : (0x007fffff : Word) = (BitVec.allOnes 23).setWidth 32 := rfl
      have top : 24 ≤ index → m.getLsbD index = false := by
        intro above
        rw [BitVec.getLsbD, Nat.testBit_lt_two_pow]
        exact high.trans_le (Nat.pow_le_pow_right (by decide) above)
      rw [place, mask, BitVec.getLsbD_and, BitVec.getLsbD_and, BitVec.getLsbD_not, BitVec.getLsbD_twoPow,
        BitVec.getLsbD_setWidth, BitVec.getLsbD_allOnes]
      by_cases above : 24 ≤ index
      · rw [top above, Bool.false_and, Bool.false_and]
      · by_cases here : 23 = index
        · simp [← here]
        · have below : index < 23 := by omega
          simp [inside, here, below]
    rw [same, BitVec.toNat_and]
    have rest : m.toNat &&& 2 ^ 23 - 1 = m.toNat % 2 ^ 23 := Nat.and_two_pow_sub_one_eq_mod _ 23
    change m.toNat &&& 2 ^ 23 - 1 = _
    omega
  have middle : (e <<< 23).toNat = 2 ^ 23 * e.toNat := by
    rw [BitVec.toNat_shiftLeft, Nat.shiftLeft_eq]
    omega
  have upper : 2 ^ 31 * sign.toNat ||| 2 ^ 23 * e.toNat = 2 ^ 23 * (2 ^ 8 * sign.toNat + e.toNat) := by
    rw [← Nat.two_pow_add_eq_or_of_lt (by omega)]
    omega
  rw [pack, BitVec.toNat_or, BitVec.toNat_or, s_eq, Nat.mul_comm, middle, cleared, upper,
    ← Nat.two_pow_add_eq_or_of_lt (by omega)]
  omega

theorem packed_value {s e m : Word} {sign : Bool} (s_eq : s.toNat = sign.toNat * 2 ^ 31)
    (normal : 0 < e.toNat) (finite : e.toNat < 2 ^ 8 - 1) (low : 2 ^ 23 ≤ m.toNat)
    (high : m.toNat < 2 ^ 24) :
    single.exponent (pack s e (m &&& ~~~hidden)).toNat = e.toNat ∧
      single.spacing (pack s e (m &&& ~~~hidden)).toNat = 2 ^ ((e.toNat : ℤ) - 150) ∧
      single.value (pack s e (m &&& ~~~hidden)).toNat =
        (if sign then -1 else 1) * (m.toNat : ℚ) * 2 ^ ((e.toNat : ℤ) - 150) := by
  have bit := sign.toNat_le
  have fields := toNat_packed_fields s_eq (by omega : e.toNat < 2 ^ 8) low high
  have bias : (single.bias : ℤ) = 127 := rfl
  have places : (single.fractionBits : ℤ) = 23 := rfl
  have exponent : single.exponent (pack s e (m &&& ~~~hidden)).toNat = e.toNat := by
    change (pack s e (m &&& ~~~hidden)).toNat % 2 ^ 31 / 2 ^ 23 = e.toNat
    rw [fields]
    omega
  have whole : 2 ^ 23 + (m.toNat - 2 ^ 23) = m.toNat := by omega
  refine ⟨exponent, ?_, ?_⟩
  · have power : (max (single.exponent (pack s e (m &&& ~~~hidden)).toNat) 1 : ℤ) - single.bias -
        single.fractionBits = (e.toNat : ℤ) - 150 := by
      rw [exponent, bias, places]
      omega
    rw [spacing, power]
  · rw [value_normal single sign normal (show e.toNat < 2 ^ 8 by omega)
      (show m.toNat - 2 ^ 23 < 2 ^ 23 by omega) fields]
    have width : single.fractionBits = 23 := rfl
    have power : (e.toNat : ℤ) - single.bias - single.fractionBits = (e.toNat : ℤ) - 150 := by
      rw [bias, places]
      omega
    rw [power, width, whole]

/-- The zero without a sign, or a normal number. -/
def Ordinary (a : Word) : Prop := a = 0 ∨ 0 < single.exponent a.toNat ∧ single.Finite a.toNat

instance (a : Word) : Decidable (Ordinary a) := inferInstanceAs (Decidable (_ ∨ _))

/-- A number that a normal number stands for, but for rounding. -/
def NormalRange (x : ℚ) : Prop := 2 ^ (-126 : ℤ) ≤ |x| ∧ |x| ≤ (2 ^ 24 - 1) * 2 ^ (104 : ℤ)

def Near (places : ℚ) (result : Word) (exact : ℚ) : Prop :=
  Ordinary result ∧ |single.value result.toNat - exact| ≤ places * single.spacing result.toNat

section Operands

variable {a : Word}

theorem Ordinary.finite (ordinary : Ordinary a) : single.Finite a.toNat := by
  rcases ordinary with none | some
  · rw [none]
    decide
  · exact some.2

theorem power_normal (normal : 0 < single.exponent a.toNat) :
    (max (single.exponent a.toNat) 1 : ℤ) - single.bias - single.fractionBits =
      (single.exponent a.toNat : ℤ) - 150 := by
  have bias : (single.bias : ℤ) = 127 := rfl
  have places : (single.fractionBits : ℤ) = 23 := rfl
  rw [bias, places]
  omega

theorem value_significand (normal : 0 < single.exponent a.toNat) : single.value a.toNat =
    (if single.Negative a.toNat then -1 else 1) * (2 ^ 23 + single.fraction a.toNat : Nat) *
      2 ^ ((single.exponent a.toNat : ℤ) - 150) := by
  have width : single.fractionBits = 23 := rfl
  rw [value, power_normal normal, significand, if_neg normal.ne', width]

theorem value_ne_zero (normal : 0 < single.exponent a.toNat) : single.value a.toNat ≠ 0 := by
  intro zero
  have none := (single.value_eq_zero_iff a.toNat).mp zero
  rw [exponent, none, Nat.zero_div] at normal
  exact lt_irrefl _ normal

theorem spacing_normal (normal : 0 < single.exponent a.toNat) :
    single.spacing a.toNat = 2 ^ ((single.exponent a.toNat : ℤ) - 150) := by
  rw [spacing, power_normal normal]

theorem spacing_nonneg (a : Word) : 0 ≤ single.spacing a.toNat := zpow_nonneg zero_le_two _

theorem near_self (ordinary : Ordinary a) {places exact : ℚ} (positive : 0 ≤ places)
    (is : single.value a.toNat = exact) : Near places a exact := by
  refine ⟨ordinary, ?_⟩
  rw [is, sub_self, abs_zero]
  exact mul_nonneg positive (spacing_nonneg a)

end Operands

theorem value_zero_word : single.value (0 : Word).toNat = 0 := value_zero

theorem abs_sign (negative : Bool) : |(if negative then -1 else 1 : ℚ)| = 1 := by
  cases negative with
  | false => exact abs_one
  | true => exact (abs_neg 1).trans abs_one

theorem packed_near {s e m : Word} {sign : Bool} {places exact : ℚ}
    (s_eq : s.toNat = sign.toNat * 2 ^ 31) (normal : 0 < e.toNat) (finite : e.toNat < 2 ^ 8 - 1)
    (low : 2 ^ 23 ≤ m.toNat) (high : m.toNat < 2 ^ 24)
    (error : |(m.toNat : ℚ) * 2 ^ ((e.toNat : ℤ) - 150) - exact| ≤ places * 2 ^ ((e.toNat : ℤ) - 150)) :
    Near places (pack s e (m &&& ~~~hidden)) ((if sign then -1 else 1) * exact) := by
  obtain ⟨exponent, spaced, valued⟩ := packed_value s_eq normal finite low high
  refine ⟨Or.inr ⟨by omega, ?_⟩, ?_⟩
  · unfold Format.Finite
    rw [exponent]
    exact finite
  · rw [valued, spaced, mul_assoc, ← mul_sub, abs_mul, abs_sign, one_mul]
    exact error

section Small

theorem value_three : single.value (0x40400000 : Word).toNat = 3 := by
  have normal : 0 < single.exponent (0x40400000 : Word).toNat := by decide
  have exponent : single.exponent (0x40400000 : Word).toNat = 128 := by decide
  have fraction : single.fraction (0x40400000 : Word).toNat = 2 ^ 22 := by decide
  have positive : ¬ single.Negative (0x40400000 : Word).toNat := by decide
  rw [value_significand normal, if_neg positive, exponent, fraction]
  norm_num

theorem value_half : single.value (0x3f000000 : Word).toNat = 1 / 2 := by
  have normal : 0 < single.exponent (0x3f000000 : Word).toNat := by decide
  have exponent : single.exponent (0x3f000000 : Word).toNat = 126 := by decide
  have fraction : single.fraction (0x3f000000 : Word).toNat = 0 := by decide
  have positive : ¬ single.Negative (0x3f000000 : Word).toNat := by decide
  rw [value_significand normal, if_neg positive, exponent, fraction]
  norm_num

theorem normalRange_of_le {x : ℚ} (low : 1 / 2 ≤ x) (high : x ≤ 8) : NormalRange x := by
  rw [NormalRange, abs_of_pos (by linarith)]
  constructor
  · exact le_trans (by norm_num) low
  · exact high.trans (by norm_num)

end Small

end SoftArithmetic

end Hellfire

import Mathlib.Algebra.Order.Field.Rat
import Mathlib.Data.Int.ConditionallyCompleteOrder
import Mathlib.Data.Nat.Size
import Mathlib.Data.Rat.Floor
import Mathlib.Data.Sign.Basic
import Mathlib.Tactic.Positivity
import Mathlib.Tactic.Ring

/-!
Binary interchange formats: a pattern is a number whose bits are a sign, an exponent and a fraction,
and it denotes a rational number. Finite numbers are multiples of the least positive one, and their
order is that of the patterns with the sign read as a minus.
-/

namespace BinaryFloats

structure Format where
  exponentBits : Nat
  fractionBits : Nat

namespace Format

def single : Format := ⟨8, 23⟩

def double : Format := ⟨11, 52⟩

variable (format : Format) (bits : Nat)

def bias : Nat := 2 ^ (format.exponentBits - 1) - 1

def signPlace : Nat := format.exponentBits + format.fractionBits

def Negative : Prop := 2 ^ format.signPlace ≤ bits

instance : Decidable (format.Negative bits) := inferInstanceAs (Decidable (_ ≤ _))

def magnitude : Nat := bits % 2 ^ format.signPlace

def exponent : Nat := format.magnitude bits / 2 ^ format.fractionBits

def fraction : Nat := format.magnitude bits % 2 ^ format.fractionBits

def Finite : Prop := format.exponent bits < 2 ^ format.exponentBits - 1

instance : Decidable (format.Finite bits) := inferInstanceAs (Decidable (_ < _))

def significand : Nat :=
  if format.exponent bits = 0 then format.fraction bits
  else 2 ^ format.fractionBits + format.fraction bits

def value : ℚ :=
  (if format.Negative bits then -1 else 1) * format.significand bits *
    2 ^ ((max (format.exponent bits) 1 : ℤ) - format.bias - format.fractionBits)

def spacing : ℚ :=
  2 ^ ((max (format.exponent bits) 1 : ℤ) - format.bias - format.fractionBits)

def units : Nat := format.significand bits * 2 ^ (format.exponent bits - 1)

def signedUnits : Int := if format.Negative bits then -format.units bits else format.units bits

def unit : ℚ := 2 ^ (1 - format.bias - format.fractionBits : ℤ)

def key : Int := if format.Negative bits then -format.magnitude bits else format.magnitude bits

def twos : Int := if format.Negative bits then bits - 2 * 2 ^ format.signPlace else bits

theorem magnitude_eq (fits : bits < 2 * 2 ^ format.signPlace) : format.magnitude bits =
    if format.Negative bits then bits - 2 ^ format.signPlace else bits := by
  unfold magnitude
  split
  · rename_i negative
    rw [Nat.mod_eq_sub_mod negative, Nat.mod_eq_of_lt]
    unfold Negative at negative
    omega
  · rename_i positive
    exact Nat.mod_eq_of_lt (Nat.lt_of_not_le positive)

theorem key_eq (fits : bits < 2 * 2 ^ format.signPlace) : format.key bits =
    if format.Negative bits then 2 ^ format.signPlace - (bits : Int) else (bits : Int) := by
  rw [key, magnitude_eq format bits fits]
  split
  · rename_i negative
    rw [Nat.cast_sub negative, neg_sub, Nat.cast_pow, Nat.cast_ofNat]
  · rfl

theorem twos_lt_iff {a b : Nat} (fitsA : a < 2 * 2 ^ format.signPlace)
    (fitsB : b < 2 * 2 ^ format.signPlace) (apart : ¬(format.Negative a ∧ format.Negative b))
    (nonzero : format.key b ≠ 0) :
    format.twos a < format.twos b ↔ format.key a < format.key b := by
  have cast : ((2 ^ format.signPlace : Nat) : Int) = 2 ^ format.signPlace := by
    rw [Nat.cast_pow, Nat.cast_ofNat]
  rw [key_eq format _ fitsA]
  rw [key_eq format _ fitsB] at nonzero ⊢
  unfold twos
  by_cases negativeA : format.Negative a <;> by_cases negativeB : format.Negative b
  · exact absurd ⟨negativeA, negativeB⟩ apart
  · simp only [negativeA, negativeB, if_true, if_false] at nonzero ⊢
    unfold Negative at negativeA negativeB
    omega
  · simp only [negativeA, negativeB, if_true, if_false] at nonzero ⊢
    unfold Negative at negativeA negativeB
    omega
  · simp only [negativeA, negativeB, if_false]

theorem unit_pos : 0 < format.unit := zpow_pos two_pos _

theorem value_eq_units : format.value bits = format.signedUnits bits * format.unit := by
  have scale : (2 : ℚ) ^ ((max (format.exponent bits) 1 : ℤ) - format.bias - format.fractionBits) =
      2 ^ (format.exponent bits - 1) * format.unit := by
    have split : (max (format.exponent bits) 1 : ℤ) - format.bias - format.fractionBits =
        (format.exponent bits - 1 : Nat) + (1 - format.bias - format.fractionBits) := by omega
    rw [split, zpow_add₀ (by decide), zpow_natCast]
    rfl
  unfold value signedUnits units
  rw [scale]
  split
  · push_cast
    ring
  · push_cast
    ring

section Order

variable {a b : Nat}

theorem exponent_le (smaller : format.magnitude a ≤ format.magnitude b) :
    format.exponent a ≤ format.exponent b :=
  Nat.div_le_div_right smaller

theorem fraction_lt : format.fraction bits < 2 ^ format.fractionBits :=
  Nat.mod_lt _ (Nat.pow_pos (by decide))

theorem magnitude_split :
    format.magnitude bits = 2 ^ format.fractionBits * format.exponent bits + format.fraction bits :=
  (Nat.div_add_mod ..).symm

theorem units_lt_next : format.units bits < 2 ^ format.fractionBits * 2 ^ format.exponent bits := by
  have small := format.fraction_lt bits
  unfold units significand
  split
  · rename_i none
    rw [none]
    simpa using small
  · rename_i some
    obtain ⟨place, place_eq⟩ := Nat.exists_eq_succ_of_ne_zero some
    rw [place_eq, Nat.succ_sub_one, Nat.pow_succ', ← Nat.mul_assoc]
    exact Nat.mul_lt_mul_of_pos_right (by omega) (Nat.pow_pos (by decide))

theorem units_lt (smaller : format.magnitude a < format.magnitude b) : format.units a < format.units b := by
  rcases (format.exponent_le smaller.le).lt_or_eq with less | same
  · have some : format.exponent b ≠ 0 := by omega
    calc
      format.units a < 2 ^ format.fractionBits * 2 ^ format.exponent a := format.units_lt_next a
      _ ≤ (2 ^ format.fractionBits + format.fraction b) * 2 ^ (format.exponent b - 1) :=
        Nat.mul_le_mul (Nat.le_add_right ..) (Nat.pow_le_pow_right (by decide) (by omega))
      _ = format.units b := by rw [units, significand, if_neg some]
  · have fractions : format.fraction a < format.fraction b := by
      rw [magnitude_split, magnitude_split, same] at smaller
      exact Nat.lt_of_add_lt_add_left smaller
    unfold units significand
    rw [same]
    refine Nat.mul_lt_mul_of_pos_right ?_ (Nat.pow_pos (by decide))
    split <;> omega

theorem units_eq (same : format.magnitude a = format.magnitude b) : format.units a = format.units b := by
  unfold units significand exponent fraction
  rw [same]

theorem units_lt_iff : format.units a < format.units b ↔ format.magnitude a < format.magnitude b := by
  refine ⟨fun less => ?_, format.units_lt⟩
  rcases Nat.lt_trichotomy (format.magnitude a) (format.magnitude b) with before | same | behind
  · exact before
  · exact absurd (format.units_eq same) less.ne
  · exact absurd (format.units_lt behind) less.asymm

theorem units_eq_zero_iff : format.units bits = 0 ↔ format.magnitude bits = 0 := by
  have zero : format.magnitude 0 = 0 := Nat.zero_mod _
  have none : format.units 0 = 0 := by
    simp [units, significand, exponent, fraction, zero]
  have order := format.units_lt_iff (a := 0) (b := bits)
  omega

theorem signedUnits_lt_iff : format.signedUnits a < format.signedUnits b ↔ format.key a < format.key b := by
  have order := format.units_lt_iff (a := a) (b := b)
  have reverse := format.units_lt_iff (a := b) (b := a)
  have noneA := format.units_eq_zero_iff a
  have noneB := format.units_eq_zero_iff b
  unfold signedUnits key
  split <;> split <;> omega

theorem value_lt_iff : format.value a < format.value b ↔ format.key a < format.key b := by
  rw [value_eq_units, value_eq_units, mul_lt_mul_iff_left₀ format.unit_pos, Int.cast_lt,
    signedUnits_lt_iff]

theorem sign_value_sub :
    SignType.sign (format.value a - format.value b) = SignType.sign (format.key a - format.key b) := by
  rcases lt_trichotomy (format.key a) (format.key b) with less | same | more
  · rw [sign_neg (sub_neg.mpr less), sign_neg (sub_neg.mpr (format.value_lt_iff.mpr less))]
  · have notLess := mt format.value_lt_iff.mp same.not_lt
    have notMore := mt format.value_lt_iff.mp same.not_gt
    rw [le_antisymm (not_lt.mp notMore) (not_lt.mp notLess), same, sub_self, sub_self, sign_zero, sign_zero]
  · rw [sign_pos (sub_pos.mpr more), sign_pos (sub_pos.mpr (format.value_lt_iff.mpr more))]

end Order

theorem value_eq_zero_iff : format.value bits = 0 ↔ format.magnitude bits = 0 := by
  rw [value_eq_units, mul_eq_zero_iff_right format.unit_pos.ne', Int.cast_eq_zero, ← units_eq_zero_iff]
  unfold signedUnits
  split <;> omega

section Whole

def whole : Nat :=
  format.significand bits * 2 ^ (max (format.exponent bits) 1 - (format.bias + format.fractionBits)) /
    2 ^ (format.bias + format.fractionBits - max (format.exponent bits) 1)

theorem value_eq_ratio : format.value bits =
    (if format.Negative bits then -1 else 1) *
      ((format.significand bits *
          2 ^ (max (format.exponent bits) 1 - (format.bias + format.fractionBits)) : Nat) /
        (2 ^ (format.bias + format.fractionBits - max (format.exponent bits) 1) : Nat)) := by
  have scale : (2 : ℚ) ^ ((max (format.exponent bits) 1 : ℤ) - format.bias - format.fractionBits) =
      2 ^ (max (format.exponent bits) 1 - (format.bias + format.fractionBits)) /
        2 ^ (format.bias + format.fractionBits - max (format.exponent bits) 1) := by
    rw [← zpow_natCast, ← zpow_natCast, ← zpow_sub₀ two_ne_zero]
    congr 1
    omega
  unfold value
  rw [scale]
  push_cast
  ring

end Whole

end Format

def truncated (number : ℚ) : ℤ := if number < 0 then ⌈number⌉ else ⌊number⌋

def leading (places number : Nat) : Nat :=
  number / 2 ^ (number.size - places) * 2 ^ (number.size - places)

def leadingInt (places : Nat) (number : Int) : Int := number.sign * leading places number.natAbs

theorem leadingInt_natCast (places number : Nat) :
    leadingInt places (number : Int) = (leading places number : Int) := by
  rcases Nat.eq_zero_or_pos number with rfl | positive
  · simp [leadingInt, leading]
  · rw [leadingInt, Int.sign_natCast_of_ne_zero positive.ne', Int.natAbs_natCast, one_mul]

theorem leadingInt_neg (places : Nat) (number : Int) :
    leadingInt places (-number) = -leadingInt places number := by
  rw [leadingInt, leadingInt, Int.sign_neg, Int.natAbs_neg, neg_mul]

theorem leading_eq {places number dropped : Nat} (less : number / 2 ^ dropped < 2 ^ places)
    (most : dropped = 0 ∨ 2 ^ places ≤ 2 * (number / 2 ^ dropped)) :
    leading places number = number / 2 ^ dropped * 2 ^ dropped := by
  have positive : 0 < 2 ^ dropped := Nat.pow_pos (by decide)
  have upper : number.size ≤ places + dropped := by
    rw [Nat.size_le, pow_add]
    exact (Nat.div_lt_iff_lt_mul positive).mp less
  have places_eq : number.size - places = dropped := by
    rcases most with rfl | most
    · omega
    · have doubled : 2 ^ (places + dropped) ≤ number * 2 :=
        calc
          2 ^ (places + dropped) = 2 ^ places * 2 ^ dropped := pow_add ..
          _ ≤ 2 * (number / 2 ^ dropped) * 2 ^ dropped := Nat.mul_le_mul_right _ most
          _ = number / 2 ^ dropped * 2 ^ dropped * 2 := by ring
          _ ≤ number * 2 := Nat.mul_le_mul_right _ (Nat.div_mul_le_self ..)
      have lower : places + dropped - 1 < number.size ∨ places + dropped = 0 := by
        cases total : places + dropped with
        | zero => exact Or.inr rfl
        | succ last =>
            rw [total, pow_succ] at doubled
            exact Or.inl (Nat.lt_size.mpr (Nat.le_of_mul_le_mul_right doubled (by decide)))
      omega
  rw [leading, places_eq]

namespace Format

variable (format : Format) {bits : Nat}

theorem truncated_value : truncated (format.value bits) =
    if format.Negative bits then -(format.whole bits : Int) else (format.whole bits : Int) := by
  rw [value_eq_ratio, whole]
  generalize format.significand bits * _ = above
  generalize 2 ^ (format.bias + format.fractionBits - max (format.exponent bits) 1) = below
  have ratio : (0 : ℚ) ≤ (above : ℚ) / below := by positivity
  have floor : ⌊(above : ℚ) / below⌋ = (above / below : Nat) := Rat.floor_natCast_div_natCast above below
  unfold truncated
  by_cases negative : format.Negative bits
  · rw [if_pos negative, if_pos negative, neg_one_mul]
    rcases ratio.eq_or_lt with zero | positive
    · rw [← zero, Int.floor_zero] at floor
      rw [← zero, neg_zero, if_neg (lt_irrefl _), Int.floor_zero, ← floor, neg_zero]
    · rw [if_pos (neg_lt_zero.mpr positive), Int.ceil_neg, floor]
  · rw [if_neg negative, if_neg negative, one_mul, if_neg (not_lt.mpr ratio), floor]

theorem floor_value (positive : ¬format.Negative bits) : ⌊format.value bits⌋ = format.whole bits := by
  rw [value_eq_ratio, if_neg positive, one_mul]
  exact Rat.floor_natCast_div_natCast ..

theorem value_nonpos (negative : format.Negative bits) : format.value bits ≤ 0 := by
  rw [value_eq_ratio, if_pos negative, neg_one_mul]
  exact neg_nonpos.mpr (by positivity)

theorem value_normal (sign : Bool) {exponent fraction : Nat} (normal : 0 < exponent)
    (finite : exponent < 2 ^ format.exponentBits) (small : fraction < 2 ^ format.fractionBits)
    (is : bits = sign.toNat * 2 ^ format.signPlace + exponent * 2 ^ format.fractionBits + fraction) :
    format.value bits = (if sign then -1 else 1) * (2 ^ format.fractionBits + fraction : Nat) *
      2 ^ ((exponent : ℤ) - format.bias - format.fractionBits) := by
  have fields : exponent * 2 ^ format.fractionBits + fraction < 2 ^ format.signPlace :=
    calc
      exponent * 2 ^ format.fractionBits + fraction < (exponent + 1) * 2 ^ format.fractionBits := by
        rw [Nat.succ_mul]
        omega
      _ ≤ 2 ^ format.exponentBits * 2 ^ format.fractionBits := Nat.mul_le_mul_right _ finite
      _ = 2 ^ format.signPlace := (pow_add ..).symm
  have magnitude_is : format.magnitude bits = exponent * 2 ^ format.fractionBits + fraction := by
    rw [magnitude, is, Nat.add_assoc, Nat.mul_add_mod_self_right, Nat.mod_eq_of_lt fields]
  have exponent_is : format.exponent bits = exponent := by
    rw [Format.exponent, magnitude_is, Nat.mul_comm, Nat.mul_add_div (Nat.pow_pos (by decide)),
      Nat.div_eq_of_lt small, Nat.add_zero]
  have fraction_is : format.fraction bits = fraction := by
    rw [Format.fraction, magnitude_is, Nat.mul_add_mod_self_right, Nat.mod_eq_of_lt small]
  have negative : format.Negative bits ↔ sign = true := by
    rw [Negative, is]
    cases sign with
    | false => simpa using fields
    | true => simp; omega
  rw [value, significand, exponent_is, fraction_is, if_neg normal.ne', max_eq_left (by omega)]
  simp only [negative]

end Format

end BinaryFloats

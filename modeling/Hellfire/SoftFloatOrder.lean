import Hellfire.Library.BinaryFloats
import Hellfire.SoftFloatCore
import Hellfire.SoftQuotients

/-!
Results of the comparisons of floating point numbers. Single precision orders numbers by value;
double precision puts negative numbers in the wrong order.
-/

namespace Hellfire

open BinaryFloats Format

theorem and_signbit_ne_zero (a : Word) : a &&& signbit ≠ 0 ↔ 2 ^ 31 ≤ a.toNat :=
  (not_congr (and_top_eq_zero a)).trans Nat.not_lt

theorem toNat_xor_signbit {a : Word} (negative : 2 ^ 31 ≤ a.toNat) :
    (a ^^^ signbit).toNat = a.toNat - 2 ^ 31 := by
  have place : signbit.toNat = 2 ^ 31 := rfl
  have upper : (a.toNat ^^^ 2 ^ 31) / 2 ^ 31 = 0 := by
    have one : a.toNat / 2 ^ 31 = 1 := by omega
    rw [Nat.xor_div_two_pow, one]
    decide
  have lower : (a.toNat ^^^ 2 ^ 31) % 2 ^ 31 = a.toNat % 2 ^ 31 := by
    rw [Nat.xor_mod_two_pow, Nat.mod_self, Nat.xor_zero]
  rw [BitVec.toNat_xor, place]
  omega

def compared (x y : Int) : Word := if x < y then -1 else if y < x then 1 else 0

theorem sign_compared (x y : Int) : SignType.sign (compared x y).toInt = SignType.sign (x - y) := by
  unfold compared
  split
  · rename_i less
    rw [sign_neg (sub_neg.mpr less)]
    decide
  · split
    · rename_i more
      rw [sign_pos (sub_pos.mpr more)]
      decide
    · rename_i notLess notMore
      obtain rfl : x = y := by omega
      rw [sub_self]
      decide

theorem eq_of_sign_swapped {x y : Int} (same : SignType.sign (y - x) = SignType.sign (x - y)) : x = y := by
  rcases Int.lt_trichotomy x y with less | equal | more
  · rw [sign_pos (sub_pos.mpr less), sign_neg (sub_neg.mpr less)] at same
    exact absurd same (by decide)
  · exact equal
  · rw [sign_neg (sub_neg.mpr more), sign_pos (sub_pos.mpr more)] at same
    exact absurd same (by decide)

theorem compared_congr {x y x' y' : Int} (less : x < y ↔ x' < y') (more : y < x ↔ y' < x') :
    compared x y = compared x' y' := by
  unfold compared
  simp only [less, more]

theorem slt_compared (a b : Word) :
    (if a.slt b then -1 else if b.slt a then 1 else 0) = compared a.toInt b.toInt := by
  unfold compared
  simp only [BitVec.slt_iff_toInt_lt]

theorem single_twos (a : Word) : a.toInt = single.twos a.toNat := by
  have place : single.signPlace = 31 := rfl
  rw [BitVec.toInt_eq_toNat_cond]
  simp only [twos, Negative, place]
  split <;> split <;> omega

theorem fits_word (a : Word) : a.toNat < 2 * 2 ^ single.signPlace := a.isLt

theorem fits_dword (a : Dword) : a.toNat < 2 * 2 ^ double.signPlace := a.isLt

structure Operand (format : Format) (bits : Nat) : Prop where
  finite : format.Finite bits
  nonzero : format.value bits ≠ 0

theorem Operand.of_magnitude {format : Format} {bits : Nat} (finite : format.Finite bits)
    (nonzero : format.magnitude bits ≠ 0) : Operand format bits :=
  ⟨finite, mt (format.value_eq_zero_iff bits).mp nonzero⟩

theorem Operand.key_ne_zero {format : Format} {bits : Nat} (operand : Operand format bits) :
    format.key bits ≠ 0 := by
  have nonzero := mt (format.value_eq_zero_iff bits).mpr operand.nonzero
  unfold key
  split <;> omega

theorem toInt_xor_signbit {a : Word} (negative : single.Negative a.toNat) :
    (a ^^^ signbit).toInt = -single.key a.toNat := by
  have top : 2 ^ 31 ≤ a.toNat := negative
  have small := a.isLt
  have place : single.signPlace = 31 := rfl
  rw [BitVec.toInt_eq_toNat_cond, toNat_xor_signbit top, key_eq _ _ (fits_word a), if_pos negative, place]
  split <;> omega

theorem cmpsf2_eq {a b : Word} (nonzeroA : single.key a.toNat ≠ 0) (nonzeroB : single.key b.toNat ≠ 0) :
    cmpsf2 a b = compared (single.key a.toNat) (single.key b.toNat) := by
  unfold cmpsf2
  simp only [and_signbit_ne_zero]
  by_cases both : 2 ^ 31 ≤ a.toNat ∧ 2 ^ 31 ≤ b.toNat
  · rw [if_pos both]
    simp only [slt_compared, toInt_xor_signbit both.1, toInt_xor_signbit both.2]
    exact compared_congr (by omega) (by omega)
  · rw [if_neg both]
    simp only [slt_compared, if_true, single_twos]
    refine compared_congr ?_ ?_
    · exact twos_lt_iff _ (fits_word a) (fits_word b) both nonzeroB
    · exact twos_lt_iff _ (fits_word b) (fits_word a) (mt And.symm both) nonzeroA

def joinedInt (upper lower : Word) : Int := (2 : Int) ^ 32 * upper.toInt + lower.toNat

theorem words_compared (upper1 upper2 lower1 lower2 : Word) :
    (if upper1.slt upper2 then -1
      else if upper2.slt upper1 then 1
      else if lower1 < lower2 then -1
      else if lower2 < lower1 then 1
      else 0) =
      compared (joinedInt upper1 lower1) (joinedInt upper2 lower2) := by
  have small1 := lower1.isLt
  have small2 := lower2.isLt
  unfold compared joinedInt
  simp only [BitVec.slt_iff_toInt_lt, BitVec.lt_def]
  -- The upper words decide first, and the lower ones are read without a sign.
  split_ifs <;> first | rfl | omega

theorem joinedInt_dword (c : Dword) :
    joinedInt ((c >>> 32).setWidth 32) (c.setWidth 32) = double.twos c.toNat := by
  have place : double.signPlace = 63 := rfl
  have small := c.isLt
  rw [joinedInt, BitVec.toInt_eq_toNat_cond, toNat_highHalf, toNat_lowHalf]
  simp only [twos, Negative, place]
  split <;> split <;> omega

theorem joinedInt_cleared {c : Dword} (negative : double.Negative c.toNat) :
    joinedInt ((c >>> 32).setWidth 32 ^^^ signbit) (c.setWidth 32) = -double.key c.toNat := by
  have top : 2 ^ 63 ≤ c.toNat := negative
  have small := c.isLt
  have place : double.signPlace = 63 := rfl
  have upper : 2 ^ 31 ≤ ((c >>> 32).setWidth 32 : Word).toNat := by
    rw [toNat_highHalf]
    omega
  rw [joinedInt, BitVec.toInt_eq_toNat_cond, toNat_xor_signbit upper, toNat_highHalf, toNat_lowHalf,
    key_eq _ _ (fits_dword c), if_pos negative, place]
  split <;> omega

theorem high_negative (c : Dword) :
    ((c >>> 32).setWidth 32 : Word) &&& signbit ≠ 0 ↔ double.Negative c.toNat := by
  rw [and_signbit_ne_zero, toNat_highHalf]
  change _ ↔ 2 ^ 63 ≤ c.toNat
  omega

theorem cmpdf2_eq (order : WordOrder) {c d : Dword} (nonzeroC : double.key c.toNat ≠ 0)
    (nonzeroD : double.key d.toNat ≠ 0) :
    cmpdf2 order c d =
      if double.Negative c.toNat ∧ double.Negative d.toNat then
        compared (double.key d.toNat) (double.key c.toNat)
      else compared (double.key c.toNat) (double.key d.toNat) := by
  unfold cmpdf2
  simp only [Dwords.high_ofAll, Dwords.low_ofAll, high_negative, words_compared]
  by_cases both : double.Negative c.toNat ∧ double.Negative d.toNat
  · simp only [if_pos both, joinedInt_cleared both.1, joinedInt_cleared both.2]
    exact compared_congr (by omega) (by omega)
  · simp only [if_neg both, joinedInt_dword]
    refine compared_congr ?_ ?_
    · exact twos_lt_iff _ (fits_dword c) (fits_dword d) both nonzeroD
    · exact twos_lt_iff _ (fits_dword d) (fits_dword c) (mt And.symm both) nonzeroC

section Comparisons

variable {a b : Word} {c d : Dword}

theorem cmpsf2_sign (operandA : Operand single a.toNat) (operandB : Operand single b.toNat) :
    SignType.sign (cmpsf2 a b).toInt = SignType.sign (single.value a.toNat - single.value b.toNat) := by
  rw [cmpsf2_eq operandA.key_ne_zero operandB.key_ne_zero, sign_compared, sign_value_sub]

theorem cmpdf2_sign_iff (order : WordOrder) (operandC : Operand double c.toNat)
    (operandD : Operand double d.toNat) :
    SignType.sign (cmpdf2 order c d).toInt =
        SignType.sign (double.value c.toNat - double.value d.toNat) ↔
      ¬(double.Negative c.toNat ∧ double.Negative d.toNat) ∨ c = d := by
  rw [cmpdf2_eq order operandC.key_ne_zero operandD.key_ne_zero, sign_value_sub]
  by_cases both : double.Negative c.toNat ∧ double.Negative d.toNat
  · rw [if_pos both, sign_compared]
    have keyC := key_eq double _ (fits_dword c)
    have keyD := key_eq double _ (fits_dword d)
    rw [if_pos both.1] at keyC
    rw [if_pos both.2] at keyD
    simp only [both, and_self, not_true, false_or]
    constructor
    · intro same
      have keys := eq_of_sign_swapped same
      exact BitVec.eq_of_toNat_eq (by omega)
    · rintro rfl
      rfl
  · rw [if_neg both, sign_compared]
    simp [both]

/-- Comparison of finite numbers other than zero. -/
theorem comparisons_iff (order : WordOrder) (operandA : Operand single a.toNat)
    (operandB : Operand single b.toNat) (operandC : Operand double c.toNat)
    (operandD : Operand double d.toNat) :
    (SignType.sign (cmpsf2 a b).toInt = SignType.sign (single.value a.toNat - single.value b.toNat) ∧
        SignType.sign (cmpdf2 order c d).toInt =
          SignType.sign (double.value c.toNat - double.value d.toNat)) ↔
      ¬(double.Negative c.toNat ∧ double.Negative d.toNat) ∨ c = d := by
  simp only [cmpsf2_sign operandA operandB, true_and]
  exact cmpdf2_sign_iff order operandC operandD

theorem comparisons_mixed :
    SignType.sign (cmpsf2 0x3f800000 0xc0000000).toInt =
        SignType.sign (single.value 0x3f800000 - single.value 0xc0000000) ∧
      SignType.sign (cmpdf2 .littleEndian 0xbff0000000000000 1).toInt =
        SignType.sign (double.value 0xbff0000000000000 - double.value 1) :=
  (comparisons_iff (a := 0x3f800000) (b := 0xc0000000) (c := 0xbff0000000000000) (d := 1) .littleEndian
    (.of_magnitude (by decide) (by decide)) (.of_magnitude (by decide) (by decide))
    (.of_magnitude (by decide) (by decide)) (.of_magnitude (by decide) (by decide))).mpr
    (Or.inl (by decide))

theorem cmpdf2_disorders : ¬∃ order, ∀ c d : Dword, Operand double c.toNat → Operand double d.toNat →
    SignType.sign (cmpdf2 order c d).toInt =
      SignType.sign (double.value c.toNat - double.value d.toNat) := by
  rintro ⟨order, ordered⟩
  have operandC : Operand double (0xbff0000000000000 : Dword).toNat := .of_magnitude (by decide) (by decide)
  have operandD : Operand double (0xc000000000000000 : Dword).toNat := .of_magnitude (by decide) (by decide)
  have condition := (cmpdf2_sign_iff order operandC operandD).mp (ordered _ _ operandC operandD)
  exact absurd condition (by decide)

end Comparisons

end Hellfire

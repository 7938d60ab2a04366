import Hellfire.SoftProducts
import Mathlib.Tactic.Linarith

/-!
Model and results of the multiplication of the MPSoC simulator, `mult_big_unsigned` and
`mult_big_signed` of `usr/sim/mpsoc_sim/source/mpsoc_sim.c`: the signed one shifts the sign of a
partial product down as if it were a digit.
-/

namespace Hellfire

namespace MpsocSim

structure HiLo where
  hi : Word
  lo : Word

def HiLo.joined (product : HiLo) : Dword := product.hi ++ product.lo

def multHalves (ahi alo bhi blo : Word) : HiLo :=
  let c0 := alo * blo
  let c1A := ahi * blo
  let c1B := alo * bhi
  let c2 := ahi * bhi
  let c2 := c2 + ((c1A >>> 16) + (c1B >>> 16))
  let c1 := (c1A &&& (0xffff : Word)) + (c1B &&& (0xffff : Word)) + (c0 >>> 16)
  let c2 := c2 + (c1 >>> 16)
  let c0 := (c1 <<< 16) + (c0 &&& (0xffff : Word))
  { hi := c2, lo := c0 }

def multBigUnsigned (a b : Word) : HiLo :=
  multHalves (a >>> 16) (a &&& 0xffff) (b >>> 16) (b &&& 0xffff)

def multBigSigned (a b : Word) : HiLo :=
  multHalves (a.sshiftRight 16) (a &&& 0xffff) (b.sshiftRight 16) (b &&& 0xffff)

theorem toNat_low (x : Word) : (x &&& 0xffff).toNat = x.toNat % 65536 := by
  rw [BitVec.toNat_and]
  exact Nat.and_two_pow_sub_one_eq_mod _ 16

theorem toNat_high (x : Word) : (x >>> 16).toNat = x.toNat / 65536 := by
  rw [BitVec.toNat_ushiftRight, Nat.shiftRight_eq_div_pow]

theorem toNat_raised (x : Word) : (x <<< 16).toNat = 65536 * (x.toNat % 65536) := by
  rw [BitVec.toNat_shiftLeft, Nat.shiftLeft_eq]
  omega

theorem carried_sum (x y low : Nat) :
    65536 * (x + y) + low =
      2 ^ 32 * (x / 65536 + y / 65536 + (x % 65536 + y % 65536 + low / 65536) / 65536) +
        (65536 * ((x % 65536 + y % 65536 + low / 65536) % 65536) + low % 65536) := by
  omega

theorem joined_mod {low : Nat} (high : Nat) (small : low < 2 ^ 32) :
    2 ^ 32 * (high % 2 ^ 32) + low = (2 ^ 32 * high + low) % 2 ^ 64 := by
  omega

theorem multHalves_joined {ahi alo bhi blo : Word} (smallA : alo.toNat ≤ 65535)
    (smallB : blo.toNat ≤ 65535) :
    (multHalves ahi alo bhi blo).joined =
      BitVec.ofNat 64 (2 ^ 32 * (ahi.toNat * bhi.toNat) +
        (65536 * ((ahi * blo).toNat + (alo * bhi).toNat) + alo.toNat * blo.toNat)) := by
  have lowLow := toNat_half_mul smallA smallB
  have bound := half_mul_half_le smallA smallB
  have mixedA := (ahi * blo).isLt
  have mixedB := (alo * bhi).isLt
  have middle : ((ahi * blo &&& (0xffff : Word)) + (alo * bhi &&& (0xffff : Word)) +
      (alo * blo) >>> 16).toNat =
      (ahi * blo).toNat % 65536 + (alo * bhi).toNat % 65536 + alo.toNat * blo.toNat / 65536 := by
    rw [BitVec.toNat_add, BitVec.toNat_add, toNat_low, toNat_low, toNat_high, lowLow]
    omega
  have lower : (multHalves ahi alo bhi blo).lo.toNat =
      65536 * (((ahi * blo).toNat % 65536 + (alo * bhi).toNat % 65536 + alo.toNat * blo.toNat / 65536) %
        65536) + alo.toNat * blo.toNat % 65536 := by
    unfold multHalves
    simp only []
    rw [BitVec.toNat_add, toNat_raised, middle, toNat_low, lowLow]
    omega
  have upper : (multHalves ahi alo bhi blo).hi.toNat =
      (ahi.toNat * bhi.toNat + ((ahi * blo).toNat / 65536 + (alo * bhi).toNat / 65536 +
        ((ahi * blo).toNat % 65536 + (alo * bhi).toNat % 65536 + alo.toNat * blo.toNat / 65536) /
          65536)) % 2 ^ 32 := by
    unfold multHalves
    simp only []
    rw [BitVec.toNat_add, BitVec.toNat_add, BitVec.toNat_add, BitVec.toNat_mul ahi bhi,
      toNat_high (ahi * blo), toNat_high (alo * bhi), toNat_high (_ + _), middle]
    simp only [Nat.add_mod_mod, Nat.mod_add_mod, Nat.add_assoc]
  apply BitVec.eq_of_toNat_eq
  rw [HiLo.joined, toNat_joined, BitVec.toNat_ofNat, carried_sum, ← Nat.add_assoc, ← Nat.mul_add, upper,
    lower]
  exact joined_mod _ (by omega)

theorem toNat_low_le (x : Word) : (x &&& 0xffff).toNat ≤ 65535 := by
  rw [toNat_low]
  omega

theorem multBigUnsigned_joined (a b : Word) :
    (multBigUnsigned a b).joined = BitVec.ofNat 64 (a.toNat * b.toNat) := by
  have highA : (a >>> 16).toNat ≤ 65535 := by
    rw [toNat_high]
    omega
  have highB : (b >>> 16).toNat ≤ 65535 := by
    rw [toNat_high]
    omega
  rw [multBigUnsigned, multHalves_joined (toNat_low_le a) (toNat_low_le b),
    halves_mul a.toNat b.toNat, toNat_half_mul highA (toNat_low_le b),
    toNat_half_mul (toNat_low_le a) highB, toNat_low, toNat_low, toNat_high, toNat_high]
  congr 1
  ring

section Signed

theorem toNat_eq_toInt (x : Word) :
    (x.toNat : Int) = x.toInt + 2 ^ 32 * if x.toInt < 0 then 1 else 0 := by
  have value := BitVec.toInt_eq_toNat_cond x
  have bound := x.isLt
  split at value <;> split <;> omega

theorem toNat_mul_eq (high low : Word) :
    ((high * low).toNat : Int) = high.toInt * low.toNat % 2 ^ 32 := by
  have sign := toNat_eq_toInt high
  rw [BitVec.toNat_mul, Int.natCast_emod, Int.natCast_mul, sign, Int.add_mul, Int.mul_assoc]
  exact Int.add_mul_emod_self_left ..

theorem toNat_mixed {high low : Word} (lower : -32768 ≤ high.toInt) (upper : high.toInt < 32768)
    (small : low.toNat ≤ 65535) :
    ((high * low).toNat : Int) =
      high.toInt * low.toNat + 2 ^ 32 * if high.toInt < 0 ∧ low.toNat ≠ 0 then 1 else 0 := by
  rw [toNat_mul_eq]
  by_cases negative : high.toInt < 0 ∧ low.toNat ≠ 0
  · have below : high.toInt * low.toNat < 0 :=
      Int.mul_neg_of_neg_of_pos negative.1 (Int.natCast_pos.mpr (Nat.pos_of_ne_zero negative.2))
    have least : -2147450880 ≤ high.toInt * low.toNat := by
      nlinarith only [lower, small, negative.1]
    rw [if_pos negative]
    omega
  · have above : 0 ≤ high.toInt * low.toNat := by
      rcases not_and_or.mp negative with plus | none
      · exact Int.mul_nonneg (not_lt.mp plus) (Int.natCast_nonneg _)
      · rw [not_not.mp none]
        simp
    have most : high.toInt * low.toNat ≤ 32767 * 65535 := by
      nlinarith only [upper, small, above]
    rw [if_neg negative]
    omega

theorem toInt_high (a : Word) : (a.sshiftRight 16).toInt = a.toInt / 65536 := by
  rw [BitVec.toInt_sshiftRight, Int.shiftRight_eq_div_pow]
  rfl

theorem toInt_split (a : Word) :
    a.toInt = 65536 * (a.sshiftRight 16).toInt + ((a &&& 0xffff).toNat : Int) := by
  have sign := toNat_eq_toInt a
  rw [toInt_high, toNat_low, Int.natCast_emod, sign]
  split <;> omega

theorem high_bounds (a : Word) :
    -32768 ≤ (a.sshiftRight 16).toInt ∧ (a.sshiftRight 16).toInt < 32768 := by
  have lower := BitVec.le_toInt a
  have upper := BitVec.toInt_lt (x := a)
  rw [toInt_high]
  omega

theorem toNat_cross (a b : Word) :
    ((a.sshiftRight 16 * (b &&& 0xffff)).toNat : Int) =
      (a.sshiftRight 16).toInt * (b &&& 0xffff).toNat +
        2 ^ 32 * if a.toInt < 0 ∧ b.toNat % 65536 ≠ 0 then 1 else 0 := by
  have sign : (a.sshiftRight 16).toInt < 0 ↔ a.toInt < 0 := by
    rw [toInt_high]
    omega
  rw [toNat_mixed (high_bounds a).1 (high_bounds a).2 (toNat_low_le b)]
  simp only [sign, toNat_low]

theorem ofInt_add_mul (x k : Int) : BitVec.ofInt 64 (x + 2 ^ 64 * k) = BitVec.ofInt 64 x := by
  apply BitVec.eq_of_toInt_eq
  rw [BitVec.toInt_ofInt, BitVec.toInt_ofInt]
  exact Int.add_mul_bmod_self_left ..

theorem multBigSigned_joined (a b : Word) :
    (multBigSigned a b).joined = BitVec.ofInt 64 (a.toInt * b.toInt +
      2 ^ 48 * ((if a.toInt < 0 ∧ b.toNat % 65536 ≠ 0 then 1 else 0) +
        if b.toInt < 0 ∧ a.toNat % 65536 ≠ 0 then 1 else 0)) := by
  have crossA := toNat_cross a b
  have crossB := toNat_cross b a
  have splitA := toInt_split a
  have splitB := toInt_split b
  have signA := toNat_eq_toInt (a.sshiftRight 16)
  have signB := toNat_eq_toInt (b.sshiftRight 16)
  rw [multBigSigned, multHalves_joined (toNat_low_le a) (toNat_low_le b), ← BitVec.ofInt_natCast,
    BitVec.mul_comm (a &&& 0xffff)]
  generalize (if a.toInt < 0 ∧ b.toNat % 65536 ≠ 0 then 1 else 0 : Int) = carryA at *
  generalize (if b.toInt < 0 ∧ a.toNat % 65536 ≠ 0 then 1 else 0 : Int) = carryB at *
  rw [splitA, splitB]
  generalize a &&& 0xffff = lowA at *
  generalize b &&& 0xffff = lowB at *
  generalize a.sshiftRight 16 = highA at *
  generalize b.sshiftRight 16 = highB at *
  push_cast
  rw [crossA, crossB, signA, signB]
  generalize (if highA.toInt < 0 then 1 else 0 : Int) = signA
  generalize (if highB.toInt < 0 then 1 else 0 : Int) = signB
  symm
  rw [← ofInt_add_mul _ (signB * highA.toInt + signA * highB.toInt + 2 ^ 32 * (signA * signB))]
  congr 1
  ring

theorem carries_vanish_iff (x : Int) (p q : Prop) [Decidable p] [Decidable q] :
    BitVec.ofInt 64 (x + 2 ^ 48 * ((if p then 1 else 0) + if q then 1 else 0)) =
      BitVec.ofInt 64 x ↔ ¬p ∧ ¬q := by
  have cancel (carry : Int) :
      BitVec.ofInt 64 (x + carry) = BitVec.ofInt 64 x ↔ BitVec.ofInt 64 carry = 0 := by
    rw [BitVec.ofInt_add]
    exact add_eq_left
  rw [cancel]
  by_cases first : p
  · by_cases second : q <;> simp [first, second]
  · by_cases second : q <;> simp [first, second]

end Signed

theorem multBig_exact_iff (a b : Word) :
    ((multBigUnsigned a b).joined = BitVec.ofNat 64 (a.toNat * b.toNat) ∧
        (multBigSigned a b).joined = BitVec.ofInt 64 (a.toInt * b.toInt)) ↔
      ¬(a.toInt < 0 ∧ b.toNat % 2 ^ 16 ≠ 0) ∧ ¬(b.toInt < 0 ∧ a.toNat % 2 ^ 16 ≠ 0) := by
  rw [multBigUnsigned_joined, multBigSigned_joined, carries_vanish_iff]
  simp

theorem multBig_inexact : ¬∀ a b : Word,
    (multBigUnsigned a b).joined = BitVec.ofNat 64 (a.toNat * b.toNat) ∧
      (multBigSigned a b).joined = BitVec.ofInt 64 (a.toInt * b.toInt) := by
  intro exact
  exact absurd (exact (-1) 1).2 (by decide)

end MpsocSim

end Hellfire

import Hellfire.SoftIntCore
import Mathlib.Data.BitVec
import Mathlib.Tactic.Ring

/-!
Results of the multiplication routines: every product is exact, for both orders of the words of a
`dwords`.
-/

namespace Hellfire

open Loops

namespace Dwords

variable (order : WordOrder) (low' high' : Word) (value : Dword)

@[simp] theorem low_ofWords : (ofWords order low' high').low order = low' := by
  cases order <;> rfl

@[simp] theorem high_ofWords : (ofWords order low' high').high order = high' := by
  cases order <;> rfl

@[simp] theorem all_ofWords : (ofWords order low' high').all order = high' ++ low' := by
  cases order <;> rfl

@[simp] theorem low_ofAll : (ofAll order value).low order = value.setWidth 32 := by
  cases order <;> rfl

@[simp] theorem high_ofAll : (ofAll order value).high order = (value >>> 32).setWidth 32 := by
  cases order <;> rfl

end Dwords

theorem toNat_joined (high low : Word) :
    (high ++ low : Dword).toNat = 2 ^ 32 * high.toNat + low.toNat := by
  rw [BitVec.toNat_append, Nat.shiftLeft_eq, Nat.mul_comm high.toNat,
    Nat.two_pow_add_eq_or_of_lt low.isLt]

theorem toNat_lowHalf (value : Dword) : (value.setWidth 32).toNat = value.toNat % 2 ^ 32 :=
  BitVec.toNat_setWidth ..

theorem toNat_highHalf (value : Dword) :
    ((value >>> 32).setWidth 32).toNat = value.toNat / 2 ^ 32 := by
  rw [BitVec.toNat_setWidth, BitVec.toNat_ushiftRight, Nat.shiftRight_eq_div_pow]
  exact Nat.mod_eq_of_lt (by omega)

theorem shiftLeft_one_eq (a : Word) : a <<< 1 = 2 * a := by
  rw [BitVec.shiftLeft_eq_mul_twoPow, BitVec.mul_comm]
  rfl

theorem lowBit_cases (b : Word) :
    b &&& 1 = 0 ∧ b = 2 * (b >>> 1) ∨ b &&& 1 = 1 ∧ b = 2 * (b >>> 1) + 1 := by
  have bit : (b &&& 1).toNat = b.toNat % 2 := by
    rw [BitVec.toNat_and]
    exact Nat.and_one_is_mod _
  have half : (b >>> 1).toNat = b.toNat / 2 := BitVec.toNat_ushiftRight ..
  rcases Nat.mod_two_eq_zero_or_one b.toNat with even | odd
  · refine Or.inl ⟨BitVec.eq_of_toNat_eq (bit.trans even), BitVec.eq_of_toNat_eq ?_⟩
    rw [BitVec.toNat_mul, half]
    simp
    omega
  · refine Or.inr ⟨BitVec.eq_of_toNat_eq (bit.trans odd), BitVec.eq_of_toNat_eq ?_⟩
    rw [BitVec.toNat_add, BitVec.toNat_mul, half]
    simp
    omega

structure MulInv (product : Word) (left : Nat) (state : MulState) : Prop where
  small : state.b.toNat < 2 ^ left
  kept : state.answer + state.a * state.b = product

theorem MulInv.step {product : Word} (left : Nat) (state : MulState) (holds : MulInv product left state)
    (continues : state.b ≠ 0) : ∃ after < left, MulInv product after state.turn := by
  have positive : state.b.toNat ≠ 0 := fun zero => continues (BitVec.eq_of_toNat_eq zero)
  cases left with
  | zero =>
      have := holds.small
      omega
  | succ left =>
      refine ⟨left, Nat.lt_succ_self left, ?_, ?_⟩
      · have := holds.small
        simp only [MulState.turn, BitVec.toNat_ushiftRight, Nat.shiftRight_eq_div_pow]
        omega
      · rw [← holds.kept]
        simp only [MulState.turn, shiftLeft_one_eq]
        rcases lowBit_cases state.b with ⟨clear, even⟩ | ⟨set, odd⟩
        · rw [clear, if_neg (by decide)]
          conv_rhs => rw [even]
          ring
        · rw [set, if_pos (by decide)]
          conv_rhs => rw [odd]
          ring

theorem mulsi3_eq (a b : Word) : mulsi3 a b = some (a * b) := by
  have start : MulInv (a * b) 32 ⟨0, a, b⟩ := ⟨b.isLt, BitVec.zero_add _⟩
  obtain ⟨final, left, ends, holds, stops⟩ := whileLoop_ends MulInv.step start (Nat.le_refl 32)
  have done : final.answer = a * b := by
    rw [← holds.kept, not_not.mp stops]
    ring
  unfold mulsi3
  rw [ends]
  exact congrArg some done

theorem halves_mul (a b : Nat) :
    a * b = (a % 65536) * (b % 65536) + 65536 * ((a / 65536) * (b % 65536)) +
      65536 * ((b / 65536) * (a % 65536)) + 4294967296 * ((a / 65536) * (b / 65536)) := by
  conv_lhs => rw [← Nat.div_add_mod a 65536, ← Nat.div_add_mod b 65536]
  ring

theorem lowerMask_eq : lowerMask = 65535#32 := by decide

theorem toNat_lowerHalf (a : Word) : (a &&& lowerMask).toNat = a.toNat % 65536 := by
  rw [lowerMask_eq, BitVec.toNat_and]
  exact Nat.and_two_pow_sub_one_eq_mod _ 16

theorem toNat_upperHalf (a : Word) : (a >>> bitsInWord2).toNat = a.toNat / 65536 := by
  rw [BitVec.toNat_ushiftRight, Nat.shiftRight_eq_div_pow]
  rfl

theorem half_mul_half_le {x y : Nat} (smallX : x ≤ 65535) (smallY : y ≤ 65535) :
    x * y ≤ 4294836225 :=
  Nat.mul_le_mul smallX smallY

theorem toNat_half_mul {x y : Word} (smallX : x.toNat ≤ 65535) (smallY : y.toNat ≤ 65535) :
    (x * y).toNat = x.toNat * y.toNat := by
  have bound := half_mul_half_le smallX smallY
  rw [BitVec.toNat_mul, Nat.mod_eq_of_lt (by omega)]

theorem toNat_raisedHalf (t : Word) :
    ((t &&& lowerMask) <<< bitsInWord2).toNat = 65536 * (t.toNat % 65536) := by
  rw [BitVec.toNat_shiftLeft, toNat_lowerHalf, Nat.shiftLeft_eq, Nat.mod_eq_of_lt]
  · exact Nat.mul_comm _ _
  · have := Nat.mod_lt t.toNat (by decide : 0 < 65536)
    change _ * 65536 < _
    omega

theorem muldsi3_toNat (order : WordOrder) (a b : Word) :
    (muldsi3 order a b).toNat = a.toNat * b.toNat := by
  have lowA : (a &&& lowerMask).toNat ≤ 65535 := by rw [toNat_lowerHalf]; omega
  have lowB : (b &&& lowerMask).toNat ≤ 65535 := by rw [toNat_lowerHalf]; omega
  have highA : (a >>> bitsInWord2).toNat ≤ 65535 := by rw [toNat_upperHalf]; omega
  have highB : (b >>> bitsInWord2).toNat ≤ 65535 := by rw [toNat_upperHalf]; omega
  have lowLow := half_mul_half_le lowA lowB
  have highLow := half_mul_half_le highA lowB
  have lowHigh := half_mul_half_le highB lowA
  have highHigh := half_mul_half_le highA highB
  rw [halves_mul, ← toNat_lowerHalf a, ← toNat_lowerHalf b, ← toNat_upperHalf a, ← toNat_upperHalf b]
  unfold muldsi3
  simp only [Dwords.all_ofWords, toNat_joined, BitVec.toNat_add, toNat_half_mul lowA lowB,
    toNat_half_mul highA lowB, toNat_half_mul highB lowA, toNat_half_mul highA highB, toNat_raisedHalf,
    toNat_upperHalf (_ + _), toNat_upperHalf (_ * _), toNat_lowerHalf (_ + _), toNat_lowerHalf (_ * _)]
  omega

theorem words_mul (a b : Nat) :
    a * b = (a % 2 ^ 32) * (b % 2 ^ 32) +
      2 ^ 32 * ((a / 2 ^ 32) * (b % 2 ^ 32) + (a % 2 ^ 32) * (b / 2 ^ 32)) +
      2 ^ 64 * ((a / 2 ^ 32) * (b / 2 ^ 32)) := by
  conv_lhs => rw [← Nat.div_add_mod a (2 ^ 32), ← Nat.div_add_mod b (2 ^ 32)]
  ring

theorem muldi3_eq (order : WordOrder) (a b : Dword) : muldi3 order a b = some (a * b) := by
  unfold muldi3
  simp only [mulsi3_eq, Option.bind_eq_bind, Option.bind_some, Option.pure_def]
  refine congrArg some (BitVec.eq_of_toNat_eq ?_)
  rw [BitVec.toNat_mul, words_mul]
  simp only [Dwords.all_ofWords, Dwords.low_ofAll, Dwords.high_ofAll, toNat_joined, BitVec.toNat_add,
    BitVec.toNat_mul, toNat_highHalf]
  simp only [toNat_lowHalf, muldsi3_toNat]
  omega

theorem softProducts_exact (order : WordOrder) :
    (∀ a b : Word, mulsi3 a b = some (a * b)) ∧
      (∀ a b : Word, (muldsi3 order a b).toNat = a.toNat * b.toNat) ∧
      ∀ a b : Dword, muldi3 order a b = some (a * b) :=
  ⟨mulsi3_eq, muldsi3_toNat order, muldi3_eq order⟩

end Hellfire

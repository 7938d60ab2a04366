import Mathlib.Logic.Function.Iterate
import Mathlib.Tactic.Linarith
import Hellfire.CacheCore

/-!
The masks and shifts of `cache_init` for powers of two, and the set and the tag that they
make of an address: the two parts of the number of its block.
-/

namespace Hellfire

open Loops

namespace CacheSim

section Halvings

variable {change : Word → Word} {bit value : Word} {places : Nat}

theorem toNat_half (bit : Word) : (bit >>> 1).toNat = bit.toNat / 2 := by
  rw [BitVec.toNat_ushiftRight, Nat.shiftRight_eq_div_pow, pow_one]

theorem halving_loop (change : Word → Word) (value : Word) {turns : Nat} (enough : places ≤ turns)
    (bit_eq : bit.toNat = 2 ^ places) :
    ∃ last, whileLoop (fun state : HalvingState => state.bit >>> 1 ≠ 0)
      (fun state => ⟨state.bit >>> 1, change state.value⟩) turns ⟨bit, value⟩ =
        some ⟨last, change^[places] value⟩ := by
  induction places generalizing turns bit value with
  | zero =>
      have stops : ¬ bit >>> 1 ≠ 0 := by
        rw [not_not]
        apply BitVec.eq_of_toNat_eq
        rw [toNat_half, bit_eq]
        rfl
      refine ⟨bit, whileLoop_exit ?_ turns⟩
      exact stops
  | succ places ih =>
      have half : (bit >>> 1).toNat = 2 ^ places := by
        rw [toNat_half, bit_eq, pow_succ, Nat.mul_div_cancel _ (by decide)]
      have continues : bit >>> 1 ≠ 0 := by
        intro zero
        rw [zero] at half
        exact absurd half.symm (Nat.pow_pos (by decide)).ne'
      cases turns with
      | zero => omega
      | succ turns =>
          rw [whileLoop, if_pos continues, Function.iterate_succ_apply]
          exact ih _ (by omega) half

theorem halvings_eq (bit_eq : bit.toNat = 2 ^ places) :
    halvings change bit value = some (change^[places] value) := by
  have few : places ≤ 32 := by
    apply (Nat.pow_le_pow_iff_right (by decide : 1 < 2)).mp
    exact bit_eq ▸ bit.isLt.le
  obtain ⟨last, looped⟩ := halving_loop change value few bit_eq
  rw [halvings, looped]
  rfl

theorem toNat_grown (few : places ≤ 32) : (grow^[places] 0).toNat = 2 ^ places - 1 := by
  induction places with
  | zero => rfl
  | succ places ih =>
      have before := ih (by omega)
      have room : 2 ^ (places + 1) ≤ 2 ^ 32 := Nat.pow_le_pow_right (by decide) few
      have positive : 0 < 2 ^ places := Nat.pow_pos (by decide)
      rw [pow_succ] at room ⊢
      have doubled : (grow^[places] 0 <<< 1).toNat = 2 ^ 1 * (2 ^ places - 1) := by
        rw [BitVec.toNat_shiftLeft, before, Nat.shiftLeft_eq, Nat.mod_eq_of_lt (by omega)]
        omega
      have one : (1 : Word).toNat = 1 := rfl
      rw [Function.iterate_succ_apply', grow, BitVec.toNat_or, doubled, one,
        ← Nat.two_pow_add_eq_or_of_lt (by decide)]
      omega

theorem toNat_raised (few : places < 2 ^ 32) : ((fun x : Word => x + 1)^[places] 0).toNat = places := by
  induction places with
  | zero => rfl
  | succ places ih =>
      have one : (1 : Word).toNat = 1 := rfl
      rw [Function.iterate_succ_apply', BitVec.toNat_add, ih (by omega), one, Nat.mod_eq_of_lt few]

theorem toNat_lowered (value : Word) :
    ((fun x : Word => x >>> 1)^[places] value).toNat = value.toNat / 2 ^ places := by
  induction places with
  | zero => rw [Function.iterate_zero_apply, pow_zero, Nat.div_one]
  | succ places ih =>
      rw [Function.iterate_succ_apply', toNat_half, ih, Nat.div_div_eq_div_mul, pow_succ]

end Halvings

structure Shaped (sets block : Nat) (cache : Cache) : Prop where
  setMask : cache.config.setMask.toNat = 2 ^ sets - 1
  setShift : cache.config.setShift.toNat = block
  tagMask : cache.config.tagMask.toNat = (2 ^ 32 - 1) / 2 ^ block / 2 ^ sets
  tagShift : cache.config.tagShift.toNat = sets + block
  fits : sets + block < 32

def blockOf (block : Nat) (address : Word) : Nat := address.toNat / 2 ^ (block + 2)

def setOf (sets number : Nat) : Nat := number % 2 ^ sets

theorem cacheInit_shaped (policy : Policy) {sets block : Nat} {lines words : Word} (setup burst : Word)
    (fits : sets + block < 32) (lines_eq : lines.toNat = 2 ^ sets) (words_eq : words.toNat = 2 ^ block) :
    ∃ cache, cacheInit policy lines words setup burst = some cache ∧ Shaped sets block cache ∧
      cache.policy = policy ∧ cache.blockSize = words ∧ cache.missPenalty = ⟨setup, burst⟩ ∧
        cache.access = ⟨0, 0, 0, 0⟩ ∧ ∀ place, cache.cacheSets place = ⟨false, false, 0⟩ := by
  rw [cacheInit]
  simp only [halvings_eq words_eq, halvings_eq lines_eq, Option.bind_eq_bind, Option.bind_some]
  refine ⟨_, rfl, ?_, rfl, rfl, rfl, rfl, fun place => rfl⟩
  constructor
  · exact toNat_grown (by omega)
  · exact toNat_raised (by omega)
  · rw [toNat_lowered, toNat_lowered]
    rfl
  · rw [BitVec.toNat_add, toNat_raised (by omega), toNat_raised (by omega)]
    exact Nat.mod_eq_of_lt (by omega)
  · exact fits

namespace Shaped

variable {sets block : Nat} {cache : Cache} (shaped : Shaped sets block cache) (address : Word)

include shaped

theorem toNat_set : (cache.set address).toNat = setOf sets (blockOf block address) := by
  rw [Cache.set, BitVec.toNat_and, BitVec.toNat_ushiftRight, BitVec.toNat_ushiftRight, shaped.setMask,
    shaped.setShift, Nat.shiftRight_eq_div_pow, Nat.shiftRight_eq_div_pow, Nat.div_div_eq_div_mul,
    ← pow_add, blockOf, setOf, Nat.and_two_pow_sub_one_eq_mod]

theorem set_lt : (cache.set address).toNat < 2 ^ sets := by
  rw [shaped.toNat_set]
  exact Nat.mod_lt _ (Nat.pow_pos (by decide))

theorem toNat_tag : (cache.tag address).toNat = blockOf block address / 2 ^ sets := by
  have fits := shaped.fits
  have mask : (2 ^ 32 - 1) / 2 ^ block / 2 ^ sets = 2 ^ (32 - (block + sets)) - 1 := by
    have whole : 2 ^ 32 = 2 ^ (block + sets) * 2 ^ (32 - (block + sets)) := by
      rw [← pow_add, Nat.add_sub_cancel' (by omega)]
    have positive : 0 < 2 ^ (block + sets) := Nat.pow_pos (by decide)
    rw [Nat.div_div_eq_div_mul, ← pow_add, whole]
    simpa using Nat.mul_sub_div 0 _ _ (Nat.mul_pos positive (Nat.pow_pos (by decide)))
  have parts : address.toNat / 2 ^ (sets + block) / 2 ^ 2 = blockOf block address / 2 ^ sets := by
    rw [blockOf, Nat.div_div_eq_div_mul, Nat.div_div_eq_div_mul, ← pow_add, ← pow_add]
    congr 2
    omega
  have small : blockOf block address / 2 ^ sets < 2 ^ (32 - (block + sets)) := by
    rw [← parts]
    apply (Nat.div_le_self ..).trans_lt
    apply Nat.div_lt_of_lt_mul
    rw [← pow_add]
    exact address.isLt.trans_le (Nat.pow_le_pow_right (by decide) (by omega))
  rw [Cache.tag, BitVec.toNat_and, BitVec.toNat_ushiftRight, BitVec.toNat_ushiftRight, shaped.tagMask,
    shaped.tagShift, Nat.shiftRight_eq_div_pow, Nat.shiftRight_eq_div_pow, parts, mask,
    Nat.and_two_pow_sub_one_eq_mod, Nat.mod_eq_of_lt small]

end Shaped

end CacheSim

end Hellfire

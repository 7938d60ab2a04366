import Hellfire.UhfsFormat

/-!
The 32-bit arithmetic of `hf_mkfs` on byte addresses: on which cards and block sizes it is exact.
-/

namespace Hellfire

open ByteMemory

namespace BlkInfo

variable (info : BlkInfo) (blkSize : Nat)

def bytes : Nat := info.numSectors.toNat * info.bytesSector.toNat

/-- `vsize` of `hf_mkfs` and `hf_mount`: the product has 32 bits. -/
def vsize : Nat := info.bytes % 4294967296

/-- The values of `k` in the loop of `hf_mkfs` over the storage regions. -/
def Starts (k : Nat) : Prop := ∃ j, k = 1 + j * (blkSize / 4) ∧ k < info.vsize / blkSize

/-- The sizes and the comparisons of `hf_mkfs` are those of the integers, and so are the entries that
it writes: no chain of maps leaves the device, and no block of it is left out. -/
structure Exact : Prop where
  vsize : info.vsize = info.bytes
  next : ∀ k, info.Starts blkSize k →
    ((k + blkSize / 4) * blkSize % 4294967296 < info.vsize ↔ (k + blkSize / 4) * blkSize < info.bytes)
  free : ∀ k, info.Starts blkSize k → ∀ i, 1 ≤ i → i < blkSize / 4 →
    ((k - 1 + i) * blkSize % 4294967296 < info.vsize - blkSize ↔
      (k - 1 + i) * blkSize + blkSize < info.bytes)
  chain : ∀ k, info.Starts blkSize k → cmbData (regionMap info.vsize blkSize k) 0 =
    if (k + blkSize / 4) * blkSize < info.bytes then k + blkSize / 4 else uhfsEochblk
  entries : ∀ k, info.Starts blkSize k → ∀ i, 1 ≤ i → i < blkSize / 4 →
    cmbData (regionMap info.vsize blkSize k) i =
      if (k + i) * blkSize < info.bytes then uhfsFreeblk else uhfsFixdblk

def regions : Nat := (info.bytes / blkSize - 2) / (blkSize / 4) + 1

/-- The card has less than 4 GiB, and so have its storage regions, the last one taken whole. -/
def Below4GiB : Prop :=
  info.bytes < 4294967296 ∧ (info.bytes / blkSize ≤ 1 ∨
    (1 + info.regions blkSize * (blkSize / 4)) * blkSize < 4294967296)

variable {info : BlkInfo} {blkSize : Nat}

theorem Starts.before {k : Nat} (starts : info.Starts blkSize k) (small : info.bytes < 4294967296) :
    1 ≤ k ∧ 2 ≤ info.bytes / blkSize ∧
      k + blkSize / 4 ≤ 1 + info.regions blkSize * (blkSize / 4) := by
  obtain ⟨j, rfl, inside⟩ := starts
  rw [BlkInfo.vsize, Nat.mod_eq_of_lt small] at inside
  refine ⟨by omega, by omega, ?_⟩
  rcases Nat.eq_zero_or_pos (blkSize / 4) with none | positive
  · rw [none]
    omega
  · have passed : j ≤ (info.bytes / blkSize - 2) / (blkSize / 4) := by
      rw [Nat.le_div_iff_mul_le positive]
      omega
    have regions : (j + 1) * (blkSize / 4) ≤ info.regions blkSize * (blkSize / 4) :=
      Nat.mul_le_mul_right _ (Nat.succ_le_succ passed)
    rw [Nat.succ_mul] at regions
    omega

theorem exact_of_below (positive : 0 < blkSize) (below : info.Below4GiB blkSize) :
    info.Exact blkSize := by
  obtain ⟨small, room⟩ := below
  have vsize : info.vsize = info.bytes := Nat.mod_eq_of_lt small
  have fits : ∀ k, info.Starts blkSize k → ∀ place, place ≤ k + blkSize / 4 →
      place * blkSize < 4294967296 := by
    intro k starts place within
    obtain ⟨_, blocks, last⟩ := starts.before small
    have top := room.resolve_left (by omega)
    have least : place * blkSize ≤ (1 + info.regions blkSize * (blkSize / 4)) * blkSize :=
      Nat.mul_le_mul_right _ (by omega)
    omega
  have next : ∀ k, info.Starts blkSize k →
      ((k + blkSize / 4) * blkSize % 4294967296 < info.vsize ↔
        (k + blkSize / 4) * blkSize < info.bytes) := by
    intro k starts
    rw [Nat.mod_eq_of_lt (fits k starts _ le_rfl), vsize]
  have free : ∀ k, info.Starts blkSize k → ∀ i, 1 ≤ i → i < blkSize / 4 →
      ((k - 1 + i) * blkSize % 4294967296 < info.vsize - blkSize ↔
        (k - 1 + i) * blkSize + blkSize < info.bytes) := by
    intro k starts i _ high
    rw [Nat.mod_eq_of_lt (fits k starts _ (by omega)), vsize]
    omega
  have small' : ∀ k, info.Starts blkSize k → k + blkSize / 4 < 4294967296 := by
    intro k starts
    have bound := fits k starts _ le_rfl
    have least : k + blkSize / 4 ≤ (k + blkSize / 4) * blkSize := Nat.le_mul_of_pos_right _ positive
    omega
  refine ⟨vsize, next, free, fun k starts => ?_, fun k starts i low high => ?_⟩
  · rw [(regionMap_entries _ _ (small' k starts)).1]
    simp only [next k starts]
  · rw [(regionMap_entries _ _ (small' k starts)).2 i low high]
    have first := (starts.before small).1
    have same : (k - 1 + i) * blkSize + blkSize = (k + i) * blkSize := by
      rw [← Nat.succ_mul]
      congr 1
      omega
    simp only [free k starts i low high, same]

theorem not_exact {e : Nat} (power : blkSize = 2 ^ e) (bits : e < 32) (small : info.bytes < 4294967296)
    (blocks : 2 ≤ info.bytes / blkSize)
    (beyond : 4294967296 ≤ (1 + info.regions blkSize * (blkSize / 4)) * blkSize) :
    ∃ k, info.Starts blkSize k ∧ (k + blkSize / 4) * blkSize % 4294967296 < info.vsize ∧
      info.bytes ≤ (k + blkSize / 4) * blkSize := by
  have less : blkSize < 4294967296 := by
    rw [power]
    exact Nat.pow_lt_pow_right (by decide) bits
  rcases Nat.eq_zero_or_pos (blkSize / 4) with none | positive
  · rw [none, Nat.mul_zero, Nat.add_zero, Nat.one_mul] at beyond
    omega
  · have passed : (info.bytes / blkSize - 2) / (blkSize / 4) * (blkSize / 4) ≤
        info.bytes / blkSize - 2 := Nat.div_mul_le_self _ _
    rw [regions, Nat.succ_mul, ← Nat.add_assoc] at beyond
    obtain ⟨k, isLast⟩ : ∃ k, k = 1 + (info.bytes / blkSize - 2) / (blkSize / 4) * (blkSize / 4) :=
      ⟨_, rfl⟩
    rw [← isLast] at beyond
    have vsize : info.vsize = info.bytes := Nat.mod_eq_of_lt small
    have inside : k < info.bytes / blkSize := by omega
    have start : k * blkSize + blkSize ≤ info.bytes := by
      rw [← Nat.succ_mul]
      exact (Nat.mul_le_mul_right _ inside).trans (Nat.div_mul_le_self _ _)
    refine ⟨k, ⟨_, isLast, by rw [vsize]; exact inside⟩, ?_, by omega⟩
    rw [vsize, Nat.add_mul]
    rw [Nat.add_mul] at beyond
    rcases Nat.lt_or_ge 16 e with wide | narrow
    · -- the length of a region is a multiple of 2^32
      have whole : 4294967296 ∣ blkSize / 4 * blkSize := by
        obtain ⟨f, rfl⟩ : ∃ f, e = f + 2 := ⟨e - 2, by omega⟩
        have quarter : blkSize / 4 = 2 ^ f := by
          rw [power, pow_add]
          exact Nat.mul_div_cancel _ (by decide)
        rw [quarter, power, ← pow_add]
        exact Nat.pow_dvd_pow 2 (show 32 ≤ f + (f + 2) by omega)
      obtain ⟨turns, isWhole⟩ := whole
      rw [isWhole, Nat.add_mul_mod_self_left, Nat.mod_eq_of_lt (by omega)]
      omega
    · have blkBound : blkSize ≤ 65536 := by
        rw [power]
        exact Nat.pow_le_pow_right (by decide) narrow
      have region : blkSize / 4 * blkSize ≤ 16384 * 65536 := Nat.mul_le_mul (by omega) blkBound
      omega

/-- The arithmetic is exact exactly on cards of less than 4 GiB whose last storage region, taken
whole, ends below 4 GiB too. -/
theorem exact_iff {device : Device} {blkSize : UInt32} (accepted : (hfMkfs blkSize device).1 = 0) :
    device.info.Exact blkSize.toNat ↔ device.info.Below4GiB blkSize.toNat := by
  have power : isPowerOf2 blkSize.toNat = true := by
    by_contra other
    rw [Bool.not_eq_true] at other
    simp [hfMkfs, other] at accepted
  obtain ⟨e, isPower⟩ := exists_two_pow power
  have bits : e < 32 := by
    have less : blkSize.toNat < 4294967296 := blkSize.toNat_lt
    rw [isPower] at less
    exact (Nat.pow_lt_pow_iff_right (by decide)).mp (show 2 ^ e < 2 ^ 32 from less)
  constructor
  · intro exact
    have small : device.info.bytes < 4294967296 := by
      rw [← exact.vsize]
      exact Nat.mod_lt _ (by decide)
    refine ⟨small, ?_⟩
    by_contra beyond
    rw [not_or, Nat.not_le, Nat.not_lt] at beyond
    obtain ⟨k, starts, passes, outside⟩ := not_exact isPower bits small beyond.1 beyond.2
    exact absurd ((exact.next k starts).mp passes) (Nat.not_lt.mpr outside)
  · refine exact_of_below ?_
    rw [isPower]
    exact Nat.two_pow_pos e

theorem exact_iff_ramdisk : BlkInfo.Exact ⟨8, 128⟩ 128 := by
  have accepted : (hfMkfs 128 ⟨⟨8, 128⟩, fun _ => zeroBlock, none⟩).1 = 0 := by decide
  exact (exact_iff accepted).mpr (by unfold Below4GiB regions bytes; decide)

/-- A card of 4 GiB has a volume of no bytes, and on a card with one sector less the last map leads to
a block behind the end of the card. -/
theorem large_card_inexact :
    (∃ device, (hfMkfs 512 device).1 = 0 ∧ device.info.bytes = 4294967296 ∧ device.info.vsize = 0 ∧
      ¬device.info.Exact 512) ∧
    ∃ device, (hfMkfs 512 device).1 = 0 ∧ device.info.bytes = 4294966784 ∧
      ¬device.info.Exact 512 := by
  constructor
  · refine ⟨⟨⟨8388608, 512⟩, fun _ => zeroBlock, none⟩, by decide +kernel, by decide +kernel,
      by decide +kernel, fun exact => ?_⟩
    exact absurd exact.vsize (by decide +kernel)
  · refine ⟨⟨⟨8388607, 512⟩, fun _ => zeroBlock, none⟩, by decide +kernel, by decide +kernel,
      fun exact => ?_⟩
    have small : BlkInfo.bytes ⟨8388607, 512⟩ < 4294967296 := by decide +kernel
    have blocks : 2 ≤ BlkInfo.bytes ⟨8388607, 512⟩ / 512 := by decide +kernel
    obtain ⟨k, starts, passes, outside⟩ :=
      not_exact (show 512 = 2 ^ 9 from rfl) (by decide) small blocks (by decide +kernel)
    exact absurd ((exact.next k starts).mp passes) (Nat.not_lt.mpr outside)

end BlkInfo

end Hellfire

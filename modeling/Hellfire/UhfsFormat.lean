import Hellfire.UhfsLayout

/-!
What `hf_mkfs` writes, and the volume that `hf_mount` finds there: only the root directory, with no
entry.
-/

namespace Hellfire

open ByteMemory Chains

theorem cmbData_foldl {f : Nat → Nat} (small : ∀ i, f i < 4294967296) (places : List Nat)
    (block : Memory) (place : Nat) :
    cmbData (places.foldl (fun block i => setCmbData block i (f i)) block) place =
      if place ∈ places then f place else cmbData block place := by
  induction places generalizing block with
  | nil => simp
  | cons first rest ih =>
      rw [List.foldl_cons, ih, cmbData_setCmbData _ (small first)]
      by_cases inRest : place ∈ rest
      · simp [inRest]
      · by_cases here : place = first
        · simp [here]
        · simp [inRest, here]

theorem regionMap_entries (vsize blkSize : Nat) {k : Nat} (small : k + blkSize / 4 < 4294967296) :
    cmbData (regionMap vsize blkSize k) 0 =
        (if (k + blkSize / 4) * blkSize % 4294967296 < vsize then k + blkSize / 4 else uhfsEochblk) ∧
      ∀ i, 1 ≤ i → i < blkSize / 4 →
        cmbData (regionMap vsize blkSize k) i =
          if (k - 1 + i) * blkSize % 4294967296 < vsize - blkSize then uhfsFreeblk else uhfsFixdblk := by
  have written := fun block place => @cmbData_foldl (fun i =>
    if (k - 1 + i) * blkSize % 4294967296 < vsize - blkSize then uhfsFreeblk else uhfsFixdblk)
    (fun i => by split <;> decide) (List.range' 1 (blkSize / 4 - 1)) block place
  unfold regionMap
  constructor
  · rw [written, if_neg (by simp), cmbData_setCmbData _ ?_, if_pos rfl]
    split
    · exact small
    · decide
  · intro i low high
    rw [written, if_pos (List.mem_range'_1.mpr (by omega))]

structure Roomy (sb : FsSuperblock) : Prop extends FsSuperblock.Formatted sb where
  room : ∀ k, sb.IsMap k → (k + sb.mapEntries) * sb.blockSize < 4294967296

section Regions

variable {sb : FsSuperblock}

theorem Roomy.address (roomy : Roomy sb) {k place : Nat} (isMap : sb.IsMap k)
    (inside : place ≤ k + sb.mapEntries) :
    place * sb.blockSize % 4294967296 = place * sb.blockSize ∧
      (place * sb.blockSize < sb.nBlocks * sb.blockSize ↔ place < sb.nBlocks) ∧
      (place * sb.blockSize < sb.nBlocks * sb.blockSize - sb.blockSize ↔ place + 1 < sb.nBlocks) := by
  have positive : 0 < sb.blockSize := by
    have size := roomy.blockSize_eq.1
    have bounds := roomy.mapEntries_bounds
    omega
  have below : place * sb.blockSize ≤ (k + sb.mapEntries) * sb.blockSize := Nat.mul_le_mul_right _ inside
  have less : sb.nBlocks * sb.blockSize - sb.blockSize = (sb.nBlocks - 1) * sb.blockSize := by
    rw [Nat.sub_one_mul]
  refine ⟨Nat.mod_eq_of_lt (below.trans_lt (roomy.room k isMap)), Nat.mul_lt_mul_right positive, ?_⟩
  rw [less, Nat.mul_lt_mul_right positive]
  omega

theorem regionMap_spec (roomy : Roomy sb) {k : Nat} (isMap : sb.IsMap k) :
    cmbData (regionMap (sb.nBlocks * sb.blockSize) sb.blockSize k) 0 =
        (if k + sb.mapEntries < sb.nBlocks then k + sb.mapEntries else uhfsEochblk) ∧
      ∀ i, 1 ≤ i → i < sb.mapEntries →
        cmbData (regionMap (sb.nBlocks * sb.blockSize) sb.blockSize k) i =
          if k + i < sb.nBlocks then uhfsFreeblk else uhfsFixdblk := by
  have few := roomy.nBlocks_small
  have positive := isMap.1
  have inside := isMap.2.1
  have bounds := roomy.mapEntries_bounds
  have entries : sb.blockSize / 4 = sb.mapEntries := rfl
  obtain ⟨head, rest⟩ := regionMap_entries (sb.nBlocks * sb.blockSize) sb.blockSize
    (show k + sb.blockSize / 4 < 4294967296 by omega)
  rw [entries] at head rest
  constructor
  · obtain ⟨whole, less, _⟩ := roomy.address isMap le_rfl
    rw [head, whole]
    simp only [less]
  · intro i low high
    obtain ⟨whole, _, less⟩ := roomy.address isMap (show k - 1 + i ≤ k + sb.mapEntries by omega)
    have same : k - 1 + i + 1 = k + i := by omega
    rw [rest i low high, whole]
    simp only [less, same]

structure Written (sb : FsSuperblock) (k : Nat) (before after : Disk) : Prop where
  kept : ∀ place < k, after place = before place
  maps : ∀ place, k ≤ place → sb.IsMap place →
    after place = regionMap (sb.nBlocks * sb.blockSize) sb.blockSize place

theorem writeData_spec (roomy : Roomy sb) {k : Nat} (isMap : sb.IsMap k)
    (disk : Disk) (count : Nat) (within : count < sb.mapEntries) :
    ∃ disk', (List.range' 1 count).foldl (fun disk i =>
        if (k - 1 + i) * sb.blockSize % 4294967296 < sb.nBlocks * sb.blockSize - sb.blockSize then
          writeNext disk zeroBlock else disk) (disk, k + 1) = (disk', min (k + 1 + count) sb.nBlocks) ∧
      ∀ place ≤ k, disk' place = disk place := by
  have positive := isMap.1
  have inside := isMap.2.1
  induction count with
  | zero => exact ⟨disk, by simp; omega, fun _ _ => rfl⟩
  | succ count ih =>
      obtain ⟨disk', done, kept⟩ := ih (by omega)
      obtain ⟨whole, _, less⟩ :=
        roomy.address isMap (show k - 1 + (1 + count) ≤ k + sb.mapEntries by omega)
      rw [List.range'_1_concat, List.foldl_append, done, List.foldl_cons, List.foldl_nil, whole]
      simp only [less]
      split
      · rename_i more
        refine ⟨writeBlock disk' (min (k + 1 + count) sb.nBlocks) zeroBlock, ?_, ?_⟩
        · rw [writeNext, Prod.mk.injEq]
          exact ⟨rfl, by omega⟩
        · intro place low
          rw [writeBlock_other _ _ (by omega), kept place low]
      · refine ⟨disk', ?_, kept⟩
        rw [Prod.mk.injEq]
        exact ⟨rfl, by omega⟩

theorem writeRegions_spec (roomy : Roomy sb) (fuel : Nat) :
    ∀ k disk, sb.IsMap k → sb.nBlocks < fuel + k →
      Written sb k disk (writeRegions (sb.nBlocks * sb.blockSize) sb.blockSize sb.nBlocks fuel k
        (disk, k)).1 := by
  have bounds := roomy.mapEntries_bounds
  have entries : sb.blockSize / 4 = sb.mapEntries := rfl
  induction fuel with
  | zero =>
      intro k disk isMap enough
      have inside := isMap.2.1
      omega
  | succ fuel ih =>
      intro k disk isMap enough
      obtain ⟨disk', done, kept⟩ := writeData_spec roomy isMap
        (writeBlock disk k (regionMap (sb.nBlocks * sb.blockSize) sb.blockSize k)) (sb.mapEntries - 1)
        (by omega)
      obtain ⟨positive, inside, aligned⟩ := isMap
      have here : disk' k = regionMap (sb.nBlocks * sb.blockSize) sb.blockSize k := by
        rw [kept k le_rfl, writeBlock_same]
      have below : ∀ place < k, disk' place = disk place := by
        intro place less
        rw [kept place (Nat.le_of_lt less), writeBlock_other _ _ (Nat.ne_of_lt less)]
      -- between two maps there are only data blocks
      have between : ∀ place, k ≤ place → sb.IsMap place → place = k ∨ k + sb.mapEntries ≤ place := by
        intro place low other
        obtain ⟨blocks, isPlace⟩ : ∃ blocks, place - 1 = (k - 1) + sb.mapEntries * blocks := by
          obtain ⟨a, isA⟩ := Nat.dvd_of_mod_eq_zero aligned
          obtain ⟨b, isB⟩ := Nat.dvd_of_mod_eq_zero other.2.2
          refine ⟨b - a, ?_⟩
          rw [Nat.mul_sub]
          omega
        rcases Nat.eq_zero_or_pos blocks with rfl | more
        · exact Or.inl (by omega)
        · have least : sb.mapEntries * 1 ≤ sb.mapEntries * blocks := Nat.mul_le_mul_left _ more
          exact Or.inr (by omega)
      rw [writeRegions, if_pos inside, writeNext]
      simp only [entries]
      rw [done]
      by_cases more : k + sb.mapEntries < sb.nBlocks
      · have next : sb.IsMap (k + sb.mapEntries) := by
          refine ⟨by omega, more, ?_⟩
          rw [show k + sb.mapEntries - 1 = (k - 1) + sb.mapEntries by omega, Nat.add_mod_right, aligned]
        have stop : min (k + 1 + (sb.mapEntries - 1)) sb.nBlocks = k + sb.mapEntries := by omega
        rw [stop]
        obtain ⟨kept', maps⟩ := ih (k + sb.mapEntries) disk' next (by omega)
        constructor
        · intro place less
          rw [kept' place (by omega), below place less]
        · intro place low isMap
          rcases between place low isMap with rfl | high
          · rw [kept' place (by omega), here]
          · exact maps place high isMap
      · have stops : ∀ disk, writeRegions (sb.nBlocks * sb.blockSize) sb.blockSize sb.nBlocks fuel
            (k + sb.mapEntries) disk = disk := by
          intro disk
          cases fuel with
          | zero => rfl
          | succ fuel => rw [writeRegions, if_neg more]
        rw [stops]
        refine ⟨below, fun place low isMap => ?_⟩
        rcases between place low isMap with rfl | high
        · exact here
        · have within := isMap.2.1
          omega

end Regions

theorem superblock_fields {blkSize nBlocks : Nat} (size : blkSize < 4294967296)
    (blocks : nBlocks < 4294967296) :
    readWord (superblock blkSize nBlocks) 20 = blkSize ∧
      readWord (superblock blkSize nBlocks) 24 = nBlocks ∧
      readWord (superblock blkSize nBlocks) 52 = 1 ∧ readWord (superblock blkSize nBlocks) 56 = 2 := by
  have label : ∀ (block : Memory) (place : Nat), place + 4 ≤ 28 → readWord (writeBytes block 28
      [110, 101, 119, 32, 118, 111, 108, 117, 109, 101]) place = readWord block place := by
    intro block place below
    exact readWord_congr fun other low high => writeBytes_outside _ _ (by omega)
  unfold superblock
  refine ⟨?_, ?_, ?_, ?_⟩
  · rw [readWord_writeWord_apart _ _ (by omega), readWord_writeWord_apart _ _ (by omega),
      readWord_writeWord_apart _ _ (by omega), readWord_writeWord_apart _ _ (by omega),
      readWord_writeWord_apart _ _ (by omega), label _ _ (by omega),
      readWord_writeWord_apart _ _ (by omega), readWord_writeWord _ _ size]
  · rw [readWord_writeWord_apart _ _ (by omega), readWord_writeWord_apart _ _ (by omega),
      readWord_writeWord_apart _ _ (by omega), readWord_writeWord_apart _ _ (by omega),
      readWord_writeWord_apart _ _ (by omega), label _ _ (by omega), readWord_writeWord _ _ blocks]
  · rw [readWord_writeWord_apart _ _ (by omega), readWord_writeWord_apart _ _ (by omega),
      readWord_writeWord _ _ (by decide)]
  · rw [readWord_writeWord_apart _ _ (by omega), readWord_writeWord _ _ (by decide)]

def emptyNodes : List Node := [⟨[], true, [2]⟩]

theorem Written.layout {sb : FsSuperblock} {before after : Disk} (written : Written sb 1 before after)
    (roomy : Roomy sb) : Layout sb
      (sb.setFollower (writeBlock after 2 sb.emptyDirectory) 2 uhfsEochblk) emptyNodes := by
  have formatted := roomy.toFormatted
  have root := formatted.root_isData
  have bounds := formatted.mapEntries_bounds
  have mapped : sb.Mapped after := by
    constructor
    · intro k isMap
      rw [written.maps k isMap.1 isMap]
      exact (regionMap_spec roomy isMap).1
    · intro k isMap i low high behind
      rw [written.maps k isMap.1 isMap, (regionMap_spec roomy isMap).2 i low high,
        if_neg (by omega)]
      decide
  have free : ∀ place, sb.IsData place → sb.follower after place = uhfsFreeblk := by
    intro place data
    obtain ⟨isMap, low, high, whole⟩ := data.place formatted
    rw [FsSuperblock.follower, written.maps _ isMap.1 isMap,
      (regionMap_spec roomy isMap).2 _ low high, whole, if_pos data.2.1]
  have followers : ∀ place, sb.IsData place → sb.follower
      (sb.setFollower (writeBlock after 2 sb.emptyDirectory) 2 uhfsEochblk) place =
      if place = 2 then uhfsEochblk else uhfsFreeblk := by
    intro place data
    rw [FsSuperblock.follower_setFollower formatted root (by decide) data, Function.update_apply]
    split
    · rfl
    · rw [FsSuperblock.follower_writeBlock formatted _ root data, free place data]
  have empty : ∀ dir ∈ emptyNodes, ∀ block i,
      ¬Entry sb (sb.setFollower (writeBlock after 2 sb.emptyDirectory) 2 uhfsEochblk) dir block i := by
    intro dir isDir block i entry
    obtain rfl := List.mem_singleton.mp isDir
    obtain rfl := List.mem_singleton.mp entry.held
    have live := entry.live
    rw [slotAt, FsSuperblock.setFollower_data formatted root root, writeBlock_same,
      FsSuperblock.emptyDirectory_slot formatted entry.inside] at live
    cases live
  constructor
  · exact (mapped.writeBlock _ root).setFollower formatted root (by decide)
  · constructor
    · intro chain member
      obtain rfl := List.mem_singleton.mp member
      exact .single (followers 2 root)
    · exact List.nodup_singleton 2
    · intro place member
      obtain rfl := List.mem_singleton.mp member
      exact root
    · intro place data outside
      rw [followers place data, if_neg]
      rintro rfl
      exact outside (List.mem_singleton_self 2)
  · exact List.nodup_singleton _
  · exact ⟨_, List.mem_singleton_self _, rfl, rfl, by rw [formatted.root]; rfl⟩
  · exact fun dir isDir _ block i entry => absurd entry (empty dir isDir block i)
  · intro child isChild path name below
    obtain rfl := List.mem_singleton.mp isChild
    exact absurd below (List.append_ne_nil_of_right_ne_nil _ (List.cons_ne_nil _ _)).symm
  · exact fun dir isDir _ block i _ _ entry => absurd entry (empty dir isDir block i)
  · exact fun dir isDir _ block i entry => absurd entry (empty dir isDir block i)

def BlkInfo.volume (info : BlkInfo) : FsSuperblock :=
  ⟨info.bytesSector.toNat,
    info.numSectors.toNat * info.bytesSector.toNat % 4294967296 / info.bytesSector.toNat, 1, 2⟩

theorem isPowerOf2_two_pow (s : Nat) : isPowerOf2 (2 ^ s) = true := by
  rw [isPowerOf2, decide_eq_true_eq]
  exact ⟨(Nat.two_pow_pos s).ne', by rw [and_mask, Nat.mod_self]⟩

theorem exists_two_pow {x : Nat} (power : isPowerOf2 x = true) : ∃ s, x = 2 ^ s := by
  rw [isPowerOf2, decide_eq_true_eq] at power
  exact Nat.ne_zero_and_sub_one_eq_zero_iff_isPowerOfTwo.mp power

theorem BlkInfo.exponent (info : BlkInfo) (power : isPowerOf2 info.bytesSector.toNat = true)
    (least : 128 ≤ info.bytesSector.toNat) : ∃ s, 7 ≤ s ∧ s ≤ 15 ∧ info.bytesSector.toNat = 2 ^ s := by
  obtain ⟨s, size⟩ := exists_two_pow power
  have few : info.bytesSector.toNat < 65536 := info.bytesSector.toNat_lt
  refine ⟨s, ?_, ?_, size⟩
  · by_contra less
    have bound : 2 ^ s ≤ 2 ^ 6 := Nat.pow_le_pow_right (by decide) (by omega)
    omega
  · by_contra more
    have bound : 2 ^ 16 ≤ 2 ^ s := Nat.pow_le_pow_right (by decide) (by omega)
    omega

theorem format_written {device : Device} {blkSize : UInt32} (unmounted : device.ptr = none)
    (size : blkSize.toNat = device.info.bytesSector.toNat) (roomy : Roomy device.info.volume) :
    ∃ disk before after, hfMkfs blkSize device = (0, { device with disk }) ∧
      hfMount { device with disk } =
        (0, { device with disk, ptr := some device.info.volume }) ∧
      Written device.info.volume 1 before after ∧ disk = device.info.volume.setFollower
        (writeBlock after 2 device.info.volume.emptyDirectory) 2 uhfsEochblk := by
  have formatted := roomy.toFormatted
  have blockSize : device.info.volume.blockSize = device.info.bytesSector.toNat := rfl
  have nBlocks : device.info.volume.nBlocks =
    device.info.numSectors.toNat * device.info.bytesSector.toNat % 4294967296 /
      device.info.bytesSector.toNat := rfl
  obtain ⟨s, _, high, power⟩ := formatted.size
  have isPower : isPowerOf2 device.info.bytesSector.toNat = true := by
    rw [← blockSize, power]
    exact isPowerOf2_two_pow s
  have bytes : device.info.numSectors.toNat * device.info.bytesSector.toNat % 4294967296 =
      device.info.volume.nBlocks * device.info.volume.blockSize := by
    have whole : (2 : Nat) ^ s ∣ 4294967296 := Nat.pow_dvd_pow 2 (show s ≤ 32 by omega)
    have divides : device.info.bytesSector.toNat ∣
        device.info.numSectors.toNat * device.info.bytesSector.toNat % 4294967296 := by
      rw [← blockSize, power] at *
      exact (Nat.dvd_mod_iff whole).mpr (Nat.dvd_mul_left _ _)
    rw [nBlocks, blockSize, Nat.div_mul_cancel divides]
  have isMap : device.info.volume.IsMap 1 :=
    ⟨le_rfl, by have := formatted.blocks; omega, Nat.zero_mod _⟩
  have root := formatted.root_isData
  have bounds := formatted.mapEntries_bounds
  have blocks := formatted.blocks
  have small := formatted.nBlocks_small
  obtain ⟨_, place, index⟩ := isMap.place formatted (i := 1) le_rfl (by omega) (by omega)
  have written := writeRegions_spec roomy device.info.volume.nBlocks 1 (writeBlock device.disk 0
    (superblock device.info.volume.blockSize device.info.volume.nBlocks)) isMap (by omega)
  obtain ⟨disk, isDisk⟩ : ∃ disk, disk = device.info.volume.setFollower (writeBlock (writeRegions
    (device.info.volume.nBlocks * device.info.volume.blockSize) device.info.volume.blockSize
    device.info.volume.nBlocks device.info.volume.nBlocks 1 (writeBlock device.disk 0 (superblock
    device.info.volume.blockSize device.info.volume.nBlocks), 1)).1 2
    device.info.volume.emptyDirectory) 2 uhfsEochblk := ⟨_, rfl⟩
  have sector : disk 0 = superblock device.info.volume.blockSize device.info.volume.nBlocks := by
    rw [isDisk, FsSuperblock.setFollower, place, writeBlock_other _ _ (by decide),
      writeBlock_other _ _ (by decide), written.kept 0 (by decide), writeBlock_same]
  obtain ⟨first, second, third, fourth⟩ := superblock_fields
    (show device.info.volume.blockSize < 4294967296 by have := formatted.blockSize_eq.1; omega)
    (show device.info.volume.nBlocks < 4294967296 by omega)
  refine ⟨disk, _, _, ?_, ?_, written, isDisk⟩
  · rw [hfMkfs]
    simp only [unmounted, size, isPower, ne_eq, not_true_eq_false, if_false, Bool.true_eq_false,
      lt_self_iff_false, or_self, writeNext]
    rw [isDisk, FsSuperblock.setFollower, place, index, ← bytes]
    rfl
  · rw [hfMount]
    simp only [unmounted, isPower, ne_eq, not_true_eq_false, if_false, Bool.true_eq_false, sector]
    rw [first, second, third, fourth, blockSize, isPower]
    simp only [Bool.true_eq_false, lt_self_iff_false, or_self, if_false]
    rfl

theorem format_spec {device : Device} {blkSize : UInt32} (unmounted : device.ptr = none)
    (size : blkSize.toNat = device.info.bytesSector.toNat) (roomy : Roomy device.info.volume) :
    ∃ disk, hfMkfs blkSize device = (0, { device with disk }) ∧
      hfMount { device with disk } =
        (0, { device with disk, ptr := some device.info.volume }) ∧
      Layout device.info.volume disk emptyNodes := by
  obtain ⟨disk, before, after, made, mounted, written, rfl⟩ := format_written unmounted size roomy
  exact ⟨_, made, mounted, written.layout roomy⟩

end Hellfire

import Hellfire.UhfsFormat

/-!
The whole volume that `hf_mkfs` lays out: the chain of the cluster maps, what their entries say, and
the count of `hf_getfree` on it.
-/

namespace Hellfire

open ByteMemory Chains

structure LaidOut (sb : FsSuperblock) (disk : Disk) (count : Nat) : Prop where
  counted : ∀ j, j < count ↔ 1 + j * sb.mapEntries < sb.nBlocks
  chain : Linked (fun block => cmbData (disk block) 0) uhfsEochblk
    ((List.range count).map fun j => 1 + j * sb.mapEntries)
  entries : ∀ j < count, ∀ i, 1 ≤ i → i < sb.mapEntries →
    cmbData (disk (1 + j * sb.mapEntries)) i =
      if 1 + j * sb.mapEntries + i = 2 then uhfsEochblk
      else if 1 + j * sb.mapEntries + i < sb.nBlocks then uhfsFreeblk else uhfsFixdblk
  root : ∀ i < sb.dirEntries, isFree (disk 2) i = true

section Counting

variable {sb : FsSuperblock} {disk : Disk} {fuel count : Nat}

def freeIn (sb : FsSuperblock) (disk : Disk) (block : Nat) : Nat :=
  (List.range' 1 (sb.mapEntries - 1)).countP fun k => cmbData (disk block) k = uhfsFreeblk

theorem hfGetfreeFrom_linked {first : Nat} {rest : List Nat}
    (linked : Linked (fun block => cmbData (disk block) 0) uhfsEochblk (first :: rest))
    (inner : uhfsEochblk ∉ rest) (enough : rest.length < fuel) (freeblks : Nat) :
    sb.hfGetfreeFrom disk fuel first freeblks =
      .ok (freeblks + ((first :: rest).map (freeIn sb disk)).sum) := by
  induction rest generalizing first fuel freeblks with
  | nil =>
      obtain ⟨fuel, rfl⟩ := Nat.exists_eq_succ_of_ne_zero (Nat.ne_of_gt enough)
      have ends : cmbData (disk first) 0 = uhfsEochblk := linked.head_next
      rw [FsSuperblock.hfGetfreeFrom]
      simp only [ends, if_true, List.map_cons, List.map_nil, List.sum_cons, List.sum_nil, Nat.add_zero,
        freeIn]
  | cons follower rest ih =>
      obtain ⟨fuel, rfl⟩ := Nat.exists_eq_succ_of_ne_zero (Nat.ne_of_gt (Nat.zero_lt_of_lt enough))
      rw [List.length_cons] at enough
      rw [List.mem_cons, not_or] at inner
      have leads : cmbData (disk first) 0 = follower := linked.head_next
      rw [FsSuperblock.hfGetfreeFrom]
      simp only [leads, if_neg (Ne.symm inner.1)]
      rw [ih linked.rest inner.2 (by omega), List.map_cons, List.sum_cons, Nat.add_assoc]
      rfl

theorem countP_below (count bound start : Nat) :
    (List.range' start count).countP (fun i => decide (i < bound)) = min count (bound - start) := by
  induction count generalizing start with
  | zero => simp
  | succ count ih =>
      rw [List.range'_succ, List.countP_cons, ih]
      by_cases below : start < bound
      · simp only [below, decide_true, if_true]
        omega
      · simp only [below, decide_false, Bool.false_eq_true, if_false]
        omega

theorem sum_regions {entries blocks count : Nat} (positive : 0 < entries)
    (within : ∀ j < count, 1 + j * entries < blocks) :
    ((List.range count).map fun j => min (entries - 1) (blocks - 2 - j * entries)).sum + count =
      min (count * entries) (blocks - 1) := by
  induction count with
  | zero => simp
  | succ count ih =>
      have here := within count (by omega)
      have before := ih fun j less => within j (by omega)
      rw [List.range_succ, List.map_append, List.sum_append, Nat.succ_mul]
      simp only [List.map_cons, List.map_nil, List.sum_cons, List.sum_nil]
      omega

theorem LaidOut.freeIn (laid : LaidOut sb disk count) {j : Nat} (inside : j < count)
    (wide : 2 ≤ sb.mapEntries) (blocks : 3 ≤ sb.nBlocks) :
    freeIn sb disk (1 + j * sb.mapEntries) + (if j = 0 then 1 else 0) =
      min (sb.mapEntries - 1) (sb.nBlocks - 2 - j * sb.mapEntries) := by
  have here := (laid.counted j).mp inside
  have means : ∀ i ∈ List.range' 1 (sb.mapEntries - 1),
      (cmbData (disk (1 + j * sb.mapEntries)) i = uhfsFreeblk ↔
        1 + j * sb.mapEntries + i ≠ 2 ∧ 1 + j * sb.mapEntries + i < sb.nBlocks) := by
    intro i member
    rw [List.mem_range'_1] at member
    rw [laid.entries j inside i member.1 (by omega)]
    split
    · rename_i isRoot
      exact iff_of_false (by decide) fun both => both.1 isRoot
    · rename_i other
      split
      · rename_i below
        exact iff_of_true rfl ⟨other, below⟩
      · rename_i beyond
        exact iff_of_false (by decide) fun both => beyond both.2
  unfold Hellfire.freeIn
  by_cases first : j = 0
  · subst first
    rw [Nat.zero_mul, Nat.add_zero] at means ⊢
    obtain ⟨entries, isEntries⟩ : ∃ entries, sb.mapEntries - 1 = entries + 1 :=
      ⟨sb.mapEntries - 2, by omega⟩
    rw [isEntries, List.range'_succ] at means ⊢
    have root : ¬cmbData (disk 1) 1 = uhfsFreeblk := fun free =>
      ((means 1 List.mem_cons_self).mp free).1 rfl
    have others : (List.range' 2 entries).countP (fun k => decide (cmbData (disk 1) k = uhfsFreeblk)) =
        (List.range' 2 entries).countP fun i => decide (i < sb.nBlocks - 1) := by
      refine List.countP_congr fun i member => ?_
      simp only [decide_eq_true_eq]
      rw [means i (List.mem_cons_of_mem _ member)]
      rw [List.mem_range'_1] at member
      omega
    rw [List.countP_cons_of_neg (by simpa using root), others, countP_below, if_pos rfl]
    omega
  · have passed : sb.mapEntries ≤ j * sb.mapEntries := Nat.le_mul_of_pos_left _ (Nat.pos_of_ne_zero first)
    have same : (List.range' 1 (sb.mapEntries - 1)).countP
        (fun k => decide (cmbData (disk (1 + j * sb.mapEntries)) k = uhfsFreeblk)) =
        (List.range' 1 (sb.mapEntries - 1)).countP
          fun i => decide (i < sb.nBlocks - 1 - j * sb.mapEntries) := by
      refine List.countP_congr fun i member => ?_
      simp only [decide_eq_true_eq]
      rw [means i member]
      omega
    rw [same, countP_below, if_neg first]
    omega

theorem LaidOut.positive (laid : LaidOut sb disk count) (blocks : 2 ≤ sb.nBlocks) : 0 < count := by
  rw [laid.counted 0]
  omega

theorem LaidOut.hfGetfree (laid : LaidOut sb disk count) (formatted : sb.Formatted)
    (enough : count ≤ fuel) : sb.hfGetfree fuel disk = .ok (sb.nBlocks - 2 - count) := by
  have blocks := formatted.blocks
  have bounds := formatted.mapEntries_bounds
  have small := formatted.nBlocks_small
  obtain ⟨others, rfl⟩ := Nat.exists_eq_succ_of_ne_zero (Nat.ne_of_gt (laid.positive (by omega)))
  have chain := laid.chain
  have parts : (List.range (others + 1)).map (fun j => 1 + j * sb.mapEntries) =
      1 :: (List.range others).map fun j => 1 + (j + 1) * sb.mapEntries := by
    rw [List.range_succ_eq_map, List.map_cons, List.map_map, Nat.zero_mul, Nat.add_zero]
    rfl
  rw [Nat.succ_eq_add_one, parts] at chain
  have inner : uhfsEochblk ∉ (List.range others).map fun j => 1 + (j + 1) * sb.mapEntries := by
    intro member
    obtain ⟨j, inside, same⟩ := List.mem_map.mp member
    have below := (laid.counted (j + 1)).mp (by rw [List.mem_range] at inside; omega)
    unfold uhfsEochblk at same
    omega
  have total : (((List.range (others + 1)).map fun j => 1 + j * sb.mapEntries).map
      (Hellfire.freeIn sb disk)).sum + 1 = ((List.range (others + 1)).map fun j =>
        min (sb.mapEntries - 1) (sb.nBlocks - 2 - j * sb.mapEntries)).sum := by
    have first := laid.freeIn (j := 0) (by omega) (by omega) blocks
    have rest : (List.range others).map
        (Hellfire.freeIn sb disk ∘ fun j => 1 + (j + 1) * sb.mapEntries) =
        (List.range others).map
          ((fun j => min (sb.mapEntries - 1) (sb.nBlocks - 2 - j * sb.mapEntries)) ∘ Nat.succ) := by
      refine List.map_congr_left fun j inside => ?_
      rw [List.mem_range] at inside
      exact laid.freeIn (j := j + 1) (by omega) (by omega) blocks
    rw [parts, List.range_succ_eq_map, List.map_cons, List.map_cons, List.map_map, List.map_map, rest,
      List.sum_cons, List.sum_cons, ← first, if_pos rfl, Nat.zero_mul, Nat.add_zero]
    exact Nat.add_right_comm _ _ _
  have regions := sum_regions (by omega) fun j (less : j < others + 1) => (laid.counted j).mp less
  have last : ¬1 + (others + 1) * sb.mapEntries < sb.nBlocks := fun below =>
    absurd ((laid.counted (others + 1)).mpr below) (Nat.lt_irrefl _)
  have short : ((List.range others).map fun j => 1 + (j + 1) * sb.mapEntries).length < fuel := by
    rw [List.length_map, List.length_range]
    omega
  rw [FsSuperblock.hfGetfree, formatted.cmb, hfGetfreeFrom_linked chain inner short, ← parts,
    Nat.zero_add]
  congr 1
  omega

end Counting

section Formatting

variable {sb : FsSuperblock} {before after : Disk}

theorem Written.laidOut (written : Written sb 1 before after) (roomy : Roomy sb) :
    LaidOut sb (sb.setFollower (writeBlock after 2 sb.emptyDirectory) 2 uhfsEochblk)
      ((sb.nBlocks - 2) / sb.mapEntries + 1) := by
  have formatted := roomy.toFormatted
  have root := formatted.root_isData
  have blocks := formatted.blocks
  have bounds := formatted.mapEntries_bounds
  have first : sb.IsMap 1 := ⟨le_rfl, by omega, Nat.zero_mod _⟩
  obtain ⟨_, place, index⟩ := first.place formatted (i := 1) le_rfl (by omega) (by omega)
  have counted : ∀ j, j < (sb.nBlocks - 2) / sb.mapEntries + 1 ↔ 1 + j * sb.mapEntries < sb.nBlocks := by
    intro j
    rw [Nat.lt_succ_iff, Nat.le_div_iff_mul_le (by omega)]
    omega
  have isMap : ∀ j, 1 + j * sb.mapEntries < sb.nBlocks → sb.IsMap (1 + j * sb.mapEntries) :=
    fun j below => ⟨by omega, below, by rw [Nat.add_sub_cancel_left, Nat.mul_mod_left]⟩
  have mapped := (written.layout roomy).mapped
  refine ⟨counted, ?_, ?_, ?_⟩
  · rw [List.range_eq_range']
    refine linked_range' (fun j _ high => ?_) ?_
    · have below := (counted (j + 1)).mp (by omega)
      rw [mapped.heads _ (isMap j (by rw [Nat.succ_mul] at below; omega)), if_pos]
      · rw [Nat.succ_mul, Nat.add_assoc]
      · rw [Nat.succ_mul] at below
        omega
    · rw [Nat.zero_add]
      have below := (counted ((sb.nBlocks - 2) / sb.mapEntries)).mp (Nat.lt_succ_self _)
      have final : ¬1 + ((sb.nBlocks - 2) / sb.mapEntries + 1) * sb.mapEntries < sb.nBlocks :=
        fun more => absurd ((counted _).mpr more) (Nat.lt_irrefl _)
      rw [mapped.heads _ (isMap _ below), if_neg]
      rw [Nat.succ_mul] at final
      omega
  · intro j inside i low high
    have below := (counted j).mp inside
    have wrote := (regionMap_spec roomy (isMap j below)).2 i low high
    rw [← written.maps _ (isMap j below).1 (isMap j below)] at wrote
    rw [FsSuperblock.setFollower, place, index]
    by_cases here : j = 0
    · subst here
      rw [Nat.zero_mul, Nat.add_zero] at wrote ⊢
      rw [writeBlock_same, cmbData_setCmbData _ (by decide), writeBlock_other _ _ (by decide), wrote]
      by_cases isRoot : i = 1
      · rw [if_pos isRoot, if_pos (by omega)]
      · have other : ¬1 + i = 2 := by omega
        rw [if_neg isRoot, if_neg other]
    · have passed : sb.mapEntries ≤ j * sb.mapEntries :=
        Nat.le_mul_of_pos_left _ (Nat.pos_of_ne_zero here)
      have other : ¬1 + j * sb.mapEntries + i = 2 := by omega
      rw [writeBlock_other _ _ (by omega), writeBlock_other _ _ (by omega), wrote, if_neg other]
  · intro i inside
    rw [FsSuperblock.setFollower_data formatted root root, writeBlock_same]
    have empty := congrArg Slot.attributes (FsSuperblock.emptyDirectory_slot formatted inside)
    simp only [Slot.ofBlock, attributes] at empty
    rw [isFree, empty]
    rfl

theorem BlkInfo.volume_nBlocks {info : BlkInfo} (positive : 0 < info.bytesSector.toNat)
    (bytes : info.numSectors.toNat * info.bytesSector.toNat < 4294967296) :
    info.volume.nBlocks = info.numSectors.toNat := by
  rw [BlkInfo.volume, Nat.mod_eq_of_lt bytes, Nat.mul_div_cancel _ positive]

/-- A device whose addresses, those behind its end in the last storage region included, fit into 32
bits. -/
theorem BlkInfo.roomy {info : BlkInfo} (power : isPowerOf2 info.bytesSector.toNat = true)
    (least : 128 ≤ info.bytesSector.toNat) (sectors : 3 ≤ info.numSectors.toNat)
    (room : info.numSectors.toNat * info.bytesSector.toNat +
      info.bytesSector.toNat * info.bytesSector.toNat / 4 < 4294967296) : Roomy info.volume := by
  obtain ⟨s, low, high, size⟩ := info.exponent power least
  obtain ⟨t, rfl⟩ : ∃ t, s = t + 2 := ⟨s - 2, by omega⟩
  have blockSize : info.volume.blockSize = info.bytesSector.toNat := rfl
  have blocks := BlkInfo.volume_nBlocks (by omega) (show info.numSectors.toNat *
    info.bytesSector.toNat < 4294967296 by omega)
  obtain ⟨entries, isEntries⟩ : ∃ entries, info.bytesSector.toNat = 4 * entries :=
    ⟨2 ^ t, by rw [size, pow_add, Nat.mul_comm]; rfl⟩
  have mapEntries : info.volume.mapEntries = entries := by
    rw [FsSuperblock.mapEntries, blockSize, isEntries, Nat.mul_div_cancel_left _ (by decide)]
  have square : info.bytesSector.toNat * info.bytesSector.toNat / 4 =
      entries * info.bytesSector.toNat := by
    rw [isEntries, Nat.mul_assoc, Nat.mul_div_cancel_left _ (by decide)]
  rw [square] at room
  refine { size := ⟨t + 2, by omega, high, blockSize.trans size⟩, blocks := by omega, bytes := ?_,
           cmb := rfl, root := rfl, room := ?_ }
  · rw [blocks, blockSize]
    omega
  · rintro k ⟨_, inside, _⟩
    rw [blocks] at inside
    rw [mapEntries, blockSize]
    calc (k + entries) * info.bytesSector.toNat
        ≤ (info.numSectors.toNat + entries) * info.bytesSector.toNat :=
          Nat.mul_le_mul_right _ (by omega)
      _ = info.numSectors.toNat * info.bytesSector.toNat + entries * info.bytesSector.toNat :=
          Nat.add_mul _ _ _
      _ < 4294967296 := room

/-- `hf_mkfs` lays out the whole device, and `hf_getfree` on the mounted volume finds all blocks free
that hold neither a map nor the superblock nor the root directory. -/
theorem hfMkfs_layout {device : Device} {blkSize : UInt32} (unmounted : device.ptr = none)
    (size : blkSize.toNat = device.info.bytesSector.toNat)
    (power : isPowerOf2 device.info.bytesSector.toNat = true)
    (least : 128 ≤ device.info.bytesSector.toNat) (sectors : 3 ≤ device.info.numSectors.toNat)
    (room : device.info.numSectors.toNat * device.info.bytesSector.toNat +
      device.info.bytesSector.toNat * device.info.bytesSector.toNat / 4 < 4294967296) :
    ∃ sb disk count, hfMkfs blkSize device = (0, { device with disk }) ∧
      hfMount { device with disk } = (0, { device with disk, ptr := some sb }) ∧
      sb.blockSize = device.info.bytesSector.toNat ∧ sb.nBlocks = device.info.numSectors.toNat ∧
      LaidOut sb disk count ∧
      ∀ fuel, count ≤ fuel →
        sb.hfGetfree fuel disk = .ok (device.info.numSectors.toNat - 2 - count) := by
  have roomy := BlkInfo.roomy power least sectors room
  have blocks := BlkInfo.volume_nBlocks (by omega) (show device.info.numSectors.toNat *
    device.info.bytesSector.toNat < 4294967296 by omega)
  obtain ⟨disk, before, after, made, mounted, written, rfl⟩ := format_written unmounted size roomy
  have laid := written.laidOut roomy
  refine ⟨device.info.volume, _, _, made, mounted, rfl, blocks, laid, fun fuel enough => ?_⟩
  rw [laid.hfGetfree roomy.toFormatted enough, blocks]

/-- A device of 40 sectors has two maps and 36 free blocks. -/
theorem hfMkfs_layout_forty :
    ∃ sb disk, hfMkfs 128 ⟨⟨40, 128⟩, fun _ => zeroBlock, none⟩ = (0, ⟨⟨40, 128⟩, disk, none⟩) ∧
      LaidOut sb disk 2 ∧ sb.hfGetfree 2 disk = .ok 36 := by
  have unmounted : (⟨⟨40, 128⟩, fun _ => zeroBlock, none⟩ : Device).ptr = none := rfl
  have same : (128 : UInt32).toNat = (128 : UInt16).toNat := by decide
  obtain ⟨sb, disk, count, made, _, size, blocks, laid, getfree⟩ :=
    hfMkfs_layout unmounted same (by decide) (by decide) (by decide) (by decide)
  have entries : sb.mapEntries = 32 := by
    rw [FsSuperblock.mapEntries, size]
    rfl
  have sectors : sb.nBlocks = 40 := blocks
  have two : count = 2 := by
    have second := laid.counted 1
    have third := laid.counted 2
    omega
  subst two
  exact ⟨sb, disk, made, laid, getfree 2 le_rfl⟩

end Formatting

end Hellfire

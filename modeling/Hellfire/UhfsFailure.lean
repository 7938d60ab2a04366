import Hellfire.Library.Machine
import Hellfire.UhfsVolumeRuns

/-!
A creation that fails leaves every block as it was, unless it has given the last free block to the
full directory before.
-/

namespace Hellfire

open ByteMemory Chains Machine

variable {sb : FsSuperblock} {disk disk' : Disk}

inductive FullFrom (sb : FsSuperblock) (disk : Disk) : Nat → Prop
  | last {block} : (∀ i < sb.dirEntries, isFree (disk block) i = false) →
      sb.follower disk block = uhfsEochblk → FullFrom sb disk block
  | next {block} : (∀ i < sb.dirEntries, isFree (disk block) i = false) →
      sb.follower disk block ≠ uhfsEochblk → FullFrom sb disk (sb.follower disk block) →
      FullFrom sb disk block

theorem FullFrom.full {block : Nat} (full : FullFrom sb disk block) :
    ∀ i < sb.dirEntries, isFree (disk block) i = false := by
  cases full with
  | last full _ => exact full
  | next full _ _ => exact full

def Exhausts (sb : FsSuperblock) (fuel : Nat) (disk : Disk) (path : CString) : Prop :=
  ∃ found, sb.searchdirectory fuel disk path = .ok found ∧ found.result = 0 ∧
    FullFrom sb disk found.lblock ∧ ∃ block, sb.IsData block ∧ sb.follower disk block = uhfsFreeblk

theorem find_isFree (sb : FsSuperblock) (disk : Disk) (block : Nat) :
    (∃ i, (List.range sb.dirEntries).find? (fun i => isFree (disk block) i) = some i ∧
      i < sb.dirEntries ∧ isFree (disk block) i = true) ∨
    (List.range sb.dirEntries).find? (fun i => isFree (disk block) i) = none ∧
      ∀ i < sb.dirEntries, isFree (disk block) i = false := by
  cases found : (List.range sb.dirEntries).find? fun i => isFree (disk block) i with
  | some i =>
      obtain ⟨empty, inside, _⟩ := List.find?_range_eq_some.mp found
      exact Or.inl ⟨i, rfl, List.mem_range.mp inside, empty⟩
  | none =>
      refine Or.inr ⟨rfl, fun i inside => ?_⟩
      simpa using List.find?_range_eq_none.mp found i inside

section Failed

variable {attributes : UInt8} {fresh : Memory} {name : Name} {fuel : Nat}

/-- In a block with an empty entry, a creation fails only for want of a block, and changes nothing. -/
theorem addEntry_failed_place {rounds chainBlk block i : Nat}
    (found : (List.range sb.dirEntries).find? (fun i => isFree (disk block) i) = some i)
    (failed : sb.addEntry attributes fresh name fuel (rounds + 1) disk chainBlk block = .ok (-1, disk')) :
    ∃ k, sb.getfreeblock fuel disk = .ok (k, disk') ∧ k = 0 := by
  rw [FsSuperblock.addEntry, found] at failed
  obtain ⟨⟨k, disk₁⟩, got, failed⟩ := ok_of_bind failed
  simp only at failed
  by_cases zero : k = 0
  · rw [if_pos zero] at failed
    obtain ⟨_, rfl⟩ := Prod.mk.inj (Except.ok.inj failed)
    exact ⟨k, got, zero⟩
  · rw [if_neg zero] at failed
    obtain ⟨contra, _⟩ := Prod.mk.inj (Except.ok.inj failed)
    cases contra

theorem getfreeblockFrom_zero {chainBlk : Nat}
    (got : sb.getfreeblockFrom disk fuel chainBlk = .ok (0, disk')) : disk' = disk := by
  induction fuel generalizing chainBlk with
  | zero => cases got
  | succ fuel ih =>
      rw [FsSuperblock.getfreeblockFrom] at got
      split at got
      · exact (Prod.mk.inj (Except.ok.inj got)).2.symm
      · simp only at got
        split at got
        · rename_i j found
          have low := (List.mem_range'_1.mp (List.mem_of_find?_eq_some found)).1
          have zero := (Prod.mk.inj (Except.ok.inj got)).1
          omega
        · exact ih got

theorem mapBlock_aligned (formatted : sb.Formatted) (block : Nat) :
    (sb.mapBlock block - 1) % sb.mapEntries = 0 := by
  obtain ⟨k, _, high, entries, _⟩ := formatted.entries
  have small : (block + 4294967295) % 4294967296 < 4294967296 := Nat.mod_lt _ (by decide)
  rw [FsSuperblock.mapBlock, entries, and_not_mask (by omega) small, Nat.add_sub_cancel]
  exact Nat.sub_mod_eq_zero_of_mod_eq (Nat.mod_mod _ _).symm

theorem addEntry_failed_extend (formatted : sb.Formatted) {rounds block k : Nat}
    (ends : sb.follower disk block = uhfsEochblk) (isData : sb.IsData k)
    (free : sb.follower disk k = uhfsFreeblk)
    (failed : sb.addEntry attributes fresh name fuel rounds
      (sb.setFollower (sb.allocate disk k sb.emptyDirectory) block k) (sb.mapBlock k) k =
        .ok (-1, disk')) : disk' ≠ disk := by
  obtain ⟨disk₃, isDisk₃⟩ : ∃ disk₃, disk₃ =
      sb.setFollower (sb.allocate disk k sb.emptyDirectory) block k := ⟨_, rfl⟩
  rw [← isDisk₃] at failed
  have notMap : k ≠ sb.mapBlock block := by
    rintro rfl
    exact isData.2.2 (mapBlock_aligned formatted block)
  have contents : disk₃ k = sb.emptyDirectory := by
    rw [isDisk₃, FsSuperblock.setFollower, writeBlock_other _ _ notMap, allocate_same]
  have first : (List.range sb.dirEntries).find? (fun i => isFree (disk₃ k) i) = some 0 := by
    rw [List.find?_range_eq_some, contents]
    refine ⟨?_, List.mem_range.mpr formatted.dirEntries_pos, fun j less => absurd less (Nat.not_lt_zero j)⟩
    exact emptyDirectory_isFree formatted formatted.dirEntries_pos
  have taken : sb.follower disk₃ k = uhfsEochblk := by
    have allocated : sb.follower (sb.allocate disk k sb.emptyDirectory) k = uhfsEochblk := by
      rw [follower_allocate formatted isData isData, Function.update_self]
    rw [isDisk₃, FsSuperblock.follower, FsSuperblock.setFollower]
    by_cases same : sb.mapBlock k = sb.mapBlock block
    · rw [same, writeBlock_same, cmbData_setCmbData _ (isData.small formatted), if_neg, ← same]
      · exact allocated
      · intro index
        rw [FsSuperblock.follower, same, index] at free
        rw [FsSuperblock.follower, free] at ends
        exact absurd ends (by decide)
    · rw [writeBlock_other _ _ same]
      exact allocated
  cases rounds with
  | zero => cases failed
  | succ rounds =>
      obtain ⟨k', got, rfl⟩ := addEntry_failed_place first failed
      rw [getfreeblockFrom_zero got]
      intro same
      rw [same, free] at taken
      exact absurd taken (by decide)

theorem addEntry_failed_iff (formatted : sb.Formatted) (mapped : sb.Mapped disk)
    (enough : sb.nBlocks ≤ fuel) (rounds : Nat) : ∀ block,
      sb.addEntry attributes fresh name fuel rounds disk (sb.mapBlock block) block = .ok (-1, disk') →
      (disk' = disk ↔ ¬(FullFrom sb disk block ∧
        ∃ block, sb.IsData block ∧ sb.follower disk block = uhfsFreeblk)) := by
  induction rounds with
  | zero => exact fun _ failed => by cases failed
  | succ rounds ih =>
      intro block failed
      obtain ⟨i, found, inside, empty⟩ | ⟨found, full⟩ := find_isFree sb disk block
      · obtain ⟨k, got, rfl⟩ := addEntry_failed_place found failed
        refine iff_of_true (getfreeblockFrom_zero got) fun both => ?_
        have used := both.1.full i inside
        rw [empty] at used
        cases used
      · rw [FsSuperblock.addEntry, found] at failed
        simp only [bind, Except.bind] at failed
        by_cases ends : sb.follower disk block = uhfsEochblk
        · rw [FsSuperblock.follower] at ends
          rw [if_neg (not_not.mpr ends)] at failed
          obtain ⟨k, isData, isFree, got⟩ | ⟨none, got⟩ :=
            FsSuperblock.getfreeblock_spec formatted mapped enough
          · rw [got] at failed
            simp only [if_neg isData.ne_zero] at failed
            exact iff_of_false (addEntry_failed_extend formatted ends isData isFree failed)
              (not_not.mpr ⟨.last full ends, k, isData, isFree⟩)
          · rw [got] at failed
            simp only [if_true] at failed
            refine iff_of_true (Prod.mk.inj (Except.ok.inj failed)).2.symm fun both => ?_
            obtain ⟨_, k, isData, isFree⟩ := both
            exact none k isData isFree
        · rw [FsSuperblock.follower] at ends
          rw [if_pos ends] at failed
          rw [ih _ failed]
          refine not_congr (and_congr_left fun _ => ⟨fun later => .next full ends later, fun whole => ?_⟩)
          cases whole with
          | last _ isEnd => exact absurd isEnd ends
          | next _ _ later => exact later

end Failed

def UhfsOp.Creates (op : UhfsOp) : Prop := ∃ path, op = .mkdir path ∨ op = .create path

instance (op : UhfsOp) : Decidable op.Creates :=
  match op with
  | .mkdir path => .isTrue ⟨path, Or.inl rfl⟩
  | .create path => .isTrue ⟨path, Or.inr rfl⟩
  | .unlink _ | .rmdir _ => .isFalse nofun

/-- A creation that fails changes nothing, unless it takes the last block for a full directory. -/
theorem perform_failed_iff (formatted : sb.Formatted) (mapped : sb.Mapped disk) {fuel : Nat}
    (enough : sb.nBlocks ≤ fuel) {op : UhfsOp} (creates : op.Creates)
    (failed : sb.perform fuel disk op = .ok (-1, disk')) :
    (∀ block, disk' block = disk block) ↔ ¬Exhausts sb fuel disk op.path := by
  have inserted : ∀ attributes fresh path, sb.insert attributes fresh fuel disk path = .ok (-1, disk') →
      (disk' = disk ↔ ¬Exhausts sb fuel disk path) := by
    intro attributes fresh path failed
    unfold Exhausts
    rw [FsSuperblock.insert] at failed
    obtain ⟨found, search, failed⟩ := ok_of_bind failed
    by_cases zero : found.result = 0
    · rw [if_neg (not_not.mpr zero)] at failed
      rw [addEntry_failed_iff formatted mapped enough fuel found.lblock failed]
      refine not_congr ⟨fun both => ⟨found, search, zero, both⟩, ?_⟩
      rintro ⟨other, same, _, both⟩
      obtain rfl := Except.ok.inj (search.symm.trans same)
      exact both
    · rw [if_pos zero] at failed
      refine iff_of_true (Prod.mk.inj (Except.ok.inj failed)).2.symm ?_
      rintro ⟨other, same, isZero, _⟩
      obtain rfl := Except.ok.inj (search.symm.trans same)
      exact zero isZero
  rw [← funext_iff]
  obtain ⟨path, rfl | rfl⟩ := creates
  · exact inserted _ _ path failed
  · exact inserted _ _ path failed

/-- On a volume after calls that are in order, a creation that fails leaves every block as it was exactly
if it does not take the last block for a full directory. -/
theorem failed_unchanged_iff {device : Device} {blkSize : UInt32} {fuel : Nat}
    (unmounted : device.ptr = none) (size : blkSize.toNat = device.info.bytesSector.toNat)
    (roomy : Roomy device.info.volume) (enough : device.info.volume.nBlocks ≤ fuel) :
    ∃ formatted mounted, hfMkfs blkSize device = (0, formatted) ∧ hfMount formatted = (0, mounted) ∧
      mounted.ptr = some device.info.volume ∧
      ∀ disk, OrderlyRun device.info.volume fuel mounted.disk disk →
        ∀ op : UhfsOp, op.Creates → ∀ disk', device.info.volume.perform fuel disk op = .ok (-1, disk') →
          ((∀ block, disk' block = disk block) ↔ ¬Exhausts device.info.volume fuel disk op.path) := by
  have formatted := roomy.toFormatted
  obtain ⟨disk, made, mounted, layout⟩ := format_spec unmounted size roomy
  refine ⟨_, _, made, mounted, rfl, fun disk run op creates disk' failed => ?_⟩
  obtain ⟨⟨nodes, volume⟩, _⟩ := run.volume formatted enough (emptyVolume layout)
  exact perform_failed_iff formatted volume.layout.mapped enough creates failed

/-- The file `/a` is created twice. -/
theorem failed_unchanged_twice : ∃ formatted mounted disk disk',
    hfMkfs 128 ⟨⟨8, 128⟩, fun _ => zeroBlock, none⟩ = (0, formatted) ∧ hfMount formatted = (0, mounted) ∧
      (BlkInfo.volume ⟨8, 128⟩).tidily 8 mounted.disk [.node (.create fileA)] = some disk ∧
      (BlkInfo.volume ⟨8, 128⟩).perform 8 disk (.create fileA) = .ok (-1, disk') ∧
      ∀ block, disk' block = disk block := by
  obtain ⟨formatted, mounted, made, isMounted, _, unchanged⟩ := failed_unchanged_iff
    (show (⟨⟨8, 128⟩, fun _ => zeroBlock, none⟩ : Device).ptr = none from rfl)
    (show (128 : UInt32).toNat = (128 : UInt16).toNat by decide) eightBlocks_oneRegion.roomy
    (show (BlkInfo.volume ⟨8, 128⟩).nBlocks ≤ 8 by decide)
  obtain ⟨disk, _, done, passed, run, _⟩ := tidily_eightBlocks [.node (.create fileA)]
    (fun disk =>
      passes ((BlkInfo.volume ⟨8, 128⟩).perform 8 disk (.create fileA)) (fun again => again.1 = -1) &&
        passes ((BlkInfo.volume ⟨8, 128⟩).searchdirectory 8 disk fileA) fun found => found.result ≠ 0)
    made isMounted (by decide +kernel)
  obtain ⟨failed, searched⟩ := Bool.and_eq_true_iff.mp passed
  obtain ⟨⟨result, disk'⟩, again, failed⟩ := ok_of_passes failed
  obtain ⟨found, search, present⟩ := ok_of_passes searched
  obtain rfl : result = -1 := of_decide_eq_true failed
  refine ⟨formatted, mounted, disk, disk', made, isMounted, done, again, ?_⟩
  refine (unchanged disk run _ ⟨fileA, Or.inr rfl⟩ disk' again).mpr ?_
  rintro ⟨other, same, zero, _⟩
  obtain rfl := Except.ok.inj (search.symm.trans same)
  exact of_decide_eq_true present zero

/-- The third file of a volume of six blocks: the root directory is full, and one block is left. -/
theorem create_takes_last : ∃ (device next : Device),
    (hfMount (hfMkfs 128 ⟨⟨6, 128⟩, fun _ => zeroBlock, none⟩).2).2.runs 6
        [.create ⟨[47, 97], by decide⟩, .create ⟨[47, 98], by decide⟩] = .ok ([0, 0], device) ∧
      device.perform 6 (.create ⟨[47, 99], by decide⟩) = .ok (-1, next) ∧
      ∃ block, next.disk block ≠ device.disk block := by
  have checked : passes ((hfMount (hfMkfs 128 ⟨⟨6, 128⟩, fun _ => zeroBlock, none⟩).2).2.runs 6
      [.create ⟨[47, 97], by decide⟩, .create ⟨[47, 98], by decide⟩])
      (fun run => passes (run.2.perform 6 (.create ⟨[47, 99], by decide⟩)) fun ran =>
        run.1 = [0, 0] && ran.1 = -1 && ran.2.disk 1 4 ≠ run.2.disk 1 4) = true := by
    decide +kernel
  obtain ⟨⟨results, device⟩, ran, checked⟩ := ok_of_passes checked
  obtain ⟨⟨result, next⟩, performed, checked⟩ := ok_of_passes checked
  simp only [Bool.and_eq_true, decide_eq_true_eq] at checked
  obtain ⟨⟨rfl, rfl⟩, differs⟩ := checked
  exact ⟨device, next, ran, performed, 1, fun same => differs (congrFun same 4)⟩

end Hellfire

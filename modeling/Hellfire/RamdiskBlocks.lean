import Hellfire.Library.Machine
import Hellfire.RamdiskCore
import Hellfire.UhfsAddresses

/-!
The blocks of the file system on the RAM disk, written and read one after the other: the driver seeks
and copies sectors whatever the size of a block is.
-/

namespace Hellfire

open ByteMemory Machine

inductive BlockOp
  | write (block : UInt32) (data : Memory)
  | read (block : UInt32) (buf : Memory)

def BlockOp.block : BlockOp → UInt32
  | .write block _ => block
  | .read block _ => block

structure BlockWorld where
  disk : Ramdisk
  written : UInt32 → Option Memory

namespace BlockWorld

def readAt (block : UInt32) (buf : Memory) (disk : Ramdisk) :
    Except RamdiskFault (Int × Memory × Ramdisk) :=
  (disk.ramdiskIoctl none (.seekset block)).2.ramdiskRead buf 1

def writeAt (block : UInt32) (data : Memory) (disk : Ramdisk) : Except RamdiskFault (Int × Ramdisk) :=
  (disk.ramdiskIoctl none (.seekset block)).2.ramdiskWrite data 1

def step : BlockOp → BlockWorld → Except RamdiskFault BlockWorld
  | .write block data, world =>
      (writeAt block data world.disk).map fun (_, disk) =>
        ⟨disk, Function.update world.written block (some data)⟩
  | .read block buf, world =>
      (readAt block buf world.disk).map fun (_, _, disk) => { world with disk }

def inside (blkSize : Nat) (op : BlockOp) (world : BlockWorld) : Prop :=
  op.block.toNat < world.disk.info.vsize / blkSize

def start (sectors : UInt32) (ramarena : Memory) : BlockWorld :=
  ⟨(Ramdisk.unset.ramdiskIoctl (some ramarena) (.init sectors)).2, fun _ => none⟩

structure ReadsBack (blkSize : Nat) (world : BlockWorld) : Prop where
  writes : ∀ block : UInt32, block.toNat < world.disk.info.vsize / blkSize → ∀ data,
    ∃ disk, writeAt block data world.disk = .ok (0, disk)
  reads : ∀ block : UInt32, block.toNat < world.disk.info.vsize / blkSize → ∀ data,
    world.written block = some data → ∀ buf, ∃ out disk,
      readAt block buf world.disk = .ok (0, out, disk) ∧ ∀ i < blkSize, out i = data i

structure Initialised (sectors : UInt32) (disk : Ramdisk) : Prop where
  info : disk.info = ⟨sectors, 128⟩
  lastpos : disk.lastpos = sectors * 128 - 1

variable {sectors block : UInt32} {world : BlockWorld}

theorem vsize_eq (sectors : UInt32) :
    BlkInfo.vsize ⟨sectors, 128⟩ = sectors.toNat * 128 % 4294967296 := rfl

theorem sector_inside (low : block.toNat < BlkInfo.vsize ⟨sectors, 128⟩ / 128) :
    ¬(sectors * 128 - 1 < block ∨ (1 : UInt32) < 1) ∧
      (block * (128 : UInt16).toUInt32).toNat = block.toNat * 128 := by
  rw [vsize_eq] at low
  have width : (128 : UInt16).toUInt32 = 128 := rfl
  have last : (sectors * 128 - 1).toNat = sectors.toNat * 128 % 4294967296 - 1 := by
    rw [UInt32.toNat_sub, UInt32.toNat_mul]
    have hundred : (128 : UInt32).toNat = 128 := rfl
    have one : (1 : UInt32).toNat = 1 := rfl
    rw [hundred, one]
    omega
  constructor
  · rw [not_or, UInt32.lt_iff_toNat_lt, last]
    exact ⟨by omega, by decide⟩
  · rw [width, UInt32.toNat_mul]
    have hundred : (128 : UInt32).toNat = 128 := rfl
    rw [hundred, Nat.mod_eq_of_lt]
    omega

variable {disk : Ramdisk} {ramarena : Memory}

theorem writeAt_eq (initialised : Initialised sectors disk) (arena : disk.ramarena = some ramarena)
    (low : block.toNat < BlkInfo.vsize ⟨sectors, 128⟩ / 128) (data : Memory) :
    writeAt block data disk = .ok (0, { disk with
      ramarena := some (copyBytes ramarena (block.toNat * 128) data 0 128)
      rampos := block + 1 }) := by
  obtain ⟨passes, place⟩ := sector_inside low
  obtain ⟨info, lastpos⟩ := initialised
  simp only [writeAt, Ramdisk.ramdiskIoctl, Ramdisk.ramdiskWrite, Ramdisk.offset, info, lastpos, arena,
    if_neg passes, place]
  rfl

theorem readAt_eq (initialised : Initialised sectors disk) (arena : disk.ramarena = some ramarena)
    (low : block.toNat < BlkInfo.vsize ⟨sectors, 128⟩ / 128) (buf : Memory) :
    readAt block buf disk = .ok (0, copyBytes buf 0 ramarena (block.toNat * 128) 128,
      { disk with rampos := block + 1 }) := by
  obtain ⟨passes, place⟩ := sector_inside low
  obtain ⟨info, lastpos⟩ := initialised
  simp only [readAt, Ramdisk.ramdiskIoctl, Ramdisk.ramdiskRead, Ramdisk.offset, info, lastpos, arena,
    if_neg passes, place]
  rfl

structure Stored (sectors : UInt32) (world : BlockWorld) : Prop where
  initialised : Initialised sectors world.disk
  holds : ∃ ramarena, world.disk.ramarena = some ramarena ∧ ∀ block data,
    world.written block = some data → ∀ i < 128, ramarena (block.toNat * 128 + i) = data i

theorem Stored.step {op : BlockOp} {next : BlockWorld} (stored : Stored sectors world)
    (low : inside 128 op world) (stepped : BlockWorld.step op world = .ok next) :
    Stored sectors next := by
  unfold inside at low
  rw [stored.initialised.info] at low
  obtain ⟨info, lastpos⟩ := stored.initialised
  obtain ⟨ramarena, arena, holds⟩ := stored.holds
  cases op with
  | read block buf =>
      have low : block.toNat < BlkInfo.vsize ⟨sectors, 128⟩ / 128 := low
      rw [BlockWorld.step, readAt_eq stored.initialised arena low] at stepped
      cases stepped
      exact ⟨⟨info, lastpos⟩, stored.holds⟩
  | write block data =>
      have low : block.toNat < BlkInfo.vsize ⟨sectors, 128⟩ / 128 := low
      rw [BlockWorld.step, writeAt_eq stored.initialised arena low] at stepped
      cases stepped
      refine ⟨⟨info, lastpos⟩, _, rfl, fun other contents same i short => ?_⟩
      simp only at same ⊢
      by_cases here : other = block
      · subst here
        rw [Function.update_self, Option.some.injEq] at same
        rw [copyBytes, if_pos (by omega), same]
        congr 1
        omega
      · rw [Function.update_of_ne here] at same
        have apart : other.toNat ≠ block.toNat := fun equal => here (UInt32.toNat.inj equal)
        rw [copyBytes, if_neg (by omega)]
        exact holds other contents same i short

theorem Stored.readsBack (stored : Stored sectors world) : ReadsBack 128 world := by
  obtain ⟨ramarena, arena, holds⟩ := stored.holds
  constructor
  · intro block low data
    rw [stored.initialised.info] at low
    exact ⟨_, writeAt_eq stored.initialised arena low data⟩
  · intro block low data same buf
    rw [stored.initialised.info] at low
    refine ⟨_, _, readAt_eq stored.initialised arena low buf, fun i short => ?_⟩
    rw [copyBytes, if_pos (by omega), Nat.sub_zero]
    exact holds block data same i short

theorem start_initialised (sectors : UInt32) (ramarena : Memory) :
    Initialised sectors (start sectors ramarena).disk := ⟨rfl, rfl⟩

theorem not_readsBack {blkSize : Nat} (ramarena : Memory) (large : 128 < blkSize)
    (room : blkSize ≤ BlkInfo.vsize ⟨sectors, 128⟩) :
    ∃ world, Reaches step (inside blkSize) (start sectors ramarena) world ∧
      ¬ReadsBack blkSize world := by
  have initialised := start_initialised sectors ramarena
  have first : (0 : UInt32).toNat < BlkInfo.vsize ⟨sectors, 128⟩ / blkSize :=
    Nat.div_pos room (by omega)
  have sector : (0 : UInt32).toNat < BlkInfo.vsize ⟨sectors, 128⟩ / 128 := Nat.div_pos (by omega) (by decide)
  let ones : Memory := fun _ => 1
  let after : BlockWorld := ⟨{ (start sectors ramarena).disk with
    ramarena := some (copyBytes ramarena ((0 : UInt32).toNat * 128) ones 0 128)
    rampos := 0 + 1 }, Function.update (fun _ => none) 0 (some ones)⟩
  have stepped : step (.write 0 ones) (start sectors ramarena) = .ok after := by
    rw [step, writeAt_eq initialised rfl sector]
    rfl
  have admitted : inside blkSize (.write 0 ones) (start sectors ramarena) := first
  refine ⟨after, .next .start admitted stepped, fun back => ?_⟩
  have kept : Initialised sectors after.disk := ⟨rfl, rfl⟩
  have holds : after.written 0 = some ones := by simp [after]
  obtain ⟨out, disk, read, same⟩ := back.reads 0 first ones holds zeroBlock
  rw [readAt_eq kept rfl sector, Except.ok.injEq, Prod.mk.injEq, Prod.mk.injEq] at read
  have untouched := same 128 large
  rw [← read.2.1, copyBytes, if_neg (by omega)] at untouched
  exact absurd untouched (by decide)

theorem block_size {device : Device} {blkSize : UInt32} (sector : device.info.bytesSector = 128)
    (accepted : (hfMkfs blkSize device).1 = 0) : 128 ≤ blkSize.toNat := by
  by_contra less
  have small : blkSize.toNat < device.info.bytesSector.toNat := by
    rw [sector]
    exact Nat.not_le.mp less
  simp [hfMkfs, small] at accepted

/-- A block size that `hf_mkfs` accepts on the RAM disk works exactly if it is the size of a sector, or
larger than the disk. -/
theorem blocks_read_back_iff {device : Device} {blkSize : UInt32} (sectors : UInt32)
    (ramarena : Memory) (ramdisk : device.info = (start sectors ramarena).disk.info)
    (accepted : (hfMkfs blkSize device).1 = 0) :
    (∀ world, Reaches step (inside blkSize.toNat) (start sectors ramarena) world →
      ReadsBack blkSize.toNat world) ↔
      (blkSize = 128 ∨ device.info.vsize < blkSize.toNat) := by
  have info : device.info = ⟨sectors, 128⟩ := ramdisk
  have least := block_size (congrArg BlkInfo.bytesSector info) accepted
  rw [info]
  constructor
  · intro works
    by_contra neither
    rw [not_or, Nat.not_lt] at neither
    have other : blkSize.toNat ≠ 128 := fun same => neither.1 (UInt32.toNat.inj same)
    obtain ⟨world, reached, fails⟩ := not_readsBack ramarena (show 128 < blkSize.toNat by omega) neither.2
    exact fails (works world reached)
  · rintro (rfl | none) world reached
    · have stored : Stored sectors world := by
        refine reached.invariant (Stored sectors) ⟨start_initialised sectors ramarena, ramarena, rfl, ?_⟩
          fun _ _ _ stored low stepped => stored.step low stepped
        exact fun _ _ same => absurd same (by simp [start])
      exact stored.readsBack
    · have empty : BlkInfo.vsize ⟨sectors, 128⟩ / blkSize.toNat = 0 := Nat.div_eq_of_lt none
      have same : world.disk.info = ⟨sectors, 128⟩ := by
        refine reached.invariant (fun state => state.disk.info = ⟨sectors, 128⟩) rfl ?_
        intro op before after same low _
        rw [inside, same, empty] at low
        exact absurd low (Nat.not_lt_zero _)
      constructor
      · intro block low
        rw [same, empty] at low
        exact absurd low (Nat.not_lt_zero _)
      · intro block low
        rw [same, empty] at low
        exact absurd low (Nat.not_lt_zero _)

section Fifty

def fifty : Device := ⟨(start 50 fun _ => 0).disk.info, fun _ => zeroBlock, none⟩

instance (blkSize : Nat) (op : BlockOp) (world : BlockWorld) : Decidable (inside blkSize op world) :=
  inferInstanceAs (Decidable (_ < _))

def writes : List BlockOp := [.write 7 fun i => UInt8.ofNat i, .read 2 fun _ => 0, .write 3 fun _ => 255]

/-- Block 7 is read back as it was written before another one was read and a third one written. -/
theorem blocks_read_back_seventh : ∃ world, execute step writes (start 50 fun _ => 0) = .ok world ∧
    ∀ buf, ∃ out disk, readAt 7 buf world.disk = .ok (0, out, disk) ∧ ∀ i < 128, out i = UInt8.ofNat i := by
  have accepted : (hfMkfs 128 fifty).1 = 0 := by decide +kernel
  have allowed : admits step (inside 128) writes (start 50 fun _ => 0) = true := by decide +kernel
  have checked : passes (execute step writes (start 50 fun _ => 0)) (fun world =>
      7 < world.disk.info.vsize / 128 && (world.written 7).any fun data =>
        (List.range 128).all fun i => data i = UInt8.ofNat i) = true := by
    decide +kernel
  obtain ⟨world, ran, checked⟩ := ok_of_passes checked
  simp only [Bool.and_eq_true, decide_eq_true_eq] at checked
  obtain ⟨data, written, same⟩ := (Option.any_eq_true _ _).mp checked.2
  have reached := admits_reaches writes _ world .start allowed ran
  have back := (blocks_read_back_iff 50 (fun _ => 0) rfl accepted).mpr (Or.inl rfl) world reached
  refine ⟨world, ran, fun buf => ?_⟩
  obtain ⟨out, disk, read, equal⟩ := back.reads 7 checked.1 data written buf
  refine ⟨out, disk, read, fun i inside => (equal i inside).trans ?_⟩
  exact of_decide_eq_true (List.all_eq_true.mp same i (List.mem_range.mpr inside))

/-- With blocks of 256 bytes the second half of a block is lost. -/
theorem large_block_truncated : (hfMkfs 256 fifty).1 = 0 ∧
    ∃ world, Reaches step (inside 256) (start 50 fun _ => 0) world ∧ ¬ReadsBack 256 world :=
  ⟨by decide +kernel, not_readsBack (fun _ => 0) (by decide) (by decide +kernel)⟩

end Fifty

end BlockWorld

end Hellfire

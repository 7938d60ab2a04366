import Hellfire.UhfsCore

/-!
Executable model of the RAM disk of `drivers/block/ramdisk.c`. The wrappers of `drivers/device/device.c`
only pass the calls on. The buffers of the callers lie outside `ramarena`.
-/

namespace Hellfire

open ByteMemory

inductive RamdiskFault
  | endless
  | nullArena
deriving DecidableEq, Repr

/-- `ramarena` is `NULL` before `DISK_INIT` and after one that got no memory. -/
structure Ramdisk where
  ramarena : Option Memory
  rampos : UInt32
  lastpos : UInt32
  info : BlkInfo

inductive DiskRequest
  | init (pval : UInt32)
  | getinfo
  | seekset (pval : UInt32)
  | seekcur
  | seekend
  | finish
  | other

def copyBytes (target : Memory) (dst : Nat) (source : Memory) (src n : Nat) : Memory := fun place =>
  if dst ≤ place ∧ place < dst + n then source (src + (place - dst)) else target place

namespace Ramdisk

def offset (disk : Ramdisk) : Nat := (disk.rampos * disk.info.bytesSector.toUInt32).toNat

def ramdiskRead (buf : Memory) (size : UInt32) (disk : Ramdisk) :
    Except RamdiskFault (Int × Memory × Ramdisk) :=
  if disk.lastpos < disk.rampos ∨ size < 1 then .error .endless
  else match disk.ramarena with
    | none => .error .nullArena
    | some ramarena =>
        .ok (0, copyBytes buf 0 ramarena disk.offset disk.info.bytesSector.toNat,
          { disk with rampos := disk.rampos + 1 })

def ramdiskWrite (buf : Memory) (size : UInt32) (disk : Ramdisk) :
    Except RamdiskFault (Int × Ramdisk) :=
  if disk.lastpos < disk.rampos ∨ size < 1 then .error .endless
  else match disk.ramarena with
    | none => .error .nullArena
    | some ramarena =>
        .ok (0, { disk with
          ramarena := some (copyBytes ramarena disk.offset buf 0 disk.info.bytesSector.toNat)
          rampos := disk.rampos + 1 })

/-- The memory is what `hf_malloc` gives to `DISK_INIT`. `DISK_GETINFO` copies `info`. -/
def ramdiskIoctl (allocated : Option Memory) (disk : Ramdisk) : DiskRequest → Int × Ramdisk
  | .init pval =>
      let disk := { disk with info := ⟨pval, 128⟩, ramarena := allocated }
      if allocated.isNone then (-1, disk) else (0, { disk with rampos := 0, lastpos := pval * 128 - 1 })
  | .getinfo => (0, disk)
  | .seekset pval => (0, { disk with rampos := pval })
  | .seekcur => (disk.rampos.toInt32.toInt, disk)
  | .seekend => (0, { disk with rampos := disk.lastpos })
  | .finish => (0, { disk with rampos := 4294967295, lastpos := 4294967295 })
  | .other => (-1, disk)

/-- `ramdisk.c` before the first request. -/
def unset : Ramdisk := ⟨none, 4294967295, 4294967295, ⟨0, 0⟩⟩

end Ramdisk

end Hellfire

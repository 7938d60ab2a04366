import Hellfire.RamdiskBlocks

/-!
Which bytes of the arena the RAM disk reaches after any seeks and transfers: its position counts
sectors, and the guard compares it with the number of the last byte.
-/

namespace Hellfire

open ByteMemory BlockWorld

namespace Ramdisk

inductive SectorOp
  | seekset (pval : UInt32)
  | seekcur
  | seekend
  | read (buf : Memory) (size : UInt32)
  | write (buf : Memory) (size : UInt32)

namespace SectorOp

def size : SectorOp → Option UInt32
  | read _ size => some size
  | write _ size => some size
  | _ => none

def perform (disk : Ramdisk) : SectorOp → Except RamdiskFault Ramdisk
  | seekset pval => .ok (disk.ramdiskIoctl none (.seekset pval)).2
  | seekcur => .ok (disk.ramdiskIoctl none .seekcur).2
  | seekend => .ok (disk.ramdiskIoctl none .seekend).2
  | read buf size => (disk.ramdiskRead buf size).map fun (_, _, disk) => disk
  | write buf size => (disk.ramdiskWrite buf size).map fun (_, disk) => disk

end SectorOp

/-- The transfers of a sequence, each with the disk that it finds, up to the first that takes the error
branch. -/
def transfers : List SectorOp → Ramdisk → List (UInt32 × Ramdisk)
  | [], _ => []
  | op :: rest, disk =>
      let later := match op.perform disk with
        | .ok next => transfers rest next
        | .error _ => []
      match op.size with
      | some size => (size, disk) :: later
      | none => later

structure Confined (limit : Nat) (size : UInt32) (disk : Ramdisk) : Prop where
  written : ∀ buf disk', disk.ramdiskWrite buf size = .ok (0, disk') →
    ∀ place, limit ≤ place → disk'.ramarena.map (· place) = disk.ramarena.map (· place)
  read : ∀ buf ramarena, (∀ place < limit, disk.ramarena.map (· place) = some (ramarena place)) →
    (ramdiskRead buf size { disk with ramarena := some ramarena }).map (fun out => out.2.1) =
      (disk.ramdiskRead buf size).map fun out => out.2.1

def Rejected (size : UInt32) (disk : Ramdisk) : Prop :=
  ∀ buf, disk.ramdiskRead buf size = .error .endless ∧ disk.ramdiskWrite buf size = .error .endless

structure Guarded (sectors : Nat) (size : UInt32) (disk : Ramdisk) : Prop where
  confined : Confined (sectors * 128) size disk
  rejects : sectors ≤ disk.rampos.toNat → Rejected size disk

/-- A position behind the last sector that is not behind the number of the last byte. -/
def PassesBehind (sectors size : UInt32) (disk : Ramdisk) : Prop :=
  1 ≤ size ∧ sectors ≤ disk.rampos ∧ disk.rampos ≤ sectors * 128 - 1

variable {sectors size : UInt32} {disk : Ramdisk}

theorem rejected_iff (initialised : Initialised sectors disk) :
    Rejected size disk ↔ size < 1 ∨ sectors * 128 - 1 < disk.rampos := by
  rw [← initialised.lastpos]
  constructor
  · intro rejected
    by_contra passes
    have refused := (rejected zeroBlock).1
    rw [ramdiskRead, if_neg (by tauto)] at refused
    split at refused <;> cases refused
  · intro stops buf
    rw [ramdiskRead, ramdiskWrite, if_pos (by tauto), if_pos (by tauto)]
    exact ⟨rfl, rfl⟩

theorem offset_inside (initialised : Initialised sectors disk) (inside : disk.rampos < sectors) :
    disk.offset + 128 ≤ sectors.toNat * 128 := by
  have less := UInt32.lt_iff_toNat_lt.mp inside
  have width : (128 : UInt16).toUInt32.toNat = 128 := rfl
  have wraps := Nat.mod_le (disk.rampos.toNat * 128) 4294967296
  rw [offset, initialised.info, UInt32.toNat_mul, width]
  omega

theorem confined_of_inside (initialised : Initialised sectors disk) (inside : disk.rampos < sectors) :
    Confined (sectors.toNat * 128) size disk := by
  have bound := offset_inside initialised inside
  have width : disk.info.bytesSector.toNat = 128 := by rw [initialised.info]; rfl
  constructor
  · intro buf disk' done place behind
    rw [ramdiskWrite] at done
    split at done
    · cases done
    · cases arena : disk.ramarena with
      | none => simp only [arena, reduceCtorEq] at done
      | some ramarena =>
          simp only [arena, Except.ok.injEq, Prod.mk.injEq, true_and] at done
          rw [← done, Option.map_some, Option.map_some, width, copyBytes, if_neg (by omega)]
  · intro buf ramarena same
    cases arena : disk.ramarena with
    | none => exact absurd (same (disk.offset) (by omega)) (by simp [arena])
    | some source =>
        simp only [arena, Option.map_some, Option.some.injEq] at same
        simp only [ramdiskRead, width, arena]
        split
        · rfl
        · simp only [Except.map]
          congr 1
          funext place
          simp only [copyBytes]
          split
          · refine (same _ ?_).symm
            change disk.offset + (place - 0) < _
            omega
          · rfl

theorem guarded_iff (initialised : Initialised sectors disk) :
    Guarded sectors.toNat size disk ↔ ¬PassesBehind sectors size disk := by
  have rejected := @rejected_iff sectors size disk initialised
  rw [PassesBehind]
  constructor
  · rintro ⟨_, rejects⟩ ⟨some, behind, passes⟩
    rcases rejected.mp (rejects (UInt32.le_iff_toNat_le.mp behind)) with none | beyond
    · exact UInt32.not_lt.mpr some none
    · exact absurd beyond (UInt32.not_lt.mpr passes)
  · intro stops
    by_cases inside : disk.rampos < sectors
    · refine ⟨confined_of_inside initialised inside, fun behind => ?_⟩
      exact absurd (UInt32.lt_iff_toNat_lt.mp inside) (Nat.not_lt.mpr behind)
    · have none : Rejected size disk := by
        rw [rejected]
        by_contra passes
        rw [not_or, UInt32.not_lt, UInt32.not_lt] at passes
        exact stops ⟨passes.1, UInt32.not_lt.mp inside, passes.2⟩
      refine ⟨⟨fun buf disk' done => ?_, fun buf ramarena _ => ?_⟩, fun _ => none⟩
      · rw [(none buf).2] at done
        cases done
      · have same : Rejected size { disk with ramarena := some ramarena } :=
          (@rejected_iff sectors size { disk with ramarena := some ramarena }
            ⟨initialised.info, initialised.lastpos⟩).mpr (rejected.mp none)
        rw [(none buf).1, (same buf).1]

theorem SectorOp.perform_initialised {op : SectorOp} {next : Ramdisk}
    (initialised : Initialised sectors disk) (performed : op.perform disk = .ok next) :
    Initialised sectors next := by
  obtain ⟨info, lastpos⟩ := initialised
  cases op with
  | seekset pval => cases performed; exact ⟨info, lastpos⟩
  | seekcur => cases performed; exact ⟨info, lastpos⟩
  | seekend => cases performed; exact ⟨info, lastpos⟩
  | read buf size =>
      obtain ⟨⟨result, out, after⟩, done, rfl⟩ := Machine.ok_of_map performed
      rw [ramdiskRead] at done
      split at done
      · cases done
      · split at done
        · cases done
        · cases done
          exact ⟨info, lastpos⟩
  | write buf size =>
      obtain ⟨⟨result, after⟩, done, rfl⟩ := Machine.ok_of_map performed
      rw [ramdiskWrite] at done
      split at done
      · cases done
      · split at done
        · cases done
        · cases done
          exact ⟨info, lastpos⟩

theorem transfers_initialised (ops : List SectorOp) : ∀ disk : Ramdisk, Initialised sectors disk →
    ∀ transfer ∈ transfers ops disk, Initialised sectors transfer.2 := by
  induction ops with
  | nil => exact fun _ _ _ member => absurd member List.not_mem_nil
  | cons op rest ih =>
      intro disk initialised
      have later : ∀ transfer ∈ (match op.perform disk with
          | .ok next => transfers rest next
          | .error _ => []), Initialised sectors transfer.2 := by
        cases performed : op.perform disk with
        | ok next => exact ih next (op.perform_initialised initialised performed)
        | error fault => exact fun _ member => absurd member List.not_mem_nil
      rw [transfers]
      cases op.size with
      | none => exact later
      | some size => exact List.forall_mem_cons.mpr ⟨initialised, later⟩

/-- After `DISK_INIT`, every transfer of a sequence of seeks and transfers stays in the sectors, and is
rejected behind them, exactly if none of them passes the guard behind the last sector. -/
theorem transfers_guarded_iff (disk : Ramdisk) (ramarena : Memory) (sectors : UInt32)
    (ops : List SectorOp) :
    (∀ transfer ∈ transfers ops (disk.ramdiskIoctl (some ramarena) (.init sectors)).2,
      Guarded sectors.toNat transfer.1 transfer.2) ↔
    ∀ transfer ∈ transfers ops (disk.ramdiskIoctl (some ramarena) (.init sectors)).2,
      ¬PassesBehind sectors transfer.1 transfer.2 := by
  have start : Initialised sectors (disk.ramdiskIoctl (some ramarena) (.init sectors)).2 := ⟨rfl, rfl⟩
  have initialised := transfers_initialised ops _ start
  exact forall₂_congr fun transfer member => guarded_iff (initialised transfer member)

/-- On a disk of one sector, a write that follows a seek to sector 1 changes the byte behind the arena. -/
theorem sector_behind_written : ∃ disk' : Ramdisk,
    writeAt 1 (fun _ => 1) (unset.ramdiskIoctl (some zeroBlock) (.init 1)).2 =
      .ok (0, disk') ∧ disk'.ramarena.map (· 128) = some 1 ∧
    ∃ transfer ∈ transfers [.seekset 1, .write (fun _ => 1) 1]
        (unset.ramdiskIoctl (some zeroBlock) (.init 1)).2, ¬Guarded 1 transfer.1 transfer.2 := by
  refine ⟨_, rfl, by decide, _, List.mem_singleton_self _, fun guarded => ?_⟩
  have rejected := (guarded.rejects (by decide) zeroBlock).1
  rw [ramdiskRead, if_neg (by decide)] at rejected
  split at rejected <;> cases rejected

end Ramdisk

end Hellfire

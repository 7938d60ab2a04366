import Hellfire.Library.Ledger
import Hellfire.UhfsRoot
import Hellfire.UhfsFailure

/-!
The file system calls with the blocks of the heap that they allocate and free, for every pattern in
which `hf_malloc` fails.
-/

namespace Hellfire

open ByteMemory Chains Machine Ledgers

namespace FsSuperblock

variable (sb : FsSuperblock)

/-- `addEntry` with the copy of the path. The way out between the loops frees it, the one from the inner
loop does not. -/
def addEntryIn (attributes : UInt8) (fresh : Memory) (lpath : Name) (fuel dirpath : Nat) :
    Nat → Disk → Nat → Nat → Ledger Nat → Except UhfsFault ((Int × Disk) × Ledger Nat)
  | 0, _, _, _, _ => .error .endless
  | rounds + 1, disk, chainBlk, dirBlk, heap =>
      let dirBlkNext := cmbData (disk chainBlk) (sb.mapIndex dirBlk)
      match (List.range sb.dirEntries).find? fun i => isFree (disk dirBlk) i with
      | some i => do
          let (k, disk) ← sb.getfreeblock fuel disk
          if k = 0 then .ok ((-1, disk), heap)
          else
            let disk := writeBlock disk k fresh
            let disk := writeBlock disk dirBlk (setEntry (disk dirBlk) i lpath attributes k)
            .ok ((0, disk), heap.free dirpath)
      | none =>
          if dirBlkNext ≠ uhfsEochblk then
            addEntryIn attributes fresh lpath fuel dirpath rounds disk (sb.mapBlock dirBlkNext)
              dirBlkNext heap
          else do
            let (k, disk) ← sb.getfreeblock fuel disk
            if k = 0 then .ok ((-1, disk), heap.free dirpath)
            else
              let disk := writeBlock disk k sb.emptyDirectory
              let disk := writeBlock disk chainBlk (setCmbData (disk chainBlk) (sb.mapIndex dirBlk) k)
              addEntryIn attributes fresh lpath fuel dirpath rounds disk (sb.mapBlock k) k heap

def insertIn (attributes : UInt8) (fresh : Memory) (fuel : Nat) (disk : Disk) (path : CString)
    (heap : Ledger Nat) : Except UhfsFault ((Int × Disk) × Ledger Nat) :=
  match heap.malloc with
  | (none, heap) => .ok ((-1, disk), heap)
  | (some dirpath, heap) => do
      let found ← sb.searchdirectory fuel disk path
      if found.result ≠ 0 then .ok ((-1, disk), heap.free dirpath)
      else
        sb.addEntryIn attributes fresh (found.lpath.getD []) fuel dirpath fuel disk
          (sb.mapBlock found.lblock) found.lblock heap

def hfMkdirIn (fuel : Nat) (disk : Disk) (path : CString) (heap : Ledger Nat) :
    Except UhfsFault ((Int × Disk) × Ledger Nat) :=
  sb.insertIn (uhfsAttrdir ||| uhfsAttrread ||| uhfsAttrwrite ||| uhfsAttrexec) sb.emptyDirectory fuel disk
    path heap

def hfCreateIn (fuel : Nat) (disk : Disk) (path : CString) (heap : Ledger Nat) :
    Except UhfsFault ((Int × Disk) × Ledger Nat) :=
  sb.insertIn (uhfsAttrread ||| uhfsAttrwrite) zeroBlock fuel disk path heap

def hfRmdirIn (unset : Name) (fuel : Nat) (disk : Disk) (path : CString) (heap : Ledger Nat) :
    Except UhfsFault ((Int × Disk) × Ledger Nat) :=
  match heap.malloc with
  | (none, heap) => .ok ((-1, disk), heap)
  | (some dirpath, heap) => do
      let found ← sb.searchdirectory fuel disk path
      if found.result ≠ 0 then .ok ((-1, disk), heap.free dirpath)
      else
        let chainBlk := sb.mapBlock found.lblock
        let isEmpty ← sb.isEmptyFrom disk fuel chainBlk found.lblock
        if isEmpty = false then .ok ((-1, disk), heap.free dirpath)
        else do
          let disk := sb.freeEntry disk found.pblock (found.ppath.getD unset)
          let disk ← sb.freeBlocks fuel disk chainBlk found.lblock
          .ok ((0, disk), heap.free dirpath)

def hfUnlinkIn (fuel : Nat) (disk : Disk) (path : CString) (heap : Ledger Nat) :
    Except UhfsFault ((Int × Disk) × Ledger Nat) :=
  match heap.malloc with
  | (none, heap) => .ok ((-1, disk), heap)
  | (some filepath, heap) => do
      let found ← sb.searchdirectory fuel disk path
      if found.result = 0 then .ok ((-1, disk), heap.free filepath)
      else if found.result ≠ 1 then .ok ((-1, disk), heap.free filepath)
      else do
        let disk := sb.freeEntry disk found.pblock (found.ppath.getD [])
        let disk ← sb.freeBlocks fuel disk (sb.mapBlock found.lblock) found.lblock
        .ok ((0, disk), heap.free filepath)

def hfSizeIn (fuel : Nat) (disk : Disk) (path : CString) (heap : Ledger Nat) :
    Except UhfsFault (Int × Ledger Nat) :=
  match heap.malloc with
  | (none, heap) => .ok (-1, heap)
  | (some filepath, heap) => do
      let found ← sb.searchdirectory fuel disk path
      if found.result ≠ 1 then .ok (-1, heap.free filepath)
      else
        match sb.findEntry (disk found.pblock) (found.ppath.getD []) with
        | some i => .ok (toInt64 (fileSize (disk found.pblock) i), heap.free filepath)
        | none => .ok (0, heap.free filepath)

def changeEntryIn (change : Memory → Nat → Memory) (fuel : Nat) (disk : Disk) (path : CString)
    (heap : Ledger Nat) : Except UhfsFault ((Int × Disk) × Ledger Nat) :=
  match heap.malloc with
  | (none, heap) => .ok ((-1, disk), heap)
  | (some filepath, heap) => do
      let found ← sb.searchdirectory fuel disk path
      if found.result ≠ 1 then .ok ((-1, disk), heap.free filepath)
      else
        match sb.findEntry (disk found.pblock) (found.ppath.getD []) with
        | some i =>
            let disk := writeBlock disk found.pblock (change (disk found.pblock) i)
            .ok ((0, disk), heap.free filepath)
        | none => .ok ((0, disk), heap.free filepath)

def hfRenameIn (fuel : Nat) (disk : Disk) (path newname : CString) (heap : Ledger Nat) :
    Except UhfsFault ((Int × Disk) × Ledger Nat) :=
  sb.changeEntryIn (fun block i => setName block i newname.bytes) fuel disk path heap

def hfChmodIn (fuel : Nat) (disk : Disk) (path : CString) (mode : UInt8) (heap : Ledger Nat) :
    Except UhfsFault ((Int × Disk) × Ledger Nat) :=
  sb.changeEntryIn (fun block i => setAttributes block i (changeMode (attributes block i) mode)) fuel disk
    path heap

/-- The file structure that `hf_opendir` returns, if any. -/
def hfOpendirIn (fuel : Nat) (disk : Disk) (path : CString) (heap : Ledger Nat) :
    Except UhfsFault (Option Nat × Ledger Nat) :=
  match heap.malloc with
  | (none, heap) => .ok (none, heap)
  | (some fptr, heap) =>
      match heap.malloc with
      | (none, heap) => .ok (none, heap)
      | (some dirpath, heap) => do
          let found ← sb.searchdirectory fuel disk path
          if found.result ≠ 0 then .ok (none, (heap.free fptr).free dirpath)
          else .ok (some fptr, heap.free dirpath)

end FsSuperblock

def hfMountIn (device : Device) (heap : Ledger Nat) : (Int × Device) × Ledger Nat :=
  let bytesSector := device.info.bytesSector.toNat
  if device.ptr ≠ none then ((-1, device), heap)
  else if isPowerOf2 bytesSector = false then ((-1, device), heap)
  else
    match heap.malloc with
    | (none, heap) => ((-1, device), heap)
    | (some _, heap) =>
        match heap.malloc with
        | (none, heap) => ((-1, device), heap)
        | (some tmpSblock, heap) =>
            let sector := device.disk 0
            let fssblock : FsSuperblock :=
              ⟨readWord sector 20, readWord sector 24, readWord sector 52, readWord sector 56⟩
            let heap := heap.free tmpSblock
            if isPowerOf2 fssblock.blockSize = false ∨ fssblock.blockSize < bytesSector then
              ((-1, device), heap)
            else
              match heap.malloc with
              | (none, heap) => ((-1, device), heap)
              | (some _, heap) => ((0, { device with ptr := some fssblock }), heap)

inductive FsCall
  | opendir (path : CString)
  | mkdir (path : CString)
  | create (path : CString)
  | rmdir (path : CString)
  | unlink (path : CString)
  | size (path : CString)
  | rename (path newname : CString)
  | chmod (path : CString) (mode : UInt8)

def FsCall.path : FsCall → CString
  | opendir path | mkdir path | create path | rmdir path | unlink path | size path => path
  | rename path _ | chmod path _ => path

/-- What a call returns: a number, or a pointer that may be null. -/
inductive FsReply
  | number (value : Int)
  | file (fptr : Option Nat)

def FsReply.ofInt (ran : (Int × Disk) × Ledger Nat) : (FsReply × Disk) × Ledger Nat :=
  ((.number ran.1.1, ran.1.2), ran.2)

/-- With the string to which `ppath` points when `searchdirectory` does not set it. -/
def FsSuperblock.answer (sb : FsSuperblock) (unset : Name) (fuel : Nat) (disk : Disk) (heap : Ledger Nat) :
    FsCall → Except UhfsFault ((FsReply × Disk) × Ledger Nat)
  | .opendir path => (sb.hfOpendirIn fuel disk path heap).map fun ran => ((.file ran.1, disk), ran.2)
  | .mkdir path => (sb.hfMkdirIn fuel disk path heap).map FsReply.ofInt
  | .create path => (sb.hfCreateIn fuel disk path heap).map FsReply.ofInt
  | .rmdir path => (sb.hfRmdirIn unset fuel disk path heap).map FsReply.ofInt
  | .unlink path => (sb.hfUnlinkIn fuel disk path heap).map FsReply.ofInt
  | .size path => (sb.hfSizeIn fuel disk path heap).map fun ran => ((.number ran.1, disk), ran.2)
  | .rename path newname => (sb.hfRenameIn fuel disk path newname heap).map FsReply.ofInt
  | .chmod path mode => (sb.hfChmodIn fuel disk path mode heap).map FsReply.ofInt

/-- A call for a volume that is not mounted does nothing. -/
def Device.answer (unset : Name) (fuel : Nat) (device : Device) (heap : Ledger Nat) (call : FsCall) :
    Except UhfsFault ((FsReply × Device) × Ledger Nat) :=
  match device.ptr with
  | none =>
      match call with
      | .opendir _ => .ok ((.file none, device), heap)
      | _ => .ok ((.number (-1), device), heap)
  | some sb => (sb.answer unset fuel device.disk heap call).map fun ran =>
      ((ran.1.1, { device with disk := ran.1.2 }), ran.2)

/-- A directory has a place for an entry when no block is left, maybe in the last block, which it has
just got. -/
inductive NoBlock (sb : FsSuperblock) (fuel : Nat) : Disk → Nat → Nat → Prop
  | place {disk chainBlk dirBlk i disk'} : i < sb.dirEntries → isFree (disk dirBlk) i = true →
      sb.getfreeblock fuel disk = .ok (0, disk') → NoBlock sb fuel disk chainBlk dirBlk
  | next {disk chainBlk dirBlk next} : (∀ i < sb.dirEntries, isFree (disk dirBlk) i = false) →
      cmbData (disk chainBlk) (sb.mapIndex dirBlk) = next → next ≠ uhfsEochblk →
      NoBlock sb fuel disk (sb.mapBlock next) next → NoBlock sb fuel disk chainBlk dirBlk
  | extended {disk chainBlk dirBlk k disk₁} : (∀ i < sb.dirEntries, isFree (disk dirBlk) i = false) →
      cmbData (disk chainBlk) (sb.mapIndex dirBlk) = uhfsEochblk →
      sb.getfreeblock fuel disk = .ok (k, disk₁) → k ≠ 0 →
      NoBlock sb fuel (writeBlock (writeBlock disk₁ k sb.emptyDirectory) chainBlk
        (setCmbData (writeBlock disk₁ k sb.emptyDirectory chainBlk) (sb.mapIndex dirBlk) k))
        (sb.mapBlock k) k → NoBlock sb fuel disk chainBlk dirBlk

def Starves (sb : FsSuperblock) (fuel : Nat) (disk : Disk) (path : CString) : Prop :=
  ∃ found, sb.searchdirectory fuel disk path = .ok found ∧ found.result = 0 ∧
    NoBlock sb fuel disk (sb.mapBlock found.lblock) found.lblock

def FsCall.Leaks (sb : FsSuperblock) (fuel : Nat) (disk : Disk) (heap : Ledger Nat) : FsCall → Prop
  | opendir _ => heap.answers 0 ≠ none ∧ heap.answers 1 = none
  | mkdir path | create path => heap.answers 0 ≠ none ∧ Starves sb fuel disk path
  | _ => False

def Device.Leaks (device : Device) (fuel : Nat) (heap : Ledger Nat) (call : FsCall) : Prop :=
  ∃ sb, device.ptr = some sb ∧ call.Leaks sb fuel device.disk heap

/-- `hf_mount` fails with the second or third allocation or because of the block size. -/
def MountLeaks (device : Device) (heap : Ledger Nat) : Prop :=
  device.ptr = none ∧ isPowerOf2 device.info.bytesSector.toNat = true ∧ heap.answers 0 ≠ none ∧
    (heap.answers 1 = none ∨ heap.answers 2 = none ∨ isPowerOf2 (readWord (device.disk 0) 20) = false ∨
      readWord (device.disk 0) 20 < device.info.bytesSector.toNat)

variable {sb : FsSuperblock} {fuel : Nat} {disk : Disk} {path : CString} {heap heap' : Ledger Nat}

section Borrowed

theorem borrow_search {β : Type} {failed : β} {ends : FsSuperblock.Search → Except UhfsFault β}
    {frees : Nat → Ledger Nat → FsSuperblock.Search → Except UhfsFault (β × Ledger Nat)}
    (same : ∀ place heap found,
      frees place heap found = (ends found).map fun result => (result, heap.free place)) :
    (match heap.malloc with
      | (none, heap) => .ok (failed, heap)
      | (some place, heap) => sb.searchdirectory fuel disk path >>= frees place heap) =
      heap.borrow failed (sb.searchdirectory fuel disk path >>= ends) := by
  rw [Ledger.borrow]
  cases given : heap.answers 0 with
  | none => rw [Ledger.malloc_none given]
  | some place =>
      rw [Ledger.malloc_some given]
      cases sb.searchdirectory fuel disk path with
      | error fault => rfl
      | ok found => exact same place _ found

theorem hfUnlinkIn_eq : sb.hfUnlinkIn fuel disk path heap =
    heap.borrow (-1, disk) (sb.hfUnlink fuel disk path) := by
  refine borrow_search fun place heap found => ?_
  simp only [bind, Except.bind]
  by_cases one : found.result = 1
  · rw [if_neg (by omega), if_neg (not_not.mpr one), if_neg (not_not.mpr one)]
    cases sb.freeBlocks fuel (sb.freeEntry disk found.pblock (found.ppath.getD []))
      (sb.mapBlock found.lblock) found.lblock <;> rfl
  · rw [if_pos one, if_pos one]
    split <;> rfl

theorem hfRmdirIn_eq {unset : Name} : sb.hfRmdirIn unset fuel disk path heap =
    heap.borrow (-1, disk) (sb.hfRmdirWith unset fuel disk path) := by
  refine borrow_search fun place heap found => ?_
  simp only [bind, Except.bind]
  by_cases zero : found.result = 0
  · rw [if_neg (not_not.mpr zero), if_neg (not_not.mpr zero)]
    cases sb.isEmptyFrom disk fuel (sb.mapBlock found.lblock) found.lblock with
    | error fault => rfl
    | ok isEmpty =>
        cases isEmpty with
        | false => rfl
        | true =>
            simp only [Bool.true_eq_false, if_false]
            cases sb.freeBlocks fuel (sb.freeEntry disk found.pblock (found.ppath.getD unset))
              (sb.mapBlock found.lblock) found.lblock <;> rfl
  · rw [if_pos zero, if_pos zero]
    rfl

theorem hfSizeIn_eq : sb.hfSizeIn fuel disk path heap = heap.borrow (-1) (sb.hfSize fuel disk path) := by
  refine borrow_search fun place heap found => ?_
  by_cases one : found.result = 1
  · rw [if_neg (not_not.mpr one), if_neg (not_not.mpr one)]
    cases sb.findEntry (disk found.pblock) (found.ppath.getD []) <;> rfl
  · rw [if_pos one, if_pos one]
    rfl

theorem changeEntryIn_eq {change : Memory → Nat → Memory} :
    sb.changeEntryIn change fuel disk path heap =
      heap.borrow (-1, disk) (sb.changeEntry change fuel disk path) := by
  refine borrow_search fun place heap found => ?_
  by_cases one : found.result = 1
  · rw [if_neg (not_not.mpr one), if_neg (not_not.mpr one)]
    cases sb.findEntry (disk found.pblock) (found.ppath.getD []) <;> rfl
  · rw [if_pos one, if_pos one]
    rfl

end Borrowed

section Creations

variable {chainBlk dirBlk : Nat}

theorem noBlock_place {i : Nat} (inside : i < sb.dirEntries) (empty : isFree (disk dirBlk) i = true) :
    NoBlock sb fuel disk chainBlk dirBlk ↔ ∃ disk', sb.getfreeblock fuel disk = .ok (0, disk') := by
  constructor
  · intro noBlock
    cases noBlock with
    | place _ _ none => exact ⟨_, none⟩
    | next full _ _ _ => exact absurd empty (by simp [full i inside])
    | extended full _ _ _ _ => exact absurd empty (by simp [full i inside])
  · rintro ⟨disk', none⟩
    exact .place inside empty none

theorem noBlock_next (full : ∀ i < sb.dirEntries, isFree (disk dirBlk) i = false)
    (more : cmbData (disk chainBlk) (sb.mapIndex dirBlk) ≠ uhfsEochblk) :
    NoBlock sb fuel disk chainBlk dirBlk ↔
      NoBlock sb fuel disk (sb.mapBlock (cmbData (disk chainBlk) (sb.mapIndex dirBlk)))
        (cmbData (disk chainBlk) (sb.mapIndex dirBlk)) := by
  constructor
  · intro noBlock
    cases noBlock with
    | place inside empty _ => exact absurd empty (by simp [full _ inside])
    | next _ leads _ later =>
        rw [leads]
        exact later
    | extended _ ends _ _ _ => exact absurd ends more
  · exact fun later => .next full rfl more later

theorem noBlock_extended {k : Nat} {disk₁ : Disk}
    (full : ∀ i < sb.dirEntries, isFree (disk dirBlk) i = false)
    (ends : cmbData (disk chainBlk) (sb.mapIndex dirBlk) = uhfsEochblk)
    (got : sb.getfreeblock fuel disk = .ok (k, disk₁)) :
    NoBlock sb fuel disk chainBlk dirBlk ↔ k ≠ 0 ∧
      NoBlock sb fuel (writeBlock (writeBlock disk₁ k sb.emptyDirectory) chainBlk
        (setCmbData (writeBlock disk₁ k sb.emptyDirectory chainBlk) (sb.mapIndex dirBlk) k))
        (sb.mapBlock k) k := by
  constructor
  · intro noBlock
    cases noBlock with
    | place inside empty _ => exact absurd empty (by simp [full _ inside])
    | next _ leads more _ => exact absurd (leads.symm.trans ends) more
    | extended _ _ other some later =>
        obtain ⟨rfl, rfl⟩ := Prod.mk.inj (Except.ok.inj (got.symm.trans other))
        exact ⟨some, later⟩
  · exact fun both => .extended full ends got both.1 both.2

open Classical in
theorem addEntryIn_eq {attributes : UInt8} {fresh : Memory} {lpath : Name} {dirpath : Nat} (rounds : Nat) :
    ∀ disk chainBlk dirBlk, sb.addEntryIn attributes fresh lpath fuel dirpath rounds disk chainBlk dirBlk heap =
      (sb.addEntry attributes fresh lpath fuel rounds disk chainBlk dirBlk).map fun ran =>
        (ran, if NoBlock sb fuel disk chainBlk dirBlk then heap else heap.free dirpath) := by
  induction rounds with
  | zero => exact fun _ _ _ => rfl
  | succ rounds ih =>
      intro disk chainBlk dirBlk
      rw [FsSuperblock.addEntryIn, FsSuperblock.addEntry]
      obtain ⟨i, found, inside, empty⟩ | ⟨found, full⟩ := find_isFree sb disk dirBlk
      · rw [found]
        cases got : sb.getfreeblock fuel disk with
        | error fault => rfl
        | ok taken =>
            obtain ⟨k, disk₁⟩ := taken
            simp only [bind, Except.bind, noBlock_place inside empty, got]
            by_cases zero : k = 0
            · rw [if_pos zero, if_pos zero, if_pos ⟨disk₁, by rw [zero]⟩]
              rfl
            · rw [if_neg zero, if_neg zero, if_neg]
              · rfl
              · rintro ⟨disk', same⟩
                exact zero (Prod.mk.inj (Except.ok.inj same)).1
      · rw [found]
        by_cases ends : cmbData (disk chainBlk) (sb.mapIndex dirBlk) = uhfsEochblk
        · simp only [ends, ne_eq, not_true_eq_false, if_false]
          cases got : sb.getfreeblock fuel disk with
          | error fault => rfl
          | ok taken =>
              obtain ⟨k, disk₁⟩ := taken
              simp only [bind, Except.bind, noBlock_extended full ends got]
              by_cases zero : k = 0
              · rw [if_pos zero, if_pos zero, if_neg fun both => both.1 zero]
                rfl
              · rw [if_neg zero, if_neg zero, ih]
                simp only [zero, ne_eq, not_false_eq_true, true_and]
        · rw [if_pos ends, if_pos ends, ih]
          simp only [noBlock_next full ends]

theorem starves_iff_noBlock {found : FsSuperblock.Search}
    (search : sb.searchdirectory fuel disk path = .ok found) : Starves sb fuel disk path ↔
      found.result = 0 ∧ NoBlock sb fuel disk (sb.mapBlock found.lblock) found.lblock := by
  constructor
  · rintro ⟨other, same, both⟩
    obtain rfl := Except.ok.inj (search.symm.trans same)
    exact both
  · exact fun both => ⟨found, search, both⟩

open Classical in
theorem insertIn_eq {attributes : UInt8} {fresh : Memory} {dirpath : Nat}
    (given : heap.answers 0 = some dirpath) :
    sb.insertIn attributes fresh fuel disk path heap =
      (sb.insert attributes fresh fuel disk path).map fun ran => (ran, if Starves sb fuel disk path then
        ⟨dirpath :: heap.live, fun n => heap.answers (n + 1)⟩ else
        ⟨heap.live, fun n => heap.answers (n + 1)⟩) := by
  rw [FsSuperblock.insertIn, FsSuperblock.insert, Ledger.malloc_some given]
  cases search : sb.searchdirectory fuel disk path with
  | error fault => rfl
  | ok found =>
      simp only [bind, Except.bind, starves_iff_noBlock search]
      by_cases zero : found.result = 0
      · rw [if_neg (not_not.mpr zero), if_neg (not_not.mpr zero), addEntryIn_eq]
        simp only [zero, true_and, Ledger.free_cons]
      · rw [if_pos zero, if_pos zero, Ledger.free_cons]
        simp only [zero, false_and, if_false]
        rfl

theorem insertIn_iff {attributes : UInt8} {fresh : Memory} {ran : Int × Disk}
    (done : sb.insertIn attributes fresh fuel disk path heap = .ok (ran, heap')) :
    heap.Balanced heap' ↔ ¬(heap.answers 0 ≠ none ∧ Starves sb fuel disk path) := by
  cases given : heap.answers 0 with
  | none =>
      rw [FsSuperblock.insertIn, Ledger.malloc_none given] at done
      rw [← (Prod.mk.inj (Except.ok.inj done)).2]
      exact iff_of_true (Ledger.balanced_of_eq rfl) fun both => both.1 rfl
  | some dirpath =>
      rw [insertIn_eq given] at done
      obtain ⟨_, _, same⟩ := ok_of_map done
      have left := (Prod.mk.inj same).2
      by_cases starves : Starves sb fuel disk path
      · rw [if_pos starves] at left
        refine iff_of_false ?_ (not_not.mpr ⟨Option.some_ne_none _, starves⟩)
        rw [← left]
        exact Ledger.not_balanced_of_cons rfl
      · rw [if_neg starves] at left
        refine iff_of_true ?_ fun both => starves both.2
        rw [← left]
        exact Ledger.balanced_of_eq rfl

end Creations

section Descriptors

theorem hfOpendirIn_iff {fptr : Option Nat} (done : sb.hfOpendirIn fuel disk path heap = .ok (fptr, heap')) :
    (fptr = none → heap.Balanced heap') ↔ ¬(heap.answers 0 ≠ none ∧ heap.answers 1 = none) := by
  rw [FsSuperblock.hfOpendirIn] at done
  cases given : heap.answers 0 with
  | none =>
      rw [Ledger.malloc_none given] at done
      rw [← (Prod.mk.inj (Except.ok.inj done)).2]
      exact iff_of_true (fun _ => Ledger.balanced_of_eq rfl) fun both => both.1 rfl
  | some place =>
      rw [Ledger.malloc_some given] at done
      simp only at done
      cases also : heap.answers 1 with
      | none =>
          rw [Ledger.malloc_none also] at done
          obtain ⟨rfl, rfl⟩ := Prod.mk.inj (Except.ok.inj done)
          refine iff_of_false (fun balanced => ?_) (not_not.mpr ⟨Option.some_ne_none _, rfl⟩)
          exact Ledger.not_balanced_of_cons rfl (balanced rfl)
      | some dirpath =>
          rw [Ledger.malloc_some also] at done
          obtain ⟨found, _, done⟩ := ok_of_bind done
          refine iff_of_true (fun null => ?_) fun both => Option.some_ne_none _ both.2
          by_cases zero : found.result = 0
          · rw [if_neg (not_not.mpr zero)] at done
            rw [← (Prod.mk.inj (Except.ok.inj done)).1] at null
            cases null
          · rw [if_pos zero, Ledger.free_both] at done
            rw [← (Prod.mk.inj (Except.ok.inj done)).2]
            exact Ledger.balanced_of_eq rfl

theorem hfMountIn_eq {device : Device} {blkDevice tmpSblock datablock : Nat}
    (first : heap.answers 0 = some blkDevice) (second : heap.answers 1 = some tmpSblock)
    (third : heap.answers 2 = some datablock) : (hfMountIn device heap).1 = hfMount device := by
  rw [hfMountIn, hfMount, Ledger.malloc_some first]
  simp only
  rw [Ledger.malloc_some second]
  simp only [Ledger.free_cons]
  rw [Ledger.malloc_some third]
  split
  · rfl
  · split
    · rfl
    · split <;> rfl

theorem hfMountIn_iff (device : Device) (heap : Ledger Nat) :
    ((hfMountIn device heap).1.1 = -1 → heap.Balanced (hfMountIn device heap).2) ↔
      ¬MountLeaks device heap := by
  unfold MountLeaks
  rw [hfMountIn]
  by_cases mounted : device.ptr = none
  · by_cases power : isPowerOf2 device.info.bytesSector.toNat = true
    · rw [if_neg (not_not.mpr mounted), if_neg (by simp [power])]
      cases first : heap.answers 0 with
      | none =>
          rw [Ledger.malloc_none first]
          exact iff_of_true (fun _ => Ledger.balanced_of_eq rfl) fun both => both.2.2.1 rfl
      | some blkDevice =>
          rw [Ledger.malloc_some first]
          simp only
          cases second : heap.answers 1 with
          | none =>
              rw [Ledger.malloc_none second]
              refine iff_of_false (fun balanced => Ledger.not_balanced_of_cons rfl (balanced rfl)) ?_
              exact not_not.mpr ⟨mounted, power, Option.some_ne_none _, Or.inl rfl⟩
          | some tmpSblock =>
              rw [Ledger.malloc_some second]
              simp only [Ledger.free_cons]
              split
              · rename_i invalid
                refine iff_of_false (fun balanced => Ledger.not_balanced_of_cons rfl (balanced rfl)) ?_
                exact not_not.mpr ⟨mounted, power, Option.some_ne_none _, Or.inr (Or.inr invalid)⟩
              · rename_i valid
                cases third : heap.answers 2 with
                | none =>
                    rw [Ledger.malloc_none third]
                    refine iff_of_false (fun balanced => Ledger.not_balanced_of_cons rfl (balanced rfl)) ?_
                    exact not_not.mpr ⟨mounted, power, Option.some_ne_none _, Or.inr (Or.inl rfl)⟩
                | some datablock =>
                    rw [Ledger.malloc_some third]
                    refine iff_of_true (fun failed => ?_) ?_
                    · cases failed
                    · rintro ⟨_, _, _, contra | contra | invalid⟩
                      · cases contra
                      · cases contra
                      · exact valid invalid
    · rw [if_neg (not_not.mpr mounted), if_pos (by simpa using power)]
      exact iff_of_true (fun _ => Ledger.balanced_of_eq rfl) fun both => power both.2.1
  · rw [if_pos mounted]
    exact iff_of_true (fun _ => Ledger.balanced_of_eq rfl) fun both => mounted both.1

end Descriptors

section Volumes

variable (attributes : UInt8) (fresh : Memory) (name : Name)

/-- A directory has no room: either it has an empty entry and no block is free, or it is full and just
one block is free. -/
def NoRoom (sb : FsSuperblock) (disk : Disk) (chain : List Nat) : Prop :=
  HasEmpty sb disk chain ∧ (∀ k, sb.IsData k → sb.follower disk k ≠ uhfsFreeblk) ∨
    ¬HasEmpty sb disk chain ∧ ∃ k, sb.IsData k ∧ sb.follower disk k = uhfsFreeblk ∧
      ∀ other, sb.IsData other → sb.follower disk other = uhfsFreeblk → other = k

def OutOfBlocks (sb : FsSuperblock) (disk : Disk) (path : CString) : Prop :=
  ∃ above name first chain, path.tokens = above ++ [name] ∧ DirectoryAt sb disk above first ∧
    (∀ dir block i, ¬Names sb disk sb.rootDirBlock path.tokens dir block i) ∧
    ChainFrom sb disk first chain ∧ NoRoom sb disk chain

theorem addEntry_place_ok (formatted : sb.Formatted) (mapped : sb.Mapped disk) (enough : sb.nBlocks ≤ fuel)
    {block i : Nat} (inside : i < sb.dirEntries) (empty : isFree (disk block) i = true)
    (chainBlk rounds : Nat) :
    (∃ ran, sb.addEntry attributes fresh name fuel (rounds + 1) disk chainBlk block = .ok ran) ∧
      (NoBlock sb fuel disk chainBlk block ↔
        ∀ k, sb.IsData k → sb.follower disk k ≠ uhfsFreeblk) := by
  rw [noBlock_place inside empty, FsSuperblock.addEntry]
  obtain ⟨j, found, _⟩ | ⟨_, full⟩ := find_isFree sb disk block
  · rw [found]
    obtain ⟨k, isData, free, got⟩ | ⟨none, got⟩ := FsSuperblock.getfreeblock_spec formatted mapped enough
    · rw [got]
      simp only [bind, Except.bind, if_neg isData.ne_zero]
      refine ⟨⟨_, rfl⟩, iff_of_false ?_ fun none => none k isData free⟩
      rintro ⟨disk', same⟩
      exact isData.ne_zero (Prod.mk.inj (Except.ok.inj same)).1
    · rw [got]
      exact ⟨⟨_, rfl⟩, iff_of_true ⟨_, rfl⟩ none⟩
  · rw [full i inside] at empty
    cases empty

theorem free_lengthen (formatted : sb.Formatted) {block k other : Nat} (data : sb.IsData block)
    (ends : sb.follower disk block = uhfsEochblk) (isData : sb.IsData k) (otherData : sb.IsData other) :
    sb.follower (sb.lengthen disk block k) other = uhfsFreeblk ↔
      other ≠ k ∧ sb.follower disk other = uhfsFreeblk := by
  rw [follower_lengthen formatted data isData otherData]
  by_cases here : other = block
  · have notFree : k ≠ uhfsFreeblk := by
      have bound := formatted.nBlocks_small
      have high := isData.2.1
      unfold uhfsFreeblk
      omega
    rw [here, Function.update_self, ends]
    exact iff_of_false notFree fun both => absurd both.2 (by decide)
  · rw [Function.update_of_ne here]
    by_cases same : other = k
    · rw [same, Function.update_self]
      exact iff_of_false (by decide) fun both => both.1 rfl
    · rw [Function.update_of_ne same]
      exact ⟨fun isFree => ⟨same, isFree⟩, fun both => both.2⟩

theorem addEntry_extend_ok (formatted : sb.Formatted) (mapped : sb.Mapped disk)
    (enough : sb.nBlocks ≤ fuel) {block : Nat} (data : sb.IsData block)
    (ends : sb.follower disk block = uhfsEochblk)
    (full : ∀ i < sb.dirEntries, isFree (disk block) i = false) (rounds : Nat) :
    (∃ ran, sb.addEntry attributes fresh name fuel (rounds + 2) disk (sb.mapBlock block) block = .ok ran) ∧
      (NoBlock sb fuel disk (sb.mapBlock block) block ↔ NoRoom sb disk [block]) := by
  have noEmpty : ¬HasEmpty sb disk [block] := by
    rintro ⟨place, member, i, inside, empty⟩
    rw [List.mem_singleton.mp member, ← slotAt_isFree, full i inside] at empty
    cases empty
  have found : (List.range sb.dirEntries).find? (fun i => isFree (disk block) i) = none := by
    obtain ⟨i, _, inside, empty⟩ | ⟨found, _⟩ := find_isFree sb disk block
    · rw [full i inside] at empty
      cases empty
    · exact found
  rw [FsSuperblock.follower] at ends
  obtain ⟨k, isData, free, got⟩ | ⟨none, got⟩ := FsSuperblock.getfreeblock_spec formatted mapped enough
  · obtain ⟨disk₁, isDisk₁⟩ : ∃ disk₁, disk₁ = sb.lengthen disk block k := ⟨_, rfl⟩
    have mapped₁ : sb.Mapped disk₁ := by
      rw [isDisk₁]
      exact mapped_lengthen formatted mapped data isData
    have clean : isFree (disk₁ k) 0 = true := by
      rw [isDisk₁, lengthen_same formatted data isData]
      exact emptyDirectory_isFree formatted formatted.dirEntries_pos
    have spare : ∀ other, sb.IsData other → (sb.follower disk₁ other = uhfsFreeblk ↔
        other ≠ k ∧ sb.follower disk other = uhfsFreeblk) := by
      intro other otherData
      rw [isDisk₁]
      exact free_lengthen formatted data ends isData otherData
    obtain ⟨⟨ran, done⟩, noBlock⟩ := addEntry_place_ok attributes fresh name formatted mapped₁ enough
      formatted.dirEntries_pos clean (sb.mapBlock k) rounds
    rw [isDisk₁] at done noBlock
    constructor
    · rw [FsSuperblock.addEntry, found]
      simp only [ends, ne_eq, not_true_eq_false, if_false, got, bind, Except.bind, if_neg isData.ne_zero]
      exact ⟨ran, done⟩
    · rw [noBlock_extended full ends got]
      refine (and_iff_right isData.ne_zero).trans (noBlock.trans ?_)
      rw [← isDisk₁]
      constructor
      · intro none
        refine Or.inr ⟨noEmpty, k, isData, free, fun other otherData isFree => ?_⟩
        by_contra apart
        exact none other otherData ((spare other otherData).mpr ⟨apart, isFree⟩)
      · rintro (⟨has, _⟩ | ⟨_, only, _, _, unique⟩) other otherData isFree
        · exact noEmpty has
        · obtain ⟨apart, wasFree⟩ := (spare other otherData).mp isFree
          exact apart ((unique other otherData wasFree).trans (unique k isData free).symm)
  · constructor
    · rw [FsSuperblock.addEntry, found]
      simp only [ends, ne_eq, not_true_eq_false, if_false, got, bind, Except.bind, if_true]
      exact ⟨_, rfl⟩
    · rw [noBlock_extended full ends got]
      refine iff_of_false (fun both => both.1 rfl) ?_
      rintro (⟨has, _⟩ | ⟨_, k, isData, free, _⟩)
      · exact noEmpty has
      · exact none k isData free

theorem addEntry_ok (formatted : sb.Formatted) (mapped : sb.Mapped disk) (enough : sb.nBlocks ≤ fuel)
    (rest : List Nat) : ∀ block rounds, Linked (sb.follower disk) uhfsEochblk (block :: rest) →
      (∀ place ∈ block :: rest, sb.IsData place) → rest.length + 1 < rounds →
      (∃ ran, sb.addEntry attributes fresh name fuel rounds disk (sb.mapBlock block) block = .ok ran) ∧
        (NoBlock sb fuel disk (sb.mapBlock block) block ↔ NoRoom sb disk (block :: rest)) := by
  have placing : ∀ block rest rounds i, i < sb.dirEntries → isFree (disk block) i = true →
      (∃ ran, sb.addEntry attributes fresh name fuel (rounds + 1) disk (sb.mapBlock block) block = .ok ran) ∧
        (NoBlock sb fuel disk (sb.mapBlock block) block ↔ NoRoom sb disk (block :: rest)) := by
    intro block rest rounds i inside empty
    have has : HasEmpty sb disk (block :: rest) :=
      ⟨block, List.mem_cons_self, i, inside, by rw [← slotAt_isFree, empty]⟩
    obtain ⟨returns, noBlock⟩ := addEntry_place_ok attributes fresh name formatted mapped enough inside
      empty (sb.mapBlock block) rounds
    refine ⟨returns, noBlock.trans ⟨fun none => Or.inl ⟨has, none⟩, ?_⟩⟩
    rintro (⟨_, none⟩ | ⟨lacks, _⟩)
    · exact none
    · exact absurd has lacks
  induction rest with
  | nil =>
      intro block rounds linked data more
      obtain ⟨rounds, rfl⟩ : ∃ less, rounds = less + 2 := ⟨rounds - 2, by simp at more; omega⟩
      obtain ⟨i, _, inside, empty⟩ | ⟨_, full⟩ := find_isFree sb disk block
      · exact placing block [] (rounds + 1) i inside empty
      · exact addEntry_extend_ok attributes fresh name formatted mapped enough
          (data block List.mem_cons_self) linked.head_next full rounds
  | cons next rest ih =>
      intro block rounds linked data more
      obtain ⟨rounds, rfl⟩ : ∃ less, rounds = less + 1 := ⟨rounds - 1, by omega⟩
      obtain ⟨i, _, inside, empty⟩ | ⟨found, full⟩ := find_isFree sb disk block
      · exact placing block _ rounds i inside empty
      · have leads : cmbData (disk (sb.mapBlock block)) (sb.mapIndex block) = next := linked.head_next
        have notEnd : next ≠ uhfsEochblk := by
          have small := formatted.nBlocks_small
          have inside := (data next (by simp)).2.1
          unfold uhfsEochblk
          omega
        have more' : cmbData (disk (sb.mapBlock block)) (sb.mapIndex block) ≠ uhfsEochblk := leads ▸ notEnd
        obtain ⟨returns, noBlock⟩ := ih next rounds linked.rest
          (fun place member => data place (List.mem_cons_of_mem _ member)) (by simpa using more)
        constructor
        · rw [FsSuperblock.addEntry, found]
          simp only [leads, ne_eq, notEnd, not_false_eq_true, if_true]
          exact returns
        · have same : HasEmpty sb disk (block :: next :: rest) ↔ HasEmpty sb disk (next :: rest) := by
            constructor
            · rintro ⟨place, member, i, inside, empty⟩
              rcases List.mem_cons.mp member with rfl | later
              · rw [← slotAt_isFree, full i inside] at empty
                cases empty
              · exact ⟨place, later, i, inside, empty⟩
            · rintro ⟨place, member, i, inside, empty⟩
              exact ⟨place, List.mem_cons_of_mem _ member, i, inside, empty⟩
          rw [noBlock_next full more', leads, noBlock, NoRoom, NoRoom, same]

end Volumes

section Returns

variable {nodes : List Node}

theorem Volume.search_missing (volume : Volume sb disk nodes) (formatted : sb.Formatted)
    (enough : sb.nBlocks ≤ fuel) (inStep : InStep sb disk sb.firstCmb sb.rootDirBlock path.tokens)
    {dir : Node} (isNode : dir ∈ nodes) (isDir : dir.isDir = true) {name : Name}
    (tokens : path.tokens = dir.path ++ [name]) (absent : ∀ child ∈ nodes, child.path ≠ dir.path ++ [name]) :
    ∃ found, sb.searchdirectory fuel disk path = .ok found ∧ found.result = 0 ∧
      dir.chain.head? = some found.lblock := by
  obtain ⟨root, found, _, top, search, located⟩ := searchdirectory_inStep volume formatted enough inStep
  have ends := located.ends top
  rw [tokens] at ends
  have zero := volume.layout.ends_below isNode isDir absent ends
  refine ⟨found, search, zero, ?_⟩
  obtain ⟨parent, last, split, isParent, _, _, head, _⟩ := located.vacant_of_zero top zero
  have same := (List.append_inj' (tokens.symm.trans split) rfl).1
  rw [volume.layout.same_path isNode isParent same]
  exact head

theorem Volume.noBlock_iff (volume : Volume sb disk nodes) (formatted : sb.Formatted)
    (enough : sb.nBlocks ≤ fuel) {dir : Node} (isNode : dir ∈ nodes) {first : Nat}
    (head : dir.chain.head? = some first) (attributes : UInt8) (fresh : Memory) (name : Name) :
    (∃ ran, sb.addEntry attributes fresh name fuel fuel disk (sb.mapBlock first) first = .ok ran) ∧
      (NoBlock sb fuel disk (sb.mapBlock first) first ↔ NoRoom sb disk dir.chain) := by
  obtain ⟨rest, chain⟩ := List.head?_eq_some_iff.mp head
  have linked := (volume.layout.chain_mem isNode).2
  have data : ∀ block ∈ dir.chain, sb.IsData block := fun block => volume.layout.data isNode
  have bound := volume.layout.chain_length isNode
  rw [chain] at linked data bound ⊢
  rw [List.length_cons] at bound
  exact addEntry_ok attributes fresh name formatted volume.layout.mapped enough rest first fuel linked data
    (by omega)

theorem Volume.starves_iff (volume : Volume sb disk nodes) (formatted : sb.Formatted)
    (enough : sb.nBlocks ≤ fuel) (inStep : InStep sb disk sb.firstCmb sb.rootDirBlock path.tokens) :
    Starves sb fuel disk path ↔ OutOfBlocks sb disk path := by
  constructor
  · rintro ⟨found, search, zero, noBlock⟩
    obtain ⟨root, other, _, top, again, located⟩ := searchdirectory_inStep volume formatted enough inStep
    obtain rfl := Except.ok.inj (again.symm.trans search)
    obtain ⟨parent, name, tokens, isParent, parentDir, absent, head, _⟩ := located.vacant_of_zero top zero
    refine ⟨parent.path, name, other.lblock, parent.chain, tokens,
      volume.directoryAt formatted isParent parentDir head, fun d block i names => ?_,
      volume.chainFrom formatted isParent head, ?_⟩
    · obtain ⟨_, child, _, held, path', _⟩ := (volume.names_iff formatted path.token_ended).mp names
      exact absent child held.isChild path'
    · exact (volume.noBlock_iff formatted enough isParent head 0 zeroBlock []).2.mp noBlock
  · rintro ⟨above, name, first, chain, tokens, isDirectory, missing, isChain, noRoom⟩
    have ended : ∀ part ∈ above, 0 ∉ part :=
      fun part member => path.token_ended part (by simp [tokens, member])
    obtain ⟨dir, isNode, rfl, isDir, head⟩ := volume.directory_node formatted ended isDirectory
    obtain rfl := (volume.chainFrom formatted isNode head).unique isChain
    have absent : ∀ child ∈ nodes, child.path ≠ dir.path ++ [name] := by
      intro child isChild below
      obtain ⟨parent, block, i, last, start, held, parentHead⟩ := volume.held_of_child isChild
        (by rw [below]; exact List.append_ne_nil_of_right_ne_nil _ (List.cons_ne_nil _ _))
      refine missing start block i ((volume.names_iff formatted path.token_ended).mpr ?_)
      exact ⟨parent, child, last, held, below.trans tokens.symm, parentHead⟩
    obtain ⟨found, search, zero, foundHead⟩ :=
      volume.search_missing formatted enough inStep isNode isDir tokens absent
    refine ⟨found, search, zero, ?_⟩
    exact (volume.noBlock_iff formatted enough isNode foundHead 0 zeroBlock []).2.mpr noRoom

theorem Volume.insertIn_ok (volume : Volume sb disk nodes) (formatted : sb.Formatted)
    (enough : sb.nBlocks ≤ fuel) (inStep : InStep sb disk sb.firstCmb sb.rootDirBlock path.tokens)
    (attributes : UInt8) (fresh : Memory) (heap : Ledger Nat) :
    ∃ ran, sb.insertIn attributes fresh fuel disk path heap = .ok ran := by
  cases given : heap.answers 0 with
  | none =>
      rw [FsSuperblock.insertIn, Ledger.malloc_none given]
      exact ⟨_, rfl⟩
  | some dirpath =>
      obtain ⟨root, found, _, top, search, located⟩ := searchdirectory_inStep volume formatted enough inStep
      have returns : ∃ ran, sb.insert attributes fresh fuel disk path = .ok ran := by
        rw [FsSuperblock.insert, search]
        simp only [bind, Except.bind]
        by_cases zero : found.result = 0
        · obtain ⟨_, _, _, isParent, _, _, head, _⟩ := located.vacant_of_zero top zero
          rw [if_neg (not_not.mpr zero)]
          exact (volume.noBlock_iff formatted enough isParent head attributes fresh _).1
        · rw [if_pos zero]
          exact ⟨_, rfl⟩
      obtain ⟨ran, done⟩ := returns
      rw [insertIn_eq given, done]
      exact ⟨_, rfl⟩

theorem Volume.answer_ok (volume : Volume sb disk nodes) (formatted : sb.Formatted)
    (enough : sb.nBlocks ≤ fuel) {call : FsCall}
    (inStep : InStep sb disk sb.firstCmb sb.rootDirBlock call.path.tokens) (unset : Name)
    (heap : Ledger Nat) : ∃ ran, sb.answer unset fuel disk heap call = .ok ran := by
  have numbered : ∀ {called : Except UhfsFault ((Int × Disk) × Ledger Nat)}, (∃ ran, called = .ok ran) →
      ∃ ran, called.map FsReply.ofInt = .ok ran := by
    rintro _ ⟨ran, rfl⟩
    exact ⟨_, rfl⟩
  have changed : ∀ (path : CString) (change : Memory → Nat → Memory),
      InStep sb disk sb.firstCmb sb.rootDirBlock path.tokens →
      ∃ ran, sb.changeEntryIn change fuel disk path heap = .ok ran := by
    intro path change inStep
    obtain ⟨_, _, done, _⟩ := volume.changeEntry formatted enough inStep change
    rw [changeEntryIn_eq]
    exact heap.borrow_ok (-1, disk) done
  cases call with
  | opendir path =>
      rw [FsSuperblock.answer, FsSuperblock.hfOpendirIn]
      obtain ⟨_, found, _, _, (search : sb.searchdirectory fuel disk path = .ok found), _⟩ :=
        searchdirectory_inStep volume formatted enough inStep
      cases given : heap.answers 0 with
      | none =>
          rw [Ledger.malloc_none given]
          exact ⟨_, rfl⟩
      | some fptr =>
          rw [Ledger.malloc_some given]
          simp only
          cases also : heap.answers 1 with
          | none =>
              rw [Ledger.malloc_none also]
              exact ⟨_, rfl⟩
          | some dirpath =>
              rw [Ledger.malloc_some also, search]
              simp only [bind, Except.bind]
              split <;> exact ⟨_, rfl⟩
  | mkdir path => exact numbered (volume.insertIn_ok formatted enough inStep _ _ heap)
  | create path => exact numbered (volume.insertIn_ok formatted enough inStep _ _ heap)
  | rmdir path =>
      obtain ⟨_, _, done, _⟩ := volume.root_freed_iff formatted enough inStep unset
      rw [FsSuperblock.answer, hfRmdirIn_eq]
      exact numbered (heap.borrow_ok (-1, disk) done)
  | unlink path =>
      obtain ⟨_, _, _, done, _⟩ := volume.hfUnlink formatted enough inStep
      rw [FsSuperblock.answer, hfUnlinkIn_eq]
      exact numbered (heap.borrow_ok (-1, disk) done)
  | size path =>
      obtain ⟨found, (search : sb.searchdirectory fuel disk path = .ok found), _⟩ :=
        volume.search_file formatted enough inStep
      have returns : ∃ size, sb.hfSize fuel disk path = .ok size := by
        rw [FsSuperblock.hfSize, search]
        simp only [bind, Except.bind]
        split
        · exact ⟨_, rfl⟩
        · split <;> exact ⟨_, rfl⟩
      obtain ⟨_, done⟩ := returns
      obtain ⟨_, borrowed⟩ := heap.borrow_ok (-1) done
      rw [FsSuperblock.answer, hfSizeIn_eq, borrowed]
      exact ⟨_, rfl⟩
  | rename path newname => exact numbered (changed path _ inStep)
  | chmod path mode => exact numbered (changed path _ inStep)

end Returns

def FsReply.Balances (heap heap' : Ledger Nat) : FsReply → Prop
  | file (some _) => True
  | _ => heap.Balanced heap'

theorem FsReply.balances_ofInt {called : Except UhfsFault ((Int × Disk) × Ledger Nat)} {ran : FsReply × Disk}
    (done : called.map FsReply.ofInt = .ok (ran, heap')) :
    ∃ result, called = .ok (result, heap') ∧ (ran.1.Balances heap heap' ↔ heap.Balanced heap') := by
  obtain ⟨⟨result, left⟩, called, same⟩ := ok_of_map done
  obtain ⟨rfl, rfl⟩ := Prod.mk.inj same
  exact ⟨result, called, Iff.rfl⟩

theorem FsSuperblock.answer_iff {unset : Name} {call : FsCall} {ran : FsReply × Disk}
    (done : sb.answer unset fuel disk heap call = .ok (ran, heap')) :
    ran.1.Balances heap heap' ↔ ¬call.Leaks sb fuel disk heap := by
  cases call with
  | opendir path =>
      obtain ⟨⟨fptr, left⟩, opened, same⟩ := ok_of_map done
      obtain ⟨rfl, rfl⟩ := Prod.mk.inj same
      rw [FsCall.Leaks, ← hfOpendirIn_iff opened]
      cases fptr with
      | none => exact ⟨fun balanced _ => balanced, fun balanced => balanced rfl⟩
      | some file => exact iff_of_true trivial fun null => by cases null
  | mkdir path =>
      obtain ⟨result, called, balances⟩ := FsReply.balances_ofInt done
      exact balances.trans (insertIn_iff called)
  | create path =>
      obtain ⟨result, called, balances⟩ := FsReply.balances_ofInt done
      exact balances.trans (insertIn_iff called)
  | rmdir path =>
      obtain ⟨result, called, balances⟩ := FsReply.balances_ofInt done
      rw [hfRmdirIn_eq] at called
      exact balances.trans (iff_of_true (Ledger.borrow_balanced called) id)
  | unlink path =>
      obtain ⟨result, called, balances⟩ := FsReply.balances_ofInt done
      rw [hfUnlinkIn_eq] at called
      exact balances.trans (iff_of_true (Ledger.borrow_balanced called) id)
  | size path =>
      obtain ⟨⟨size, left⟩, called, same⟩ := ok_of_map done
      obtain ⟨rfl, rfl⟩ := Prod.mk.inj same
      rw [hfSizeIn_eq] at called
      exact iff_of_true (Ledger.borrow_balanced called) id
  | rename path newname =>
      obtain ⟨result, called, balances⟩ := FsReply.balances_ofInt done
      rw [FsSuperblock.hfRenameIn, changeEntryIn_eq] at called
      exact balances.trans (iff_of_true (Ledger.borrow_balanced called) id)
  | chmod path mode =>
      obtain ⟨result, called, balances⟩ := FsReply.balances_ofInt done
      rw [FsSuperblock.hfChmodIn, changeEntryIn_eq] at called
      exact balances.trans (iff_of_true (Ledger.borrow_balanced called) id)

theorem Device.answer_mounted {device : Device} {unset : Name} {call : FsCall} {reply : FsReply}
    {disk' : Disk} (mounted : device.ptr = some sb)
    (answered : sb.answer unset fuel device.disk heap call = .ok ((reply, disk'), heap')) :
    device.answer unset fuel heap call = .ok ((reply, { device with disk := disk' }), heap') := by
  unfold Device.answer
  rw [mounted]
  simp only
  rw [answered]
  rfl

theorem Device.answer_iff {device : Device} {unset : Name} {call : FsCall} {ran : FsReply × Device}
    (done : device.answer unset fuel heap call = .ok (ran, heap')) :
    ran.1.Balances heap heap' ↔ ¬device.Leaks fuel heap call := by
  unfold Device.answer at done
  cases mounted : device.ptr with
  | none =>
      rw [mounted] at done
      have free : ¬device.Leaks fuel heap call := by
        rintro ⟨sb, contra, _⟩
        rw [mounted] at contra
        cases contra
      refine iff_of_true ?_ free
      cases call <;>
      · obtain ⟨rfl, rfl⟩ := Prod.mk.inj (Except.ok.inj done)
        exact Ledger.balanced_of_eq rfl
  | some sb =>
      rw [mounted] at done
      obtain ⟨⟨reply, left⟩, answered, same⟩ := ok_of_map done
      obtain ⟨rfl, rfl⟩ := Prod.mk.inj same
      refine (sb.answer_iff answered).trans (not_congr ⟨fun leaks => ⟨sb, mounted, leaks⟩, ?_⟩)
      rintro ⟨other, also, leaks⟩
      obtain rfl := Option.some.inj (mounted.symm.trans also)
      exact leaks

/-- A failed `hf_mount` and a call that returns no open directory keep the allocated blocks exactly if
they do not leak one. After calls that are in order, every call whose lookup is in step returns, and
creations leak exactly where the directory with the missing name has no room. -/
theorem heap_balanced_iff {device : Device} {blkSize : UInt32} (unmounted : device.ptr = none)
    (size : blkSize.toNat = device.info.bytesSector.toNat) (roomy : Roomy device.info.volume)
    (enough : device.info.volume.nBlocks ≤ fuel) :
    (∀ device heap, ((hfMountIn device heap).1.1 = -1 → heap.Balanced (hfMountIn device heap).2) ↔
        ¬MountLeaks device heap) ∧
      (∀ unset fuel (device : Device) heap call ran heap',
        device.answer unset fuel heap call = .ok (ran, heap') →
          (ran.1.Balances heap heap' ↔ ¬device.Leaks fuel heap call)) ∧
      ∃ formatted mounted, hfMkfs blkSize device = (0, formatted) ∧ hfMount formatted = (0, mounted) ∧
        mounted.ptr = some device.info.volume ∧
        ∀ disk, OrderlyRun device.info.volume fuel mounted.disk disk →
          ∀ call : FsCall, InStep device.info.volume disk device.info.volume.firstCmb
              device.info.volume.rootDirBlock call.path.tokens →
            (∀ unset heap, ∃ ran, device.info.volume.answer unset fuel disk heap call = .ok ran) ∧
            (Starves device.info.volume fuel disk call.path ↔
              OutOfBlocks device.info.volume disk call.path) := by
  have formatted := roomy.toFormatted
  obtain ⟨disk, made, mounted, layout⟩ := format_spec unmounted size roomy
  refine ⟨hfMountIn_iff, fun _ _ _ _ _ _ _ => Device.answer_iff, _, _, made, mounted, rfl, ?_⟩
  intro disk' run call inStep
  obtain ⟨⟨nodes, volume⟩, _⟩ := run.volume formatted enough (emptyVolume layout)
  exact ⟨volume.answer_ok formatted enough inStep, volume.starves_iff formatted enough inStep⟩

/-- `hf_create` of `/b` when the file `/a` was created: two blocks are free, and whether the allocation
succeeds or not, the same blocks are allocated behind the call. -/
theorem heap_balanced_second : ∃ formatted mounted disk,
    hfMkfs 128 ⟨⟨8, 128⟩, fun _ => zeroBlock, none⟩ = (0, formatted) ∧ hfMount formatted = (0, mounted) ∧
      (BlkInfo.volume ⟨8, 128⟩).tidily 8 mounted.disk [.node (.create fileA)] = some disk ∧
      ∀ unset heap, ∃ ran heap', Device.answer unset 8 { mounted with disk } heap (.create fileB) =
          .ok (ran, heap') ∧ ran.1.Balances heap heap' := by
  have one := eightBlocks_oneRegion
  have unmounted : (⟨⟨8, 128⟩, fun _ => zeroBlock, none⟩ : Device).ptr = none := rfl
  have size : (128 : UInt32).toNat = (128 : UInt16).toNat := by decide
  have enough : (BlkInfo.volume ⟨8, 128⟩).nBlocks ≤ 8 := by decide
  obtain ⟨_, balances, formatted, mounted, made, isMounted, isVolume, returns⟩ :=
    heap_balanced_iff unmounted size one.roomy enough
  obtain ⟨disk, nodes, done, passed, run, volume⟩ := tidily_eightBlocks [.node (.create fileA)]
    (fun disk => (BlkInfo.volume ⟨8, 128⟩).follower disk 4 = uhfsFreeblk ∧
      (BlkInfo.volume ⟨8, 128⟩).follower disk 5 = uhfsFreeblk) made isMounted (by decide +kernel)
  obtain ⟨fourth, fifth⟩ := of_decide_eq_true passed
  have inStep := volume.inStep_path one.roomy.toFormatted one.region fileB
  obtain ⟨answers, starves⟩ := returns disk run (.create fileB) inStep
  have room : ¬OutOfBlocks (BlkInfo.volume ⟨8, 128⟩) disk fileB := by
    rintro ⟨_, _, _, _, _, _, _, _, ⟨_, none⟩ | ⟨_, k, _, _, only⟩⟩
    · exact none 4 (by decide) fourth
    · have same := (only 4 (by decide) fourth).trans (only 5 (by decide) fifth).symm
      cases same
  refine ⟨formatted, mounted, disk, made, isMounted, done, fun unset heap => ?_⟩
  obtain ⟨⟨⟨reply, disk'⟩, heap'⟩, answered⟩ := answers unset heap
  have called := Device.answer_mounted
    (show ({ mounted with disk } : Device).ptr = some (BlkInfo.volume ⟨8, 128⟩) from isVolume) answered
  refine ⟨_, heap', called, (balances unset 8 _ heap _ _ heap' called).mpr ?_⟩
  rintro ⟨sb, isSb, _, starving⟩
  obtain rfl := Option.some.inj (isVolume.symm.trans isSb)
  exact room (starves.mp starving)

/-- On a volume of three blocks, a failed `hf_create` keeps the copy of the path, whose allocation
succeeds. -/
theorem create_leaks_path : ∃ (device next : Device) (heap : Ledger Nat),
    hfMount (hfMkfs 128 ⟨⟨3, 128⟩, fun _ => zeroBlock, none⟩).2 = (0, device) ∧
      device.answer [] 3 ⟨[], fun n => some (256 + 16 * n)⟩ (.create fileA) =
        .ok ((.number (-1), next), heap) ∧ heap.live = [256] := by
  have checked : (match (hfMount (hfMkfs 128 ⟨⟨3, 128⟩, fun _ => zeroBlock, none⟩).2).2.answer [] 3
      ⟨[], fun n => some (256 + 16 * n)⟩ (.create fileA) with
    | .ok ((.number result, _), heap) => result = -1 && heap.live = [256]
    | _ => false) = true := by
    decide +kernel
  split at checked
  · rename_i result next heap answered
    simp only [Bool.and_eq_true, decide_eq_true_eq] at checked
    obtain ⟨rfl, live⟩ := checked
    refine ⟨_, next, heap, ?_, answered, live⟩
    have mounts : (hfMount (hfMkfs 128 ⟨⟨3, 128⟩, fun _ => zeroBlock, none⟩).2).1 = 0 := by decide +kernel
    exact Prod.ext mounts rfl
  · cases checked

end Hellfire

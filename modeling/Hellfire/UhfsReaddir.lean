import Hellfire.UhfsRoot

/-!
`hf_readdir` and the calls that only read. The entries of an open directory are in the one block buffer
of the volume, which every call that reads a block fills.
-/

namespace Hellfire

open ByteMemory Chains Machine

def uhfsEof : Nat := 0x4000
def uhfsOpenfile : Nat := 0x8000

abbrev FsDirentry : Type := List UInt8

def dirData (block : Memory) (i : Nat) : FsDirentry := (List.range 64).map fun k => block (64 * i + k)

structure FileDesc where
  flags : Nat
  block : Nat
  offset : Nat
deriving DecidableEq

def FileDesc.Loads (file : FileDesc) : Prop :=
  file.flags &&& uhfsOpenfile ≠ 0 ∧ file.flags &&& uhfsEof = 0 ∧ file.offset = 0

instance (file : FileDesc) : Decidable file.Loads := inferInstanceAs (Decidable (_ ∧ _ ∧ _))

structure Reading where
  buffer : Memory
  chainBlk : Nat
  dirBlk : Nat
  dirBlkNext : Nat
  files : Nat → FileDesc

/-- The calls that do not write to the device. `hf_opendir` gets the address that `hf_malloc` returns. -/
inductive ReadOp
  | readdir (desc : Nat)
  | opendir (fptr : Nat) (path : CString)
  | closedir (desc : Nat)
  | size (path : CString)
  | getfree

inductive ReadReply
  | entry (entry : Option FsDirentry)
  | file (fptr : Option Nat)
  | number (value : Int)

def FsSuperblock.Search.last (search : FsSuperblock.Search) : Option Nat := search.visits.flatten.getLast?

def filled (disk : Disk) (last : Option Nat) (buffer : Memory) : Memory :=
  match last with
  | none => buffer
  | some block => disk block

namespace FsSuperblock

variable (sb : FsSuperblock)

def nextBlock (disk : Disk) (desc : Nat) (state : Reading) : Reading :=
  let chainBlk := sb.mapBlock (state.files desc).block
  let dirBlk := (state.files desc).block
  let dirBlkNext := cmbData (disk chainBlk) (sb.mapIndex dirBlk)
  { buffer := disk dirBlk
    chainBlk, dirBlk, dirBlkNext
    files := Function.update state.files desc { state.files desc with block := dirBlkNext } }

def hfReaddir (disk : Disk) (desc : Nat) (state : Reading) : Option FsDirentry × Reading :=
  if (state.files desc).flags &&& uhfsOpenfile = 0 then (none, state)
  else if (state.files desc).flags &&& uhfsEof ≠ 0 then (none, state)
  else
    let state := if (state.files desc).offset = 0 then sb.nextBlock disk desc state else state
    let file := state.files desc
    let flags := if file.block = uhfsEochblk ∧ file.offset = sb.dirEntries - 1 then file.flags ||| uhfsEof
      else file.flags
    let offset := if sb.dirEntries ≤ file.offset + 1 then 0 else file.offset + 1
    (some (dirData state.buffer file.offset),
      { state with files := Function.update state.files desc { file with flags, offset } })

/-- The cluster map block that `hf_getfree` reads last. -/
def lastMap (disk : Disk) : Nat → Nat → Except UhfsFault Nat
  | 0, _ => .error .endless
  | fuel + 1, chainBlk =>
      if cmbData (disk chainBlk) 0 = uhfsEochblk then .ok chainBlk
      else lastMap disk fuel (cmbData (disk chainBlk) 0)

def read (fuel : Nat) (disk : Disk) (state : Reading) : ReadOp → Except UhfsFault (ReadReply × Reading)
  | .readdir desc =>
      let (entry, state) := sb.hfReaddir disk desc state
      .ok (.entry entry, state)
  | .opendir fptr path => do
      let found ← sb.searchdirectory fuel disk path
      let state := { state with buffer := filled disk found.last state.buffer }
      if found.result ≠ 0 then .ok (.file none, state)
      else
        let files := Function.update state.files fptr ⟨uhfsOpenfile, found.lblock, 0⟩
        .ok (.file (some fptr), { state with files })
  | .closedir desc =>
      if (state.files desc).flags &&& uhfsOpenfile = 0 then .ok (.number (-1), state)
      else
        let files := Function.update state.files desc { state.files desc with flags := 0 }
        .ok (.number 0, { state with files })
  | .size path => do
      let found ← sb.searchdirectory fuel disk path
      if found.result ≠ 1 then
        .ok (.number (-1), { state with buffer := filled disk found.last state.buffer })
      else
        let buffer := disk found.pblock
        match sb.findEntry buffer (found.ppath.getD []) with
        | some i => .ok (.number (toInt64 (fileSize buffer i)), { state with buffer })
        | none => .ok (.number 0, { state with buffer })
  | .getfree => do
      let freeblks ← sb.hfGetfree fuel disk
      let chainBlk ← lastMap disk fuel sb.firstCmb
      .ok (.number freeblks, { state with buffer := disk chainBlk })

/-- The block that a call reads last, if it reads any. -/
def readsLast (fuel : Nat) (disk : Disk) (files : Nat → FileDesc) : ReadOp → Except UhfsFault (Option Nat)
  | .readdir desc => .ok (if (files desc).Loads then some (files desc).block else none)
  | .opendir _ path => (sb.searchdirectory fuel disk path).map Search.last
  | .closedir _ => .ok none
  | .size path => (sb.searchdirectory fuel disk path).map fun found =>
      if found.result ≠ 1 then found.last else some found.pblock
  | .getfree => (lastMap disk fuel sb.firstCmb).map some

end FsSuperblock

inductive Reads (sb : FsSuperblock) (fuel : Nat) (disk : Disk) (start : Reading) :
    List ReadOp → Reading → Option Nat → Prop
  | start : Reads sb fuel disk start [] start none
  | call {ops state last op reply state' now} : Reads sb fuel disk start ops state last →
      sb.read fuel disk state op = .ok (reply, state') →
      sb.readsLast fuel disk state.files op = .ok now →
      Reads sb fuel disk start (ops ++ [op]) state' (now.or last)

def ReadOp.Spares (desc : Nat) : ReadOp → Prop
  | opendir fptr _ => fptr ≠ desc
  | closedir other => other ≠ desc
  | _ => True

def ReadOp.readsDir (desc : Nat) : ReadOp → Bool
  | readdir other => other = desc
  | _ => false

def turns (desc : Nat) (ops : List ReadOp) : Nat := ops.countP (ReadOp.readsDir desc)

def FsSuperblock.entries (sb : FsSuperblock) (disk : Disk) (chain : List Nat) : List FsDirentry :=
  chain.flatMap fun block => (List.range sb.dirEntries).map (dirData (disk block))

/-- The calls of `hf_readdir` for the directory return its entries in order, and then fail. -/
def InOrder (sb : FsSuperblock) (fuel : Nat) (disk : Disk) (chain : List Nat) (desc : Nat) (start : Reading)
    (ops : List ReadOp) : Prop :=
  ∀ before state last, Reads sb fuel disk start before state last → before ++ [.readdir desc] <+: ops →
    (sb.hfReaddir disk desc state).1 = (sb.entries disk chain)[turns desc before]?

/-- Whenever `hf_readdir` goes on inside a block of the directory, the block that was read last by any
call has the same entry at this place. -/
def Undisturbed (sb : FsSuperblock) (fuel : Nat) (disk : Disk) (chain : List Nat) (desc : Nat)
    (start : Reading) (ops : List ReadOp) : Prop :=
  ∀ before state last, Reads sb fuel disk start before state last → before ++ [.readdir desc] <+: ops →
    ∀ own ∈ chain[turns desc before / sb.dirEntries]?, turns desc before % sb.dirEntries ≠ 0 →
      ∃ block, last = some block ∧ dirData (disk block) (turns desc before % sb.dirEntries) =
        dirData (disk own) (turns desc before % sb.dirEntries)

variable {sb : FsSuperblock} {fuel : Nat} {disk : Disk} {desc : Nat} {start state state' : Reading}
  {ops : List ReadOp} {last : Option Nat} {chain : List Nat}

inductive Progress (sb : FsSuperblock) (chain : List Nat) (turns : Nat) (file : FileDesc) : Prop
  | fresh {before block after} : chain = before ++ block :: after →
      turns = before.length * sb.dirEntries → file = ⟨uhfsOpenfile, block, 0⟩ → Progress sb chain turns file
  | within {before block after i} : chain = before ++ block :: after → 0 < i → i < sb.dirEntries →
      turns = before.length * sb.dirEntries + i →
      file = ⟨uhfsOpenfile, after.head?.getD uhfsEochblk, i⟩ → Progress sb chain turns file
  | ended : chain.length * sb.dirEntries ≤ turns → file.flags = uhfsOpenfile ||| uhfsEof →
      Progress sb chain turns file

theorem Progress.opened {file : FileDesc} {block : Nat} (isNew : file = ⟨uhfsOpenfile, block, 0⟩)
    (isChain : ChainFrom sb disk block chain) : Progress sb chain 0 file := by
  obtain ⟨after, isHead⟩ := List.head?_eq_some_iff.mp isChain.head
  exact .fresh (show chain = [] ++ block :: after from isHead) (Nat.zero_mul _).symm isNew

section Entries

theorem entries_length (chain : List Nat) :
    (sb.entries disk chain).length = chain.length * sb.dirEntries := by
  induction chain with
  | nil => simp [FsSuperblock.entries]
  | cons block rest ih =>
      rw [FsSuperblock.entries, List.flatMap_cons, List.length_append, List.length_map, List.length_range,
        List.length_cons, Nat.succ_mul, Nat.add_comm]
      exact congrArg (· + sb.dirEntries) ih

theorem entries_get (disk : Disk) (before : List Nat) (block : Nat) (after : List Nat) {i : Nat}
    (inside : i < sb.dirEntries) :
    (sb.entries disk (before ++ block :: after))[before.length * sb.dirEntries + i]? =
      some (dirData (disk block) i) := by
  have split : sb.entries disk (before ++ block :: after) = sb.entries disk before ++
      ((List.range sb.dirEntries).map (dirData (disk block)) ++ sb.entries disk after) := by
    rw [FsSuperblock.entries, List.flatMap_append, List.flatMap_cons]
    rfl
  have length : (sb.entries disk before).length = _ := entries_length before
  rw [split, List.getElem?_append_right (by omega), length, Nat.add_sub_cancel_left,
    List.getElem?_append_left (by simpa using inside), List.getElem?_map, List.getElem?_range inside]
  rfl

end Entries

section Turns

/-- What `hf_readdir` makes of a file that stands at an entry of a block. -/
def FileDesc.advance (n : Nat) (file : FileDesc) : FileDesc :=
  { file with
    flags := if file.block = uhfsEochblk ∧ file.offset = n - 1 then file.flags ||| uhfsEof else file.flags
    offset := if n ≤ file.offset + 1 then 0 else file.offset + 1 }

theorem FileDesc.advance_mk (n flags block offset : Nat) : FileDesc.advance n ⟨flags, block, offset⟩ =
    ⟨if block = uhfsEochblk ∧ offset = n - 1 then flags ||| uhfsEof else flags, block,
      if n ≤ offset + 1 then 0 else offset + 1⟩ := rfl

theorem Progress.advance {before after : List Nat} {block i count : Nat}
    (split : chain = before ++ block :: after) (inner : uhfsEochblk ∉ chain) (inside : i < sb.dirEntries)
    (position : count = before.length * sb.dirEntries + i) :
    Progress sb chain (count + 1)
      (FileDesc.advance sb.dirEntries ⟨uhfsOpenfile, after.head?.getD uhfsEochblk, i⟩) := by
  rw [FileDesc.advance_mk]
  by_cases more : i + 1 < sb.dirEntries
  · rw [if_neg (show ¬(_ ∧ i = sb.dirEntries - 1) by omega), if_neg (by omega)]
    exact .within split (Nat.succ_pos i) more (by omega) rfl
  · have last : i = sb.dirEntries - 1 := by omega
    have length : chain.length = before.length + (after.length + 1) := by
      rw [split, List.length_append, List.length_cons]
    have done : count + 1 = (before.length + 1) * sb.dirEntries := by
      rw [Nat.succ_mul]
      omega
    rw [if_pos (show sb.dirEntries ≤ i + 1 by omega)]
    cases after with
    | nil =>
        refine .ended ?_ (if_pos ⟨rfl, last⟩)
        rw [done, length]
        exact le_rfl
    | cons next rest =>
        have notEnd : next ≠ uhfsEochblk := by
          rintro rfl
          exact inner (by simp [split])
        have again : chain = (before ++ [block]) ++ next :: rest := by
          rw [split, List.append_assoc, List.singleton_append]
        refine .fresh again ?_ ?_
        · rw [done, List.length_append, List.length_singleton]
        · rw [List.head?_cons, Option.getD_some, if_neg fun both => notEnd both.1]

theorem open_flag : uhfsOpenfile &&& uhfsOpenfile ≠ 0 ∧ uhfsOpenfile &&& uhfsEof = 0 := by decide

theorem hfReaddir_fresh {block : Nat} (file : state.files desc = ⟨uhfsOpenfile, block, 0⟩) :
    (sb.hfReaddir disk desc state).1 = some (dirData (disk block) 0) ∧
      (sb.hfReaddir disk desc state).2.buffer = disk block ∧
      (sb.hfReaddir disk desc state).2.files = Function.update state.files desc
        (FileDesc.advance sb.dirEntries ⟨uhfsOpenfile, sb.follower disk block, 0⟩) := by
  have opened : (state.files desc).flags &&& uhfsOpenfile ≠ 0 := by rw [file]; exact open_flag.1
  have more : ¬(state.files desc).flags &&& uhfsEof ≠ 0 := by rw [file]; exact not_not.mpr open_flag.2
  have atStart : (state.files desc).offset = 0 := by rw [file]
  have loaded : (sb.nextBlock disk desc state).files desc =
      ⟨uhfsOpenfile, sb.follower disk block, 0⟩ := by
    simp only [FsSuperblock.nextBlock, Function.update_self, file]
    rfl
  rw [FsSuperblock.hfReaddir, if_neg opened, if_neg more, if_pos atStart]
  simp only [loaded]
  refine ⟨?_, ?_, ?_⟩
  · simp only [FsSuperblock.nextBlock, file]
  · simp only [FsSuperblock.nextBlock, file]
  · rw [FsSuperblock.nextBlock, Function.update_idem]
    rfl

theorem hfReaddir_within {next i : Nat} (file : state.files desc = ⟨uhfsOpenfile, next, i⟩)
    (later : 0 < i) :
    (sb.hfReaddir disk desc state).1 = some (dirData state.buffer i) ∧
      (sb.hfReaddir disk desc state).2.buffer = state.buffer ∧
      (sb.hfReaddir disk desc state).2.files = Function.update state.files desc
        (FileDesc.advance sb.dirEntries ⟨uhfsOpenfile, next, i⟩) := by
  have opened : (state.files desc).flags &&& uhfsOpenfile ≠ 0 := by rw [file]; exact open_flag.1
  have more : ¬(state.files desc).flags &&& uhfsEof ≠ 0 := by rw [file]; exact not_not.mpr open_flag.2
  have inside : ¬(state.files desc).offset = 0 := by rw [file]; exact Nat.ne_of_gt later
  rw [FsSuperblock.hfReaddir, if_neg opened, if_neg more, if_neg inside]
  refine ⟨?_, rfl, ?_⟩
  · simp only [file]
  · simp only [file]
    rfl

theorem hfReaddir_ended (flags : (state.files desc).flags = uhfsOpenfile ||| uhfsEof) :
    sb.hfReaddir disk desc state = (none, state) := by
  rw [FsSuperblock.hfReaddir, if_neg (by rw [flags]; decide), if_pos (by rw [flags]; decide)]

theorem Progress.turn {count : Nat} (progress : Progress sb chain count (state.files desc))
    (linked : Linked (sb.follower disk) uhfsEochblk chain) (inner : uhfsEochblk ∉ chain)
    (positive : 0 < sb.dirEntries) :
    Progress sb chain (count + 1) ((sb.hfReaddir disk desc state).2.files desc) := by
  cases progress with
  | @fresh before block after split position file =>
      rw [(hfReaddir_fresh file).2.2, Function.update_self]
      have leads : sb.follower disk block = after.head?.getD uhfsEochblk := by
        rw [split] at linked
        exact linked.next_eq
      rw [leads]
      exact .advance split inner positive position
  | @within before block after i split later inside position file =>
      rw [(hfReaddir_within file later).2.2, Function.update_self]
      exact .advance split inner inside position
  | ended done flags =>
      rw [hfReaddir_ended flags]
      exact .ended (Nat.le_succ_of_le done) flags

end Turns

section Runs

theorem filled_or (now last : Option Nat) (buffer : Memory) :
    filled disk (now.or last) buffer = filled disk now (filled disk last buffer) := by
  cases now <;> rfl

theorem hfReaddir_buffer (other : Nat) : (sb.hfReaddir disk other state).2.buffer =
    filled disk (if (state.files other).Loads then some (state.files other).block else none)
      state.buffer := by
  rw [FsSuperblock.hfReaddir]
  by_cases loads : (state.files other).Loads
  · obtain ⟨opened, more, atStart⟩ := loads
    rw [if_pos (show (state.files other).Loads from ⟨opened, more, atStart⟩), if_neg opened,
      if_neg (not_not.mpr more)]
    simp only [atStart, if_true]
    rfl
  · rw [if_neg loads]
    split
    · rfl
    · rename_i opened
      split
      · rfl
      · rename_i more
        have inside : (state.files other).offset ≠ 0 := fun atStart =>
          loads ⟨opened, not_not.mp more, atStart⟩
        simp only [inside, if_false]
        rfl

theorem read_buffer {op : ReadOp} {reply : ReadReply} {now : Option Nat}
    (done : sb.read fuel disk state op = .ok (reply, state'))
    (reads : sb.readsLast fuel disk state.files op = .ok now) :
    state'.buffer = filled disk now state.buffer := by
  cases op with
  | readdir other =>
      rw [← (Prod.mk.inj (Except.ok.inj done)).2, ← Except.ok.inj reads]
      exact hfReaddir_buffer other
  | opendir fptr path =>
      obtain ⟨found, search, done⟩ := ok_of_bind done
      rw [FsSuperblock.readsLast, search] at reads
      rw [← Except.ok.inj reads]
      by_cases zero : found.result = 0
      · rw [if_neg (not_not.mpr zero)] at done
        rw [← (Prod.mk.inj (Except.ok.inj done)).2]
      · rw [if_pos zero] at done
        rw [← (Prod.mk.inj (Except.ok.inj done)).2]
  | closedir other =>
      rw [← Except.ok.inj reads]
      rw [FsSuperblock.read] at done
      split at done
      · rw [← (Prod.mk.inj (Except.ok.inj done)).2]
        rfl
      · rw [← (Prod.mk.inj (Except.ok.inj done)).2]
        rfl
  | size path =>
      obtain ⟨found, search, done⟩ := ok_of_bind done
      rw [FsSuperblock.readsLast, search] at reads
      rw [← Except.ok.inj reads]
      by_cases one : found.result = 1
      · rw [if_neg (not_not.mpr one)] at done
        simp only [one, ne_eq, not_true_eq_false, if_false] at done ⊢
        split at done
        · rw [← (Prod.mk.inj (Except.ok.inj done)).2]
          rfl
        · rw [← (Prod.mk.inj (Except.ok.inj done)).2]
          rfl
      · rw [if_pos one] at done
        simp only [if_pos one]
        rw [← (Prod.mk.inj (Except.ok.inj done)).2]
  | getfree =>
      obtain ⟨freeblks, _, done⟩ := ok_of_bind done
      obtain ⟨chainBlk, swept, done⟩ := ok_of_bind done
      rw [FsSuperblock.readsLast, swept] at reads
      rw [← Except.ok.inj reads, ← (Prod.mk.inj (Except.ok.inj done)).2]
      rfl

theorem hfReaddir_other {other : Nat} (apart : other ≠ desc) :
    (sb.hfReaddir disk other state).2.files desc = state.files desc := by
  rw [FsSuperblock.hfReaddir]
  split
  · rfl
  · split
    · rfl
    · simp only [Function.update_of_ne apart.symm]
      split
      · exact Function.update_of_ne apart.symm _ _
      · rfl

theorem read_other {op : ReadOp} {reply : ReadReply} (other : op.readsDir desc = false)
    (spares : op.Spares desc) (done : sb.read fuel disk state op = .ok (reply, state')) :
    state'.files desc = state.files desc := by
  cases op with
  | readdir another =>
      rw [← (Prod.mk.inj (Except.ok.inj done)).2]
      exact hfReaddir_other (by simpa [ReadOp.readsDir] using other)
  | opendir fptr path =>
      obtain ⟨found, _, done⟩ := ok_of_bind done
      split at done
      · rw [← (Prod.mk.inj (Except.ok.inj done)).2]
      · rw [← (Prod.mk.inj (Except.ok.inj done)).2]
        exact Function.update_of_ne (Ne.symm spares) _ _
  | closedir another =>
      rw [FsSuperblock.read] at done
      split at done
      · rw [← (Prod.mk.inj (Except.ok.inj done)).2]
      · rw [← (Prod.mk.inj (Except.ok.inj done)).2]
        exact Function.update_of_ne (Ne.symm spares) _ _
  | size path =>
      obtain ⟨found, _, done⟩ := ok_of_bind done
      split at done
      · rw [← (Prod.mk.inj (Except.ok.inj done)).2]
      · simp only at done
        split at done <;> rw [← (Prod.mk.inj (Except.ok.inj done)).2]
  | getfree =>
      obtain ⟨_, _, done⟩ := ok_of_bind done
      obtain ⟨_, _, done⟩ := ok_of_bind done
      rw [← (Prod.mk.inj (Except.ok.inj done)).2]

theorem opendir_file {fptr : Nat} {path : CString}
    (opened : sb.read fuel disk state (.opendir fptr path) = .ok (.file (some fptr), start)) :
    start.files fptr = ⟨uhfsOpenfile, (start.files fptr).block, 0⟩ := by
  obtain ⟨found, _, done⟩ := ok_of_bind opened
  split at done
  · cases done
  · rw [← (Prod.mk.inj (Except.ok.inj done)).2]
    simp only [Function.update_self]

theorem opendir_spec {path : CString} {found : FsSuperblock.Search} (fptr : Nat) (state : Reading)
    (search : sb.searchdirectory fuel disk path = .ok found) (zero : found.result = 0) :
    ∃ start, sb.read fuel disk state (.opendir fptr path) = .ok (.file (some fptr), start) ∧
      start.files fptr = ⟨uhfsOpenfile, found.lblock, 0⟩ := by
  rw [FsSuperblock.read, search]
  exact ⟨_, if_neg (not_not.mpr zero), Function.update_self _ _ _⟩

structure Kept (sb : FsSuperblock) (disk : Disk) (chain : List Nat) (desc : Nat) (start : Reading)
    (count : Nat) (state : Reading) (last : Option Nat) : Prop where
  progress : Progress sb chain count (state.files desc)
  buffer : state.buffer = filled disk last start.buffer
  loaded : (state.files desc).offset ≠ 0 → last ≠ none

theorem place_within {count i k n : Nat} (inside : i < n) (position : count = k * n + i) :
    count / n = k ∧ count % n = i := by
  have positive : 0 < n := Nat.zero_lt_of_lt inside
  rw [position, Nat.add_comm]
  exact ⟨by rw [Nat.add_mul_div_right _ _ positive, Nat.div_eq_of_lt inside, Nat.zero_add],
    by rw [Nat.add_mul_mod_self_right, Nat.mod_eq_of_lt inside]⟩

theorem Kept.entry_iff {count : Nat} (kept : Kept sb disk chain desc start count state last)
    (positive : 0 < sb.dirEntries) :
    (sb.hfReaddir disk desc state).1 = (sb.entries disk chain)[count]? ↔
      ∀ own ∈ chain[count / sb.dirEntries]?, count % sb.dirEntries ≠ 0 →
        ∃ block, last = some block ∧
          dirData (disk block) (count % sb.dirEntries) = dirData (disk own) (count % sb.dirEntries) := by
  cases kept.progress with
  | @fresh before block after split position file =>
      refine iff_of_true ?_ fun own _ inside => absurd ?_ inside
      · have entry := entries_get disk before block after positive
        rw [(hfReaddir_fresh file).1, split, position, ← entry, Nat.add_zero]
      · rw [position, Nat.mul_mod_left]
  | @within before block after i split later inside position file =>
      obtain ⟨turn, place⟩ := place_within inside position
      have entry := entries_get disk before block after inside
      rw [← split, ← position] at entry
      have own : chain[before.length]? = some block := by simp [split]
      obtain ⟨loaded, isLast⟩ := Option.ne_none_iff_exists'.mp
        (kept.loaded (by rw [file]; exact Nat.ne_of_gt later))
      rw [(hfReaddir_within file later).1, entry, turn, place, own, kept.buffer, isLast, Option.some_inj]
      constructor
      · rintro same _ ⟨rfl⟩ _
        exact ⟨loaded, rfl, same⟩
      · intro same
        obtain ⟨_, ⟨rfl⟩, equal⟩ := same block rfl (Nat.ne_of_gt later)
        exact equal
  | ended done flags =>
      refine iff_of_true ?_ fun own member => ?_
      · rw [hfReaddir_ended flags, List.getElem?_eq_none (by rw [entries_length]; exact done)]
      · have behind : chain.length ≤ count / sb.dirEntries := (Nat.le_div_iff_mul_le positive).mpr done
        rw [List.getElem?_eq_none behind] at member
        cases member

theorem Reads.kept (reads : Reads sb fuel disk start ops state last)
    (linked : Linked (sb.follower disk) uhfsEochblk chain) (inner : uhfsEochblk ∉ chain)
    (positive : 0 < sb.dirEntries) (first : Progress sb chain 0 (start.files desc))
    (atStart : (start.files desc).offset = 0) (spares : ∀ op ∈ ops, op.Spares desc) :
    Kept sb disk chain desc start (turns desc ops) state last := by
  induction reads with
  | start => exact ⟨first, rfl, fun more => absurd atStart more⟩
  | @call ops state last op reply state' now before done reads ih =>
      have kept := ih fun op member => spares op (List.mem_append_left _ member)
      have buffer : state'.buffer = filled disk (now.or last) start.buffer := by
        rw [read_buffer done reads, kept.buffer, filled_or]
      by_cases own : op.readsDir desc = true
      · cases op with
        | readdir other =>
            obtain rfl : other = desc := by simpa [ReadOp.readsDir] using own
            have isTurn : turns other (ops ++ [.readdir other]) = turns other ops + 1 := by
              simp [turns, ReadOp.readsDir]
            have after : (sb.hfReaddir disk other state).2 = state' := (Prod.mk.inj (Except.ok.inj done)).2
            refine ⟨?_, buffer, fun inside unread => ?_⟩
            · rw [isTurn, ← after]
              exact kept.progress.turn linked inner positive
            · obtain ⟨notNow, notLast⟩ := Option.or_eq_none_iff.mp unread
              cases kept.progress with
              | fresh _ _ file =>
                  have loads : (state.files other).Loads := by
                    rw [file]
                    exact ⟨open_flag.1, open_flag.2, rfl⟩
                  have read := Except.ok.inj reads
                  rw [if_pos loads, notNow] at read
                  cases read
              | within _ later _ _ file =>
                  refine kept.loaded ?_ notLast
                  rw [file]
                  exact Nat.ne_of_gt later
              | ended _ flags =>
                  rw [← after, hfReaddir_ended flags] at inside
                  exact kept.loaded inside notLast
        | opendir _ _ => cases own
        | closedir _ => cases own
        | size _ => cases own
        | getfree => cases own
      · have same := read_other (by simpa using own) (spares op (by simp)) done
        have noTurn : turns desc (ops ++ [op]) = turns desc ops := by
          simp [turns, own]
        refine ⟨?_, buffer, fun inside none => ?_⟩
        · rw [noTurn, same]
          exact kept.progress
        · rw [same] at inside
          exact kept.loaded inside (Option.or_eq_none_iff.mp none).2

/-- Between calls of `hf_readdir` for one directory alone, the block that was read last is the one whose
entries are returned. -/
theorem Reads.alone (reads : Reads sb fuel disk start ops state last)
    (linked : Linked (sb.follower disk) uhfsEochblk chain) (inner : uhfsEochblk ∉ chain)
    (positive : 0 < sb.dirEntries) (first : Progress sb chain 0 (start.files desc))
    (atStart : (start.files desc).offset = 0) (alone : ∀ op ∈ ops, op = .readdir desc) :
    ∀ own ∈ chain[turns desc ops / sb.dirEntries]?, turns desc ops % sb.dirEntries ≠ 0 → last = some own := by
  induction reads with
  | start =>
      intro own _ inside
      exact absurd (Nat.zero_mod _) inside
  | @call ops state last op reply state' now before done reads ih =>
      have others : ∀ op ∈ ops, op = .readdir desc :=
        fun op member => alone op (List.mem_append_left _ member)
      obtain rfl := alone op (by simp)
      have kept := before.kept linked inner positive first atStart fun op member => by
        rw [others op member]
        exact trivial
      have isTurn : turns desc (ops ++ [.readdir desc]) = turns desc ops + 1 := by
        simp [turns, ReadOp.readsDir]
      have now_eq := Except.ok.inj reads
      intro own member inside
      rw [isTurn] at member inside
      -- the block of the next entry is that of this one, as it is not the first of a block
      rw [Nat.succ_div_of_not_dvd fun divides => inside (Nat.mod_eq_zero_of_dvd divides)] at member
      cases kept.progress with
      | @fresh before block after split position file =>
          have loads : (state.files desc).Loads := by
            rw [file]
            exact ⟨open_flag.1, open_flag.2, rfl⟩
          obtain ⟨turn, _⟩ := place_within positive (position.trans (Nat.add_zero _).symm)
          have here : chain[before.length]? = some block := by simp [split]
          rw [turn, here] at member
          rw [if_pos loads] at now_eq
          rw [← now_eq, Option.some_or, file, Option.some.inj member]
      | @within before block after i split later below position file =>
          obtain ⟨_, place⟩ := place_within below position
          have stays : ¬(state.files desc).Loads := by
            rw [file]
            exact fun loads => Nat.ne_of_gt later loads.2.2
          rw [if_neg stays] at now_eq
          rw [← now_eq, Option.none_or]
          exact ih others own member (by rw [place]; exact Nat.ne_of_gt later)
      | ended done _ =>
          have behind : chain.length ≤ turns desc ops / sb.dirEntries :=
            (Nat.le_div_iff_mul_le positive).mpr done
          rw [List.getElem?_eq_none behind] at member
          cases member

theorem undisturbed_alone (positive : 0 < sb.dirEntries) {block : Nat}
    (file : start.files desc = ⟨uhfsOpenfile, block, 0⟩) (isChain : ChainFrom sb disk block chain)
    (alone : ∀ op ∈ ops, op = .readdir desc) : Undisturbed sb fuel disk chain desc start ops := by
  intro before state last reads asked own member inside
  have first := Progress.opened file isChain
  have loaded := reads.alone isChain.linked isChain.inner positive first (by rw [file])
    (fun op member => alone op (asked.subset (List.mem_append_left _ member))) own member inside
  exact ⟨own, loaded, rfl⟩

end Runs

/-- `hf_readdir` of a directory that `hf_opendir` opened returns its entries in order between any other calls
that read exactly if these leave the entries that are still to come in the block buffer. -/
theorem readdir_in_order_iff {path : CString} (positive : 0 < sb.dirEntries)
    (opened : sb.read fuel disk state (.opendir desc path) = .ok (.file (some desc), start))
    (isChain : ChainFrom sb disk (start.files desc).block chain) (spares : ∀ op ∈ ops, op.Spares desc) :
    InOrder sb fuel disk chain desc start ops ↔ Undisturbed sb fuel disk chain desc start ops := by
  have file := opendir_file opened
  have first := Progress.opened file isChain
  have atStart : (start.files desc).offset = 0 := by rw [file]
  have kept : ∀ before state last, Reads sb fuel disk start before state last →
      before ++ [.readdir desc] <+: ops →
      Kept sb disk chain desc start (turns desc before) state last := by
    intro before state last reads asked
    refine reads.kept isChain.linked isChain.inner positive first atStart fun op member => spares op ?_
    exact asked.subset (List.mem_append_left _ member)
  constructor
  · intro inOrder before state last reads asked
    exact ((kept before state last reads asked).entry_iff positive).mp (inOrder before state last reads asked)
  · intro undisturbed before state last reads asked
    exact ((kept before state last reads asked).entry_iff positive).mpr
      (undisturbed before state last reads asked)

def insideA : CString := ⟨[47, 97, 47, 46], by decide⟩

theorem mkdir_new : ∃ mounted disk found,
    hfMount (hfMkfs 128 ⟨⟨8, 128⟩, fun _ => zeroBlock, none⟩).2 = (0, mounted) ∧
      mounted.ptr = some (BlkInfo.volume ⟨8, 128⟩) ∧
      (BlkInfo.volume ⟨8, 128⟩).hfMkdir 8 mounted.disk fileA = .ok (0, disk) ∧
      (BlkInfo.volume ⟨8, 128⟩).searchdirectory 8 disk insideA = .ok found ∧
      found.result = 0 ∧ found.lblock = 3 ∧ ChainFrom (BlkInfo.volume ⟨8, 128⟩) disk 3 [3] ∧
      (BlkInfo.volume ⟨8, 128⟩).hfGetfree 8 disk = .ok 4 ∧ FsSuperblock.lastMap disk 8 1 = .ok 1 ∧
      dirData (disk 1) 1 ≠ dirData (disk 3) 1 := by
  have checked : passes ((BlkInfo.volume ⟨8, 128⟩).hfMkdir 8
      (hfMkfs 128 ⟨⟨8, 128⟩, fun _ => zeroBlock, none⟩).2.disk fileA)
      (fun made => passes ((BlkInfo.volume ⟨8, 128⟩).searchdirectory 8 made.2 insideA) fun found =>
        passes ((BlkInfo.volume ⟨8, 128⟩).hfGetfree 8 made.2) fun freeblks =>
          made.1 = 0 && found.result = 0 && found.lblock = 3 &&
            (BlkInfo.volume ⟨8, 128⟩).follower made.2 3 = uhfsEochblk && freeblks = 4 &&
            cmbData (made.2 1) 0 = uhfsEochblk && dirData (made.2 1) 1 ≠ dirData (made.2 3) 1) = true := by
    decide +kernel
  obtain ⟨disk, made, mounted, _⟩ := format_eightBlocks
  rw [made] at checked ⊢
  obtain ⟨⟨result, disk₁⟩, added, checked⟩ := ok_of_passes checked
  obtain ⟨found, search, checked⟩ := ok_of_passes checked
  obtain ⟨freeblks, counted, checked⟩ := ok_of_passes checked
  simp only [Bool.and_eq_true, decide_eq_true_eq] at checked
  obtain ⟨⟨⟨⟨⟨⟨rfl, zero⟩, isFirst⟩, ends⟩, rfl⟩, isLast⟩, differ⟩ := checked
  exact ⟨_, disk₁, found, mounted, rfl, added, search, zero, isFirst,
    ⟨rfl, .single ends, by decide⟩, counted, if_pos isLast, differ⟩

theorem readdir_in_order_new : ∃ mounted disk start,
    hfMount (hfMkfs 128 ⟨⟨8, 128⟩, fun _ => zeroBlock, none⟩).2 = (0, mounted) ∧
      (BlkInfo.volume ⟨8, 128⟩).hfMkdir 8 mounted.disk fileA = .ok (0, disk) ∧
      InOrder (BlkInfo.volume ⟨8, 128⟩) 8 disk [3] 0 start [.readdir 0, .readdir 0, .readdir 0] := by
  obtain ⟨mounted, disk, found, isMounted, _, added, search, zero, isFirst, isChain, _⟩ := mkdir_new
  obtain ⟨start, opened, file⟩ := opendir_spec 0 ⟨zeroBlock, 0, 0, 0, fun _ => ⟨0, 0, 0⟩⟩ search zero
  rw [isFirst] at file
  have reads : Undisturbed (BlkInfo.volume ⟨8, 128⟩) 8 disk [3] 0 start
      [.readdir 0, .readdir 0, .readdir 0] :=
    undisturbed_alone (by decide) file isChain (by simp)
  refine ⟨mounted, disk, start, isMounted, added, (readdir_in_order_iff (by decide) opened ?_ ?_).mpr reads⟩
  · rw [file]
    exact isChain
  · simp [ReadOp.Spares]

/-- `hf_getfree` behind the first entry of a directory makes the second one that of a cluster map block. -/
theorem not_inOrder_getfree {block map free : Nat} {rest : List Nat} (two : 1 < sb.dirEntries)
    (file : start.files desc = ⟨uhfsOpenfile, block, 0⟩) (counted : sb.hfGetfree fuel disk = .ok free)
    (swept : FsSuperblock.lastMap disk fuel sb.firstCmb = .ok map)
    (differ : dirData (disk map) 1 ≠ dirData (disk block) 1) :
    ¬InOrder sb fuel disk (block :: rest) desc start [.readdir desc, .getfree, .readdir desc] := by
  intro inOrder
  obtain ⟨_, _, next⟩ : (sb.hfReaddir disk desc start).1 = _ ∧ _ := hfReaddir_fresh file
  have first : Reads sb fuel disk start [.readdir desc] (sb.hfReaddir disk desc start).2 _ :=
    .call .start rfl rfl
  obtain ⟨later, call, buffer, files⟩ : ∃ later,
      sb.read fuel disk (sb.hfReaddir disk desc start).2 .getfree = .ok (.number free, later) ∧
        later.buffer = disk map ∧ later.files = (sb.hfReaddir disk desc start).2.files := by
    rw [FsSuperblock.read, counted, swept]
    exact ⟨_, rfl, rfl, rfl⟩
  have reads : sb.readsLast fuel disk (sb.hfReaddir disk desc start).2.files .getfree = .ok (some map) := by
    rw [FsSuperblock.readsLast, swept]
    rfl
  have moved : later.files desc = ⟨uhfsOpenfile, sb.follower disk block, 1⟩ := by
    rw [files, next, Function.update_self, FileDesc.advance_mk, if_neg (by omega), if_neg (by omega)]
  have entry := inOrder [.readdir desc, .getfree] later _ (first.call call reads) (List.prefix_refl _)
  have own : (sb.entries disk _)[_]? = _ := entries_get disk [] block rest two
  have turn : turns desc [.readdir desc, .getfree] = 1 := by
    simp [turns, ReadOp.readsDir]
  rw [List.length_nil, Nat.zero_mul, Nat.zero_add, List.nil_append] at own
  rw [(hfReaddir_within moved Nat.one_pos).1, buffer, turn, own] at entry
  exact differ (Option.some.inj entry)

/-- After `hf_getfree` the second `hf_readdir` returns a part of the cluster map block. -/
theorem readdir_reads_map : ∃ mounted disk start,
    hfMount (hfMkfs 128 ⟨⟨8, 128⟩, fun _ => zeroBlock, none⟩).2 = (0, mounted) ∧
      mounted.ptr = some (BlkInfo.volume ⟨8, 128⟩) ∧
      (BlkInfo.volume ⟨8, 128⟩).hfMkdir 8 mounted.disk fileA = .ok (0, disk) ∧
      (BlkInfo.volume ⟨8, 128⟩).read 8 disk ⟨zeroBlock, 0, 0, 0, fun _ => ⟨0, 0, 0⟩⟩ (.opendir 0 insideA) =
        .ok (.file (some 0), start) ∧
      ChainFrom (BlkInfo.volume ⟨8, 128⟩) disk (start.files 0).block [3] ∧
      ¬InOrder (BlkInfo.volume ⟨8, 128⟩) 8 disk [3] 0 start [.readdir 0, .getfree, .readdir 0] := by
  obtain ⟨mounted, disk, found, isMounted, isVolume, added, search, zero, isFirst, isChain, counted, swept,
    differ⟩ := mkdir_new
  obtain ⟨start, opened, file⟩ := opendir_spec 0 ⟨zeroBlock, 0, 0, 0, fun _ => ⟨0, 0, 0⟩⟩ search zero
  rw [isFirst] at file
  refine ⟨mounted, disk, start, isMounted, isVolume, added, opened, ?_, ?_⟩
  · rw [file]
    exact isChain
  · exact not_inOrder_getfree (by decide) file counted swept differ

end Hellfire

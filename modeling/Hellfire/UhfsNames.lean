import Hellfire.UhfsRegions
import Hellfire.UhfsFailure

/-!
How long the name of a file may be: `hf_create` copies it to an entry of the root directory, and the
later calls compare it there.
-/

namespace Hellfire

open ByteMemory Chains Machine

variable {sb : FsSuperblock} {disk : Disk} {fuel : Nat}

/-- The path `/name`. -/
def inRoot (name : Name) (ended : 0 ∉ name) : CString :=
  ⟨47 :: name, by simpa using ended⟩

/-- In the root directory, two disks differ at most in the name of an entry and in the fields of it
that `hf_create` sets. -/
def OnlyEntry (i : Nat) (disk disk' : Disk) : Prop :=
  ∀ place, (place < 64 * i ∨ 64 * i + 40 ≤ place ∧ place < 64 * i + 48 ∨ 64 * i + 64 ≤ place) →
    disk' 2 place = disk 2 place

def NameWorks (sb : FsSuperblock) (fuel : Nat) (disk : Disk) (path : CString) : Prop :=
  ∃ i disk₁ disk₂ disk₃,
    sb.hfCreate fuel disk path = .ok (0, disk₁) ∧ OnlyEntry i disk disk₁ ∧
    sb.hfCreate fuel disk₁ path = .ok (-1, disk₂) ∧ OnlyEntry i disk₁ disk₂ ∧
    sb.hfSize fuel disk₂ path = .ok 0 ∧
    sb.hfUnlink fuel disk₂ path = .ok (0, disk₃) ∧ OnlyEntry i disk₂ disk₃

theorem tokens_inRoot {name : Name} (ended : 0 ∉ name) (positive : name ≠ [])
    (whole : ∀ byte ∈ name, isDelimiter byte = false) : (inRoot name ended).tokens = [name] := by
  have length : (inRoot name ended).bytes.length = 0 + 1 + name.length := by
    rw [inRoot, List.length_cons]
    omega
  rw [CString.tokens, length]
  exact tokensFrom_slash positive whole 0 name.length [] le_rfl

section Search

variable {path : CString} {name : Name}

structure OneBlock (sb : FsSuperblock) (disk : Disk) : Prop where
  formatted : sb.Formatted
  ends : sb.follower disk 2 = uhfsEochblk

theorem OneBlock.scan_ends (root : OneBlock sb disk) :
    cmbData (disk sb.firstCmb) (sb.mapIndex sb.rootDirBlock) = uhfsEochblk := by
  have ends := root.ends
  have isMap : sb.IsMap 1 := ⟨le_rfl, by have := root.formatted.blocks; omega, Nat.zero_mod _⟩
  obtain ⟨_, place, _⟩ := isMap.place root.formatted (i := 1) le_rfl
    (by have := root.formatted.mapEntries_bounds; omega) (by have := root.formatted.blocks; omega)
  rw [FsSuperblock.follower, place] at ends
  rw [root.formatted.cmb, root.formatted.root]
  exact ends

theorem OneBlock.search_missing (root : OneBlock sb disk) (tokens : path.tokens = [name])
    (lacks : ∀ i, ¬Holds sb disk name 2 i) :
    sb.searchdirectory (fuel + 1) disk path = .ok ⟨0, 0, none, 2, some name, [[2]]⟩ := by
  have ended : Ended sb (cmbData (disk sb.firstCmb) (sb.mapIndex 2)) := by
    have ends := root.scan_ends
    rw [root.formatted.root] at ends
    exact Or.inr ends
  rw [FsSuperblock.searchdirectory, tokens, FsSuperblock.searchFrom, root.formatted.root,
    scan_miss lacks, if_pos ended]
  rfl

theorem OneBlock.search_file (root : OneBlock sb disk) {i : Nat} (tokens : path.tokens = [name])
    (holds : FirstHolds sb disk name 2 i) (isFile : isDirectory (disk 2) i = false) :
    sb.searchdirectory (fuel + 1) disk path =
      .ok ⟨1, 2, some name, firstBlock (disk 2) i, some name, [[2]]⟩ := by
  rw [FsSuperblock.searchdirectory, tokens, FsSuperblock.searchFrom, root.formatted.root, scan_hit holds]
  simp only [bind, Except.bind, isFile]
  rfl

end Search

section Create

variable {path : CString} {name : Name} {i k : Nat}

def FsSuperblock.withFile (sb : FsSuperblock) (disk : Disk) (i : Nat) (name : Name) (k : Nat) : Disk :=
  writeBlock (sb.allocate disk k zeroBlock) 2
    (setEntry (disk 2) i name (uhfsAttrread ||| uhfsAttrwrite) k)

theorem OneBlock.create (root : OneBlock sb disk) (mapped : sb.Mapped disk) (enough : sb.nBlocks ≤ fuel)
    (tokens : path.tokens = [name]) (lacks : ∀ i, ¬Holds sb disk name 2 i)
    (empty : (List.range sb.dirEntries).find? (fun i => isFree (disk 2) i) = some i) :
    (∃ k, sb.IsData k ∧ sb.follower disk k = uhfsFreeblk ∧
      sb.hfCreate fuel disk path = .ok (0, sb.withFile disk i name k)) ∨
    (∀ k, sb.IsData k → sb.follower disk k ≠ uhfsFreeblk) ∧
      sb.hfCreate fuel disk path = .ok (-1, disk) := by
  have formatted := root.formatted
  obtain ⟨fuel, rfl⟩ : ∃ rounds, fuel = rounds + 1 :=
    ⟨fuel - 1, by have := formatted.blocks; omega⟩
  have created : sb.hfCreate (fuel + 1) disk path = sb.addEntry (uhfsAttrread ||| uhfsAttrwrite) zeroBlock
      name (fuel + 1) (fuel + 1) disk (sb.mapBlock 2) 2 := by
    rw [FsSuperblock.hfCreate, FsSuperblock.insert, root.search_missing tokens lacks]
    rfl
  rw [created, FsSuperblock.addEntry, empty]
  simp only [bind, Except.bind]
  obtain ⟨k, isData, free, got⟩ | ⟨none, got⟩ := FsSuperblock.getfreeblock_spec formatted mapped enough
  · refine Or.inl ⟨k, isData, free, ?_⟩
    have apart : 2 ≠ k := by
      rintro rfl
      rw [root.ends] at free
      exact absurd free (by decide)
    have same : sb.allocate disk k zeroBlock 2 = disk 2 :=
      allocate_other formatted isData formatted.root_isData apart
    rw [got]
    simp only [if_neg isData.ne_zero]
    rw [FsSuperblock.withFile, ← same]
    rfl
  · refine Or.inr ⟨none, ?_⟩
    rw [got]
    rfl

theorem OneBlock.withFile (root : OneBlock sb disk) (isData : sb.IsData k)
    (free : sb.follower disk k = uhfsFreeblk) : OneBlock sb (sb.withFile disk i name k) ∧
      sb.follower (sb.withFile disk i name k) k = uhfsEochblk := by
  have formatted := root.formatted
  have followers : ∀ place, sb.IsData place → sb.follower (sb.withFile disk i name k) place =
      Function.update (sb.follower disk) k uhfsEochblk place := by
    intro place placeData
    rw [FsSuperblock.withFile, FsSuperblock.follower_writeBlock formatted _ formatted.root_isData placeData,
      follower_allocate formatted isData placeData]
  refine ⟨⟨formatted, ?_⟩, ?_⟩
  · have apart : 2 ≠ k := by
      rintro rfl
      rw [root.ends] at free
      exact absurd free (by decide)
    rw [followers 2 formatted.root_isData, Function.update_of_ne apart]
    exact root.ends
  · rw [followers k isData, Function.update_self]

theorem mapped_withFile (formatted : sb.Formatted) (mapped : sb.Mapped disk) (isData : sb.IsData k) :
    sb.Mapped (sb.withFile disk i name k) :=
  (mapped_allocate formatted mapped isData).writeBlock _ formatted.root_isData

theorem withFile_root : sb.withFile disk i name k 2 =
    setEntry (disk 2) i name (uhfsAttrread ||| uhfsAttrwrite) k := writeBlock_same _ _ _

theorem onlyEntry_withFile (fits : name.length ≤ 39) : OnlyEntry i disk (sb.withFile disk i name k) := by
  intro place outside
  rw [withFile_root, setEntry_kept fits outside]

theorem isFree_withFile : isFree (sb.withFile disk i name k 2) i = false ∧
    isDirectory (sb.withFile disk i name k 2) i = false := by
  have value : sb.withFile disk i name k 2 (64 * i + 39) = uhfsAttrread ||| uhfsAttrwrite := by
    rw [withFile_root]
    exact attributes_setEntry
  rw [isFree, isDirectory, value]
  decide

end Create

theorem holdsString_zero {memory : Memory} {string : List UInt8} : ∀ {address : Nat},
    holdsString memory address string = true → memory (address + string.length) = 0 := by
  induction string with
  | nil =>
      intro address holds
      simpa [holdsString] using holds
  | cons byte rest ih =>
      intro address holds
      rw [holdsString, Bool.and_eq_true] at holds
      rw [List.length_cons, show address + (rest.length + 1) = address + 1 + rest.length by omega]
      exact ih holds.2

section Lengths

variable {path : CString} {name : Name} {k : Nat}

structure EmptyRoot (sb : FsSuperblock) (disk : Disk) : Prop extends OneBlock sb disk where
  mapped : sb.Mapped disk
  contents : disk 2 = sb.emptyDirectory
  spare : ∀ block, sb.IsData block → block ≠ 2 → sb.follower disk block = uhfsFreeblk

theorem EmptyRoot.free (root : EmptyRoot sb disk) {i : Nat} (inside : i < sb.dirEntries) :
    isFree (disk 2) i = true := by
  rw [root.contents]
  exact emptyDirectory_isFree root.formatted inside

theorem EmptyRoot.first_empty (root : EmptyRoot sb disk) :
    (List.range sb.dirEntries).find? (fun i => isFree (disk 2) i) = some 0 := by
  rw [List.find?_range_eq_some]
  have positive := root.formatted.dirEntries_pos
  exact ⟨root.free positive, List.mem_range.mpr positive, fun j less => absurd less (Nat.not_lt_zero j)⟩

theorem EmptyRoot.holds_zero (root : EmptyRoot sb disk) (fits : name.length ≤ 39) {other : Name} {i : Nat}
    (holds : Holds sb (sb.withFile disk 0 name k) other 2 i) : i = 0 := by
  by_contra more
  have same : sb.withFile disk 0 name k 2 (64 * i + 39) = disk 2 (64 * i + 39) :=
    onlyEntry_withFile fits _ (by omega)
  have free := root.free holds.1
  have live := holds.2.1
  rw [isFree, same] at live
  rw [isFree] at free
  rw [free] at live
  cases live

theorem EmptyRoot.lacks (root : EmptyRoot sb disk) (i : Nat) : ¬Holds sb disk name 2 i := by
  intro holds
  have live := holds.2.1
  rw [root.free holds.1] at live
  cases live

theorem EmptyRoot.found (root : EmptyRoot sb disk) (short : ShortName name) (isData : sb.IsData k) :
    FirstHolds sb (sb.withFile disk 0 name k) name 2 0 := by
  refine ⟨⟨root.formatted.dirEntries_pos, isFree_withFile.1, ?_⟩,
    fun j less => absurd less (Nat.not_lt_zero j)⟩
  rw [holdsString_slot short, withFile_root, ofBlock_setEntry short (isData.small root.formatted)]

theorem EmptyRoot.not_found (root : EmptyRoot sb disk) (long : name.length = 39) (i : Nat) :
    ¬Holds sb (sb.withFile disk 0 name k) name 2 i := by
  intro holds
  obtain rfl := root.holds_zero long.le holds
  have zero := holdsString_zero holds.2.2
  rw [long, withFile_root] at zero
  have value : attributes (setEntry (disk 2) 0 name (uhfsAttrread ||| uhfsAttrwrite) k) 0 =
    uhfsAttrread ||| uhfsAttrwrite := attributes_setEntry
  exact absurd (zero.symm.trans value) (by decide)

theorem EmptyRoot.findEntry (root : EmptyRoot sb disk) (short : ShortName name) (isData : sb.IsData k) :
    sb.findEntry (sb.withFile disk 0 name k 2) name = some 0 := by
  rw [FsSuperblock.findEntry, List.find?_range_eq_some]
  have found := (root.found short isData).holds
  exact ⟨found.2.2, List.mem_range.mpr found.1, fun j less => absurd less (Nat.not_lt_zero j)⟩

theorem EmptyRoot.hfSize (root : EmptyRoot sb disk) (tokens : path.tokens = [name]) (short : ShortName name)
    (isData : sb.IsData k) (free : sb.follower disk k = uhfsFreeblk) :
    sb.hfSize (fuel + 1) (sb.withFile disk 0 name k) path = .ok 0 := by
  have oneBlock : OneBlock sb (sb.withFile disk 0 name k) := (root.toOneBlock.withFile isData free).1
  have size : fileSize (sb.withFile disk 0 name k 2) 0 = 0 := by
    rw [withFile_root]
    exact congrArg Slot.size (ofBlock_setEntry short (isData.small root.formatted))
  rw [FsSuperblock.hfSize, oneBlock.search_file tokens (root.found short isData) isFree_withFile.2]
  simp only [bind, Except.bind, ne_eq, not_true_eq_false, if_false, Option.getD_some,
    root.findEntry short isData, size]
  rfl

theorem EmptyRoot.hfUnlink (root : EmptyRoot sb disk) (enough : sb.nBlocks ≤ fuel)
    (tokens : path.tokens = [name]) (short : ShortName name) (isData : sb.IsData k)
    (free : sb.follower disk k = uhfsFreeblk) :
    ∃ disk', sb.hfUnlink fuel (sb.withFile disk 0 name k) path = .ok (0, disk') ∧
      OnlyEntry 0 (sb.withFile disk 0 name k) disk' := by
  have formatted := root.formatted
  obtain ⟨fuel, rfl⟩ : ∃ rounds, fuel = rounds + 1 := ⟨fuel - 1, by have := formatted.blocks; omega⟩
  obtain ⟨oneBlock, ends⟩ : OneBlock sb (sb.withFile disk 0 name k) ∧ _ :=
    root.toOneBlock.withFile isData free
  obtain ⟨first, isFirst⟩ : ∃ first, first = sb.withFile disk 0 name k := ⟨_, rfl⟩
  have freed : sb.freeEntry first 2 name = writeBlock first 2
      (setAttributes (first 2) 0 (attributes (first 2) 0 ||| uhfsAttrfree)) := by
    rw [FsSuperblock.freeEntry, isFirst, root.findEntry short isData]
  have points : firstBlock (first 2) 0 = k := by
    rw [isFirst, withFile_root]
    exact congrArg Slot.first (ofBlock_setEntry short (isData.small formatted))
  have linked : Linked (sb.follower (sb.freeEntry first 2 name)) uhfsEochblk [k] := by
    refine .single ?_
    rw [freed, FsSuperblock.follower_writeBlock formatted _ formatted.root_isData isData, isFirst, ends]
  have mapped : sb.Mapped (sb.freeEntry first 2 name) := by
    rw [freed, isFirst]
    exact (mapped_withFile formatted root.mapped isData).writeBlock _ formatted.root_isData
  obtain ⟨disk', done, _, _, _, same⟩ := freeBlocks_spec formatted [] k _ (fuel + 1) linked
    (by simpa using isData) (List.nodup_singleton k) (Nat.succ_pos fuel) mapped
  refine ⟨disk', ?_, fun place outside => ?_⟩
  · rw [← isFirst] at oneBlock ⊢
    have search : sb.searchdirectory (fuel + 1) first path = _ :=
      oneBlock.search_file tokens (isFirst ▸ root.found short isData) (isFirst ▸ isFree_withFile.2)
    rw [FsSuperblock.hfUnlink, search]
    simp only [bind, Except.bind, ne_eq, not_true_eq_false, if_false, Option.getD_some, points, done]
  · rw [← isFirst, same 2 formatted.root_isData, freed, writeBlock_same]
    exact writeBytes_outside _ _ (by simp only [List.length_singleton]; omega)

theorem EmptyRoot.exists_free (root : EmptyRoot sb disk) :
    (∃ k, sb.IsData k ∧ sb.follower disk k = uhfsFreeblk) ↔ 4 ≤ sb.nBlocks := by
  have entries := root.formatted.mapEntries_bounds
  constructor
  · rintro ⟨k, isData, free⟩
    have other : k ≠ 2 := by
      rintro rfl
      rw [root.ends] at free
      exact absurd free (by decide)
    have bounds := isData
    unfold FsSuperblock.IsData at bounds
    omega
  · intro more
    have isData : sb.IsData 3 := by
      refine ⟨by decide, by omega, ?_⟩
      rw [Nat.mod_eq_of_lt (by omega)]
      decide
    exact ⟨3, isData, root.spare 3 isData (by decide)⟩

theorem EmptyRoot.second_empty (root : EmptyRoot sb disk) (entries : 2 ≤ sb.dirEntries)
    (fits : name.length ≤ 39) : (List.range sb.dirEntries).find? (fun i =>
      isFree (sb.withFile disk 0 name k 2) i) = some 1 := by
  have same : sb.withFile disk 0 name k 2 (64 * 1 + 39) = disk 2 (64 * 1 + 39) :=
    onlyEntry_withFile fits _ (by omega)
  have free := root.free entries
  rw [List.find?_range_eq_some]
  refine ⟨?_, List.mem_range.mpr entries, fun j less => ?_⟩
  · rw [isFree] at free ⊢
    rw [same, free]
  · obtain rfl : j = 0 := by omega
    rw [isFree_withFile.1]
    rfl

theorem EmptyRoot.nameWorks_iff (root : EmptyRoot sb disk) (enough : sb.nBlocks ≤ fuel)
    (tokens : path.tokens = [name]) (ended : 0 ∉ name) (fits : name.length ≤ 39)
    (entries : 2 ≤ sb.dirEntries) : NameWorks sb fuel disk path ↔
      name.length ≤ 38 ∧ 4 ≤ sb.nBlocks := by
  have formatted := root.formatted
  obtain ⟨rounds, isFuel⟩ : ∃ rounds, fuel = rounds + 1 := ⟨fuel - 1, by have := formatted.blocks; omega⟩
  have firstCreate := root.toOneBlock.create root.mapped enough tokens root.lacks root.first_empty
  constructor
  · rintro ⟨_, disk₁, disk₂, _, create, _, again, _, size, _⟩
    obtain ⟨k, isData, free, created⟩ | ⟨_, failed⟩ := firstCreate
    · refine ⟨?_, root.exists_free.mp ⟨k, isData, free⟩⟩
      by_contra tooLong
      have long : name.length = 39 := by omega
      obtain ⟨_, rfl⟩ := Prod.mk.inj (Except.ok.inj (created.symm.trans create))
      have oneBlock : OneBlock sb (sb.withFile disk 0 name k) := (root.toOneBlock.withFile isData free).1
      -- the second creation does not find the name, and fails only for want of a block
      have unchanged : disk₂ = sb.withFile disk 0 name k := by
        have zero : sb.searchdirectory (rounds + 1) _ path = _ :=
          oneBlock.search_missing tokens (root.not_found long)
        rw [← isFuel] at zero
        rw [FsSuperblock.hfCreate, FsSuperblock.insert, zero] at again
        obtain ⟨k', got, rfl⟩ := addEntry_failed_place (root.second_empty entries fits) (isFuel ▸ again)
        exact getfreeblockFrom_zero got
      rw [unchanged, FsSuperblock.hfSize, isFuel,
        oneBlock.search_missing tokens (root.not_found long)] at size
      cases size
    · rw [failed] at create
      cases create
  · rintro ⟨short, room⟩
    obtain ⟨k, isData, free, created⟩ | ⟨none, _⟩ := firstCreate
    · have isShort : ShortName name := ⟨ended, short⟩
      have oneBlock : OneBlock sb (sb.withFile disk 0 name k) := (root.toOneBlock.withFile isData free).1
      obtain ⟨disk₃, unlinked, only⟩ := root.hfUnlink enough tokens isShort isData free
      refine ⟨0, _, _, disk₃, created, onlyEntry_withFile fits, ?_, fun _ _ => rfl, ?_, unlinked, only⟩
      · rw [FsSuperblock.hfCreate, FsSuperblock.insert, isFuel,
          oneBlock.search_file tokens (root.found isShort isData) isFree_withFile.2]
        rfl
      · rw [isFuel]
        exact root.hfSize tokens isShort isData free
    · obtain ⟨k, isData, free⟩ := root.exists_free.mpr room
      exact absurd free (none k isData)

end Lengths

/-- On a new volume with one storage region, the names of up to 38 bytes work, if there is a block for
the file. -/
theorem name_works_iff {device : Device} {blkSize : UInt32} (unmounted : device.ptr = none)
    (size : blkSize.toNat = device.info.bytesSector.toNat) (one : device.info.OneRegion)
    (enough : device.info.volume.nBlocks ≤ fuel) :
    ∃ formatted mounted, hfMkfs blkSize device = (0, formatted) ∧ hfMount formatted = (0, mounted) ∧
      mounted.ptr = some device.info.volume ∧
      ∀ (name : Name) (ended : 0 ∉ name), (∀ byte ∈ name, isDelimiter byte = false) →
        1 ≤ name.length → name.length ≤ 39 →
        (NameWorks device.info.volume fuel mounted.disk (inRoot name ended) ↔
          name.length ≤ 38 ∧ 4 ≤ device.info.volume.nBlocks) := by
  have formatted := one.roomy.toFormatted
  obtain ⟨disk, before, after, made, mounted, written, rfl⟩ := format_written unmounted size one.roomy
  have layout := written.layout one.roomy
  obtain ⟨disk, isDisk⟩ : ∃ disk, disk = device.info.volume.setFollower
    (writeBlock after 2 device.info.volume.emptyDirectory) 2 uhfsEochblk := ⟨_, rfl⟩
  have linked := layout.owned.linked [2] (List.mem_singleton_self _)
  rw [← isDisk] at made mounted layout linked
  have root : EmptyRoot device.info.volume disk := by
    refine ⟨⟨formatted, linked.head_next⟩, layout.mapped, ?_, fun block isData other => ?_⟩
    · rw [isDisk, FsSuperblock.setFollower_data formatted formatted.root_isData formatted.root_isData,
        writeBlock_same]
    · exact layout.owned.spare block isData fun member => other (List.mem_singleton.mp member)
  have entries : 2 ≤ device.info.volume.dirEntries :=
    Nat.le_div_iff_mul_le (by decide) |>.mpr one.least
  refine ⟨_, _, made, mounted, rfl, fun name ended whole positive fits => ?_⟩
  have tokens := tokens_inRoot ended (List.ne_nil_of_length_pos positive) whole
  exact root.nameWorks_iff enough tokens ended fits entries

/-- The file `/a` on a volume of eight blocks. -/
theorem name_works_short : ∃ formatted mounted,
    hfMkfs 128 ⟨⟨8, 128⟩, fun _ => zeroBlock, none⟩ = (0, formatted) ∧ hfMount formatted = (0, mounted) ∧
      NameWorks (BlkInfo.volume ⟨8, 128⟩) 8 mounted.disk (inRoot [97] (by decide)) := by
  have one := eightBlocks_oneRegion
  obtain ⟨formatted, mounted, made, isMounted, _, works⟩ := name_works_iff
    (show (⟨⟨8, 128⟩, fun _ => zeroBlock, none⟩ : Device).ptr = none from rfl)
    (show (128 : UInt32).toNat = (128 : UInt16).toNat by decide) one
    (show (BlkInfo.volume ⟨8, 128⟩).nBlocks ≤ 8 by decide)
  refine ⟨formatted, mounted, made, isMounted, ?_⟩
  exact (works [97] (by decide) (List.forall_mem_singleton.mpr rfl) (by decide) (by decide)).mpr
    ⟨by decide, by decide⟩

def longestName : Name := List.replicate 39 97

/-- A file with that name is created twice. -/
theorem longest_name_twice : ∃ mounted disk₁ disk₂,
    hfMount (hfMkfs 128 ⟨⟨8, 128⟩, fun _ => zeroBlock, none⟩).2 = (0, mounted) ∧
      mounted.ptr = some (BlkInfo.volume ⟨8, 128⟩) ∧
      (BlkInfo.volume ⟨8, 128⟩).hfCreate 8 mounted.disk (inRoot longestName (by decide)) = .ok (0, disk₁) ∧
      (BlkInfo.volume ⟨8, 128⟩).hfCreate 8 disk₁ (inRoot longestName (by decide)) = .ok (0, disk₂) ∧
      ¬NameWorks (BlkInfo.volume ⟨8, 128⟩) 8 mounted.disk (inRoot longestName (by decide)) := by
  have checked : passes ((BlkInfo.volume ⟨8, 128⟩).hfCreate 8
      (hfMkfs 128 ⟨⟨8, 128⟩, fun _ => zeroBlock, none⟩).2.disk (inRoot longestName (by decide)))
      (fun first => passes ((BlkInfo.volume ⟨8, 128⟩).hfCreate 8 first.2 (inRoot longestName (by decide)))
        fun second => first.1 = 0 && second.1 = 0) = true := by
    decide +kernel
  obtain ⟨disk, made, mounted, _⟩ := format_eightBlocks
  rw [made] at checked ⊢
  obtain ⟨⟨result, disk₁⟩, first, checked⟩ := ok_of_passes checked
  obtain ⟨⟨again, disk₂⟩, second, checked⟩ := ok_of_passes checked
  simp only [Bool.and_eq_true, decide_eq_true_eq] at checked
  obtain ⟨rfl, rfl⟩ := checked
  refine ⟨_, disk₁, disk₂, mounted, rfl, first, second, ?_⟩
  rintro ⟨_, created, _, _, create, _, failed, _⟩
  obtain ⟨_, rfl⟩ := Prod.mk.inj (Except.ok.inj (first.symm.trans create))
  rw [second] at failed
  cases failed

end Hellfire

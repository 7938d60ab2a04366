import Hellfire.UhfsCore
import Hellfire.Library.Chains
import Mathlib.Data.Nat.Bitwise
import Mathlib.Tactic.Ring

/-!
What the blocks of a volume say: the cluster map as a table of followers, and the entries of a
directory block.
-/

namespace Hellfire

open ByteMemory Chains

structure FsSuperblock.Formatted (sb : FsSuperblock) : Prop where
  size : ∃ s, 6 ≤ s ∧ s ≤ 15 ∧ sb.blockSize = 2 ^ s
  blocks : 3 ≤ sb.nBlocks
  bytes : sb.nBlocks * sb.blockSize < 4294967296
  cmb : sb.firstCmb = 1
  root : sb.rootDirBlock = 2

theorem and_mask (x k : Nat) : x &&& (2 ^ k - 1) = x % 2 ^ k := Nat.and_two_pow_sub_one_eq_mod x k

theorem and_not_mask {x k : Nat} (bits : k ≤ 32) (small : x < 4294967296) :
    x &&& (4294967295 ^^^ (2 ^ k - 1)) = x - x % 2 ^ k := by
  have parts : x - x % 2 ^ k = 2 ^ k * (x / 2 ^ k) := by
    have whole := Nat.div_add_mod x (2 ^ k)
    omega
  rw [parts]
  apply Nat.eq_of_testBit_eq
  intro i
  have ones : (4294967295 : Nat) = 2 ^ 32 - 1 := rfl
  rw [Nat.testBit_and, Nat.testBit_xor, ones, Nat.testBit_two_pow_sub_one,
    Nat.testBit_two_pow_sub_one, Nat.testBit_two_pow_mul, Nat.testBit_div_two_pow]
  by_cases low : i < k
  · have inside : i < 32 := by omega
    simp [low, inside, Nat.not_le.mpr low]
  · have high : k ≤ i := by omega
    rw [Nat.sub_add_cancel high]
    by_cases inside : i < 32
    · simp [low, inside, high]
    · have zero : x.testBit i = false := by
        apply Nat.testBit_lt_two_pow
        calc x < 2 ^ 32 := small
          _ ≤ 2 ^ i := Nat.pow_le_pow_right (by decide) (by omega)
      simp [zero]

namespace FsSuperblock

variable {sb : FsSuperblock}

theorem Formatted.entries (formatted : sb.Formatted) :
    ∃ k, 4 ≤ k ∧ k ≤ 13 ∧ sb.mapEntries = 2 ^ k ∧ sb.dirEntries * 16 = 2 ^ k := by
  obtain ⟨s, low, high, size⟩ := formatted.size
  obtain ⟨k, rfl⟩ : ∃ k, s = k + 6 := ⟨s - 6, by omega⟩
  refine ⟨k + 4, by omega, by omega, ?_, ?_⟩
  · rw [mapEntries, size, show k + 6 = k + 4 + 2 by omega, pow_add _ _ 2]
    omega
  · rw [dirEntries, size, pow_add, pow_add]
    omega

theorem Formatted.mapEntries_bounds (formatted : sb.Formatted) :
    16 ≤ sb.mapEntries ∧ sb.mapEntries ≤ 8192 := by
  obtain ⟨k, low, high, entries, _⟩ := formatted.entries
  rw [entries]
  constructor
  · calc 16 = 2 ^ 4 := rfl
      _ ≤ 2 ^ k := Nat.pow_le_pow_right (by omega) low
  · calc 2 ^ k ≤ 2 ^ 13 := Nat.pow_le_pow_right (by omega) high
      _ = 8192 := rfl

theorem Formatted.dirEntries_pos (formatted : sb.Formatted) : 0 < sb.dirEntries := by
  obtain ⟨k, low, _, _, entries⟩ := formatted.entries
  have positive : 0 < 2 ^ k := Nat.two_pow_pos k
  omega

theorem Formatted.blockSize_eq (formatted : sb.Formatted) :
    sb.blockSize = 4 * sb.mapEntries ∧ sb.blockSize = 64 * sb.dirEntries := by
  obtain ⟨s, low, high, size⟩ := formatted.size
  obtain ⟨k, rfl⟩ : ∃ k, s = k + 6 := ⟨s - 6, by omega⟩
  rw [mapEntries, dirEntries, size, pow_add]
  omega

theorem mapIndex_eq (formatted : sb.Formatted) {block : Nat} (positive : 1 ≤ block)
    (small : block ≤ 4294967296) : sb.mapIndex block = (block - 1) % sb.mapEntries := by
  obtain ⟨k, _, _, entries, _⟩ := formatted.entries
  have before : (block + 4294967295) % 4294967296 = block - 1 := by omega
  rw [mapIndex, before, entries, and_mask]

theorem mapBlock_eq (formatted : sb.Formatted) {block : Nat} (positive : 1 ≤ block)
    (small : block ≤ 4294967296) : sb.mapBlock block = block - (block - 1) % sb.mapEntries := by
  obtain ⟨k, _, high, entries, _⟩ := formatted.entries
  have before : (block + 4294967295) % 4294967296 = block - 1 := by omega
  have less := Nat.mod_le (block - 1) (2 ^ k)
  rw [mapBlock, before, entries, and_not_mask (by omega) (by omega)]
  omega

/-- A block that holds data: the first block of a storage region is its cluster map. -/
def IsData (sb : FsSuperblock) (block : Nat) : Prop :=
  2 ≤ block ∧ block < sb.nBlocks ∧ (block - 1) % sb.mapEntries ≠ 0

def IsMap (sb : FsSuperblock) (block : Nat) : Prop :=
  1 ≤ block ∧ block < sb.nBlocks ∧ (block - 1) % sb.mapEntries = 0

instance (block : Nat) : Decidable (sb.IsData block) := inferInstanceAs (Decidable (_ ∧ _))

theorem Formatted.nBlocks_small (formatted : sb.Formatted) : sb.nBlocks < 67108864 := by
  have bounds := formatted.mapEntries_bounds
  have size := formatted.blockSize_eq.1
  have bytes := formatted.bytes
  have least : sb.nBlocks * 64 ≤ sb.nBlocks * sb.blockSize := Nat.mul_le_mul_left _ (by omega)
  omega

theorem Formatted.lastPlace_ge (formatted : sb.Formatted) : sb.nBlocks ≤ sb.lastPlace := by
  have bounds := formatted.mapEntries_bounds
  have size := formatted.blockSize_eq.1
  have blocks := formatted.blocks
  have least : sb.nBlocks * 64 ≤ sb.nBlocks * sb.blockSize := Nat.mul_le_mul_left _ (by omega)
  rw [lastPlace, Nat.mod_eq_of_lt formatted.bytes]
  omega

theorem Formatted.lastPlace_lt (formatted : sb.Formatted) : sb.lastPlace < 1073741824 := by
  rw [lastPlace, Nat.mod_eq_of_lt formatted.bytes]
  have bytes := formatted.bytes
  omega

theorem IsData.place (formatted : sb.Formatted) {block : Nat} (data : sb.IsData block) :
    sb.IsMap (sb.mapBlock block) ∧ 1 ≤ sb.mapIndex block ∧ sb.mapIndex block < sb.mapEntries ∧
      sb.mapBlock block + sb.mapIndex block = block := by
  obtain ⟨low, high, inner⟩ := data
  have small := formatted.nBlocks_small
  have bounds := formatted.mapEntries_bounds
  rw [mapIndex_eq formatted (by omega) (by omega), mapBlock_eq formatted (by omega) (by omega)]
  have less := Nat.mod_le (block - 1) sb.mapEntries
  have under : (block - 1) % sb.mapEntries < sb.mapEntries := Nat.mod_lt _ (by omega)
  have whole : (block - (block - 1) % sb.mapEntries - 1) % sb.mapEntries = 0 := by
    rw [Nat.sub_right_comm]
    exact Nat.sub_mod_eq_zero_of_mod_eq (Nat.mod_mod _ _).symm
  exact ⟨⟨by omega, by omega, whole⟩, by omega, under, by omega⟩

theorem IsMap.place (formatted : sb.Formatted) {k i : Nat} (isMap : sb.IsMap k) (low : 1 ≤ i)
    (high : i < sb.mapEntries) (inside : k + i < sb.nBlocks) :
    sb.IsData (k + i) ∧ sb.mapBlock (k + i) = k ∧ sb.mapIndex (k + i) = i := by
  obtain ⟨positive, _, whole⟩ := isMap
  have small := formatted.nBlocks_small
  have index : (k + i - 1) % sb.mapEntries = i := by
    rw [show k + i - 1 = (k - 1) + i by omega, Nat.add_mod, whole, Nat.zero_add, Nat.mod_mod,
      Nat.mod_eq_of_lt high]
  rw [mapIndex_eq formatted (by omega) (by omega), mapBlock_eq formatted (by omega) (by omega), index]
  exact ⟨⟨by omega, inside, by omega⟩, by omega, rfl⟩

theorem IsData.ne_map {block k : Nat} (data : sb.IsData block) (isMap : sb.IsMap k) : block ≠ k := by
  rintro rfl
  exact data.2.2 isMap.2.2

theorem IsData.ne_zero {block : Nat} (data : sb.IsData block) : block ≠ 0 :=
  Nat.ne_of_gt (Nat.lt_of_lt_of_le Nat.zero_lt_two data.1)

theorem IsData.small {block : Nat} (data : sb.IsData block) (formatted : sb.Formatted) :
    block < 4294967296 := by
  have bound := formatted.nBlocks_small
  have high := data.2.1
  omega

theorem not_isData_of_ge {block : Nat} (high : sb.nBlocks ≤ block) : ¬sb.IsData block :=
  fun data => absurd data.2.1 (Nat.not_lt.mpr high)

theorem Formatted.root_isData (formatted : sb.Formatted) : sb.IsData 2 := by
  have bounds := formatted.mapEntries_bounds
  refine ⟨le_rfl, formatted.blocks, ?_⟩
  rw [Nat.mod_eq_of_lt (by omega)]
  decide

def follower (sb : FsSuperblock) (disk : Disk) (block : Nat) : Nat :=
  cmbData (disk (sb.mapBlock block)) (sb.mapIndex block)

def setFollower (sb : FsSuperblock) (disk : Disk) (block value : Nat) : Disk :=
  writeBlock disk (sb.mapBlock block)
    (setCmbData (disk (sb.mapBlock block)) (sb.mapIndex block) value)

end FsSuperblock

@[simp] theorem writeBlock_same (disk : Disk) (place : Nat) (block : Memory) :
    writeBlock disk place block place = block := if_pos rfl

theorem writeBlock_other (disk : Disk) {place other : Nat} (block : Memory) (apart : other ≠ place) :
    writeBlock disk place block other = disk other := if_neg apart

theorem cmbData_setCmbData (block : Memory) {place other value : Nat} (small : value < 4294967296) :
    cmbData (setCmbData block place value) other = if other = place then value else cmbData block other := by
  unfold cmbData setCmbData
  split
  · rename_i same
    rw [same]
    exact readWord_writeWord _ _ small
  · exact readWord_writeWord_apart _ _ (by omega)

namespace FsSuperblock

variable {sb : FsSuperblock} {disk : Disk}

theorem follower_setFollower (formatted : sb.Formatted) {block value : Nat} (data : sb.IsData block)
    (small : value < 4294967296) {other : Nat} (otherData : sb.IsData other) :
    sb.follower (sb.setFollower disk block value) other =
      Function.update (sb.follower disk) block value other := by
  unfold follower setFollower
  obtain ⟨_, _, _, place⟩ := data.place formatted
  obtain ⟨_, _, _, otherPlace⟩ := otherData.place formatted
  by_cases same : sb.mapBlock other = sb.mapBlock block
  · rw [same, writeBlock_same, cmbData_setCmbData _ small]
    by_cases here : other = block
    · rw [here, if_pos rfl, Function.update_self]
    · rw [if_neg (by omega), Function.update_of_ne here, ← same]
  · rw [writeBlock_other _ _ same, Function.update_of_ne (fun here => same (by rw [here]))]

theorem follower_writeBlock (formatted : sb.Formatted) {place : Nat} (block : Memory)
    (data : sb.IsData place) {other : Nat} (otherData : sb.IsData other) :
    sb.follower (writeBlock disk place block) other = sb.follower disk other := by
  unfold follower
  rw [writeBlock_other]
  exact (data.ne_map (otherData.place formatted).1).symm

theorem setFollower_data (formatted : sb.Formatted) {block value place : Nat} (data : sb.IsData block)
    (placeData : sb.IsData place) : sb.setFollower disk block value place = disk place :=
  writeBlock_other _ _ (placeData.ne_map (data.place formatted).1)

structure Mapped (sb : FsSuperblock) (disk : Disk) : Prop where
  heads : ∀ k, sb.IsMap k → cmbData (disk k) 0 =
    if k + sb.mapEntries < sb.nBlocks then k + sb.mapEntries else uhfsEochblk
  outside : ∀ k, sb.IsMap k → ∀ i, 1 ≤ i → i < sb.mapEntries → sb.nBlocks ≤ k + i →
    cmbData (disk k) i ≠ uhfsFreeblk

theorem Mapped.setFollower (mapped : sb.Mapped disk) (formatted : sb.Formatted) {block value : Nat}
    (data : sb.IsData block) (small : value < 4294967296) :
    sb.Mapped (sb.setFollower disk block value) := by
  obtain ⟨isMap, low, high, place⟩ := data.place formatted
  have others : ∀ k i, (k = sb.mapBlock block → i ≠ sb.mapIndex block) →
      cmbData (sb.setFollower disk block value k) i = cmbData (disk k) i := by
    intro k i apart
    unfold FsSuperblock.setFollower
    by_cases same : k = sb.mapBlock block
    · rw [same, writeBlock_same, cmbData_setCmbData _ small, if_neg (apart same)]
    · rw [writeBlock_other _ _ same]
  constructor
  · intro k isMapK
    rw [others k 0 (by omega)]
    exact mapped.heads k isMapK
  · intro k isMapK i lowI highI behind
    rw [others k i ?_]
    · exact mapped.outside k isMapK i lowI highI behind
    · rintro same rfl
      have inside := data.2.1
      omega

theorem Mapped.writeBlock (mapped : sb.Mapped disk) {place : Nat} (block : Memory)
    (data : sb.IsData place) : sb.Mapped (writeBlock disk place block) := by
  constructor
  · intro k isMap
    rw [writeBlock_other _ _ (data.ne_map isMap).symm]
    exact mapped.heads k isMap
  · intro k isMap
    rw [writeBlock_other _ _ (data.ne_map isMap).symm]
    exact mapped.outside k isMap

theorem getfreeblockFrom_spec (formatted : sb.Formatted) (mapped : sb.Mapped disk) (fuel : Nat) :
    ∀ k, sb.IsMap k → sb.nBlocks < fuel + k →
      (∃ block, sb.IsData block ∧ sb.follower disk block = uhfsFreeblk ∧
        sb.getfreeblockFrom disk fuel k = .ok (block, sb.setFollower disk block uhfsEochblk)) ∨
      (∀ block, sb.IsData block → k ≤ block → sb.follower disk block ≠ uhfsFreeblk) ∧
        sb.getfreeblockFrom disk fuel k = .ok (0, disk) := by
  have bounds := formatted.mapEntries_bounds
  have small := formatted.nBlocks_small
  induction fuel with
  | zero =>
      intro k isMap enough
      have inside := isMap.2.1
      omega
  | succ fuel ih =>
      intro k isMap enough
      have inside := isMap.2.1
      have notEnd : k ≠ uhfsEochblk := by
        unfold uhfsEochblk
        omega
      rw [getfreeblockFrom, if_neg notEnd]
      simp only
      cases found : (List.range' 1 (sb.mapEntries - 1)).find? fun j =>
          cmbData (disk k) j = uhfsFreeblk with
      | some j =>
          left
          have isFree : cmbData (disk k) j = uhfsFreeblk := by simpa using List.find?_some found
          have member := List.mem_of_find?_eq_some found
          rw [List.mem_range'_1] at member
          have within : k + j < sb.nBlocks := by
            by_contra behind
            exact mapped.outside k isMap j (by omega) (by omega) (by omega) isFree
          obtain ⟨data, place, index⟩ := isMap.place formatted member.1 (by omega) within
          refine ⟨k + j, data, by rw [follower, place, index, isFree], ?_⟩
          rw [FsSuperblock.setFollower, place, index]
      | none =>
          have region : ∀ block, sb.IsData block → k ≤ block → block < k + sb.mapEntries →
              sb.follower disk block ≠ uhfsFreeblk := by
            intro block data low high
            have differs := data.ne_map isMap
            obtain ⟨_, place, index⟩ := isMap.place formatted (i := block - k) (by omega) (by omega)
              (by have := data.2.1; omega)
            rw [Nat.add_sub_cancel' low] at place index
            have unfree := List.find?_range'_eq_none.mp found (block - k) (by omega) (by omega)
            rw [follower, place, index]
            simpa using unfree
          simp only
          rw [mapped.heads k isMap]
          split
          · rename_i more
            have nextMap : sb.IsMap (k + sb.mapEntries) := by
              refine ⟨by omega, more, ?_⟩
              have positive := isMap.1
              rw [show k + sb.mapEntries - 1 = (k - 1) + sb.mapEntries by omega, Nat.add_mod_right]
              exact isMap.2.2
            rcases ih _ nextMap (by omega) with there | ⟨rest, full⟩
            · exact Or.inl there
            · refine Or.inr ⟨fun block data low => ?_, full⟩
              by_cases here : block < k + sb.mapEntries
              · exact region block data low here
              · exact rest block data (by omega)
          · rename_i last
            cases fuel with
            | zero => omega
            | succ fuel =>
                rw [getfreeblockFrom, if_pos rfl]
                refine Or.inr ⟨fun block data low => region block data low ?_, rfl⟩
                have within := data.2.1
                omega

theorem getfreeblock_spec (formatted : sb.Formatted) (mapped : sb.Mapped disk) {fuel : Nat}
    (enough : sb.nBlocks ≤ fuel) :
    (∃ block, sb.IsData block ∧ sb.follower disk block = uhfsFreeblk ∧
      sb.getfreeblock fuel disk = .ok (block, sb.setFollower disk block uhfsEochblk)) ∨
    (∀ block, sb.IsData block → sb.follower disk block ≠ uhfsFreeblk) ∧
      sb.getfreeblock fuel disk = .ok (0, disk) := by
  have isMap : sb.IsMap 1 := ⟨le_rfl, by have := formatted.blocks; omega, Nat.zero_mod _⟩
  unfold getfreeblock
  rw [formatted.cmb]
  rcases getfreeblockFrom_spec formatted mapped fuel 1 isMap (by omega) with there | ⟨none, full⟩
  · exact Or.inl there
  · exact Or.inr ⟨fun block data => none block data (by have := data.1; omega), full⟩

end FsSuperblock

structure Slot where
  name : Name
  attributes : UInt8
  first : Nat
  size : Nat

namespace Slot

def ofBlock (block : Memory) (i : Nat) : Slot :=
  ⟨readString block (filename i) 39, Hellfire.attributes block i, firstBlock block i, fileSize block i⟩

def isFree (slot : Slot) : Bool := slot.attributes &&& uhfsAttrfree ≠ 0

def isDirectory (slot : Slot) : Bool := slot.attributes &&& uhfsAttrdir ≠ 0

end Slot

structure ShortName (name : Name) : Prop where
  ended : 0 ∉ name
  fits : name.length ≤ 38

theorem ofBlock_congr {block block' : Memory} {i : Nat}
    (same : ∀ place, 64 * i ≤ place → place < 64 * i + 64 → block' place = block place) :
    Slot.ofBlock block' i = Slot.ofBlock block i := by
  have words : ∀ k, k + 4 ≤ 64 → readWord block' (64 * i + k) = readWord block (64 * i + k) := by
    intro k inside
    exact readWord_congr fun place low high => same place (by omega) (by omega)
  simp only [Slot.ofBlock, Slot.mk.injEq]
  refine ⟨?_, same _ (by omega) (by omega), words 52 (by omega), ?_⟩
  · exact readString_congr fun place low high => same place low (by simp only [filename] at high; omega)
  · rw [fileSize, fileSize, words 56 (by omega), words 60 (by omega)]

theorem setEntry_kept {block : Memory} {i place : Nat} {name : Name} {value : UInt8} {first : Nat}
    (fits : name.length ≤ 39) (outside : place < 64 * i ∨
      64 * i + 40 ≤ place ∧ place < 64 * i + 48 ∨ 64 * i + 64 ≤ place) :
    setEntry block i name value first place = block place := by
  unfold setEntry setAttributes
  rw [writeWord_outside _ _ (by omega), writeWord_outside _ _ (by omega),
    writeWord_outside _ _ (by omega), writeWord_outside _ _ (by omega),
    writeBytes_outside _ _ (by simp only [List.length_singleton]; omega),
    writeBytes_outside _ _ (by simp only [filename, List.length_append, List.length_singleton]; omega)]

theorem setEntry_outside {block : Memory} {i place : Nat} {name : Name} {value : UInt8} {first : Nat}
    (short : ShortName name) (outside : place < 64 * i ∨ 64 * i + 64 ≤ place) :
    setEntry block i name value first place = block place :=
  setEntry_kept (short.fits.trans (by decide)) (by omega)

theorem attributes_setEntry {block : Memory} {i : Nat} {name : Name} {value : UInt8} {first : Nat} :
    attributes (setEntry block i name value first) i = value := by
  unfold attributes setEntry setAttributes
  rw [writeWord_outside _ _ (by omega), writeWord_outside _ _ (by omega),
    writeWord_outside _ _ (by omega), writeWord_outside _ _ (by omega),
    writeBytes_inside _ _ (by omega) (by simp)]
  simp

theorem ofBlock_setEntry_other {block : Memory} {i j : Nat} {name : Name} {value : UInt8} {first : Nat}
    (short : ShortName name) (apart : j ≠ i) :
    Slot.ofBlock (setEntry block i name value first) j = Slot.ofBlock block j :=
  ofBlock_congr fun place low high => setEntry_outside short (by omega)

theorem ofBlock_setEntry {block : Memory} {i : Nat} {name : Name} {value : UInt8} {first : Nat}
    (short : ShortName name) (small : first < 4294967296) :
    Slot.ofBlock (setEntry block i name value first) i = ⟨name, value, first, 0⟩ := by
  have fits := short.fits
  have name_eq : readString (setEntry block i name value first) (filename i) 39 = name := by
    have written := readString_writeBytes block (filename i) short.ended (show name.length < 39 by omega)
    refine (readString_congr fun place low high => ?_).trans written
    unfold setEntry setAttributes
    simp only [filename] at low high ⊢
    rw [writeWord_outside _ _ (by omega), writeWord_outside _ _ (by omega),
      writeWord_outside _ _ (by omega), writeWord_outside _ _ (by omega),
      writeBytes_outside _ _ (by omega)]
  have first_eq : firstBlock (setEntry block i name value first) i = first := by
    unfold firstBlock setEntry
    rw [readWord_writeWord_apart _ _ (by omega), readWord_writeWord_apart _ _ (by omega),
      readWord_writeWord _ _ small]
  have size_eq : fileSize (setEntry block i name value first) i = 0 := by
    unfold fileSize setEntry
    rw [readWord_writeWord_apart _ _ (by omega), readWord_writeWord _ _ (by decide),
      readWord_writeWord _ _ (by decide)]
  rw [Slot.ofBlock, name_eq, attributes_setEntry, first_eq, size_eq]

theorem ofBlock_setAttributes_other {block : Memory} {i j : Nat} {value : UInt8} (apart : j ≠ i) :
    Slot.ofBlock (setAttributes block i value) j = Slot.ofBlock block j := by
  apply ofBlock_congr
  intro place low high
  exact writeBytes_outside _ _ (by simp only [List.length_singleton]; omega)

theorem ofBlock_setAttributes {block : Memory} {i : Nat} {value : UInt8} :
    Slot.ofBlock (setAttributes block i value) i = { Slot.ofBlock block i with attributes := value } := by
  have words : ∀ k, 40 ≤ k → readWord (setAttributes block i value) (64 * i + k) =
      readWord block (64 * i + k) := by
    intro k behind
    apply readWord_congr
    intro place low high
    exact writeBytes_outside _ _ (by simp only [List.length_singleton]; omega)
  simp only [Slot.ofBlock, Slot.mk.injEq]
  refine ⟨?_, ?_, words 52 (by omega), ?_⟩
  · apply readString_congr
    intro place low high
    simp only [filename] at high
    exact writeBytes_outside _ _ (by omega)
  · unfold attributes setAttributes
    rw [writeBytes_inside _ _ (by omega) (by simp)]
    simp
  · rw [fileSize, fileSize, words 56 (by omega), words 60 (by omega)]

theorem holdsString_slot {block : Memory} {i : Nat} {name : Name} (short : ShortName name) :
    holdsString block (filename i) name = true ↔ (Slot.ofBlock block i).name = name :=
  holdsString_iff short.ended (by have := short.fits; omega)

namespace FsSuperblock

variable {sb : FsSuperblock}

theorem emptyDirectory_slot (formatted : sb.Formatted) {i : Nat} (inside : i < sb.dirEntries) :
    Slot.ofBlock sb.emptyDirectory i = ⟨[], uhfsAttrfree, 0, 0⟩ := by
  have size := formatted.blockSize_eq.2
  have zero : ∀ k, k ≠ 39 → k < 64 → sb.emptyDirectory (64 * i + k) = 0 := by
    intro k other small
    exact if_neg (by omega)
  have words : ∀ k, 40 ≤ k → k + 4 ≤ 64 → readWord sb.emptyDirectory (64 * i + k) = 0 := by
    intro k low high
    have bytes : ∀ j, j < 4 → sb.emptyDirectory (64 * i + k + j) = 0 := by
      intro j small
      rw [Nat.add_assoc]
      exact zero (k + j) (by omega) (by omega)
    rw [readWord, zero k (by omega) (by omega), bytes 1 (by decide), bytes 2 (by decide),
      bytes 3 (by decide)]
    rfl
  simp only [Slot.ofBlock, Slot.mk.injEq]
  refine ⟨?_, if_pos (by omega), words 52 (by omega) (by omega), ?_⟩
  · rw [readString, filename, if_pos]
    exact zero 0 (by decide) (by decide)
  · rw [fileSize, words 56 (by omega) (by omega), words 60 (by omega) (by omega)]

end FsSuperblock

end Hellfire

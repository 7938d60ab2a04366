import Hellfire.UhfsSearch

/-!
What the calls that change a volume do to the nodes, once the path is resolved.
-/

namespace Hellfire

open ByteMemory Chains

variable {sb : FsSuperblock} {disk : Disk} {nodes : List Node}

theorem slotAt_writeBlock_other {place block : Nat} (contents : Memory) (apart : place ≠ block) (i : Nat) :
    slotAt (writeBlock disk block contents) place i = slotAt disk place i := by
  rw [slotAt, slotAt, writeBlock_other _ _ apart]

theorem freed_isFree (value : UInt8) : (value ||| uhfsAttrfree) &&& uhfsAttrfree ≠ 0 := by
  have same : (value ||| uhfsAttrfree) &&& uhfsAttrfree = uhfsAttrfree := by
    apply UInt8.toBitVec_inj.mp
    simp only [UInt8.toBitVec_and, UInt8.toBitVec_or]
    ext i
    simp
    grind
  rw [same]
  decide

theorem freeBlocks_spec (formatted : sb.Formatted) (rest : List Nat) :
    ∀ block disk fuel, Linked (sb.follower disk) uhfsEochblk (block :: rest) →
      (∀ place ∈ block :: rest, sb.IsData place) → (block :: rest).Nodup → rest.length < fuel →
      sb.Mapped disk → ∃ disk', sb.freeBlocks fuel disk (sb.mapBlock block) block = .ok disk' ∧
        sb.Mapped disk' ∧ (∀ place ∈ block :: rest, sb.follower disk' place = uhfsFreeblk) ∧
        (∀ place, sb.IsData place → place ∉ block :: rest →
          sb.follower disk' place = sb.follower disk place) ∧
        ∀ place, sb.IsData place → disk' place = disk place := by
  induction rest with
  | nil =>
      intro block disk fuel linked data apart enough mapped
      obtain ⟨fuel, rfl⟩ := Nat.exists_eq_succ_of_ne_zero (Nat.ne_of_gt enough)
      have blockData := data block List.mem_cons_self
      have ends : cmbData (disk (sb.mapBlock block)) (sb.mapIndex block) = uhfsEochblk :=
        linked.head_next
      have set : ∀ place, sb.IsData place → sb.follower (sb.setFollower disk block uhfsFreeblk) place =
          Function.update (sb.follower disk) block uhfsFreeblk place := fun place placeData =>
        FsSuperblock.follower_setFollower formatted blockData (by decide) placeData
      refine ⟨sb.setFollower disk block uhfsFreeblk, ?_, mapped.setFollower formatted blockData (by decide),
        ?_, ?_, ?_⟩
      · rw [FsSuperblock.freeBlocks, ends, if_pos rfl]
        rfl
      · intro place member
        rw [List.mem_singleton.mp member, set block blockData, Function.update_self]
      · intro place placeData outside
        rw [set place placeData, Function.update_of_ne (by simpa using outside)]
      · intro place placeData
        exact FsSuperblock.setFollower_data formatted blockData placeData
  | cons next rest ih =>
      intro block disk fuel linked data apart enough mapped
      obtain ⟨fuel, rfl⟩ := Nat.exists_eq_succ_of_ne_zero (Nat.ne_of_gt (Nat.zero_lt_of_lt enough))
      have blockData := data block List.mem_cons_self
      have leads : cmbData (disk (sb.mapBlock block)) (sb.mapIndex block) = next :=
        linked.head_next
      have nextData := data next (by simp)
      have notEnd : next ≠ uhfsEochblk := by
        have small := formatted.nBlocks_small
        have inside := nextData.2.1
        unfold uhfsEochblk
        omega
      have set : ∀ place, sb.IsData place → sb.follower (sb.setFollower disk block uhfsFreeblk) place =
          Function.update (sb.follower disk) block uhfsFreeblk place := fun place placeData =>
        FsSuperblock.follower_setFollower formatted blockData (by decide) placeData
      rw [List.nodup_cons] at apart
      have laterData : ∀ place ∈ next :: rest, sb.IsData place :=
        fun place member => data place (List.mem_cons_of_mem _ member)
      have linked' : Linked (sb.follower (sb.setFollower disk block uhfsFreeblk)) uhfsEochblk
          (next :: rest) := by
        refine linked.rest.congr fun place member => ?_
        rw [set place (laterData place member), Function.update_of_ne]
        rintro rfl
        exact apart.1 member
      obtain ⟨disk', done, mapped', freed, others, same⟩ := ih next _ fuel linked' laterData apart.2
        (by simpa using enough) (mapped.setFollower formatted blockData (by decide))
      refine ⟨disk', ?_, mapped', ?_, ?_, ?_⟩
      · rw [FsSuperblock.freeBlocks, leads, if_neg notEnd]
        exact done
      · rw [List.forall_mem_cons]
        refine ⟨?_, freed⟩
        rw [others block blockData apart.1, set block blockData, Function.update_self]
      · intro place placeData outside
        rw [List.mem_cons, not_or] at outside
        rw [others place placeData outside.2, set place placeData, Function.update_of_ne outside.1]
      · intro place placeData
        rw [same place placeData, FsSuperblock.setFollower_data formatted blockData placeData]

def AllFree (sb : FsSuperblock) (disk : Disk) (chain : List Nat) : Prop :=
  ∀ block ∈ chain, ∀ i < sb.dirEntries, (slotAt disk block i).isFree = true

instance (sb : FsSuperblock) (disk : Disk) (chain : List Nat) : Decidable (AllFree sb disk chain) :=
  inferInstanceAs (Decidable (∀ block ∈ chain, ∀ i < sb.dirEntries, _))

theorem not_allFree {chain : List Nat} {block : Nat} (member : block ∈ chain)
    (some : ∃ i ∈ List.range sb.dirEntries, isFree (disk block) i = false) : ¬AllFree sb disk chain := by
  obtain ⟨i, inside, live⟩ := some
  intro free
  have isFree := free block member i (List.mem_range.mp inside)
  rw [← slotAt_isFree, live] at isFree
  cases isFree

theorem slots_free {block : Nat}
    (none : ¬∃ i ∈ List.range sb.dirEntries, isFree (disk block) i = false) :
    ∀ i < sb.dirEntries, (slotAt disk block i).isFree = true := by
  intro i inside
  rw [← slotAt_isFree]
  by_contra live
  exact none ⟨i, List.mem_range.mpr inside, by simpa using live⟩

theorem isEmptyFrom_spec (formatted : sb.Formatted) (rest : List Nat) :
    ∀ block fuel, Linked (sb.follower disk) uhfsEochblk (block :: rest) →
      (∀ place ∈ block :: rest, sb.IsData place) → rest.length < fuel →
      ∃ isEmpty, sb.isEmptyFrom disk fuel (sb.mapBlock block) block = .ok isEmpty ∧
        (isEmpty = true ↔ AllFree sb disk (block :: rest)) := by
  induction rest with
  | nil =>
      intro block fuel linked data enough
      obtain ⟨fuel, rfl⟩ := Nat.exists_eq_succ_of_ne_zero (Nat.ne_of_gt enough)
      have ends : cmbData (disk (sb.mapBlock block)) (sb.mapIndex block) = uhfsEochblk :=
        linked.head_next
      rw [FsSuperblock.isEmptyFrom, ends]
      simp only [if_true]
      split
      · rename_i some
        exact ⟨false, rfl, by simp, fun free => absurd free (not_allFree List.mem_cons_self some)⟩
      · rename_i none
        refine ⟨true, rfl, fun _ => ?_, fun _ => rfl⟩
        unfold AllFree
        rw [List.forall_mem_singleton]
        exact slots_free none
  | cons next rest ih =>
      intro block fuel linked data enough
      obtain ⟨fuel, rfl⟩ := Nat.exists_eq_succ_of_ne_zero (Nat.ne_of_gt (Nat.zero_lt_of_lt enough))
      have leads : cmbData (disk (sb.mapBlock block)) (sb.mapIndex block) = next :=
        linked.head_next
      have notEnd : next ≠ uhfsEochblk := by
        have small := formatted.nBlocks_small
        have inside := (data next (by simp)).2.1
        unfold uhfsEochblk
        omega
      rw [FsSuperblock.isEmptyFrom, leads]
      simp only [if_neg notEnd]
      split
      · rename_i some
        exact ⟨false, rfl, by simp, fun free => absurd free (not_allFree List.mem_cons_self some)⟩
      · rename_i none
        obtain ⟨isEmpty, done, means⟩ := ih next fuel linked.rest
          (fun place member => data place (List.mem_cons_of_mem _ member)) (by simpa using enough)
        refine ⟨isEmpty, done, means.trans ?_⟩
        unfold AllFree
        rw [List.forall_mem_cons (a := block)]
        exact ⟨fun free => ⟨slots_free none, free⟩, fun free => free.2⟩

theorem findEntry_spec (layout : Layout sb disk nodes) {dir : Node} (isNode : dir ∈ nodes)
    (isDir : dir.isDir = true) {block i : Nat} (entry : Entry sb disk dir block i) {name : Name}
    (short : ShortName name) (named : (slotAt disk block i).name = name) :
    sb.findEntry (disk block) name = some i := by
  rw [FsSuperblock.findEntry, List.find?_range_eq_some]
  refine ⟨(holdsString_slot short).mpr named, List.mem_range.mpr entry.inside, fun j less => ?_⟩
  rw [Bool.not_eq_true']
  by_contra same
  rw [Bool.not_eq_false, holdsString_slot short] at same
  exact layout.earlier dir isNode isDir block i entry j less (same.trans named.symm)

theorem slotAt_setAttributes (disk : Disk) (block i : Nat) (value : UInt8) :
    slotAt (writeBlock disk block (setAttributes (disk block) i value)) block i =
      { slotAt disk block i with attributes := value } := by
  rw [slotAt, writeBlock_same, ofBlock_setAttributes]
  rfl

theorem slotAt_setAttributes_other (disk : Disk) {block i place j : Nat} (value : UInt8)
    (apart : place ≠ block ∨ j ≠ i) :
    slotAt (writeBlock disk block (setAttributes (disk block) i value)) place j =
      slotAt disk place j := by
  by_cases same : place = block
  · rw [same, slotAt, writeBlock_same,
      ofBlock_setAttributes_other (apart.resolve_left (not_not.mpr same))]
    rfl
  · exact slotAt_writeBlock_other _ same j

theorem freeEntry_spec (layout : Layout sb disk nodes) {dir : Node} (isNode : dir ∈ nodes)
    (isDir : dir.isDir = true) {block i : Nat} (entry : Entry sb disk dir block i) {name : Name}
    (short : ShortName name) (named : (slotAt disk block i).name = name) :
    (slotAt (sb.freeEntry disk block name) block i).isFree = true ∧
      (∀ place j, (slotAt (sb.freeEntry disk block name) place j).name = (slotAt disk place j).name) ∧
      (∀ place j, (place ≠ block ∨ j ≠ i) →
        slotAt (sb.freeEntry disk block name) place j = slotAt disk place j) ∧
      ∀ place, place ≠ block → sb.freeEntry disk block name place = disk place := by
  rw [FsSuperblock.freeEntry, findEntry_spec layout isNode isDir entry short named]
  simp only
  have here := slotAt_setAttributes disk block i (attributes (disk block) i ||| uhfsAttrfree)
  refine ⟨?_, fun place j => ?_, fun place j apart => slotAt_setAttributes_other _ _ apart,
    fun place apart => writeBlock_other _ _ apart⟩
  · rw [here]
    simp only [Slot.isFree, decide_eq_true_eq]
    exact freed_isFree _
  · by_cases same : place = block ∧ j = i
    · rw [same.1, same.2, here]
    · rw [slotAt_setAttributes_other _ _ (by tauto)]

def FsSuperblock.allocate (sb : FsSuperblock) (disk : Disk) (k : Nat) (contents : Memory) : Disk :=
  writeBlock (sb.setFollower disk k uhfsEochblk) k contents

section Allocate

variable {k place : Nat} {contents : Memory}

theorem allocate_same : sb.allocate disk k contents k = contents := writeBlock_same _ _ _

theorem allocate_other (formatted : sb.Formatted) (isData : sb.IsData k) (placeData : sb.IsData place)
    (apart : place ≠ k) : sb.allocate disk k contents place = disk place := by
  rw [FsSuperblock.allocate, writeBlock_other _ _ apart, FsSuperblock.setFollower_data formatted isData placeData]

theorem follower_allocate (formatted : sb.Formatted) (isData : sb.IsData k) (placeData : sb.IsData place) :
    sb.follower (sb.allocate disk k contents) place =
      Function.update (sb.follower disk) k uhfsEochblk place := by
  rw [FsSuperblock.allocate, FsSuperblock.follower_writeBlock formatted _ isData placeData,
    FsSuperblock.follower_setFollower formatted isData (by decide) placeData]

theorem mapped_allocate (formatted : sb.Formatted) (mapped : sb.Mapped disk) (isData : sb.IsData k) :
    sb.Mapped (sb.allocate disk k contents) :=
  (mapped.setFollower formatted isData (by decide)).writeBlock _ isData

theorem slotAt_allocate_clean (formatted : sb.Formatted) {i : Nat} (inside : i < sb.dirEntries) :
    (slotAt (sb.allocate disk k sb.emptyDirectory) k i).isFree = true := by
  rw [slotAt, allocate_same, FsSuperblock.emptyDirectory_slot formatted inside]
  rfl

end Allocate

theorem entered_setEntry (formatted : sb.Formatted) (mapped : sb.Mapped disk) {block i k : Nat}
    (isData : sb.IsData k) (blockData : sb.IsData block) (apart : block ≠ k) {name : Name}
    (short : ShortName name) (attributes : UInt8) (fresh : Memory) :
    Entered sb disk (writeBlock (sb.allocate disk k fresh) block
      (setEntry (sb.allocate disk k fresh block) i name attributes k)) block i k
      ⟨name, attributes, k, 0⟩ := by
  have unchanged : sb.allocate disk k fresh block = disk block :=
    allocate_other formatted isData blockData apart
  refine ⟨(mapped_allocate formatted mapped isData).writeBlock _ blockData, ?_, ?_, ?_⟩
  · intro place placeData
    rw [FsSuperblock.follower_writeBlock formatted _ blockData placeData,
      follower_allocate formatted isData placeData]
  · rw [slotAt, writeBlock_same, unchanged, ofBlock_setEntry short (isData.small formatted)]
  · intro place j placeData notK other
    by_cases here : place = block
    · rw [here, slotAt, writeBlock_same, unchanged,
        ofBlock_setEntry_other short (other.resolve_left (not_not.mpr here))]
      rfl
    · rw [slotAt_writeBlock_other _ here, slotAt, allocate_other formatted isData placeData notK]
      rfl

def FsSuperblock.lengthen (sb : FsSuperblock) (disk : Disk) (tail k : Nat) : Disk :=
  sb.setFollower (sb.allocate disk k sb.emptyDirectory) tail k

section Lengthen

variable {tail k place : Nat}

theorem mapped_lengthen (formatted : sb.Formatted) (mapped : sb.Mapped disk) (tailData : sb.IsData tail)
    (isData : sb.IsData k) : sb.Mapped (sb.lengthen disk tail k) :=
  (mapped_allocate formatted mapped isData).setFollower formatted tailData (isData.small formatted)

theorem follower_lengthen (formatted : sb.Formatted) (tailData : sb.IsData tail) (isData : sb.IsData k)
    (placeData : sb.IsData place) : sb.follower (sb.lengthen disk tail k) place =
      Function.update (Function.update (sb.follower disk) k uhfsEochblk) tail k place := by
  rw [FsSuperblock.lengthen,
    FsSuperblock.follower_setFollower formatted tailData (isData.small formatted) placeData]
  by_cases here : place = tail
  · rw [here, Function.update_self, Function.update_self]
  · rw [Function.update_of_ne here, Function.update_of_ne here,
      follower_allocate formatted isData placeData]

theorem lengthen_other (formatted : sb.Formatted) (tailData : sb.IsData tail) (isData : sb.IsData k)
    (placeData : sb.IsData place) (apart : place ≠ k) : sb.lengthen disk tail k place = disk place := by
  rw [FsSuperblock.lengthen, FsSuperblock.setFollower_data formatted tailData placeData,
    allocate_other formatted isData placeData apart]

theorem lengthen_same (formatted : sb.Formatted) (tailData : sb.IsData tail) (isData : sb.IsData k) :
    sb.lengthen disk tail k k = sb.emptyDirectory := by
  rw [FsSuperblock.lengthen, FsSuperblock.setFollower_data formatted tailData isData, allocate_same]

theorem emptyDirectory_isFree (formatted : sb.Formatted) {j : Nat} (inside : j < sb.dirEntries) :
    Hellfire.isFree sb.emptyDirectory j = true := by
  have empty : (Slot.ofBlock sb.emptyDirectory j).isFree = true := by
    rw [FsSuperblock.emptyDirectory_slot formatted inside]
    rfl
  exact empty

end Lengthen

structure Fresh (sb : FsSuperblock) (attributes : UInt8) (contents : Memory) : Prop where
  live : attributes &&& uhfsAttrfree = 0
  clean : attributes &&& uhfsAttrdir ≠ 0 → contents = sb.emptyDirectory

def HasEmpty (sb : FsSuperblock) (disk : Disk) (chain : List Nat) : Prop :=
  ∃ block ∈ chain, ∃ i < sb.dirEntries, (slotAt disk block i).isFree = true

inductive Created (sb : FsSuperblock) (disk : Disk) (nodes : List Node) (dir : Node) (name : Name)
    (isDir : Bool) : Int → List Node → Prop
  | noBlock : (∀ block, sb.IsData block → sb.follower disk block ≠ uhfsFreeblk) →
      Created sb disk nodes dir name isDir (-1) nodes
  | placed {k} : HasEmpty sb disk dir.chain → sb.IsData k → sb.follower disk k = uhfsFreeblk →
      Created sb disk nodes dir name isDir 0 (⟨dir.path ++ [name], isDir, [k]⟩ :: nodes)
  | extended {k} : ¬HasEmpty sb disk dir.chain → sb.IsData k → sb.follower disk k = uhfsFreeblk →
      (∀ block, sb.IsData block → block ≠ k → sb.follower disk block ≠ uhfsFreeblk) →
      Created sb disk nodes dir name isDir (-1) (nodes.map (Node.grow dir.path k))
  | grown {k k'} : ¬HasEmpty sb disk dir.chain → sb.IsData k → sb.follower disk k = uhfsFreeblk →
      sb.IsData k' → sb.follower disk k' = uhfsFreeblk → k' ≠ k →
      Created sb disk nodes dir name isDir 0
        (⟨dir.path ++ [name], isDir, [k']⟩ :: nodes.map (Node.grow dir.path k))

theorem addEntry_place (formatted : sb.Formatted) (layout : Layout sb disk nodes) {dir : Node}
    (isNode : dir ∈ nodes) (isDir : dir.isDir = true) {block i : Nat} (inChain : block ∈ dir.chain)
    {name : Name} (short : ShortName name) (absent : ∀ child ∈ nodes, child.path ≠ dir.path ++ [name])
    {attributes : UInt8} {fresh : Memory} (isFresh : Fresh sb attributes fresh) {fuel : Nat}
    (enough : sb.nBlocks ≤ fuel) (rounds chainBlk : Nat)
    (found : (List.range sb.dirEntries).find? (fun i => isFree (disk block) i) = some i) :
    (∀ place, sb.IsData place → sb.follower disk place ≠ uhfsFreeblk) ∧
      sb.addEntry attributes fresh name fuel (rounds + 1) disk chainBlk block = .ok (-1, disk) ∨
    ∃ k disk', sb.IsData k ∧ sb.follower disk k = uhfsFreeblk ∧
      sb.addEntry attributes fresh name fuel (rounds + 1) disk chainBlk block = .ok (0, disk') ∧
      Layout sb disk' (⟨dir.path ++ [name], attributes &&& uhfsAttrdir ≠ 0, [k]⟩ :: nodes) := by
  obtain ⟨empty, inside, before⟩ := List.find?_range_eq_some.mp found
  rw [List.mem_range] at inside
  rw [FsSuperblock.addEntry, found]
  simp only [bind, Except.bind]
  obtain ⟨k, isData, isFree, got⟩ | ⟨none, got⟩ := FsSuperblock.getfreeblock_spec formatted layout.mapped enough
  · right
    have apart : block ≠ k := by
      rintro rfl
      exact layout.used formatted isNode inChain isFree
    have entered := entered_setEntry (i := i) formatted layout.mapped isData
      (layout.data isNode inChain) apart short attributes fresh
    rw [got]
    simp only [if_neg isData.ne_zero]
    obtain ⟨disk', isDisk'⟩ : ∃ disk', disk' = writeBlock (sb.allocate disk k fresh) block
        (setEntry (sb.allocate disk k fresh block) i name attributes k) := ⟨_, rfl⟩
    refine ⟨k, disk', isData, isFree, by rw [isDisk']; rfl, ?_⟩
    rw [← isDisk'] at entered
    have isDirectory : (⟨name, attributes, k, 0⟩ : Slot).isDirectory =
        decide (attributes &&& uhfsAttrdir ≠ 0) := rfl
    rw [← isDirectory]
    refine layout.insert formatted isNode isDir inChain inside empty
      (fun j less => by rw [← slotAt_isFree]; simpa using before j less) absent isData isFree entered
      rfl rfl ?_ ?_
    · simp [Slot.isFree, isFresh.live]
    · intro directory j less
      have contents := isFresh.clean (by simpa [Slot.isDirectory] using directory)
      rw [isDisk', slotAt_writeBlock_other _ apart.symm, contents]
      exact slotAt_allocate_clean formatted less
  · left
    rw [got]
    exact ⟨none, rfl⟩

theorem addEntry_extend (formatted : sb.Formatted) (layout : Layout sb disk nodes) {dir : Node}
    (isNode : dir ∈ nodes) (isDir : dir.isDir = true) {before : List Nat} {block : Nat}
    (chain : dir.chain = before ++ [block]) (full : ¬HasEmpty sb disk dir.chain)
    {name : Name} (short : ShortName name) (absent : ∀ child ∈ nodes, child.path ≠ dir.path ++ [name])
    {attributes : UInt8} {fresh : Memory} (isFresh : Fresh sb attributes fresh) {fuel : Nat}
    (enough : sb.nBlocks ≤ fuel) (rounds : Nat) :
    ∃ result disk' nodes', sb.addEntry attributes fresh name fuel (rounds + 2) disk (sb.mapBlock block)
        block = .ok (result, disk') ∧ Layout sb disk' nodes' ∧
      Created sb disk nodes dir name (attributes &&& uhfsAttrdir ≠ 0) result nodes' := by
  have linked := (layout.chain_mem isNode).2
  rw [chain] at linked
  have ends : cmbData (disk (sb.mapBlock block)) (sb.mapIndex block) = uhfsEochblk := linked.next_eq
  have inChain : block ∈ dir.chain := by simp [chain]
  have blockData := layout.data isNode inChain
  have none : (List.range sb.dirEntries).find? (fun i => isFree (disk block) i) = none := by
    rw [List.find?_range_eq_none]
    intro i inside
    rw [Bool.not_eq_true']
    by_contra empty
    exact full ⟨block, inChain, i, inside, by rw [← slotAt_isFree]; simpa using empty⟩
  rw [FsSuperblock.addEntry, none, ends]
  simp only [ne_eq, not_true_eq_false, if_false, bind, Except.bind]
  obtain ⟨k, isData, isFree, got⟩ | ⟨noBlock, got⟩ :=
    FsSuperblock.getfreeblock_spec formatted layout.mapped enough
  · rw [got]
    simp only [if_neg isData.ne_zero]
    obtain ⟨disk₃, isDisk₃⟩ : ∃ disk₃, disk₃ = sb.lengthen disk block k := ⟨_, rfl⟩
    have followers : ∀ place, sb.IsData place → sb.follower disk₃ place =
        Function.update (Function.update (sb.follower disk) k uhfsEochblk) block k place := by
      intro place placeData
      rw [isDisk₃, follower_lengthen formatted blockData isData placeData]
    have clean : ∀ j < sb.dirEntries, (slotAt disk₃ k j).isFree = true := by
      intro j less
      rw [isDisk₃, slotAt, lengthen_same formatted blockData isData]
      exact emptyDirectory_isFree formatted less
    have layout₃ : Layout sb disk₃ (nodes.map (Node.grow dir.path k)) := by
      refine layout.extend formatted isNode chain isData isFree ?_ followers ?_ clean
      · rw [isDisk₃]
        exact mapped_lengthen formatted layout.mapped blockData isData
      · intro place j placeData notK
        rw [isDisk₃, slotAt, lengthen_other formatted blockData isData placeData notK]
        rfl
    have first : (List.range sb.dirEntries).find? (fun i => Hellfire.isFree (disk₃ k) i) = some 0 := by
      rw [List.find?_range_eq_some]
      exact ⟨clean 0 formatted.dirEntries_pos, List.mem_range.mpr formatted.dirEntries_pos,
        fun j less => absurd less (Nat.not_lt_zero j)⟩
    have grownDir : (dir.grow dir.path k).chain = dir.chain ++ [k] := by
      rw [Node.grow, if_pos rfl]
    have absent' : ∀ child ∈ nodes.map (Node.grow dir.path k),
        child.path ≠ (dir.grow dir.path k).path ++ [name] := by
      intro child member
      obtain ⟨node, isOld, rfl⟩ := List.mem_map.mp member
      rw [Node.grow_path, Node.grow_path]
      exact absent node isOld
    have spare : ∀ place, sb.IsData place → place ≠ k →
        (sb.follower disk₃ place = uhfsFreeblk ↔ sb.follower disk place = uhfsFreeblk) := by
      intro place placeData notK
      rw [followers place placeData]
      by_cases here : place = block
      · have notFree : k ≠ uhfsFreeblk := by
          have bound := formatted.nBlocks_small
          have high := isData.2.1
          unfold uhfsFreeblk
          omega
        have used := layout.used formatted isNode inChain
        rw [here, Function.update_self]
        exact ⟨fun same => absurd same notFree, fun same => absurd same used⟩
      · rw [Function.update_of_ne here, Function.update_of_ne notK]
    have kUsed : sb.follower disk₃ k ≠ uhfsFreeblk := by
      have differs : k ≠ block := by
        rintro rfl
        exact layout.used formatted isNode inChain isFree
      rw [followers k isData, Function.update_of_ne differs, Function.update_self]
      decide
    have isNode₃ : dir.grow dir.path k ∈ nodes.map (Node.grow dir.path k) := List.mem_map_of_mem isNode
    have inChain₃ : k ∈ (dir.grow dir.path k).chain := by simp [grownDir]
    obtain ⟨noMore, done⟩ | ⟨k', disk', isData', isFree', done, layout'⟩ :=
      addEntry_place formatted layout₃ isNode₃ (by rw [Node.grow_isDir, isDir]) inChain₃ short absent'
        isFresh enough rounds (sb.mapBlock k) first
    · rw [isDisk₃] at done
      refine ⟨-1, _, _, done, isDisk₃ ▸ layout₃, .extended full isData isFree fun place placeData notK => ?_⟩
      exact fun same => noMore place placeData ((spare place placeData notK).mpr same)
    · have notK : k' ≠ k := by
        rintro rfl
        exact kUsed isFree'
      rw [Node.grow_path] at layout'
      rw [isDisk₃] at done
      exact ⟨0, disk', _, done, layout', .grown full isData isFree isData'
        ((spare k' isData' notK).mp isFree') notK⟩
  · rw [got]
    exact ⟨-1, disk, nodes, rfl, layout, .noBlock noBlock⟩

theorem addEntry_walk (formatted : sb.Formatted) (layout : Layout sb disk nodes) {dir : Node}
    (isNode : dir ∈ nodes) (isDir : dir.isDir = true) {name : Name} (short : ShortName name)
    (absent : ∀ child ∈ nodes, child.path ≠ dir.path ++ [name]) {attributes : UInt8} {fresh : Memory}
    (isFresh : Fresh sb attributes fresh) {fuel : Nat} (enough : sb.nBlocks ≤ fuel) (rest : List Nat) :
    ∀ before block rounds, dir.chain = before ++ block :: rest → ¬HasEmpty sb disk before →
      rest.length + 1 < rounds →
      ∃ result disk' nodes', sb.addEntry attributes fresh name fuel rounds disk (sb.mapBlock block)
          block = .ok (result, disk') ∧ Layout sb disk' nodes' ∧
        Created sb disk nodes dir name (attributes &&& uhfsAttrdir ≠ 0) result nodes' := by
  have placing : ∀ before block rest rounds i, dir.chain = before ++ block :: rest →
      (List.range sb.dirEntries).find? (fun i => isFree (disk block) i) = some i →
      ∃ result disk' nodes', sb.addEntry attributes fresh name fuel (rounds + 1) disk
          (sb.mapBlock block) block = .ok (result, disk') ∧ Layout sb disk' nodes' ∧
        Created sb disk nodes dir name (attributes &&& uhfsAttrdir ≠ 0) result nodes' := by
    intro before block rest rounds i chain found
    have inChain : block ∈ dir.chain := by simp [chain]
    obtain ⟨empty, inside, _⟩ := List.find?_range_eq_some.mp found
    have has : HasEmpty sb disk dir.chain := ⟨block, inChain, i, List.mem_range.mp inside, empty⟩
    obtain ⟨noMore, done⟩ | ⟨k, disk', isData, isFree, done, layout'⟩ := addEntry_place formatted layout
      isNode isDir inChain short absent isFresh enough rounds (sb.mapBlock block) found
    · exact ⟨-1, disk, nodes, done, layout, .noBlock noMore⟩
    · exact ⟨0, disk', _, done, layout', .placed has isData isFree⟩
  have still : ∀ before block, ¬HasEmpty sb disk before →
      (List.range sb.dirEntries).find? (fun i => isFree (disk block) i) = none →
      ¬HasEmpty sb disk (before ++ [block]) := by
    rintro before block none found ⟨place, member, i, inside, empty⟩
    rcases List.mem_append.mp member with old | new
    · exact none ⟨place, old, i, inside, empty⟩
    · have unfree := List.find?_range_eq_none.mp found i inside
      rw [← List.mem_singleton.mp new, slotAt_isFree, empty] at unfree
      cases unfree
  induction rest with
  | nil =>
      intro before block rounds chain none more
      obtain ⟨rounds, rfl⟩ : ∃ less, rounds = less + 2 := ⟨rounds - 2, by simp at more; omega⟩
      cases found : (List.range sb.dirEntries).find? fun i => isFree (disk block) i with
      | some i => exact placing before block [] (rounds + 1) i chain found
      | none =>
          refine addEntry_extend formatted layout isNode isDir chain ?_ short absent isFresh enough rounds
          rw [chain]
          exact still before block none found
  | cons next rest ih =>
      intro before block rounds chain none more
      obtain ⟨rounds, rfl⟩ : ∃ less, rounds = less + 1 := ⟨rounds - 1, by omega⟩
      cases found : (List.range sb.dirEntries).find? fun i => isFree (disk block) i with
      | some i => exact placing before block _ rounds i chain found
      | none =>
          have linked := (layout.chain_mem isNode).2
          rw [chain] at linked
          have leads : cmbData (disk (sb.mapBlock block)) (sb.mapIndex block) = next := linked.next_eq
          have notEnd : next ≠ uhfsEochblk := by
            have small := formatted.nBlocks_small
            have inside := (layout.data isNode (show next ∈ dir.chain by simp [chain])).2.1
            unfold uhfsEochblk
            omega
          rw [FsSuperblock.addEntry, found, leads]
          simp only [ne_eq, notEnd, not_false_eq_true, if_true]
          refine ih (before ++ [block]) next rounds (by simp [chain]) (still before block none found) ?_
          simpa using more

theorem addEntry_spec (formatted : sb.Formatted) (layout : Layout sb disk nodes) {dir : Node}
    (isNode : dir ∈ nodes) (isDir : dir.isDir = true) {name : Name} (short : ShortName name)
    (absent : ∀ child ∈ nodes, child.path ≠ dir.path ++ [name]) {attributes : UInt8} {fresh : Memory}
    (isFresh : Fresh sb attributes fresh) {fuel first : Nat} (enough : sb.nBlocks ≤ fuel)
    (head : dir.chain.head? = some first) :
    ∃ result disk' nodes', sb.addEntry attributes fresh name fuel fuel disk (sb.mapBlock first)
        first = .ok (result, disk') ∧ Layout sb disk' nodes' ∧
      Created sb disk nodes dir name (attributes &&& uhfsAttrdir ≠ 0) result nodes' := by
  obtain ⟨rest, chain⟩ : ∃ rest, dir.chain = first :: rest := List.head?_eq_some_iff.mp head
  have bound := layout.chain_length isNode
  rw [chain, List.length_cons] at bound
  refine addEntry_walk formatted layout isNode isDir short absent isFresh enough rest [] first fuel
    chain ?_ (by omega)
  rintro ⟨block, member, _⟩
  cases member

end Hellfire

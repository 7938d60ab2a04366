import Hellfire.UhfsRegions

/-!
`hf_rename` and `hf_chmod`, which change the entry of a file in place, and what they do to the tree of
nodes.
-/

namespace Hellfire

open ByteMemory Chains

def setName (block : Memory) (i : Nat) (newname : Name) : Memory :=
  writeBytes block (filename i) ((newname ++ List.replicate 39 0).take 39)

namespace FsSuperblock

variable (sb : FsSuperblock)

/-- `hf_rename` and `hf_chmod` with what they do to the entry of the file. -/
def changeEntry (change : Memory → Nat → Memory) (fuel : Nat) (disk : Disk) (path : CString) :
    Except UhfsFault (Int × Disk) := do
  let found ← sb.searchdirectory fuel disk path
  if found.result ≠ 1 then .ok (-1, disk)
  else
    match sb.findEntry (disk found.pblock) (found.ppath.getD []) with
    | some i => .ok (0, writeBlock disk found.pblock (change (disk found.pblock) i))
    | none => .ok (0, disk)

def hfRename (fuel : Nat) (disk : Disk) (path newname : CString) : Except UhfsFault (Int × Disk) :=
  sb.changeEntry (fun block i => setName block i newname.bytes) fuel disk path

/-- The attributes after `hf_chmod`: `attributes &= ~0x7e; attributes |= mode`. -/
def changeMode (attributes mode : UInt8) : UInt8 := attributes &&& ~~~0x7e ||| mode

def hfChmod (fuel : Nat) (disk : Disk) (path : CString) (mode : UInt8) :
    Except UhfsFault (Int × Disk) :=
  sb.changeEntry (fun block i => setAttributes block i (changeMode (attributes block i) mode)) fuel disk path

end FsSuperblock

open FsSuperblock (changeMode)

theorem or_and_flag (a b flag : UInt8) : (a ||| b) &&& flag = a &&& flag ||| b &&& flag := by
  apply UInt8.toBitVec_inj.mp
  simp only [UInt8.toBitVec_and, UInt8.toBitVec_or]
  ext i
  simp [Bool.and_or_distrib_right]

theorem changeMode_flag (attributes : UInt8) {mode flag : UInt8} (kept : mode &&& 0x81 = 0)
    (inside : 0x81 &&& flag = flag) : changeMode attributes mode &&& flag = attributes &&& flag := by
  have mask : ~~~0x7e = (0x81 : UInt8) := by decide
  have none : mode &&& flag = 0 := by
    rw [← inside, ← UInt8.and_assoc, kept, UInt8.zero_and]
  rw [changeMode, mask, or_and_flag, none, UInt8.or_zero, UInt8.and_assoc, inside]

section Names

variable {block : Memory} {i j : Nat} {name : Name}

theorem setName_outside {place : Nat} (outside : place < 64 * i ∨ 64 * i + 39 ≤ place) :
    setName block i name place = block place := by
  apply writeBytes_outside
  simp only [filename, List.length_take, List.length_append, List.length_replicate]
  omega

theorem ofBlock_setName_other (apart : j ≠ i) :
    Slot.ofBlock (setName block i name) j = Slot.ofBlock block j :=
  ofBlock_congr fun place low high => setName_outside (by omega)

theorem ofBlock_setName (short : ShortName name) :
    Slot.ofBlock (setName block i name) i = { Slot.ofBlock block i with name } := by
  have fits := short.fits
  have words : ∀ k, 39 ≤ k → readWord (setName block i name) (64 * i + k) =
      readWord block (64 * i + k) := by
    intro k behind
    exact readWord_congr fun place low high => setName_outside (by omega)
  simp only [Slot.ofBlock, Slot.mk.injEq]
  refine ⟨?_, setName_outside (by omega), words 52 (by omega), ?_⟩
  · refine readString_eq short.ended (by omega) fun k bound => ?_
    have length : ((name ++ List.replicate 39 0).take 39).length = 39 := by
      simp only [List.length_take, List.length_append, List.length_replicate]
      omega
    rw [setName, writeBytes_inside _ _ (by omega) (by omega), Nat.add_sub_cancel_left]
    rw [List.getD_eq_getElem?_getD, List.getElem?_take_of_lt (by omega), List.getD_eq_getElem?_getD]
    rcases Nat.lt_or_ge k name.length with inside | behind
    · rw [List.getElem?_append_left inside]
    · rw [List.getElem?_append_right behind, List.getElem?_replicate, List.getElem?_eq_none behind]
      split <;> rfl
  · rw [fileSize, fileSize, words 56 (by omega), words 60 (by omega)]

end Names

structure Renamed (sb : FsSuperblock) (disk disk' : Disk) (block i : Nat) (name : Name) : Prop where
  mapped : sb.Mapped disk'
  followers : ∀ place, sb.IsData place → sb.follower disk' place = sb.follower disk place
  written : slotAt disk' block i = { slotAt disk block i with name }
  same : ∀ place j, (place ≠ block ∨ j ≠ i) → slotAt disk' place j = slotAt disk place j

def Node.rename (path path' : List Name) (node : Node) : Node :=
  if node.path = path then { node with path := path' } else node

theorem Node.rename_same {path path' : List Name} {node : Node} (same : node.path = path) :
    node.rename path path' = { node with path := path' } := if_pos same

theorem Node.rename_other {path path' : List Name} {node : Node} (other : node.path ≠ path) :
    node.rename path path' = node := if_neg other

theorem Node.rename_chain (path path' : List Name) (node : Node) :
    (node.rename path path').chain = node.chain := by
  unfold Node.rename
  split <;> rfl

theorem Node.rename_isDir (path path' : List Name) (node : Node) :
    (node.rename path path').isDir = node.isDir := by
  unfold Node.rename
  split <;> rfl

variable {sb : FsSuperblock} {disk disk' : Disk} {nodes : List Node}

theorem renamed_setName (formatted : sb.Formatted) (mapped : sb.Mapped disk) {block i : Nat} {name : Name}
    (data : sb.IsData block) (short : ShortName name) :
    Renamed sb disk (writeBlock disk block (setName (disk block) i name)) block i name := by
  refine ⟨mapped.writeBlock _ data, fun place placeData => ?_, ?_, fun place j apart => ?_⟩
  · exact FsSuperblock.follower_writeBlock formatted _ data placeData
  · rw [slotAt, writeBlock_same, ofBlock_setName short]
    rfl
  · by_cases here : place = block
    · rw [here, slotAt, writeBlock_same, ofBlock_setName_other (apart.resolve_left (not_not.mpr here))]
      rfl
    · exact slotAt_writeBlock_other _ here j

namespace Layout

theorem rename (layout : Layout sb disk nodes) {dir child : Node} {block i : Nat} {name new : Name}
    (held : Held sb disk nodes dir child block i name) (isFile : child.isDir = false)
    (renamed : Renamed sb disk disk' block i new)
    (unused : ∀ place j, Entry sb disk dir place j → (place ≠ block ∨ j ≠ i) →
      (slotAt disk place j).name ≠ new)
    (before : ∀ j < i, (slotAt disk block j).name ≠ new) :
    Layout sb disk' (nodes.map (Node.rename child.path (dir.path ++ [new]))) := by
  have isNode := held.isNode
  have isDir := held.isDir
  have isChild := held.isChild
  have below := held.path
  -- entries stay where they are, and directories keep their paths
  have flags : ∀ place j, (slotAt disk' place j).isFree = (slotAt disk place j).isFree := by
    intro place j
    by_cases here : place = block ∧ j = i
    · rw [here.1, here.2, renamed.written]
      rfl
    · rw [renamed.same place j (by tauto)]
  have entries : ∀ node place j, Entry sb disk' node place j ↔ Entry sb disk node place j := by
    intro node place j
    constructor
    · exact fun entry => ⟨entry.held, entry.inside, (flags place j).symm.trans entry.live⟩
    · exact fun entry => ⟨entry.held, entry.inside, (flags place j).trans entry.live⟩
  have dirs : ∀ node ∈ nodes, node.isDir = true → node.rename child.path (dir.path ++ [new]) = node := by
    intro node member nodeDir
    refine Node.rename_other fun same => ?_
    rw [layout.same_path member isChild same, isFile] at nodeDir
    cases nodeDir
  have members : ∀ node ∈ nodes.map (Node.rename child.path (dir.path ++ [new])), node.isDir = true →
      node ∈ nodes := by
    intro node member nodeDir
    obtain ⟨old, isOld, rfl⟩ := List.mem_map.mp member
    rw [Node.rename_isDir] at nodeDir
    rw [dirs old isOld nodeDir]
    exact isOld
  have kept : ∀ node ∈ nodes, node.isDir = true →
      node ∈ nodes.map (Node.rename child.path (dir.path ++ [new])) := by
    intro node member nodeDir
    exact List.mem_map.mpr ⟨node, member, dirs node member nodeDir⟩
  have sameDir : ∀ node ∈ nodes, ∀ place j, Entry sb disk node place j → place = block ∧ j = i →
      node = dir := by
    rintro node member place j entry ⟨rfl, rfl⟩
    exact layout.same_node member isNode entry.held held.entry.held
  have vacant : ∀ node ∈ nodes, node ≠ child → node.path ≠ dir.path ++ [new] := by
    intro node member other path
    obtain ⟨_, place, j, entry, named, leads⟩ := layout.entry_of isNode member path
    refine unused place j entry ?_ named
    by_contra both
    obtain ⟨rfl, rfl⟩ : place = block ∧ j = i := by tauto
    apply other
    apply layout.same_path member isChild
    rw [leads.path, held.leads.path]
  constructor
  · exact renamed.mapped
  · have chains : (nodes.map (Node.rename child.path (dir.path ++ [new]))).map Node.chain =
        nodes.map Node.chain := by
      rw [List.map_map]
      exact List.map_congr_left fun node _ => Node.rename_chain _ _ node
    rw [chains]
    exact layout.owned.congr renamed.followers
  · rw [List.map_map]
    refine List.Nodup.map_on ?_ (List.Nodup.of_map _ layout.keys)
    intro node member other otherMember same
    simp only [Function.comp_apply] at same
    by_cases first : node = child
    · by_cases second : other = child
      · rw [first, second]
      · have notHere : other.path ≠ child.path := fun path =>
          second (layout.same_path otherMember isChild path)
        rw [first, Node.rename_same rfl, Node.rename_other notHere] at same
        exact absurd same.symm (vacant other otherMember second)
    · have notHere : node.path ≠ child.path := fun path => first (layout.same_path member isChild path)
      rw [Node.rename_other notHere] at same
      by_cases second : other = child
      · rw [second, Node.rename_same rfl] at same
        exact absurd same (vacant node member first)
      · rw [Node.rename_other fun path => second (layout.same_path otherMember isChild path)] at same
        exact layout.same_path member otherMember same
  · obtain ⟨root, isRoot, top, rootDir, head⟩ := layout.root
    exact ⟨root, kept root isRoot rootDir, top, rootDir, head⟩
  · intro node member nodeDir place j entry
    have isOld := members node member nodeDir
    have was := (entries node place j).mp entry
    by_cases here : place = block ∧ j = i
    · obtain rfl := sameDir node isOld place j was here
      refine ⟨child.rename child.path (node.path ++ [new]), List.mem_map_of_mem isChild, ?_⟩
      rw [Node.rename_same rfl, here.1, here.2, renamed.written]
      exact ⟨rfl, held.leads.isDir, held.leads.first, held.leads.size⟩
    · obtain ⟨other, isOther, leads⟩ := layout.listed node isOld nodeDir place j was
      rw [renamed.same place j (by tauto)]
      refine ⟨other, List.mem_map.mpr ⟨other, isOther, Node.rename_other fun path => ?_⟩, leads⟩
      -- the entry of the renamed file is the only one with its old name
      have parts := leads.path
      rw [path, below] at parts
      obtain ⟨samePath, sameName⟩ := List.append_inj' parts rfl
      obtain rfl := layout.same_path isNode isOld samePath
      apply here
      apply layout.single dir isNode isDir place j block i was held.entry
      rw [held.named, List.singleton_inj.mp sameName]
  · intro node member path last isPath
    obtain ⟨old, isOld, rfl⟩ := List.mem_map.mp member
    by_cases isRenamed : old = child
    · rw [isRenamed, Node.rename_same rfl] at isPath
      obtain ⟨rfl, sameName⟩ := List.append_inj' isPath rfl
      refine ⟨dir, kept dir isNode isDir, rfl, isDir, block, i, (entries dir block i).mpr held.entry, ?_⟩
      rw [renamed.written]
      exact List.singleton_inj.mp sameName
    · have notHere : old.path ≠ child.path := fun same => isRenamed (layout.same_path isOld isChild same)
      rw [Node.rename_other notHere] at isPath
      obtain ⟨found, isFound, samePath, foundDir, place, j, entry, named⟩ :=
        layout.placed old isOld path last isPath
      refine ⟨found, kept found isFound foundDir, samePath, foundDir, place, j,
        (entries found place j).mpr entry, ?_⟩
      rw [renamed.same place j ?_, named]
      by_contra both
      obtain ⟨rfl, rfl⟩ : place = block ∧ j = i := by tauto
      obtain rfl := layout.same_node isFound isNode entry.held held.entry.held
      apply notHere
      rw [isPath, below, ← samePath, ← named, held.named]
  · intro node member nodeDir place j place' j' entry entry' names
    have isOld := members node member nodeDir
    have was := (entries node place j).mp entry
    have was' := (entries node place' j').mp entry'
    by_cases here : place = block ∧ j = i
    · by_cases here' : place' = block ∧ j' = i
      · exact ⟨here.1.trans here'.1.symm, here.2.trans here'.2.symm⟩
      · obtain rfl := sameDir node isOld place j was here
        rw [here.1, here.2, renamed.written, renamed.same place' j' (by tauto)] at names
        exact absurd names.symm (unused place' j' was' (by tauto))
    · rw [renamed.same place j (by tauto)] at names
      by_cases here' : place' = block ∧ j' = i
      · obtain rfl := sameDir node isOld place' j' was' here'
        rw [here'.1, here'.2, renamed.written] at names
        exact absurd names (unused place j was (by tauto))
      · rw [renamed.same place' j' (by tauto)] at names
        exact layout.single node isOld nodeDir place j place' j' was was' names
  · intro node member nodeDir place j entry j' less
    have isOld := members node member nodeDir
    have was := (entries node place j).mp entry
    by_cases here : place = block ∧ j = i
    · obtain ⟨rfl, rfl⟩ := here
      rw [renamed.written, renamed.same place j' (Or.inr (Nat.ne_of_lt less))]
      exact before j' less
    · rw [renamed.same place j (by tauto)]
      by_cases there : place = block ∧ j' = i
      · obtain ⟨rfl, rfl⟩ := there
        obtain rfl := layout.same_node isOld isNode was.held held.entry.held
        rw [renamed.written]
        exact (unused place j was (by tauto)).symm
      · rw [renamed.same place j' (by tauto)]
        exact layout.earlier node isOld nodeDir place j was j' less

theorem relabel (layout : Layout sb disk nodes) (mapped : sb.Mapped disk')
    (followers : ∀ place, sb.IsData place → sb.follower disk' place = sb.follower disk place)
    (flags : ∀ place j, (slotAt disk' place j).isFree = (slotAt disk place j).isFree ∧
      (slotAt disk' place j).isDirectory = (slotAt disk place j).isDirectory)
    (rest : ∀ place j, slotAt disk' place j =
      { slotAt disk place j with attributes := (slotAt disk' place j).attributes }) :
    Layout sb disk' nodes := by
  have names : ∀ place j, (slotAt disk' place j).name = (slotAt disk place j).name := by
    intro place j
    rw [rest place j]
  have entries : ∀ node place j, Entry sb disk' node place j → Entry sb disk node place j := fun _ place j
    entry => ⟨entry.held, entry.inside, (flags place j).1.symm.trans entry.live⟩
  constructor
  · exact mapped
  · exact layout.owned.congr followers
  · exact layout.keys
  · exact layout.root
  · intro node member nodeDir place j entry
    obtain ⟨child, isChild, leads⟩ := layout.listed node member nodeDir place j (entries node place j entry)
    refine ⟨child, isChild, ⟨?_, leads.isDir.trans (flags place j).2.symm, ?_, ?_⟩⟩
    · rw [names]
      exact leads.path
    · rw [rest place j]
      exact leads.first
    · rw [rest place j]
      exact leads.size
  · intro child member path name isPath
    obtain ⟨dir, isNode, samePath, isDir, place, j, entry, named⟩ :=
      layout.placed child member path name isPath
    refine ⟨dir, isNode, samePath, isDir, place, j, ?_, (names place j).trans named⟩
    exact ⟨entry.held, entry.inside, (flags place j).1.trans entry.live⟩
  · intro node member nodeDir place j place' j' entry entry' same
    rw [names, names] at same
    exact layout.single node member nodeDir place j place' j' (entries _ _ _ entry)
      (entries _ _ _ entry') same
  · intro node member nodeDir place j entry j' less
    rw [names, names]
    exact layout.earlier node member nodeDir place j (entries _ _ _ entry) j' less

theorem chmod (layout : Layout sb disk nodes) (formatted : sb.Formatted) {block i : Nat} {mode : UInt8}
    (data : sb.IsData block) (kept : mode &&& 0x81 = 0) :
    Layout sb (writeBlock disk block (setAttributes (disk block) i
      (changeMode (attributes (disk block) i) mode))) nodes := by
  have here := slotAt_setAttributes disk block i (changeMode (attributes (disk block) i) mode)
  refine layout.relabel (layout.mapped.writeBlock _ data) (fun place placeData => ?_)
    (fun place j => ?_) fun place j => ?_
  · exact FsSuperblock.follower_writeBlock formatted _ data placeData
  · by_cases same : place = block ∧ j = i
    · rw [same.1, same.2, here]
      simp only [Slot.isFree, Slot.isDirectory]
      rw [changeMode_flag _ kept (by decide), changeMode_flag _ kept (by decide)]
      exact ⟨rfl, rfl⟩
    · rw [slotAt_setAttributes_other _ _ (by tauto)]
      exact ⟨rfl, rfl⟩
  · by_cases same : place = block ∧ j = i
    · rw [same.1, same.2, here]
    · rw [slotAt_setAttributes_other _ _ (by tauto)]

end Layout

end Hellfire

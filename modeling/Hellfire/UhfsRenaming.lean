import Hellfire.UhfsWholePaths

/-!
The entries of one directory while files in it are created, removed and renamed.
-/

namespace Hellfire

open ByteMemory Chains Machine

def CString.child (path name : CString) : CString where
  bytes := path.bytes ++ 47 :: name.bytes
  ended := by
    have first := path.ended
    have last := name.ended
    simp only [List.mem_append, List.mem_cons, not_or]
    exact ⟨first, by decide, last⟩

structure CString.IsName (name : CString) : Prop where
  some : name.bytes ≠ []
  whole : ∀ byte ∈ name.bytes, isDelimiter byte = false

theorem CString.tokens_child (path : CString) {name : CString} (isName : name.IsName) :
    (path.child name).tokens = path.tokens ++ [name.bytes] := by
  unfold CString.tokens CString.child
  rw [List.length_append, List.length_cons, ← Nat.add_assoc, Nat.add_right_comm]
  exact tokensFrom_slash isName.some isName.whole path.bytes.length name.bytes.length path.bytes le_rfl

structure Consistent (sb : FsSuperblock) (disk : Disk) (first : Nat) : Prop where
  distinct : ∀ chain, ChainFrom sb disk first chain → ∀ block ∈ chain, ∀ block' ∈ chain,
    ∀ i < sb.dirEntries, ∀ i' < sb.dirEntries,
    (slotAt disk block i).isFree = false → (slotAt disk block' i').isFree = false →
    (slotAt disk block i).name = (slotAt disk block' i').name → block = block' ∧ i = i'
  used : ∀ chain, ChainFrom sb disk first chain → ∀ block ∈ chain, ∀ i < sb.dirEntries,
    (slotAt disk block i).isFree = false → sb.follower disk (firstBlock (disk block) i) ≠ uhfsFreeblk

structure Released (sb : FsSuperblock) (disk disk' : Disk) (block i : Nat) : Prop where
  freed : (slotAt disk' block i).isFree = true
  others : ∀ place j, sb.IsData place → (place ≠ block ∨ j ≠ i) →
    slotAt disk' place j = slotAt disk place j
  blocks : ∀ chain, ChainFrom sb disk (firstBlock (disk block) i) chain → ∀ place, sb.IsData place →
    sb.follower disk' place = if place ∈ chain then uhfsFreeblk else sb.follower disk place

/-- A call for the file with the path fails and changes nothing, or succeeds and does something to the
entry that the path names. -/
def OnNamed (sb : FsSuperblock) (disk : Disk) (first : Nat) (path : CString)
    (call : Except UhfsFault (Int × Disk)) (effect : Disk → Nat → Nat → Prop) : Prop :=
  ∃ result disk', call = .ok (result, disk') ∧
    (result = -1 ∧ disk' = disk ∨ result = 0 ∧ ∃ block i,
      Names sb disk sb.rootDirBlock path.tokens first block i ∧ isDirectory (disk block) i = false ∧
      effect disk' block i)

structure RenamedTo (sb : FsSuperblock) (disk : Disk) (path : CString) (disk' : Disk) (block i : Nat) :
    Prop where
  only : OnlyAt sb disk disk' block i
  names : ∀ other : CString, (∃ dir, Names sb disk' sb.rootDirBlock other.tokens dir block i) ↔
    other.tokens = path.tokens

variable {sb : FsSuperblock} {disk : Disk} {nodes : List Node} {fuel : Nat}

namespace Volume

theorem consistent (volume : Volume sb disk nodes) (formatted : sb.Formatted) {dir : Node} {first : Nat}
    (isNode : dir ∈ nodes) (isDir : dir.isDir = true) (head : dir.chain.head? = some first) :
    Consistent sb disk first := by
  have isChain := volume.chainFrom formatted isNode head
  constructor
  · intro chain isOwn block inChain block' inChain' i inside i' inside' live live' same
    obtain rfl := isChain.unique isOwn
    exact volume.layout.single dir isNode isDir block i block' i' ⟨inChain, inside, live⟩
      ⟨inChain', inside', live'⟩ same
  · intro chain isOwn block inChain i inside live
    obtain rfl := isChain.unique isOwn
    obtain ⟨child, held⟩ := volume.held_of_entry isNode isDir ⟨inChain, inside, live⟩
    exact volume.layout.used formatted held.isChild (List.mem_of_mem_head? held.first_eq.1)

theorem named_file (volume : Volume sb disk nodes) {top dir child : Node} {block i : Nat}
    {name last : Name} {tokens rest : List Name} (isNode : top ∈ nodes) (isDir : top.isDir = true)
    (split : tokens = top.path ++ [last])
    (held : Held sb disk nodes dir child block i name) (isFile : child.isDir = false)
    (whole : tokens = child.path ++ rest) : dir = top ∧ name = last ∧ child.path = tokens := by
  obtain ⟨token, others, below, more⟩ :=
    volume.layout.file_behind isNode isDir held.isChild isFile (split.symm.trans whole)
  have length := congrArg List.length more
  simp only [List.length_append, List.length_cons, List.length_nil] at length
  obtain rfl : others = [] := List.length_eq_zero_iff.mp (by omega)
  obtain rfl : rest = [] := List.length_eq_zero_iff.mp (by omega)
  obtain rfl : last = token := by simpa using more
  obtain ⟨samePath, sameName⟩ := List.append_inj' (held.path.symm.trans below) rfl
  refine ⟨volume.layout.same_path held.isNode isNode samePath, List.singleton_inj.mp sameName, ?_⟩
  rw [below, split]

theorem hfUnlink_named (volume : Volume sb disk nodes) (formatted : sb.Formatted)
    (enough : sb.nBlocks ≤ fuel) {top : Node} {first : Nat} {last : Name} {path : CString}
    (isNode : top ∈ nodes) (isDir : top.isDir = true) (head : top.chain.head? = some first)
    (split : path.tokens = top.path ++ [last])
    (inStep : InStep sb disk sb.firstCmb sb.rootDirBlock path.tokens) :
    OnNamed sb disk first path (sb.hfUnlink fuel disk path) (Released sb disk) := by
  obtain ⟨result, disk', nodes', done, _, unlinked, _⟩ := volume.hfUnlink formatted enough inStep
  refine ⟨result, disk', done, ?_⟩
  cases unlinked with
  | @removed dir child block i name rest disk' held isFile whole removed =>
      obtain ⟨rfl, rfl, isWhole⟩ := volume.named_file isNode isDir split held isFile whole
      refine Or.inr ⟨rfl, block, i, ?_, held.first_eq.2.symm.trans isFile, removed.freed, removed.same, ?_⟩
      · exact (volume.names_iff formatted path.token_ended).mpr ⟨dir, child, name, held, isWhole, head⟩
      · intro chain isChain place isData
        rw [← (volume.chainFrom formatted held.isChild held.first_eq.1).unique isChain]
        split
        · rename_i inside
          exact removed.released place inside
        · rename_i outside
          exact removed.followers place isData outside
  | refused _ _ =>
      refine Or.inl ⟨?_, rfl⟩
      rfl

theorem hfRename_named (volume : Volume sb disk nodes) (formatted : sb.Formatted)
    (enough : sb.nBlocks ≤ fuel) {top : Node} {first : Nat} {last : Name} {path dirpath newname : CString}
    (isNode : top ∈ nodes) (isDir : top.isDir = true) (head : top.chain.head? = some first)
    (isPath : dirpath.tokens = top.path) (split : path.tokens = top.path ++ [last])
    (isName : newname.IsName) (orderly : Orderly sb disk (.rename path newname)) :
    OnNamed sb disk first path (sb.hfRename fuel disk path newname)
      (RenamedTo sb disk (dirpath.child newname)) := by
  obtain ⟨result, disk', done, changed⟩ := volume.changeEntry formatted enough orderly.inStep
    fun block i => setName block i newname.bytes
  refine ⟨result, disk', done, ?_⟩
  cases changed with
  | @changed dir child block i name rest held isFile whole =>
      obtain ⟨rfl, rfl, isWhole⟩ := volume.named_file isNode isDir split held isFile whole
      have names : Names sb disk sb.rootDirBlock path.tokens first block i :=
        (volume.names_iff formatted path.token_ended).mpr ⟨dir, child, name, held, isWhole, head⟩
      have directory := held.first_eq.2.symm.trans isFile
      have isNew := orderly.newName path newname rfl path.tokens [] first block i
        (List.append_nil _).symm names directory
      have volume' := volume.rename formatted held isFile head newname.ended isNew
      have data := volume.layout.data held.isNode held.entry.held
      have short : ShortName newname.bytes := ⟨newname.ended, isNew.fits⟩
      -- the entry is the one with the new name in the same directory
      have written : slotAt (writeBlock disk block (setName (disk block) i newname.bytes)) block i =
          { slotAt disk block i with name := newname.bytes } := by
        rw [slotAt, writeBlock_same, ofBlock_setName short]
        rfl
      have stays : dir ∈ nodes.map (Node.rename child.path (dir.path ++ [newname.bytes])) := by
        refine List.mem_map.mpr ⟨dir, isNode, Node.rename_other fun same => ?_⟩
        rw [volume.layout.same_path isNode held.isChild same, isFile] at isDir
        cases isDir
      have entry : Entry sb (writeBlock disk block (setName (disk block) i newname.bytes)) dir block i := by
        refine ⟨held.entry.held, held.entry.inside, ?_⟩
        rw [written]
        exact held.entry.live
      obtain ⟨child', held'⟩ := volume'.held_of_entry stays isDir entry
      have path' : child'.path = (dirpath.child newname).tokens := by
        rw [held'.path, written, dirpath.tokens_child isName, isPath]
      refine Or.inr ⟨rfl, block, i, names, directory, onlyAt_writeBlock formatted data ?_, fun other => ?_⟩
      · exact fun _ apart => ofBlock_setName_other apart
      · constructor
        · rintro ⟨_, named⟩
          obtain ⟨dir₂, child₂, _, held₂, path₂, _⟩ :=
            (volume'.names_iff formatted other.token_ended).mp named
          obtain rfl := volume'.layout.same_node held₂.isNode stays held₂.entry.held entry.held
          rw [← path₂, ← path', held₂.path, held'.path, held₂.named]
        · intro same
          exact ⟨first, (volume'.names_iff formatted other.token_ended).mpr
            ⟨dir, child', _, held', path'.trans same.symm, head⟩⟩
  | refused none => exact Or.inl ⟨rfl, rfl⟩

end Volume

/-- On a volume after calls that are in order, the entries of a directory in use have different names
and refer to blocks in use, `hf_unlink` frees the entry that the path names with its blocks, and
`hf_rename` to a new name makes just the path with this name name the entry. -/
theorem renaming_consistent {device : Device} {blkSize : UInt32} (unmounted : device.ptr = none)
    (size : blkSize.toNat = device.info.bytesSector.toNat) (roomy : Roomy device.info.volume)
    (enough : device.info.volume.nBlocks ≤ fuel) :
    ∃ formatted mounted, hfMkfs blkSize device = (0, formatted) ∧ hfMount formatted = (0, mounted) ∧
      mounted.ptr = some device.info.volume ∧
      ∀ disk, OrderlyRun device.info.volume fuel mounted.disk disk →
        ∀ (dirpath : CString) first, DirectoryAt device.info.volume disk dirpath.tokens first →
          Consistent device.info.volume disk first ∧
          ∀ (path : CString) name, path.tokens = dirpath.tokens ++ [name] →
            (InStep device.info.volume disk device.info.volume.firstCmb
                device.info.volume.rootDirBlock path.tokens →
              OnNamed device.info.volume disk first path (device.info.volume.hfUnlink fuel disk path)
                (Released device.info.volume disk)) ∧
            ∀ newname, newname.IsName → Orderly device.info.volume disk (.rename path newname) →
              OnNamed device.info.volume disk first path
                (device.info.volume.hfRename fuel disk path newname)
                (RenamedTo device.info.volume disk (dirpath.child newname)) := by
  have formatted := roomy.toFormatted
  obtain ⟨disk, made, mounted, layout⟩ := format_spec unmounted size roomy
  refine ⟨_, _, made, mounted, rfl, fun disk' run dirpath first isDirectory => ?_⟩
  obtain ⟨⟨nodes, volume⟩, _⟩ := run.volume formatted enough (emptyVolume layout)
  obtain ⟨top, isNode, isPath, isDir, head⟩ :=
    volume.directory_node formatted dirpath.token_ended isDirectory
  refine ⟨volume.consistent formatted isNode isDir head, fun path name split => ?_⟩
  rw [← isPath] at split
  constructor
  · exact volume.hfUnlink_named formatted enough isNode isDir head split
  · intro newname isName orderly
    exact volume.hfRename_named formatted enough isNode isDir head isPath.symm split isName orderly

/-- The file `/b` gets the name `c` and the file `/a` is removed. The root directory is consistent, and
`hf_unlink` of `/c` then frees just the entry with this name. -/
theorem renaming_consistent_two : ∃ formatted mounted disk,
    hfMkfs 128 ⟨⟨8, 128⟩, fun _ => zeroBlock, none⟩ = (0, formatted) ∧ hfMount formatted = (0, mounted) ∧
      (BlkInfo.volume ⟨8, 128⟩).tidily 8 mounted.disk [.node (.create fileA), .node (.create fileB),
        .rename fileB (.of [99]), .node (.unlink fileA)] = some disk ∧
      Consistent (BlkInfo.volume ⟨8, 128⟩) disk 2 ∧
      ∃ disk' block i, (BlkInfo.volume ⟨8, 128⟩).hfUnlink 8 disk (.of [47, 99]) = .ok (0, disk') ∧
        Names (BlkInfo.volume ⟨8, 128⟩) disk 2 [[99]] 2 block i ∧
        Released (BlkInfo.volume ⟨8, 128⟩) disk disk' block i := by
  have one := eightBlocks_oneRegion
  have enough : (BlkInfo.volume ⟨8, 128⟩).nBlocks ≤ 8 := by decide
  obtain ⟨formatted, mounted, made, isMounted, _, keeps⟩ := renaming_consistent
    (show (⟨⟨8, 128⟩, fun _ => zeroBlock, none⟩ : Device).ptr = none from rfl)
    (show (128 : UInt32).toNat = (128 : UInt16).toNat by decide) one.roomy enough
  obtain ⟨disk, nodes, done, passed, run, volume⟩ := tidily_eightBlocks
    [.node (.create fileA), .node (.create fileB), .rename fileB (.of [99]), .node (.unlink fileA)]
    (fun disk => passes ((BlkInfo.volume ⟨8, 128⟩).hfUnlink 8 disk (.of [47, 99])) fun ran => ran.1 = 0)
    made isMounted (by decide +kernel)
  have root : DirectoryAt (BlkInfo.volume ⟨8, 128⟩) disk (CString.tokens (.of [])) 2 := Or.inl ⟨rfl, rfl⟩
  obtain ⟨consistent, calls⟩ := keeps disk run (.of []) 2 root
  obtain ⟨unlinks, _⟩ := calls (.of [47, 99]) [99] (by decide)
  obtain ⟨result, disk', unlinked, effect⟩ :=
    unlinks (volume.inStep_path one.roomy.toFormatted one.region (.of [47, 99]))
  obtain ⟨⟨zero, _⟩, unlinked', isZero⟩ := ok_of_passes passed
  obtain ⟨rfl, rfl⟩ := Prod.mk.inj (Except.ok.inj (unlinked.symm.trans unlinked'))
  obtain rfl : result = 0 := of_decide_eq_true isZero
  rcases effect with ⟨contra, _⟩ | ⟨_, block, i, names, _, released⟩
  · cases contra
  · exact ⟨formatted, mounted, disk, made, isMounted, done, consistent, disk', block, i, unlinked, names,
      released⟩

/-- The file `/a` gets the name of the file `/b`. -/
theorem rename_takes_name : ∃ mounted disk₁ disk₂ disk₃,
    hfMount (hfMkfs 128 ⟨⟨8, 128⟩, fun _ => zeroBlock, none⟩).2 = (0, mounted) ∧
      mounted.ptr = some (BlkInfo.volume ⟨8, 128⟩) ∧
      (BlkInfo.volume ⟨8, 128⟩).hfCreate 8 mounted.disk fileA = .ok (0, disk₁) ∧
      (BlkInfo.volume ⟨8, 128⟩).hfCreate 8 disk₁ fileB = .ok (0, disk₂) ∧
      (BlkInfo.volume ⟨8, 128⟩).hfRename 8 disk₂ fileA ⟨[98], by decide⟩ = .ok (0, disk₃) ∧
      ¬Consistent (BlkInfo.volume ⟨8, 128⟩) disk₃ 2 := by
  have checked : passes ((BlkInfo.volume ⟨8, 128⟩).hfCreate 8
      (hfMkfs 128 ⟨⟨8, 128⟩, fun _ => zeroBlock, none⟩).2.disk fileA)
      (fun first => passes ((BlkInfo.volume ⟨8, 128⟩).hfCreate 8 first.2 fileB) fun second =>
        passes ((BlkInfo.volume ⟨8, 128⟩).hfRename 8 second.2 fileA ⟨[98], by decide⟩) fun third =>
          first.1 = 0 && second.1 = 0 && third.1 = 0 &&
            (BlkInfo.volume ⟨8, 128⟩).follower third.2 2 = uhfsEochblk &&
            !(slotAt third.2 2 0).isFree && !(slotAt third.2 2 1).isFree &&
            (slotAt third.2 2 0).name = (slotAt third.2 2 1).name) = true := by
    decide +kernel
  obtain ⟨disk, made, mounted, _⟩ := format_eightBlocks
  rw [made] at checked ⊢
  obtain ⟨⟨first, disk₁⟩, created, checked⟩ := ok_of_passes checked
  obtain ⟨⟨second, disk₂⟩, also, checked⟩ := ok_of_passes checked
  obtain ⟨⟨third, disk₃⟩, renamed, checked⟩ := ok_of_passes checked
  simp only [Bool.and_eq_true, decide_eq_true_eq, Bool.not_eq_true'] at checked
  obtain ⟨⟨⟨⟨⟨⟨rfl, rfl⟩, rfl⟩, ends⟩, live⟩, live'⟩, same⟩ := checked
  refine ⟨_, disk₁, disk₂, disk₃, mounted, rfl, created, also, renamed, fun consistent => ?_⟩
  have isChain : ChainFrom (BlkInfo.volume ⟨8, 128⟩) disk₃ 2 [2] := ⟨rfl, .single ends, by decide⟩
  obtain ⟨_, equal⟩ := consistent.distinct [2] isChain 2 (by decide) 2 (by decide) 0 (by decide) 1
    (by decide) live live' same
  cases equal

end Hellfire

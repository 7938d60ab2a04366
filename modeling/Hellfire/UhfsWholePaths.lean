import Hellfire.UhfsRoot

/-!
The calls that remove, look up or change what a path names, and how much of the path they look at.
-/

namespace Hellfire

open ByteMemory Chains Machine

structure OnlyAt (sb : FsSuperblock) (disk disk' : Disk) (block i : Nat) : Prop where
  entries : ∀ place j, sb.IsData place → (place ≠ block ∨ j ≠ i) →
    slotAt disk' place j = slotAt disk place j
  chains : ∀ chain, ChainFrom sb disk (firstBlock (disk block) i) chain →
    ∀ place, sb.IsData place → place ∉ chain → sb.follower disk' place = sb.follower disk place

/-- A call for a file acts on the file that the whole path names, or fails and changes nothing. -/
def ActsOnFile (sb : FsSuperblock) (disk : Disk) (tokens : List Name)
    (call : Except UhfsFault (Int × Disk)) : Prop :=
  ∃ result disk', call = .ok (result, disk') ∧
    ((∃ dir block i, Names sb disk sb.rootDirBlock tokens dir block i ∧
      isDirectory (disk block) i = false ∧ OnlyAt sb disk disk' block i) ∨ result = -1 ∧ disk' = disk)

/-- `hf_size` tells the size of the file that the whole path names, or fails. -/
def SizesFile (sb : FsSuperblock) (disk : Disk) (tokens : List Name) (call : Except UhfsFault Int) : Prop :=
  ∃ size, call = .ok size ∧
    ((∃ dir block i, Names sb disk sb.rootDirBlock tokens dir block i ∧
      isDirectory (disk block) i = false ∧ size = FsSuperblock.toInt64 (fileSize (disk block) i)) ∨ size = -1)

/-- `hf_rmdir` of `p/.` removes the empty directory that `p` names; else the call fails and changes
nothing. -/
def ActsOnDirectory (sb : FsSuperblock) (disk : Disk) (tokens : List Name)
    (call : Except UhfsFault (Int × Disk)) : Prop :=
  ∃ result disk', call = .ok (result, disk') ∧
    ((∃ above dir block i, tokens = above ++ [[46]] ∧ Names sb disk sb.rootDirBlock above dir block i ∧
      isDirectory (disk block) i = true ∧ EmptyFrom sb disk (firstBlock (disk block) i) ∧
      OnlyAt sb disk disk' block i) ∨ result = -1 ∧ disk' = disk)

def ClearAbove (sb : FsSuperblock) (disk : Disk) (tokens : List Name) : Prop :=
  ∀ above rest, tokens = above ++ rest → rest ≠ [] → ¬NamesFile sb disk above

def NamesEmpty (sb : FsSuperblock) (disk : Disk) (tokens : List Name) : Prop :=
  tokens = [] ∧ EmptyFrom sb disk sb.rootDirBlock ∨
    ∃ dir block i, Names sb disk sb.rootDirBlock tokens dir block i ∧
      isDirectory (disk block) i = true ∧ EmptyFrom sb disk (firstBlock (disk block) i)

/-- An empty directory before the last component is not the root directory, and the last component
is `.`. -/
def DotBelowEmpty (sb : FsSuperblock) (disk : Disk) (tokens : List Name) : Prop :=
  ∀ above last, tokens = above ++ [last] → NamesEmpty sb disk above → above ≠ [] ∧ last = [46]

variable {sb : FsSuperblock} {disk disk' : Disk} {nodes : List Node} {fuel : Nat} {path : CString}

section Files

variable {tokens : List Name}

theorem Volume.names_child (volume : Volume sb disk nodes) (formatted : sb.Formatted) {dir child : Node}
    {block i : Nat} {name : Name} (held : Held sb disk nodes dir child block i name) :
    ∃ first, dir.chain.head? = some first ∧ Names sb disk sb.rootDirBlock child.path first block i := by
  obtain ⟨first, behind, chain⟩ := List.exists_cons_of_ne_nil (volume.layout.chain_ne_nil held.isNode)
  have head : dir.chain.head? = some first := by rw [chain]; rfl
  have ended : ∀ part ∈ child.path, 0 ∉ part := fun part member =>
    (volume.short child held.isChild part member).ended
  exact ⟨first, head, (volume.names_iff formatted ended).mpr ⟨dir, child, name, held, rfl, head⟩⟩

theorem Volume.clear_whole (volume : Volume sb disk nodes) (formatted : sb.Formatted) {child : Node}
    {rest : List Name} (clear : ClearAbove sb disk tokens) (isChild : child ∈ nodes)
    (isFile : child.isDir = false) (whole : tokens = child.path ++ rest) : child.path = tokens := by
  have ended : ∀ name ∈ child.path, 0 ∉ name :=
    fun name member => (volume.short child isChild name member).ended
  by_cases last : rest = []
  · rw [whole, last, List.append_nil]
  · exact absurd ((volume.namesFile_iff formatted ended).mpr ⟨child, isChild, rfl, isFile⟩)
      (clear child.path rest whole last)

theorem Volume.not_names (volume : Volume sb disk nodes) (formatted : sb.Formatted)
    (ended : ∀ name ∈ tokens, 0 ∉ name) {above rest : List Name} (split : tokens = above ++ rest)
    (more : rest ≠ []) (names : NamesFile sb disk above) {d block i : Nat} :
    ¬Names sb disk sb.rootDirBlock tokens d block i := by
  intro whole
  have aboveEnded : ∀ name ∈ above, 0 ∉ name := fun name member => ended name (by simp [split, member])
  obtain ⟨file, isChild, path, isFile⟩ := (volume.namesFile_iff formatted aboveEnded).mp names
  obtain ⟨_, child, _, held, childPath, _⟩ := (volume.names_iff formatted ended).mp whole
  refine more (volume.layout.file_end held.isChild isChild isFile ?_)
  rw [childPath, split, path]

/-- A call for a file that succeeds whenever a file is on its path looks at the whole path exactly if
the path is clear above its last component. -/
theorem Volume.acts_iff (volume : Volume sb disk nodes) (formatted : sb.Formatted)
    {call : Except UhfsFault (Int × Disk)} (ended : ∀ name ∈ tokens, 0 ∉ name)
    (served : ∃ result disk', call = .ok (result, disk') ∧
      ((∃ dir child block i name rest, Held sb disk nodes dir child block i name ∧ child.isDir = false ∧
          tokens = child.path ++ rest ∧ result = 0 ∧ OnlyAt sb disk disk' block i) ∨
        NoFile nodes tokens ∧ result = -1 ∧ disk' = disk)) :
    ActsOnFile sb disk tokens call ↔ ClearAbove sb disk tokens := by
  obtain ⟨result, disk', done, effect⟩ := served
  constructor
  · rintro ⟨result', disk'', done', acts⟩ above rest split more names
    obtain ⟨rfl, rfl⟩ := Prod.mk.inj (Except.ok.inj (done.symm.trans done'))
    rcases effect with ⟨_, _, _, _, _, _, _, _, _, rfl, _⟩ | ⟨none, _, _⟩
    · rcases acts with ⟨_, _, _, whole, _⟩ | ⟨contra, _⟩
      · exact volume.not_names formatted ended split more names whole
      · cases contra
    · have aboveEnded : ∀ name ∈ above, 0 ∉ name := fun name member => ended name (by simp [split, member])
      obtain ⟨file, isChild, path, isFile⟩ := (volume.namesFile_iff formatted aboveEnded).mp names
      exact none file isChild isFile rest (by rw [split, path])
  · intro clear
    refine ⟨result, disk', done, ?_⟩
    rcases effect with ⟨dir, child, block, i, name, rest, held, isFile, whole, _, only⟩ | ⟨_, failed, same⟩
    · obtain ⟨first, _, names⟩ := volume.names_child formatted held
      rw [volume.clear_whole formatted clear held.isChild isFile whole] at names
      exact Or.inl ⟨first, block, i, names, held.first_eq.2.symm.trans isFile, only⟩
    · exact Or.inr ⟨failed, same⟩

theorem onlyAt_writeBlock (formatted : sb.Formatted) {block i : Nat} {contents : Memory}
    (data : sb.IsData block) (others : ∀ j, j ≠ i → Slot.ofBlock contents j = Slot.ofBlock (disk block) j) :
    OnlyAt sb disk (writeBlock disk block contents) block i := by
  constructor
  · intro place j _ apart
    by_cases here : place = block
    · rw [here, slotAt, writeBlock_same, others j (apart.resolve_left (not_not.mpr here))]
      rfl
    · exact slotAt_writeBlock_other _ here j
  · intro chain _ place isData _
    exact FsSuperblock.follower_writeBlock formatted _ data isData

theorem Removed.onlyAt {dir child : Node} {block i : Nat} {name : Name}
    (removed : Removed sb disk disk' child block i) (volume : Volume sb disk nodes)
    (formatted : sb.Formatted) (held : Held sb disk nodes dir child block i name) :
    OnlyAt sb disk disk' block i := by
  refine ⟨removed.same, fun chain isChain place isData outside => removed.followers place isData ?_⟩
  rw [(volume.chainFrom formatted held.isChild held.first_eq.1).unique isChain]
  exact outside

theorem Volume.hfUnlink_iff (volume : Volume sb disk nodes) (formatted : sb.Formatted)
    (enough : sb.nBlocks ≤ fuel) (inStep : InStep sb disk sb.firstCmb sb.rootDirBlock path.tokens) :
    ActsOnFile sb disk path.tokens (sb.hfUnlink fuel disk path) ↔ ClearAbove sb disk path.tokens := by
  refine volume.acts_iff formatted path.token_ended ?_
  obtain ⟨result, disk', nodes', done, _, unlinked, _⟩ := volume.hfUnlink formatted enough inStep
  refine ⟨result, disk', done, ?_⟩
  cases unlinked with
  | @removed dir child block i name rest disk' held isFile whole removed =>
      exact Or.inl ⟨dir, child, block, i, name, rest, held, isFile, whole, rfl,
        removed.onlyAt volume formatted held⟩
  | refused _ _ =>
      refine Or.inr ⟨?_, rfl, rfl⟩
      obtain ⟨search, found, isFile⟩ := volume.search_file formatted enough inStep
      cases isFile with
      | file _ _ _ isOne _ _ =>
          rw [FsSuperblock.hfUnlink, found] at done
          simp only [bind, Except.bind, if_neg (not_not.mpr isOne)] at done
          split at done
          · cases done
          · cases (Prod.mk.inj (Except.ok.inj done)).1
      | other none _ => exact none

theorem Volume.changeEntry_iff (volume : Volume sb disk nodes) (formatted : sb.Formatted)
    (enough : sb.nBlocks ≤ fuel) (inStep : InStep sb disk sb.firstCmb sb.rootDirBlock path.tokens)
    {change : Memory → Nat → Memory}
    (others : ∀ block i j, j ≠ i → Slot.ofBlock (change block i) j = Slot.ofBlock block j) :
    ActsOnFile sb disk path.tokens (sb.changeEntry change fuel disk path) ↔
      ClearAbove sb disk path.tokens := by
  refine volume.acts_iff formatted path.token_ended ?_
  obtain ⟨result, disk', done, changed⟩ := volume.changeEntry formatted enough inStep change
  refine ⟨result, disk', done, ?_⟩
  cases changed with
  | @changed dir child block i name rest held isFile whole =>
      exact Or.inl ⟨dir, child, block, i, name, rest, held, isFile, whole, rfl,
        onlyAt_writeBlock formatted (volume.layout.data held.isNode held.entry.held) (others _ i)⟩
  | refused none => exact Or.inr ⟨none, rfl, rfl⟩

theorem Volume.hfSize_iff (volume : Volume sb disk nodes) (formatted : sb.Formatted)
    (enough : sb.nBlocks ≤ fuel) (inStep : InStep sb disk sb.firstCmb sb.rootDirBlock path.tokens) :
    SizesFile sb disk path.tokens (sb.hfSize fuel disk path) ↔ ClearAbove sb disk path.tokens := by
  obtain ⟨search, found, isFile⟩ := volume.search_file formatted enough inStep
  cases isFile with
  | @file dir child i name rest held isFile whole isOne ppath entry =>
      have sized : sb.hfSize fuel disk path =
          .ok (FsSuperblock.toInt64 (fileSize (disk search.pblock) i)) := by
        rw [FsSuperblock.hfSize, found]
        simp only [bind, Except.bind, if_neg (not_not.mpr isOne), ppath, Option.getD_some, entry]
      have zero : fileSize (disk search.pblock) i = 0 := held.leads.size
      rw [zero] at sized
      constructor
      · rintro ⟨size, done, acts⟩ above others split more names
        obtain rfl := Except.ok.inj (sized.symm.trans done)
        rcases acts with ⟨_, _, _, whole, _⟩ | contra
        · exact volume.not_names formatted path.token_ended split more names whole
        · exact absurd contra (by decide)
      · intro clear
        obtain ⟨first, _, names⟩ := volume.names_child formatted held
        rw [volume.clear_whole formatted clear held.isChild isFile whole] at names
        refine ⟨_, sized, Or.inl ⟨first, search.pblock, i, names, held.first_eq.2.symm.trans isFile, ?_⟩⟩
        rw [zero]
  | other none notOne =>
      have failed : sb.hfSize fuel disk path = .ok (-1) := by
        rw [FsSuperblock.hfSize, found]
        simp only [bind, Except.bind, if_pos notOne]
      refine iff_of_true ⟨-1, failed, Or.inr rfl⟩ fun above rest split more names => ?_
      have aboveEnded : ∀ name ∈ above, 0 ∉ name :=
        fun name member => path.token_ended name (by simp [split, member])
      obtain ⟨file, isChild, filePath, isFile⟩ := (volume.namesFile_iff formatted aboveEnded).mp names
      exact none file isChild isFile rest (by rw [split, filePath])

end Files

section Directories

theorem Volume.namesEmpty_held (volume : Volume sb disk nodes) (formatted : sb.Formatted) {dir child : Node}
    {block i : Nat} {name : Name} (held : Held sb disk nodes dir child block i name)
    (isDir : child.isDir = true) (leaf : ∀ node ∈ nodes, ∀ other, node.path ≠ child.path ++ [other]) :
    ∃ first, Names sb disk sb.rootDirBlock child.path first block i ∧ isDirectory (disk block) i = true ∧
      EmptyFrom sb disk (firstBlock (disk block) i) := by
  obtain ⟨first, _, names⟩ := volume.names_child formatted held
  exact ⟨first, names, held.first_eq.2.symm.trans isDir,
    (volume.emptyFrom_iff formatted held.isChild isDir held.first_eq.1).mpr leaf⟩

theorem Volume.hfRmdir_iff (volume : Volume sb disk nodes) (formatted : sb.Formatted)
    (enough : sb.nBlocks ≤ fuel) (inStep : InStep sb disk sb.firstCmb sb.rootDirBlock path.tokens)
    (unset : Name) : ActsOnDirectory sb disk path.tokens (sb.hfRmdirWith unset fuel disk path) ↔
      DotBelowEmpty sb disk path.tokens := by
  have layout := volume.layout
  constructor
  · rintro ⟨result, disk', done, acts⟩ above last tokens empty
    rcases empty with ⟨rfl, isEmpty⟩ | ⟨d, block, i, names, directory, isEmpty⟩
    · -- the root directory would be removed
      obtain ⟨disk'', freed, _⟩ := volume.root_freed formatted enough inStep
        ⟨by rw [tokens]; rfl, isEmpty⟩ unset
      obtain ⟨rfl, rfl⟩ := Prod.mk.inj (Except.ok.inj (done.symm.trans freed))
      rcases acts with ⟨above', d, block, i, split, names, _⟩ | ⟨contra, _⟩
      · rw [split] at tokens
        exact absurd (List.append_inj' tokens rfl).1 names.ne_nil
      · cases contra
    · have ended : ∀ name ∈ above, 0 ∉ name :=
        fun name member => path.token_ended name (by simp [tokens, member])
      obtain ⟨dir, child, name, held, rfl, _⟩ := (volume.names_iff formatted ended).mp names
      have childDir : child.isDir = true := held.first_eq.2.trans directory
      have leaf := (volume.emptyFrom_iff formatted held.isChild childDir held.first_eq.1).mp isEmpty
      refine ⟨names.ne_nil, ?_⟩
      have keeps : ¬RemovesRoot sb disk path := by
        rintro ⟨one, _⟩
        have positive := List.length_pos_of_ne_nil names.ne_nil
        rw [tokens, List.length_append, List.length_singleton] at one
        omega
      obtain ⟨result', disk'', _, removed, _, pruned, _⟩ := volume.hfRmdir formatted enough inStep keeps
      obtain ⟨rfl, rfl⟩ := Prod.mk.inj (Except.ok.inj (done.symm.trans (hfRmdirWith_eq removed unset)))
      cases pruned with
      | removed _ _ _ _ _ _ =>
          rcases acts with ⟨above', _, _, _, split, _⟩ | ⟨contra, _⟩
          · rw [split] at tokens
            exact (List.singleton_inj.mp (List.append_inj' tokens rfl).2).symm
          · cases contra
      | @full other _ node below split isNode _ _ member path =>
          have same := (List.append_inj' (split.symm.trans tokens) rfl).1
          rw [same] at path
          exact absurd path (leaf node member below)
      | refused ends notZero =>
          rw [tokens] at ends
          have dots := layout.ends_below held.isChild childDir (fun node member => leaf node member last) ends
          exact absurd dots notZero
  · intro dots
    have keeps : ¬RemovesRoot sb disk path := by
      rintro ⟨one, isEmpty⟩
      obtain ⟨last, tokens⟩ := List.length_eq_one_iff.mp one
      exact (dots [] last tokens (Or.inl ⟨rfl, isEmpty⟩)).1 rfl
    obtain ⟨result, disk', _, done, _, pruned, _⟩ := volume.hfRmdir formatted enough inStep keeps
    refine ⟨result, disk', hfRmdirWith_eq done unset, ?_⟩
    cases pruned with
    | removed held isDir whole _ leaf removed =>
        obtain ⟨first, names, directory, isEmpty⟩ := volume.namesEmpty_held formatted held isDir leaf
        obtain ⟨_, rfl⟩ := dots _ _ whole (Or.inr ⟨first, _, _, names, directory, isEmpty⟩)
        exact Or.inl ⟨_, first, _, _, whole, names, directory, isEmpty, removed.onlyAt volume formatted held⟩
    | full _ _ _ _ _ _ => exact Or.inr ⟨rfl, rfl⟩
    | refused _ _ => exact Or.inr ⟨rfl, rfl⟩

end Directories

/-- On a volume after calls that are in order, the calls for files act on what their whole path names
exactly if no component before the last one is a file, and `hf_rmdir` does so exactly if what is before
the last component is no empty directory, or one below the root and the last component is `.`. -/
theorem whole_path_iff {device : Device} {blkSize : UInt32} (unmounted : device.ptr = none)
    (size : blkSize.toNat = device.info.bytesSector.toNat) (roomy : Roomy device.info.volume)
    (enough : device.info.volume.nBlocks ≤ fuel) :
    ∃ formatted mounted, hfMkfs blkSize device = (0, formatted) ∧ hfMount formatted = (0, mounted) ∧
      mounted.ptr = some device.info.volume ∧
      ∀ disk, OrderlyRun device.info.volume fuel mounted.disk disk →
        ∀ path, InStep device.info.volume disk device.info.volume.firstCmb
            device.info.volume.rootDirBlock path.tokens →
          (ActsOnFile device.info.volume disk path.tokens (device.info.volume.hfUnlink fuel disk path) ↔
            ClearAbove device.info.volume disk path.tokens) ∧
          (SizesFile device.info.volume disk path.tokens (device.info.volume.hfSize fuel disk path) ↔
            ClearAbove device.info.volume disk path.tokens) ∧
          (∀ newname, ActsOnFile device.info.volume disk path.tokens
              (device.info.volume.hfRename fuel disk path newname) ↔
            ClearAbove device.info.volume disk path.tokens) ∧
          (∀ mode, ActsOnFile device.info.volume disk path.tokens
              (device.info.volume.hfChmod fuel disk path mode) ↔
            ClearAbove device.info.volume disk path.tokens) ∧
          ∀ unset, ActsOnDirectory device.info.volume disk path.tokens
              (device.info.volume.hfRmdirWith unset fuel disk path) ↔
            DotBelowEmpty device.info.volume disk path.tokens := by
  have formatted := roomy.toFormatted
  obtain ⟨disk, made, mounted, layout⟩ := format_spec unmounted size roomy
  refine ⟨_, _, made, mounted, rfl, fun disk' run path inStep => ?_⟩
  obtain ⟨⟨nodes, volume⟩, _⟩ := run.volume formatted enough (emptyVolume layout)
  refine ⟨volume.hfUnlink_iff formatted enough inStep, volume.hfSize_iff formatted enough inStep,
    fun newname => ?_, fun mode => ?_, volume.hfRmdir_iff formatted enough inStep⟩
  · exact volume.changeEntry_iff formatted enough inStep fun _ _ _ => ofBlock_setName_other
  · exact volume.changeEntry_iff formatted enough inStep fun _ _ _ => ofBlock_setAttributes_other

def belowA : CString := ⟨[47, 97, 47, 98], by decide⟩

theorem not_clear_belowA {disk : Disk} (isChain : ChainFrom (BlkInfo.volume ⟨8, 128⟩) disk 2 [2])
    (first : FirstHolds (BlkInfo.volume ⟨8, 128⟩) disk [97] 2 0) (isFile : isDirectory (disk 2) 0 = false) :
    ¬ClearAbove (BlkInfo.volume ⟨8, 128⟩) disk belowA.tokens := by
  intro clear
  have whole : ChainFrom (BlkInfo.volume ⟨8, 128⟩) disk 2 ([] ++ 2 :: []) := isChain
  refine clear [[97]] [[98]] (by decide) (List.cons_ne_nil _ _) ⟨2, 2, 0, ?_, isFile⟩
  exact .last whole (fun _ inside => by cases inside) first

/-- The file `/a` is created. Then `hf_unlink` of `/a` acts on what its path names, that of `/a/b` does
not. -/
theorem whole_path_created : ∃ formatted mounted disk,
    hfMkfs 128 ⟨⟨8, 128⟩, fun _ => zeroBlock, none⟩ = (0, formatted) ∧ hfMount formatted = (0, mounted) ∧
      (BlkInfo.volume ⟨8, 128⟩).tidily 8 mounted.disk [.node (.create fileA)] = some disk ∧
      ActsOnFile (BlkInfo.volume ⟨8, 128⟩) disk fileA.tokens
        ((BlkInfo.volume ⟨8, 128⟩).hfUnlink 8 disk fileA) ∧
      ¬ActsOnFile (BlkInfo.volume ⟨8, 128⟩) disk belowA.tokens
        ((BlkInfo.volume ⟨8, 128⟩).hfUnlink 8 disk belowA) := by
  have one := eightBlocks_oneRegion
  have unmounted : (⟨⟨8, 128⟩, fun _ => zeroBlock, none⟩ : Device).ptr = none := rfl
  have size : (128 : UInt32).toNat = (128 : UInt16).toNat := by decide
  have enough : (BlkInfo.volume ⟨8, 128⟩).nBlocks ≤ 8 := by decide
  obtain ⟨formatted, mounted, made, isMounted, _, acts⟩ := whole_path_iff unmounted size one.roomy enough
  obtain ⟨disk, nodes, done, passed, run, volume⟩ := tidily_eightBlocks [.node (.create fileA)]
    (fun disk => ChainFrom (BlkInfo.volume ⟨8, 128⟩) disk 2 [2] ∧
      FirstHolds (BlkInfo.volume ⟨8, 128⟩) disk [97] 2 0 ∧ isDirectory (disk 2) 0 = false)
    made isMounted (by decide +kernel)
  obtain ⟨isChain, first, isFile⟩ := of_decide_eq_true passed
  have inStep := volume.inStep_path one.roomy.toFormatted one.region
  refine ⟨formatted, mounted, disk, made, isMounted, done, ?_, ?_⟩
  · refine (acts disk run fileA (inStep fileA)).1.mpr fun above rest split more names => ?_
    have length := congrArg List.length (show [[97]] = above ++ rest from split)
    have behind := List.length_pos_of_ne_nil more
    rw [List.length_append, List.length_singleton] at length
    obtain ⟨_, _, _, named, _⟩ := names
    exact named.ne_nil (List.length_eq_zero_iff.mp (by omega))
  · exact fun onFile => not_clear_belowA isChain first isFile
      ((acts disk run belowA (inStep belowA)).1.mp onFile)

/-- The file `/a` is removed under the name `/a/b`. -/
theorem unlink_below_file : ∃ mounted disk₁ disk₂,
    hfMount (hfMkfs 128 ⟨⟨8, 128⟩, fun _ => zeroBlock, none⟩).2 = (0, mounted) ∧
      mounted.ptr = some (BlkInfo.volume ⟨8, 128⟩) ∧
      (BlkInfo.volume ⟨8, 128⟩).hfCreate 8 mounted.disk fileA = .ok (0, disk₁) ∧
      (BlkInfo.volume ⟨8, 128⟩).hfUnlink 8 disk₁ belowA = .ok (0, disk₂) ∧
      ¬ActsOnFile (BlkInfo.volume ⟨8, 128⟩) disk₁ belowA.tokens
        ((BlkInfo.volume ⟨8, 128⟩).hfUnlink 8 disk₁ belowA) := by
  have one := eightBlocks_oneRegion
  have formatted := one.roomy.toFormatted
  have region : (BlkInfo.volume ⟨8, 128⟩).OneRegion := one.region
  have checked : passes ((BlkInfo.volume ⟨8, 128⟩).hfCreate 8
      (hfMkfs 128 ⟨⟨8, 128⟩, fun _ => zeroBlock, none⟩).2.disk fileA)
      (fun first => passes ((BlkInfo.volume ⟨8, 128⟩).hfUnlink 8 first.2 belowA) fun second =>
        first.1 = 0 && second.1 = 0 &&
          (BlkInfo.volume ⟨8, 128⟩).follower first.2 2 = uhfsEochblk && !isFree (first.2 2) 0 &&
          holdsString (first.2 2) (filename 0) [97] && !isDirectory (first.2 2) 0) = true := by
    decide +kernel
  obtain ⟨disk, made, mounted, layout⟩ := format_eightBlocks
  rw [made] at checked ⊢
  have volume := emptyVolume layout
  have fits : ∀ above name, fileA.tokens = above ++ [name] → name.length ≤ 38 := by
    intro above name tokens
    have last := congrArg List.getLast? tokens
    rw [List.getLast?_concat] at last
    rw [← Option.some.inj last]
    decide
  have enough : (BlkInfo.volume ⟨8, 128⟩).nBlocks ≤ 8 := by decide
  obtain ⟨_, _, nodes, created, volume₁, _⟩ := volume.insert formatted enough
    (volume.inStep_path formatted region fileA) fits create_fresh
  obtain ⟨⟨result, disk₁⟩, first, checked⟩ := ok_of_passes checked
  obtain ⟨⟨again, disk₂⟩, second, checked⟩ := ok_of_passes checked
  obtain ⟨_, rfl⟩ := Prod.mk.inj (Except.ok.inj (first.symm.trans created))
  simp only [Bool.and_eq_true, decide_eq_true_eq, Bool.not_eq_true'] at checked
  obtain ⟨⟨⟨⟨⟨rfl, rfl⟩, ends⟩, live⟩, named⟩, isFile⟩ := checked
  refine ⟨_, disk₁, disk₂, mounted, rfl, first, second, fun acts => ?_⟩
  have clear := (volume₁.hfUnlink_iff formatted enough
    (volume₁.inStep_path formatted region belowA)).mp acts
  have isChain : ChainFrom (BlkInfo.volume ⟨8, 128⟩) disk₁ 2 [2] := ⟨rfl, .single ends, by decide⟩
  refine not_clear_belowA isChain ⟨⟨by decide, live, named⟩, fun _ less => ?_⟩ isFile clear
  exact absurd less (Nat.not_lt_zero _)

end Hellfire

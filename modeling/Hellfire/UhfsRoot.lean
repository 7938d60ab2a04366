import Hellfire.UhfsVolumeRuns

/-!
The root directory: only `hf_rmdir` with a path of one component frees its block, and only when it is
empty.
-/

namespace Hellfire

open ByteMemory Chains Machine

variable {sb : FsSuperblock} {disk : Disk} {nodes : List Node} {fuel : Nat} {path : CString}

/-- `hf_rmdir` with the string to which `ppath` points when `searchdirectory` does not set it. -/
def FsSuperblock.hfRmdirWith (sb : FsSuperblock) (unset : Name) (fuel : Nat) (disk : Disk)
    (path : CString) : Except UhfsFault (Int × Disk) := do
  let found ← sb.searchdirectory fuel disk path
  if found.result ≠ 0 then .ok (-1, disk)
  else
    let chainBlk := sb.mapBlock found.lblock
    let isEmpty ← sb.isEmptyFrom disk fuel chainBlk found.lblock
    if isEmpty = false then .ok (-1, disk)
    else do
      let disk := sb.freeEntry disk found.pblock (found.ppath.getD unset)
      let disk ← sb.freeBlocks fuel disk chainBlk found.lblock
      .ok (0, disk)

theorem hfRmdirWith_eq {result : Int × Disk} (done : sb.hfRmdir fuel disk path = .ok result)
    (unset : Name) : sb.hfRmdirWith unset fuel disk path = .ok result := by
  rw [FsSuperblock.hfRmdir] at done
  rw [FsSuperblock.hfRmdirWith]
  cases search : sb.searchdirectory fuel disk path with
  | error fault =>
      rw [search] at done
      cases done
  | ok found =>
      rw [search] at done
      simp only [bind, Except.bind] at done ⊢
      by_cases zero : found.result = 0
      · rw [if_neg (not_not.mpr zero)] at done ⊢
        cases tested : sb.isEmptyFrom disk fuel (sb.mapBlock found.lblock) found.lblock with
        | error fault =>
            rw [tested] at done
            cases done
        | ok isEmpty =>
            rw [tested] at done
            cases isEmpty with
            | false => exact done
            | true =>
                cases ppath : found.ppath with
                | some name =>
                    rw [ppath] at done
                    exact done
                | none =>
                    rw [ppath] at done
                    cases done
      · rw [if_pos zero] at done ⊢
        exact done

section Empty

theorem freeEntry_zero_other {place : Nat} (other : place ≠ 0) (name : Name) :
    sb.freeEntry disk 0 name place = disk place := by
  rw [FsSuperblock.freeEntry]
  cases sb.findEntry (disk 0) name with
  | none => rfl
  | some i => exact writeBlock_other _ _ other

theorem Volume.search_root (volume : Volume sb disk nodes) (formatted : sb.Formatted)
    (enough : sb.nBlocks ≤ fuel) (inStep : InStep sb disk sb.firstCmb sb.rootDirBlock path.tokens)
    (removes : RemovesRoot sb disk path) : ∃ found root, root ∈ nodes ∧
      sb.searchdirectory fuel disk path = .ok found ∧ found.result = 0 ∧ found.pblock = 0 ∧
      found.ppath = none ∧ root.chain.head? = some found.lblock ∧ found.lblock = sb.rootDirBlock ∧
      AllFree sb disk root.chain := by
  obtain ⟨root, found, isRoot, top, search, located⟩ := searchdirectory_inStep volume formatted enough inStep
  obtain ⟨base, isBase, baseTop, baseDir, head⟩ := volume.layout.root
  obtain rfl := volume.layout.same_path isBase isRoot (baseTop.trans top.symm)
  obtain ⟨one, empty⟩ := removes
  obtain ⟨name, tokens⟩ := List.length_eq_one_iff.mp one
  have leaf := (volume.emptyFrom_iff formatted isBase baseDir head).mp empty
  have nothing : ∀ node ∈ nodes, ∀ other rest, node.path ≠ [] ++ other :: rest := by
    intro node member other rest path
    have longer : node.path = [other] ++ rest := path
    by_cases last : rest = []
    · exact leaf node member other (by rw [longer, last, top]; rfl)
    · obtain ⟨dir, isDir, dirPath, _⟩ := volume.layout.above member longer last
      exact leaf dir isDir other (by rw [dirPath, top]; rfl)
  cases located with
  | @vacant above last parent split isParent parentDir place absent zero first lpath origin =>
      have short : above = [] := by
        rw [tokens] at split
        cases above with
        | nil => rfl
        | cons first rest =>
            have length := congrArg List.length split
            simp at length
      rw [short, List.append_nil] at place
      obtain rfl := volume.layout.same_path isParent isBase place
      rcases origin with ⟨_, _, pblock, ppath⟩ | ⟨dir, i, other, held, _, _⟩
      · exact ⟨found, parent, isParent, search, zero, pblock, ppath, first,
          Option.some.inj (first.symm.trans head),
          (allFree_iff volume.layout isParent baseDir).mpr leaf⟩
      · exact absurd (held.path.symm.trans top) (List.append_ne_nil_of_right_ne_nil _ (List.cons_ne_nil _ _))
  | @file above last rest dir child i split place held _ _ _ _ =>
      obtain ⟨first, others, path⟩ := List.exists_cons_of_ne_nil
        (show child.path ≠ [] by
          rw [held.path]
          exact List.append_ne_nil_of_right_ne_nil _ (List.cons_ne_nil _ _))
      exact absurd path (nothing child held.isChild first others)
  | directory isNode _ place _ =>
      rw [top, tokens] at place
      exact absurd place (nothing _ isNode name [])
  | @lost above last rest parent split more _ _ _ _ =>
      rw [tokens] at split
      have length := congrArg List.length split
      have positive := List.length_pos_of_ne_nil more
      simp only [List.length_append, List.length_cons, List.length_nil] at length
      omega

theorem Volume.root_freed (volume : Volume sb disk nodes) (formatted : sb.Formatted)
    (enough : sb.nBlocks ≤ fuel) (inStep : InStep sb disk sb.firstCmb sb.rootDirBlock path.tokens)
    (removes : RemovesRoot sb disk path) (unset : Name) : ∃ disk',
      sb.hfRmdirWith unset fuel disk path = .ok (0, disk') ∧
        sb.follower disk' sb.rootDirBlock = uhfsFreeblk := by
  obtain ⟨found, root, isRoot, search, zero, pblock, ppath, head, isFirst, free⟩ :=
    volume.search_root formatted enough inStep removes
  have layout := volume.layout
  obtain ⟨rest, chain⟩ := List.head?_eq_some_iff.mp head
  have linked := (layout.chain_mem isRoot).2
  have bound := layout.chain_length isRoot
  have apart : root.chain.Nodup := (List.nodup_flatten.mp layout.owned.apart).1 _ (layout.chain_mem isRoot).1
  have data : ∀ block ∈ root.chain, sb.IsData block := fun block => layout.data isRoot
  rw [chain] at linked bound data apart free
  rw [List.length_cons] at bound
  obtain ⟨isEmpty, tested, means⟩ := isEmptyFrom_spec formatted rest found.lblock fuel linked data (by omega)
  obtain rfl := means.mpr free
  have maps : ∀ place, sb.IsMap place → sb.freeEntry disk 0 unset place = disk place := fun place isMap =>
    freeEntry_zero_other (by have := isMap.1; omega) unset
  have followers : ∀ place, sb.IsData place →
      sb.follower (sb.freeEntry disk 0 unset) place = sb.follower disk place := by
    intro place placeData
    rw [FsSuperblock.follower, maps _ (placeData.place formatted).1]
    rfl
  have mapped : sb.Mapped (sb.freeEntry disk 0 unset) := by
    constructor
    · intro k isMap
      rw [maps k isMap]
      exact layout.mapped.heads k isMap
    · intro k isMap
      rw [maps k isMap]
      exact layout.mapped.outside k isMap
  have linked' := linked.congr fun place member => followers place (data place member)
  obtain ⟨disk', done, _, freed, _⟩ := freeBlocks_spec formatted rest found.lblock
    (sb.freeEntry disk 0 unset) fuel linked' data apart (by omega) mapped
  refine ⟨disk', ?_, ?_⟩
  · rw [FsSuperblock.hfRmdirWith, search]
    simp only [bind, Except.bind, zero, ne_eq, not_true_eq_false, if_false]
    rw [tested]
    simp only [Bool.true_eq_false, if_false, pblock, ppath, Option.getD_none]
    rw [done]
  · rw [← isFirst]
    exact freed found.lblock List.mem_cons_self

theorem Volume.root_used (volume : Volume sb disk nodes) (formatted : sb.Formatted) :
    sb.follower disk sb.rootDirBlock ≠ uhfsFreeblk := by
  obtain ⟨root, isRoot, _, _, head⟩ := volume.layout.root
  exact volume.layout.used formatted isRoot (List.mem_of_mem_head? head)

theorem Volume.root_freed_iff (volume : Volume sb disk nodes) (formatted : sb.Formatted)
    (enough : sb.nBlocks ≤ fuel) (inStep : InStep sb disk sb.firstCmb sb.rootDirBlock path.tokens)
    (unset : Name) : ∃ result disk', sb.hfRmdirWith unset fuel disk path = .ok (result, disk') ∧
      (sb.follower disk' sb.rootDirBlock = uhfsFreeblk ↔ RemovesRoot sb disk path) := by
  by_cases removes : RemovesRoot sb disk path
  · obtain ⟨disk', done, freed⟩ := volume.root_freed formatted enough inStep removes unset
    exact ⟨0, disk', done, iff_of_true freed removes⟩
  · obtain ⟨result, disk', nodes', done, volume', _⟩ := volume.hfRmdir formatted enough inStep removes
    exact ⟨result, disk', hfRmdirWith_eq done unset, iff_of_false (volume'.root_used formatted) removes⟩

end Empty

/-- On a new volume, calls that are in order keep the block of the root directory and the super block,
and then `hf_rmdir` frees the root directory exactly if it is empty and the path has one component. -/
theorem root_permanent {device : Device} {blkSize : UInt32} (unmounted : device.ptr = none)
    (size : blkSize.toNat = device.info.bytesSector.toNat) (roomy : Roomy device.info.volume)
    (enough : device.info.volume.nBlocks ≤ fuel) :
    ∃ formatted mounted, hfMkfs blkSize device = (0, formatted) ∧ hfMount formatted = (0, mounted) ∧
      mounted.ptr = some device.info.volume ∧
      ∀ disk, OrderlyRun device.info.volume fuel mounted.disk disk →
        device.info.volume.follower disk 2 ≠ uhfsFreeblk ∧ disk 0 = formatted.disk 0 ∧
        ∀ path, InStep device.info.volume disk device.info.volume.firstCmb
            device.info.volume.rootDirBlock path.tokens →
          ∀ unset, ∃ result disk',
            device.info.volume.hfRmdirWith unset fuel disk path = .ok (result, disk') ∧
              (device.info.volume.follower disk' 2 = uhfsFreeblk ↔
                RemovesRoot device.info.volume disk path) := by
  have formatted := roomy.toFormatted
  obtain ⟨disk, made, mounted, layout⟩ := format_spec unmounted size roomy
  refine ⟨_, _, made, mounted, rfl, fun disk' run => ?_⟩
  obtain ⟨⟨nodes, volume⟩, kept⟩ := run.volume formatted enough (emptyVolume layout)
  exact ⟨volume.root_used formatted, kept, fun path inStep unset =>
    volume.root_freed_iff formatted enough inStep unset⟩

/-- A directory and a file in it are made and removed again: the root directory is kept, but then the
next `hf_rmdir` of a missing directory frees it. -/
theorem root_permanent_again : ∃ formatted mounted disk,
    hfMkfs 128 ⟨⟨8, 128⟩, fun _ => zeroBlock, none⟩ = (0, formatted) ∧ hfMount formatted = (0, mounted) ∧
      (BlkInfo.volume ⟨8, 128⟩).tidily 8 mounted.disk [.node (.mkdir (.of [47, 100])),
        .node (.create (.of [47, 100, 47, 97])), .node (.unlink (.of [47, 100, 47, 97])),
        .node (.rmdir (.of [47, 100, 47, 46]))] = some disk ∧
      (BlkInfo.volume ⟨8, 128⟩).follower disk 2 ≠ uhfsFreeblk ∧ disk 0 = formatted.disk 0 ∧
      ∀ unset, ∃ result disk',
        (BlkInfo.volume ⟨8, 128⟩).hfRmdirWith unset 8 disk fileA = .ok (result, disk') ∧
          (BlkInfo.volume ⟨8, 128⟩).follower disk' 2 = uhfsFreeblk := by
  have one := eightBlocks_oneRegion
  obtain ⟨formatted, mounted, made, isMounted, _, keeps⟩ := root_permanent
    (show (⟨⟨8, 128⟩, fun _ => zeroBlock, none⟩ : Device).ptr = none from rfl)
    (show (128 : UInt32).toNat = (128 : UInt16).toNat by decide) one.roomy
    (show (BlkInfo.volume ⟨8, 128⟩).nBlocks ≤ 8 by decide)
  obtain ⟨disk, nodes, done, passed, run, volume⟩ := tidily_eightBlocks
    [.node (.mkdir (.of [47, 100])), .node (.create (.of [47, 100, 47, 97])),
      .node (.unlink (.of [47, 100, 47, 97])), .node (.rmdir (.of [47, 100, 47, 46]))]
    (fun disk => ChainFrom (BlkInfo.volume ⟨8, 128⟩) disk 2 [2] ∧ AllFree (BlkInfo.volume ⟨8, 128⟩) disk [2])
    made isMounted (by decide +kernel)
  obtain ⟨isChain, free⟩ := of_decide_eq_true passed
  obtain ⟨used, kept, removes⟩ := keeps disk run
  have inStep := volume.inStep_path one.roomy.toFormatted one.region fileA
  refine ⟨formatted, mounted, disk, made, isMounted, done, used, kept, fun unset => ?_⟩
  obtain ⟨result, disk', removed, freed⟩ := removes fileA inStep unset
  exact ⟨result, disk', removed, freed.mpr ⟨by decide, [2], isChain, free⟩⟩

/-- `hf_rmdir` of a missing directory frees the root directory of a new volume. -/
theorem rmdir_frees_root : ∃ formatted mounted,
    hfMkfs 128 ⟨⟨8, 128⟩, fun _ => zeroBlock, none⟩ = (0, formatted) ∧ hfMount formatted = (0, mounted) ∧
      mounted.ptr = some (BlkInfo.volume ⟨8, 128⟩) ∧
      ∀ unset, ∃ disk, (BlkInfo.volume ⟨8, 128⟩).hfRmdirWith unset 8 mounted.disk fileA = .ok (0, disk) ∧
        (BlkInfo.volume ⟨8, 128⟩).follower disk 2 = uhfsFreeblk := by
  have one := eightBlocks_oneRegion
  have region : (BlkInfo.volume ⟨8, 128⟩).OneRegion := one.region
  have formatted := one.roomy.toFormatted
  obtain ⟨disk, made, mounted, layout⟩ := format_eightBlocks
  have volume := emptyVolume layout
  obtain ⟨root, isRoot, top, isDir, head⟩ := layout.root
  have removes : RemovesRoot (BlkInfo.volume ⟨8, 128⟩) disk fileA := by
    refine ⟨by decide,
      (volume.emptyFrom_iff formatted isRoot isDir head).mpr fun node member other below => ?_⟩
    obtain rfl := List.mem_singleton.mp member
    exact (List.append_ne_nil_of_right_ne_nil _ (List.cons_ne_nil _ _)).symm below
  refine ⟨_, _, made, mounted, rfl, fun unset => ?_⟩
  exact volume.root_freed formatted (by decide) (volume.inStep_path formatted region fileA) removes unset

end Hellfire

import Hellfire.UhfsRegions
import Hellfire.UhfsFailure

/-!
The creations that succeed on a volume with any number of storage regions keep the chains of its
directories and files, wherever the lookups of their paths have gone.
-/

namespace Hellfire

open ByteMemory Chains Machine

open FsSuperblock (Scan Search)

variable {sb : FsSuperblock} {disk disk' : Disk} {dirs files : List (List Nat)} {fuel : Nat}

section Search

/-- What a cluster map block of another region says about a block is the end of a directory or a block
of some directory. -/
theorem Flat.next_mem (flat : Flat sb disk dirs files) (formatted : sb.Formatted) {chainBlk block : Nat}
    (isMap : sb.IsMap chainBlk) (data : sb.IsData block)
    (more : ¬Ended sb (cmbData (disk chainBlk) (sb.mapIndex block))) :
    ∃ chain ∈ dirs, cmbData (disk chainBlk) (sb.mapIndex block) ∈ chain := by
  obtain ⟨_, low, high, _⟩ := data.place formatted
  by_cases inside : chainBlk + sb.mapIndex block < sb.nBlocks
  · obtain ⟨isData, place, index⟩ := isMap.place formatted low high inside
    have isFollower : cmbData (disk chainBlk) (sb.mapIndex block) =
        sb.follower disk (chainBlk + sb.mapIndex block) := by
      rw [FsSuperblock.follower, place, index]
    rw [isFollower] at more ⊢
    by_cases held : chainBlk + sb.mapIndex block ∈ (dirs ++ files).flatten
    · obtain ⟨chain, isChain, inChain⟩ := List.mem_flatten.mp held
      obtain ⟨before, rest, rfl⟩ := List.append_of_mem inChain
      have leads := (flat.owned.linked _ isChain).next_eq
      cases rest with
      | nil =>
          rw [leads] at more
          exact absurd (Or.inr rfl) more
      | cons next rest =>
          rw [leads]
          rcases List.mem_append.mp isChain with isDir | isFile
          · exact ⟨_, isDir, by simp⟩
          · obtain ⟨only, single⟩ := flat.single _ isFile
            have length := congrArg List.length single
            simp only [List.length_append, List.length_cons, List.length_nil] at length
            omega
    · rw [flat.owned.spare _ isData held] at more
      exact absurd (ended_end formatted (by decide)) more
  · rw [flat.fixed chainBlk isMap _ low high (by omega)] at more
    exact absurd (ended_end formatted (by decide)) more

theorem Flat.scan_mem (flat : Flat sb disk dirs files) (formatted : sb.Formatted) {name : Name}
    (fuel : Nat) : ∀ {chainBlk first found chain block i}, sb.IsMap chainBlk → chain ∈ dirs →
      first ∈ chain → sb.scan disk name fuel chainBlk first = .ok found → found.hit = some (block, i) →
      FirstHolds sb disk name block i ∧ (∃ own ∈ dirs, block ∈ own) ∧ sb.IsMap found.chainBlk := by
  induction fuel with
  | zero => exact fun _ _ _ scanned => by cases scanned
  | succ fuel ih =>
      intro chainBlk first found chain block i isMap member inChain scanned isHit
      obtain ⟨j, _, holds⟩ | ⟨_, lacks⟩ := find_holds sb disk name first
      · rw [scan_hit holds] at scanned
        rw [← Except.ok.inj scanned] at isHit ⊢
        obtain ⟨rfl, rfl⟩ := Prod.mk.inj (Option.some.inj isHit)
        exact ⟨holds, ⟨chain, member, inChain⟩, isMap⟩
      · obtain ⟨_, _, none⟩ | ⟨more, later, behind, rfl⟩ := scan_miss_cases lacks scanned
        · rw [none] at isHit
          cases isHit
        · obtain ⟨own, isOwn, inOwn⟩ := flat.next_mem formatted isMap ((flat.mem member).2.1 _ inChain) more
          have isMap' := (((flat.mem isOwn).2.1 _ inOwn).place formatted).1
          exact @ih _ _ later own block i isMap' isOwn inOwn behind isHit

theorem Flat.search_mem (flat : Flat sb disk dirs files) (formatted : sb.Formatted) (tokens : List Name) :
    ∀ {chainBlk first pblock ppath search chain}, sb.IsMap chainBlk → chain ∈ dirs →
      chain.head? = some first → sb.searchFrom fuel disk tokens chainBlk first pblock ppath = .ok search →
      search.result = 0 → ∃ own ∈ dirs, own.head? = some search.lblock ∧
        ∃ name ∈ tokens, search.lpath = some name := by
  induction tokens with
  | nil =>
      intro chainBlk first pblock ppath search chain _ _ _ done zero
      rw [← Except.ok.inj done] at zero
      cases zero
  | cons name rest ih =>
      intro chainBlk first pblock ppath search chain isMap member head done zero
      obtain ⟨found, scanned, searched⟩ := searchFrom_cases done
      cases searched with
      | missing => exact ⟨chain, member, head, name, List.mem_cons_self, rfl⟩
      | file => cases zero
      | entered isHit isDir more =>
          obtain ⟨holds, ⟨own, isOwn, inOwn⟩, isMap'⟩ :=
            flat.scan_mem formatted fuel isMap member (List.mem_of_mem_head? head) scanned isHit
          obtain ⟨inside, live, _⟩ := holds.holds
          obtain ⟨child, isChild, childHead⟩ := flat.listed own isOwn _ inOwn _ inside live isDir
          obtain ⟨last, isLast, lastHead, token, inRest, lpath⟩ := ih isMap' isChild childHead more zero
          exact ⟨last, isLast, lastHead, token, List.mem_cons_of_mem _ inRest, lpath⟩

end Search

section Changes

theorem fixed_setFollower (formatted : sb.Formatted) {block value k i : Nat} (data : sb.IsData block)
    (small : value < 4294967296) (behind : sb.nBlocks ≤ k + i) :
    cmbData (sb.setFollower disk block value k) i = cmbData (disk k) i := by
  obtain ⟨_, _, _, place⟩ := data.place formatted
  have inside := data.2.1
  unfold FsSuperblock.setFollower
  by_cases same : k = sb.mapBlock block
  · rw [same, writeBlock_same, cmbData_setCmbData _ small, if_neg (by omega)]
  · rw [writeBlock_other _ _ same]

theorem fixed_allocate (formatted : sb.Formatted) {block k i : Nat} {contents : Memory}
    (data : sb.IsData block) (isMap : sb.IsMap k) (behind : sb.nBlocks ≤ k + i) :
    cmbData (sb.allocate disk block contents k) i = cmbData (disk k) i := by
  rw [FsSuperblock.allocate, writeBlock_other _ _ (data.ne_map isMap).symm,
    fixed_setFollower formatted data (by decide) behind]

theorem Flat.used (flat : Flat sb disk dirs files) (formatted : sb.Formatted) {chain : List Nat}
    (member : chain ∈ dirs) {block : Nat} (inside : block ∈ chain) :
    sb.follower disk block ≠ uhfsFreeblk := by
  refine flat.owned.used (by decide) (FsSuperblock.not_isData_of_ge ?_)
    (List.mem_flatten_of_mem (List.mem_append_left _ member) inside)
  have small := formatted.nBlocks_small
  unfold uhfsFreeblk
  omega

theorem Flat.outside (flat : Flat sb disk dirs files) (formatted : sb.Formatted) {k : Nat}
    (isFree : sb.follower disk k = uhfsFreeblk) : k ∉ (dirs ++ files).flatten := by
  intro member
  refine flat.owned.used (by decide) (FsSuperblock.not_isData_of_ge ?_) member isFree
  have small := formatted.nBlocks_small
  unfold uhfsFreeblk
  omega

theorem Flat.insert (flat : Flat sb disk dirs files) (formatted : sb.Formatted) {chain : List Nat}
    {block i k : Nat} (member : chain ∈ dirs) (inChain : block ∈ chain)
    (isData : sb.IsData k) (isFree : sb.follower disk k = uhfsFreeblk) {name : Name}
    (short : ShortName name) {attributes : UInt8} {fresh : Memory} (isFresh : Fresh sb attributes fresh) :
    ∃ dirs' files', Flat sb (writeBlock (sb.allocate disk k fresh) block
      (setEntry (sb.allocate disk k fresh block) i name attributes k)) dirs' files' := by
  have blockData := (flat.mem member).2.1 block inChain
  have apart : block ≠ k := by
    rintro rfl
    exact flat.used formatted member inChain isFree
  have entered := entered_setEntry (i := i) formatted flat.mapped isData blockData apart short
    attributes fresh
  obtain ⟨disk', isDisk'⟩ : ∃ disk', disk' = writeBlock (sb.allocate disk k fresh) block
      (setEntry (sb.allocate disk k fresh block) i name attributes k) := ⟨_, rfl⟩
  rw [← isDisk'] at entered ⊢
  have fixed : ∀ place, sb.IsMap place → ∀ j, 1 ≤ j → j < sb.mapEntries → sb.nBlocks ≤ place + j →
      cmbData (disk' place) j = uhfsFixdblk := by
    intro place isMap j low high behind
    rw [isDisk', writeBlock_other _ _ (blockData.ne_map isMap).symm,
      fixed_allocate formatted isData isMap behind, flat.fixed place isMap j low high behind]
  have owned := (flat.owned.add isData (flat.outside formatted isFree)).congr entered.followers
  have old : ∀ own ∈ dirs, ∀ place ∈ own, ∀ j, (place ≠ block ∨ j ≠ i) →
      slotAt disk' place j = slotAt disk place j := by
    intro own isOwn place inOwn j other
    refine entered.same place j ((flat.mem isOwn).2.1 place inOwn) ?_ other
    rintro rfl
    exact flat.used formatted isOwn inOwn isFree
  by_cases directory : attributes &&& uhfsAttrdir ≠ 0
  · refine ⟨[k] :: dirs, files, entered.mapped, fixed, owned, ?_, ?_, flat.single⟩
    · obtain ⟨root, isRoot, head⟩ := flat.root
      exact ⟨root, List.mem_cons_of_mem _ isRoot, head⟩
    · intro own isOwn place inOwn j inside live isDirectory
      rcases List.mem_cons.mp isOwn with rfl | oldOwn
      · obtain rfl := List.mem_singleton.mp inOwn
        have empty : (slotAt disk' place j).isFree = true := by
          rw [isDisk', slotAt_writeBlock_other _ apart.symm, isFresh.clean directory]
          exact slotAt_allocate_clean formatted inside
        rw [slotAt_isFree, empty] at live
        cases live
      · by_cases here : place = block ∧ j = i
        · refine ⟨[k], List.mem_cons_self, ?_⟩
          rw [here.1, here.2]
          exact congrArg (fun slot : Slot => some slot.first) entered.written.symm
        · have slot := old own oldOwn place inOwn j (by tauto)
          have slotDir : (slotAt disk place j).isDirectory = true := slot ▸ isDirectory
          have slotLive : (slotAt disk place j).isFree = false := slot ▸ live
          obtain ⟨child, isChild, head⟩ := flat.listed own oldOwn place inOwn j inside slotLive slotDir
          refine ⟨child, List.mem_cons_of_mem _ isChild, head.trans ?_⟩
          exact congrArg (fun slot : Slot => some slot.first) slot.symm
  · refine ⟨dirs, [k] :: files, entered.mapped, fixed, owned.perm List.perm_middle.symm, flat.root, ?_, ?_⟩
    · intro own isOwn place inOwn j inside live isDirectory
      by_cases here : place = block ∧ j = i
      · have isDir : (slotAt disk' block i).isDirectory = true := by
          rw [here.1, here.2] at isDirectory
          exact isDirectory
        rw [entered.written] at isDir
        exact absurd (by simpa [Slot.isDirectory] using isDir) directory
      · have slot := old own isOwn place inOwn j (by tauto)
        have slotDir : (slotAt disk place j).isDirectory = true := slot ▸ isDirectory
        have slotLive : (slotAt disk place j).isFree = false := slot ▸ live
        obtain ⟨child, isChild, head⟩ := flat.listed own isOwn place inOwn j inside slotLive slotDir
        exact ⟨child, isChild, head.trans (congrArg (fun slot : Slot => some slot.first) slot.symm)⟩
    · exact List.forall_mem_cons.mpr ⟨⟨k, rfl⟩, flat.single⟩

theorem Flat.extend (flat : Flat sb disk dirs files) (formatted : sb.Formatted) {before : List Nat}
    {tail k : Nat} (member : before ++ [tail] ∈ dirs) (isData : sb.IsData k)
    (isFree : sb.follower disk k = uhfsFreeblk) :
    ∃ dirs', before ++ [tail] ++ [k] ∈ dirs' ∧ Flat sb (sb.lengthen disk tail k) dirs' files := by
  have tailData := (flat.mem member).2.1 tail (by simp)
  have split := List.perm_cons_erase member
  have isFirst : (before ++ [tail] ++ [k]) ∈
      (before ++ [tail] ++ [k]) :: dirs.erase (before ++ [tail]) := List.mem_cons_self
  -- every old chain is still there, with the same first block
  have kept : ∀ own ∈ dirs, ∃ own' ∈ (before ++ [tail] ++ [k]) :: dirs.erase (before ++ [tail]),
      own'.head? = own.head? := by
    intro own isOwn
    rcases List.mem_cons.mp (split.mem_iff.mp isOwn) with rfl | other
    · refine ⟨_, isFirst, List.head?_append_of_ne_nil _ ?_⟩
      exact List.append_ne_nil_of_right_ne_nil _ (List.cons_ne_nil _ _)
    · exact ⟨own, List.mem_cons_of_mem _ other, rfl⟩
  refine ⟨_, isFirst, ?_, ?_, ?_, ?_, ?_, flat.single⟩
  · exact mapped_lengthen formatted flat.mapped tailData isData
  · intro place isMap j low high behind
    rw [FsSuperblock.lengthen, fixed_setFollower formatted tailData (isData.small formatted) behind,
      fixed_allocate formatted isData isMap behind, flat.fixed place isMap j low high behind]
  · have added := flat.owned.add isData (flat.outside formatted isFree)
    have turned : ([k] :: (dirs ++ files)).Perm
        ((before ++ [tail]) :: [k] :: (dirs.erase (before ++ [tail]) ++ files)) :=
      ((split.append_right files).cons [k]).trans (List.Perm.swap _ _ _)
    exact ((added.perm turned).extend).congr fun place placeData =>
      follower_lengthen formatted tailData isData placeData
  · obtain ⟨root, isRoot, head⟩ := flat.root
    obtain ⟨own, isOwn, same⟩ := kept root isRoot
    exact ⟨own, isOwn, same.trans head⟩
  · intro own isOwn place inOwn j inside live isDirectory
    have old : ∃ chain ∈ dirs, place ∈ chain ∨ place = k := by
      rcases List.mem_cons.mp isOwn with rfl | other
      · rcases List.mem_append.mp inOwn with inOld | isNew
        · exact ⟨_, member, Or.inl inOld⟩
        · exact ⟨_, member, Or.inr (List.mem_singleton.mp isNew)⟩
      · exact ⟨own, List.mem_of_mem_erase other, Or.inl inOwn⟩
    obtain ⟨chain, isChain, inChain | isNew⟩ := old
    · have notK : place ≠ k := by
        rintro rfl
        exact flat.used formatted isChain inChain isFree
      rw [lengthen_other formatted tailData isData ((flat.mem isChain).2.1 place inChain) notK] at live isDirectory ⊢
      obtain ⟨child, isChild, head⟩ := flat.listed chain isChain place inChain j inside live isDirectory
      obtain ⟨child', isChild', same⟩ := kept child isChild
      exact ⟨child', isChild', same.trans head⟩
    · rw [isNew, lengthen_same formatted tailData isData, emptyDirectory_isFree formatted inside] at live
      cases live

theorem Flat.addEntry (formatted : sb.Formatted) (enough : sb.nBlocks ≤ fuel) {attributes : UInt8}
    {fresh : Memory} (isFresh : Fresh sb attributes fresh) {name : Name} (short : ShortName name)
    {result : Int} (rounds : Nat) : ∀ disk dirs before block after, Flat sb disk dirs files →
      before ++ block :: after ∈ dirs → sb.addEntry attributes fresh name fuel rounds disk
        (sb.mapBlock block) block = .ok (result, disk') →
      ∃ dirs' files', Flat sb disk' dirs' files' := by
  induction rounds with
  | zero => exact fun _ _ _ _ _ _ _ done => by cases done
  | succ rounds ih =>
      intro disk dirs before block after flat member done
      obtain ⟨i, found, inside, _⟩ | ⟨found, full⟩ := find_isFree sb disk block
      · rw [FsSuperblock.addEntry, found] at done
        simp only [bind, Except.bind] at done
        obtain ⟨k, isData, isFree, got⟩ | ⟨_, got⟩ :=
          FsSuperblock.getfreeblock_spec formatted flat.mapped enough
        · rw [got] at done
          simp only [if_neg isData.ne_zero] at done
          rw [← (Prod.mk.inj (Except.ok.inj done)).2]
          exact flat.insert formatted member (by simp) isData isFree short isFresh
        · rw [got] at done
          rw [← (Prod.mk.inj (Except.ok.inj done)).2]
          exact ⟨dirs, files, flat⟩
      · rw [FsSuperblock.addEntry, found] at done
        simp only [bind, Except.bind] at done
        have leads : cmbData (disk (sb.mapBlock block)) (sb.mapIndex block) = after.head?.getD uhfsEochblk :=
          (flat.mem member).1.next_eq
        rw [leads] at done
        cases after with
        | nil =>
            simp only [List.head?_nil, Option.getD_none, ne_eq, not_true_eq_false, if_false] at done
            obtain ⟨k, isData, isFree, got⟩ | ⟨_, got⟩ :=
              FsSuperblock.getfreeblock_spec formatted flat.mapped enough
            · rw [got] at done
              simp only [if_neg isData.ne_zero] at done
              obtain ⟨dirs', member', flat'⟩ := flat.extend formatted member isData isFree
              exact ih _ dirs' (before ++ [block]) k [] flat' member' done
            · rw [got] at done
              rw [← (Prod.mk.inj (Except.ok.inj done)).2]
              exact ⟨dirs, files, flat⟩
        | cons next after =>
            have nextData := (flat.mem member).2.1 next (by simp)
            have notEnd : next ≠ uhfsEochblk := fun same =>
              not_ended_of_data formatted nextData (Or.inr same)
            simp only [List.head?_cons, Option.getD_some, ne_eq, notEnd, not_false_eq_true, if_true] at done
            have member' : (before ++ [block]) ++ next :: after ∈ dirs := by simpa using member
            exact ih disk dirs (before ++ [block]) next after flat member' done

theorem Flat.perform (flat : Flat sb disk dirs files) (formatted : sb.Formatted)
    (enough : sb.nBlocks ≤ fuel) {op : UhfsOp} (creates : op.Creates) (short : op.path.Short)
    {result : Int} (done : sb.perform fuel disk op = .ok (result, disk')) :
    ∃ dirs' files', Flat sb disk' dirs' files' := by
  have inserted : ∀ attributes fresh, Fresh sb attributes fresh → ∀ path : CString, path.Short →
      sb.insert attributes fresh fuel disk path = .ok (result, disk') →
      ∃ dirs' files', Flat sb disk' dirs' files' := by
    intro attributes fresh isFresh path short done
    rw [FsSuperblock.insert] at done
    obtain ⟨found, search, done⟩ := ok_of_bind done
    by_cases zero : found.result = 0
    · obtain ⟨root, isRoot, head⟩ := flat.root
      have isMap : sb.IsMap sb.firstCmb := by
        have blocks := formatted.blocks
        rw [formatted.cmb]
        exact ⟨le_rfl, by omega, Nat.zero_mod _⟩
      obtain ⟨own, isOwn, ownHead, name, member, lpath⟩ :=
        flat.search_mem formatted path.tokens isMap isRoot head search zero
      obtain ⟨after, rfl⟩ := List.head?_eq_some_iff.mp ownHead
      rw [if_neg (not_not.mpr zero), lpath, Option.getD_some] at done
      exact Flat.addEntry formatted enough isFresh (short.names name member) fuel disk dirs []
        found.lblock after flat isOwn done
    · rw [if_pos zero] at done
      rw [← (Prod.mk.inj (Except.ok.inj done)).2]
      exact ⟨dirs, files, flat⟩
  obtain ⟨path, rfl | rfl⟩ := creates
  · exact inserted _ _ mkdir_fresh path short done
  · exact inserted _ _ create_fresh path short done

end Changes

theorem Written.flat {before after : Disk} (written : Written sb 1 before after) (roomy : Roomy sb) :
    Flat sb (sb.setFollower (writeBlock after 2 sb.emptyDirectory) 2 uhfsEochblk) [[2]] [] := by
  have formatted := roomy.toFormatted
  have root := formatted.root_isData
  have layout := written.layout roomy
  refine ⟨layout.mapped, ?_, layout.owned, ⟨[2], List.mem_singleton_self _, ?_⟩, ?_, ?_⟩
  · intro k isMap i low high behind
    rw [fixed_setFollower formatted root (by decide) behind, writeBlock_other _ _ (root.ne_map isMap).symm,
      written.maps k isMap.1 isMap, (regionMap_spec roomy isMap).2 i low high, if_neg (by omega)]
  · rw [formatted.root]
    rfl
  · intro chain member block inChain i inside live
    obtain rfl := List.mem_singleton.mp member
    have entry : Entry sb (sb.setFollower (writeBlock after 2 sb.emptyDirectory) 2 uhfsEochblk)
        ⟨[], true, [2]⟩ block i := ⟨inChain, inside, live⟩
    obtain ⟨child, isChild, leads⟩ := layout.listed _ (List.mem_singleton_self _) rfl block i entry
    obtain rfl := List.mem_singleton.mp isChild
    exact absurd leads.path.symm (List.append_ne_nil_of_right_ne_nil _ (List.cons_ne_nil _ _))
  · exact fun chain member => absurd member List.not_mem_nil

inductive Device.Built (fuel : Nat) : Device → Device → Prop
  | start {device} : Built fuel device device
  | call {first device next op} : Built fuel first device → op.Creates → op.path.Short →
      device.perform fuel op = .ok (0, next) → Built fuel first next

theorem Device.Built.of_runs {ops : List UhfsOp} (creates : ∀ op ∈ ops, op.Creates)
    (short : ∀ op ∈ ops, op.path.Short) {fuel : Nat} {first device later : Device}
    (built : Device.Built fuel first device)
    (ran : device.runs fuel ops = .ok (List.replicate ops.length 0, later)) :
    Device.Built fuel first later := by
  induction ops generalizing device with
  | nil =>
      obtain rfl := (Prod.mk.inj (Except.ok.inj ran)).2
      exact built
  | cons op rest ih =>
      obtain ⟨⟨result, next⟩, performed, ran⟩ := ok_of_bind ran
      obtain ⟨⟨results, last⟩, others, ran⟩ := ok_of_bind ran
      obtain ⟨all, rfl⟩ := Prod.mk.inj (Except.ok.inj ran)
      obtain ⟨rfl, rfl⟩ := List.cons.inj all
      obtain ⟨create, creates⟩ := List.forall_mem_cons.mp creates
      obtain ⟨plain, short⟩ := List.forall_mem_cons.mp short
      exact ih creates short (built.call create plain performed) others

theorem Device.Built.flat (formatted : sb.Formatted) (enough : sb.nBlocks ≤ fuel) {first device : Device}
    (built : Device.Built fuel first device) (mounted : first.ptr = some sb)
    (start : Flat sb first.disk dirs files) :
    device.ptr = some sb ∧ ∃ dirs' files', Flat sb device.disk dirs' files' := by
  induction built with
  | start => exact ⟨mounted, dirs, files, start⟩
  | @call device next op _ creates short performed ih =>
      obtain ⟨stillMounted, dirs', files', flat⟩ := ih
      rw [Device.perform_eq stillMounted] at performed
      cases done : sb.perform fuel device.disk op with
      | error fault =>
          rw [done] at performed
          cases performed
      | ok returned =>
          obtain ⟨result, disk'⟩ := returned
          rw [done] at performed
          obtain ⟨dirs'', files'', flat'⟩ := flat.perform formatted enough creates short done
          rw [← (Prod.mk.inj (Except.ok.inj performed)).2]
          exact ⟨stillMounted, dirs'', files'', flat'⟩

/-- On a new volume with any number of storage regions, and after any creations, a lookup visits the
chains of the directories on its path exactly if the cluster map blocks that it uses agree. -/
theorem lookup_follows_iff {device : Device} {blkSize : UInt32} (unmounted : device.ptr = none)
    (size : blkSize.toNat = device.info.bytesSector.toNat) (roomy : Roomy device.info.volume) {fuel : Nat}
    (enough : device.info.volume.nBlocks ≤ fuel) :
    ∃ formatted mounted, hfMkfs blkSize device = (0, formatted) ∧ hfMount formatted = (0, mounted) ∧
      ∀ later, Device.Built fuel mounted later → ∀ path : CString,
        (∃ search, device.info.volume.searchdirectory fuel later.disk path = .ok search ∧
          Follows device.info.volume later.disk device.info.volume.rootDirBlock path.tokens search) ↔
        InStep device.info.volume later.disk device.info.volume.firstCmb
          device.info.volume.rootDirBlock path.tokens := by
  have formatted := roomy.toFormatted
  obtain ⟨disk, before, after, made, mounted, written, rfl⟩ := format_written unmounted size roomy
  refine ⟨_, _, made, mounted, fun later built path => ?_⟩
  obtain ⟨_, dirs, files, flat⟩ := built.flat formatted enough rfl (written.flat roomy)
  exact flat.follows_iff formatted enough path

def crossing : List UhfsOp :=
  (List.range 21).map (fun i => .create (.of [47, UInt8.ofNat (65 + i)])) ++
    [.mkdir (.of [47, 100]), .create (.of [47, 100, 47, 65]), .create (.of [47, 100, 47, 66]),
      .create (.of [47, 100, 47, 67])]

/-- The first file of the directory `/d` is found in its first block, behind the root directory in the
other region. -/
theorem lookup_follows_crossing : ∃ (device : Device) (search : Search),
    (hfMount (hfMkfs 128 ⟨⟨60, 128⟩, fun _ => zeroBlock, none⟩).2).2.runs 60 (crossing.take 23) =
        .ok (List.replicate 23 0, device) ∧
      (BlkInfo.volume ⟨60, 128⟩).searchdirectory 60 device.disk (.of [47, 100, 47, 65]) = .ok search ∧
      search.result = 1 ∧ search.visits = [[2, 5, 8, 11, 14, 17, 20, 23, 26, 29, 32], [35]] ∧
      Follows (BlkInfo.volume ⟨60, 128⟩) device.disk 2 [[100], [65]] search := by
  have blocks : (BlkInfo.volume ⟨60, 128⟩).nBlocks = 60 := by decide
  have entries : (BlkInfo.volume ⟨60, 128⟩).mapEntries = 32 := by decide
  have bytes : (BlkInfo.volume ⟨60, 128⟩).blockSize = 128 := by decide
  have roomy : Roomy (BlkInfo.volume ⟨60, 128⟩) :=
    { size := ⟨7, by decide, by decide, bytes⟩, blocks := by decide, bytes := by decide, cmb := rfl,
      root := rfl,
      room := fun k isMap => by
        have inside := isMap.2.1
        rw [blocks] at inside
        rw [entries, bytes]
        omega }
  have checked : passes ((hfMount (hfMkfs 128 ⟨⟨60, 128⟩, fun _ => zeroBlock, none⟩).2).2.runs 60
        (crossing.take 23)) (fun run =>
      passes ((BlkInfo.volume ⟨60, 128⟩).searchdirectory 60 run.2.disk (.of [47, 100, 47, 65])) fun search =>
        run.1 = List.replicate 23 0 && search.result = 1 &&
          search.visits = [[2, 5, 8, 11, 14, 17, 20, 23, 26, 29, 32], [35]] &&
          ChainFrom (BlkInfo.volume ⟨60, 128⟩) run.2.disk 2 ([2, 5, 8, 11, 14, 17, 20, 23, 26, 29] ++ [32]) &&
          Lacks (BlkInfo.volume ⟨60, 128⟩) run.2.disk [100] [2, 5, 8, 11, 14, 17, 20, 23, 26, 29] &&
          FirstHolds (BlkInfo.volume ⟨60, 128⟩) run.2.disk [100] 32 1 && isDirectory (run.2.disk 32) 1 &&
          firstBlock (run.2.disk 32) 1 = 35 && ChainFrom (BlkInfo.volume ⟨60, 128⟩) run.2.disk 35 ([] ++ [35]) &&
          FirstHolds (BlkInfo.volume ⟨60, 128⟩) run.2.disk [65] 35 0 && !isDirectory (run.2.disk 35) 0 &&
          cmbData (run.2.disk 1) ((BlkInfo.volume ⟨60, 128⟩).mapIndex 2) =
            (BlkInfo.volume ⟨60, 128⟩).follower run.2.disk 2) = true := by
    decide +kernel
  obtain ⟨⟨results, device⟩, ran, checked⟩ := ok_of_passes checked
  obtain ⟨search, done, checked⟩ := ok_of_passes checked
  simp only [Bool.and_eq_true, decide_eq_true_eq, Bool.not_eq_true'] at checked
  obtain ⟨⟨⟨⟨⟨⟨⟨⟨⟨⟨⟨rfl, one⟩, visits⟩, root⟩, lacks⟩, holds⟩, isDir⟩, first⟩, chain⟩, file⟩, notDir⟩, agrees⟩ :=
    checked
  obtain ⟨formatted, mounted, made, isMounted, lookup⟩ := lookup_follows_iff
    (show (⟨⟨60, 128⟩, fun _ => zeroBlock, none⟩ : Device).ptr = none from rfl)
    (show (128 : UInt32).toNat = (128 : UInt16).toNat by decide) roomy (show _ ≤ 60 by decide)
  rw [made] at ran
  simp only [isMounted] at ran
  have built := Device.Built.of_runs (by decide) (by decide) .start ran
  have inStep : InStep (BlkInfo.volume ⟨60, 128⟩) device.disk 1 2 [[100], [65]] := by
    refine .enter root lacks holds isDir (fun _ => Or.inl agrees) ?_
    rw [first]
    exact .file chain (fun _ member => absurd member List.not_mem_nil) file notDir fun some => absurd rfl some
  obtain ⟨found, again, follows⟩ := (lookup device built (.of [47, 100, 47, 65])).mpr inStep
  obtain rfl := Except.ok.inj (done.symm.trans again)
  exact ⟨device, search, by rw [made, isMounted]; exact ran, done, one, visits, follows⟩

/-- The last file of `crossing` is created, and then not found. -/
theorem lookup_misses : ∃ (device : Device) (search : Search),
    (hfMount (hfMkfs 128 ⟨⟨60, 128⟩, fun _ => zeroBlock, none⟩).2).2.runs 60 crossing =
        .ok (List.replicate 25 0, device) ∧
      (BlkInfo.volume ⟨60, 128⟩).searchdirectory 60 device.disk (.of [47, 100, 47, 67]) = .ok search ∧
      search.result = 0 ∧
      ¬Follows (BlkInfo.volume ⟨60, 128⟩) device.disk 2 [[100], [67]] search := by
  have checked : passes ((hfMount (hfMkfs 128 ⟨⟨60, 128⟩, fun _ => zeroBlock, none⟩).2).2.runs 60 crossing)
      (fun run =>
        passes ((BlkInfo.volume ⟨60, 128⟩).searchdirectory 60 run.2.disk (.of [47, 100, 47, 67]))
          fun search => run.1 = List.replicate 25 0 && search.result = 0 &&
            search.visits = [[2, 5, 8, 11, 14, 17, 20, 23, 26, 29, 32], [35]] &&
            (BlkInfo.volume ⟨60, 128⟩).follower run.2.disk 35 = 38) = true := by
    decide +kernel
  obtain ⟨⟨results, device⟩, ran, checked⟩ := ok_of_passes checked
  obtain ⟨search, done, checked⟩ := ok_of_passes checked
  simp only [Bool.and_eq_true, decide_eq_true_eq] at checked
  obtain ⟨⟨⟨rfl, zero⟩, visits⟩, follower⟩ := checked
  refine ⟨device, search, ran, done, zero, fun follows => ?_⟩
  cases follows with
  | missing _ _ all _ => simp [visits] at all
  | file _ _ _ _ all _ => simp [visits] at all
  | enter _ _ _ _ later all result =>
      rw [visits] at all
      have rest := (List.cons.inj all).2
      rw [zero] at result
      cases later with
      | missing isChain _ all _ =>
          rw [all] at rest
          rw [← (List.cons.inj rest).1] at isChain
          have ends := isChain.linked.head_next
          rw [follower] at ends
          exact absurd ends (by decide)
      | file _ _ _ _ _ one =>
          rw [one] at result
          cases result
      | enter _ _ _ _ last _ same =>
          cases last with
          | whole _ failed =>
              rw [failed] at same
              rw [same] at result
              cases result

end Hellfire

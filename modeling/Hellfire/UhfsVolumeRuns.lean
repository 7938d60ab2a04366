import Hellfire.UhfsLookups

/-!
The calls that change a mounted volume, one after the other. As long as each of them is in order, the
directories and files stay a tree, and no call writes to the super block.
-/

namespace Hellfire

open ByteMemory Chains

inductive VolumeOp
  | node (op : UhfsOp)
  | rename (path newname : CString)
  | chmod (path : CString) (mode : UInt8)

def VolumeOp.path : VolumeOp → CString
  | node op => op.path
  | rename path _ => path
  | chmod path _ => path

def FsSuperblock.serve (sb : FsSuperblock) (fuel : Nat) (disk : Disk) :
    VolumeOp → Except UhfsFault (Int × Disk)
  | .node op => sb.perform fuel disk op
  | .rename path newname => sb.hfRename fuel disk path newname
  | .chmod path mode => sb.hfChmod fuel disk path mode

/-- A name for the entry of a file: no other entry in use of the directory has it, and none before it
in its block, be it in use or not. -/
structure NewName (sb : FsSuperblock) (disk : Disk) (dir block i : Nat) (name : Name) : Prop where
  fits : name.length ≤ 38
  unused : ∀ chain, ChainFrom sb disk dir chain → ∀ place ∈ chain, ∀ j, (place ≠ block ∨ j ≠ i) →
    ¬Holds sb disk name place j
  before : ∀ j < i, holdsString (disk block) (filename j) name = false

/-- The path of `hf_rmdir` has one component, and the root directory is empty. -/
def RemovesRoot (sb : FsSuperblock) (disk : Disk) (path : CString) : Prop :=
  path.tokens.length = 1 ∧ EmptyFrom sb disk sb.rootDirBlock

/-- The call reads the cluster map blocks of the directories on its path, the names that it writes fit
and are new, its mode leaves the bits of a directory and of a free entry, and it does not remove the
root directory. -/
structure Orderly (sb : FsSuperblock) (disk : Disk) (op : VolumeOp) : Prop where
  inStep : InStep sb disk sb.firstCmb sb.rootDirBlock op.path.tokens
  fits : ∀ path, op = .node (.mkdir path) ∨ op = .node (.create path) →
    ∀ above name, path.tokens = above ++ [name] → name.length ≤ 38
  keepsRoot : ∀ path, op = .node (.rmdir path) → ¬RemovesRoot sb disk path
  newName : ∀ path newname, op = .rename path newname → ∀ above rest dir block i,
    path.tokens = above ++ rest → Names sb disk sb.rootDirBlock above dir block i →
    isDirectory (disk block) i = false → NewName sb disk dir block i newname.bytes
  mode : ∀ path mode, op = .chmod path mode → mode &&& 0x81 = 0

inductive OrderlyRun (sb : FsSuperblock) (fuel : Nat) : Disk → Disk → Prop
  | start {disk} : OrderlyRun sb fuel disk disk
  | call {first disk op result disk'} : OrderlyRun sb fuel first disk → Orderly sb disk op →
      sb.serve fuel disk op = .ok (result, disk') → OrderlyRun sb fuel first disk'

variable {sb : FsSuperblock} {disk : Disk} {nodes : List Node} {fuel : Nat} {path : CString}

theorem CString.token_ended (path : CString) : ∀ name ∈ path.tokens, 0 ∉ name :=
  fun _ member zero => path.ended (mem_tokensFrom member zero)

section Files

inductive FileSearch (sb : FsSuperblock) (disk : Disk) (nodes : List Node) (tokens : List Name)
    (search : FsSuperblock.Search) : Prop
  | file {dir child i name rest} : Held sb disk nodes dir child search.pblock i name →
      child.isDir = false → tokens = child.path ++ rest → search.result = 1 →
      search.ppath = some name → sb.findEntry (disk search.pblock) name = some i →
      FileSearch sb disk nodes tokens search
  | other : NoFile nodes tokens → search.result ≠ 1 → FileSearch sb disk nodes tokens search

theorem Volume.search_file (volume : Volume sb disk nodes) (formatted : sb.Formatted)
    (enough : sb.nBlocks ≤ fuel) (inStep : InStep sb disk sb.firstCmb sb.rootDirBlock path.tokens) :
    ∃ search, sb.searchdirectory fuel disk path = .ok search ∧
      FileSearch sb disk nodes path.tokens search := by
  obtain ⟨root, search, _, top, found, located⟩ := searchdirectory_inStep volume formatted enough inStep
  refine ⟨search, found, ?_⟩
  by_cases isOne : search.result = 1
  · obtain ⟨dir, child, i, name, rest, whole, held, _, isFile, _, kept⟩ := located.file_of_one top isOne
    have entry := findEntry_spec volume.layout held.isNode held.isDir held.entry (volume.held_short held)
      held.named
    exact .file held isFile whole isOne kept entry
  · exact .other (volume.search_noFile formatted enough inStep found isOne) isOne

inductive EntryChanged (sb : FsSuperblock) (disk : Disk) (nodes : List Node) (tokens : List Name)
    (change : Memory → Nat → Memory) : Int → Disk → Prop
  | changed {dir child block i name rest} : Held sb disk nodes dir child block i name →
      child.isDir = false → tokens = child.path ++ rest →
      EntryChanged sb disk nodes tokens change 0 (writeBlock disk block (change (disk block) i))
  | refused : NoFile nodes tokens → EntryChanged sb disk nodes tokens change (-1) disk

theorem Volume.changeEntry (volume : Volume sb disk nodes) (formatted : sb.Formatted)
    (enough : sb.nBlocks ≤ fuel) (inStep : InStep sb disk sb.firstCmb sb.rootDirBlock path.tokens)
    (change : Memory → Nat → Memory) :
    ∃ result disk', sb.changeEntry change fuel disk path = .ok (result, disk') ∧
      EntryChanged sb disk nodes path.tokens change result disk' := by
  obtain ⟨search, found, isFile⟩ := volume.search_file formatted enough inStep
  rw [FsSuperblock.changeEntry, found]
  simp only [bind, Except.bind]
  cases isFile with
  | file held isFile whole isOne ppath entry =>
      rw [if_neg (not_not.mpr isOne), ppath, Option.getD_some, entry]
      exact ⟨0, _, rfl, .changed held isFile whole⟩
  | other none notOne =>
      rw [if_pos notOne]
      exact ⟨-1, disk, rfl, .refused none⟩

theorem Volume.rename (volume : Volume sb disk nodes) (formatted : sb.Formatted) {dir child : Node}
    {block i first : Nat} {name new : Name} (held : Held sb disk nodes dir child block i name)
    (isFile : child.isDir = false) (head : dir.chain.head? = some first) (ended : 0 ∉ new)
    (isNew : NewName sb disk first block i new) :
    Volume sb (writeBlock disk block (setName (disk block) i new))
      (nodes.map (Node.rename child.path (dir.path ++ [new]))) := by
  have layout := volume.layout
  have short : ShortName new := ⟨ended, isNew.fits⟩
  have data := layout.data held.isNode held.entry.held
  constructor
  · refine layout.rename held isFile (renamed_setName formatted layout.mapped data short) ?_ ?_
    · intro place j entry apart named
      refine isNew.unused dir.chain (volume.chainFrom formatted held.isNode head) place entry.held j apart ?_
      exact (volume.holds_iff held.isNode held.isDir entry.held ended j).mpr ⟨entry, named⟩
    · intro j less named
      have other := isNew.before j less
      rw [(holdsString_slot short).mpr named] at other
      cases other
  · intro node member part inPath
    obtain ⟨old, isOld, rfl⟩ := List.mem_map.mp member
    by_cases here : old.path = child.path
    · rw [Node.rename_same here] at inPath
      rcases List.mem_append.mp inPath with above | last
      · exact volume.short dir held.isNode part above
      · rw [List.mem_singleton.mp last]
        exact short
    · rw [Node.rename_other here] at inPath
      exact volume.short old isOld part inPath

end Files

section Superblock

theorem setFollower_zero (sb : FsSuperblock) (disk : Disk) (block value : Nat) :
    sb.setFollower disk block value 0 = disk 0 := by
  refine writeBlock_other _ _ ?_
  unfold FsSuperblock.mapBlock
  exact Ne.symm (Nat.succ_ne_zero _)

theorem freeBlocks_zero {disk' : Disk} (fuel : Nat) : ∀ {disk block},
    sb.freeBlocks fuel disk (sb.mapBlock block) block = .ok disk' → disk' 0 = disk 0 := by
  induction fuel with
  | zero => exact fun done => by cases done
  | succ fuel ih =>
      intro disk block done
      rw [FsSuperblock.freeBlocks] at done
      split at done
      · rw [← Except.ok.inj done]
        exact setFollower_zero sb disk block uhfsFreeblk
      · rw [ih done]
        exact setFollower_zero sb disk block uhfsFreeblk

theorem freeEntry_zero {block : Nat} (data : sb.IsData block) (name : Name) :
    sb.freeEntry disk block name 0 = disk 0 := by
  rw [FsSuperblock.freeEntry]
  cases sb.findEntry (disk block) name with
  | none => rfl
  | some i => exact writeBlock_other _ _ data.ne_zero.symm

theorem allocate_zero {k : Nat} (isData : sb.IsData k) (contents : Memory) :
    sb.allocate disk k contents 0 = disk 0 := by
  rw [FsSuperblock.allocate, writeBlock_other _ _ isData.ne_zero.symm, setFollower_zero]

theorem addEntry_zero (formatted : sb.Formatted) (enough : sb.nBlocks ≤ fuel) {attributes : UInt8}
    {fresh : Memory} {name : Name} {result : Int} {disk' : Disk} (rounds : Nat) :
    ∀ disk block rest, sb.Mapped disk → Linked (sb.follower disk) uhfsEochblk (block :: rest) →
      (∀ place ∈ block :: rest, sb.IsData place) →
      sb.addEntry attributes fresh name fuel rounds disk (sb.mapBlock block) block = .ok (result, disk') →
      disk' 0 = disk 0 := by
  induction rounds with
  | zero => exact fun _ _ _ _ _ _ done => by cases done
  | succ rounds ih =>
      intro disk block rest mapped linked data done
      have blockData := data block List.mem_cons_self
      rw [FsSuperblock.addEntry] at done
      simp only at done
      split at done
      · obtain ⟨k, isData, _, got⟩ | ⟨_, got⟩ := FsSuperblock.getfreeblock_spec formatted mapped enough
        · rw [got] at done
          simp only [bind, Except.bind, if_neg isData.ne_zero] at done
          rw [← (Prod.mk.inj (Except.ok.inj done)).2, writeBlock_other _ _ blockData.ne_zero.symm]
          exact allocate_zero isData fresh
        · rw [got] at done
          rw [← (Prod.mk.inj (Except.ok.inj done)).2]
      · split at done
        · cases rest with
          | nil =>
              rename_i more
              exact absurd linked.head_next more
          | cons next rest =>
              rw [show cmbData (disk (sb.mapBlock block)) (sb.mapIndex block) = next from
                linked.head_next] at done
              exact ih disk next rest mapped linked.rest
                (fun place member => data place (List.mem_cons_of_mem _ member)) done
        · obtain ⟨k, isData, free, got⟩ | ⟨_, got⟩ := FsSuperblock.getfreeblock_spec formatted mapped enough
          · rename_i ends
            have isEnd : sb.follower disk block = uhfsEochblk := not_not.mp ends
            have apart : k ≠ block := by
              rintro rfl
              rw [isEnd] at free
              exact absurd free (by decide)
            rw [got] at done
            simp only [bind, Except.bind, if_neg isData.ne_zero] at done
            -- the search goes on in the new block, which is the last one of the directory
            have single : Linked (sb.follower (sb.lengthen disk block k)) uhfsEochblk [k] := by
              refine .single ?_
              rw [follower_lengthen formatted blockData isData isData, Function.update_of_ne apart,
                Function.update_self]
            rw [ih (sb.lengthen disk block k) k [] (mapped_lengthen formatted mapped blockData isData) single
              (by simpa using isData) done, FsSuperblock.lengthen, setFollower_zero]
            exact allocate_zero isData sb.emptyDirectory
          · rw [got] at done
            rw [← (Prod.mk.inj (Except.ok.inj done)).2]

end Superblock

section Steps

theorem Volume.created (volume : Volume sb disk nodes) {dir : Node} {name : Name} {isDir : Bool}
    {result : Int} {nodes' : List Node} (isNode : dir ∈ nodes) (short : ShortName name)
    (created : Created sb disk nodes dir name isDir result nodes') :
    ∀ node ∈ nodes', ∀ part ∈ node.path, ShortName part := by
  have grown : ∀ k, ∀ node ∈ nodes.map (Node.grow dir.path k), ∀ part ∈ node.path, ShortName part := by
    intro k node member
    obtain ⟨old, isOld, rfl⟩ := List.mem_map.mp member
    rw [Node.grow_path]
    exact volume.short old isOld
  have fresh : ∀ part ∈ dir.path ++ [name], ShortName part := by
    intro part member
    rcases List.mem_append.mp member with above | last
    · exact volume.short dir isNode part above
    · rw [List.mem_singleton.mp last]
      exact short
  cases created with
  | noBlock _ => exact volume.short
  | placed _ _ _ => exact List.forall_mem_cons.mpr ⟨fresh, volume.short⟩
  | extended _ _ _ _ => exact grown _
  | grown _ _ _ _ _ _ => exact List.forall_mem_cons.mpr ⟨fresh, grown _⟩

theorem Volume.filter (volume : Volume sb disk nodes) {disk' : Disk} {keep : Node → Bool}
    (layout : Layout sb disk' (nodes.filter keep)) : Volume sb disk' (nodes.filter keep) :=
  ⟨layout, fun node member => volume.short node (List.mem_of_mem_filter member)⟩

theorem Volume.insert (volume : Volume sb disk nodes) (formatted : sb.Formatted) (enough : sb.nBlocks ≤ fuel)
    (inStep : InStep sb disk sb.firstCmb sb.rootDirBlock path.tokens)
    (fits : ∀ above name, path.tokens = above ++ [name] → name.length ≤ 38) {attributes : UInt8}
    {fresh : Memory} (isFresh : Fresh sb attributes fresh) :
    ∃ result disk' nodes', sb.insert attributes fresh fuel disk path = .ok (result, disk') ∧
      Volume sb disk' nodes' ∧ disk' 0 = disk 0 := by
  obtain ⟨root, search, _, top, found, located⟩ := searchdirectory_inStep volume formatted enough inStep
  have short : ∀ above name, path.tokens = above ++ [name] → ShortName name := fun above name tokens =>
    ⟨path.token_ended name (by simp [tokens]), fits above name tokens⟩
  obtain ⟨result, disk', nodes', done, layout, inserted⟩ :=
    insert_located formatted volume.layout enough short top found located isFresh
  refine ⟨result, disk', nodes', done, ⟨layout, ?_⟩, ?_⟩
  · cases inserted with
    | tried tokens isNode isDir _ created => exact volume.created isNode (short _ _ tokens) created
    | refused _ _ => exact volume.short
  · rw [FsSuperblock.insert, found] at done
    simp only [bind, Except.bind] at done
    split at done
    · rw [← (Prod.mk.inj (Except.ok.inj done)).2]
    · rename_i zero
      obtain ⟨parent, _, _, isParent, _, _, head, _⟩ := located.vacant_of_zero top (not_not.mp zero)
      obtain ⟨rest, chain⟩ := List.head?_eq_some_iff.mp head
      have linked := (volume.layout.chain_mem isParent).2
      have data : ∀ block ∈ parent.chain, sb.IsData block := fun block => volume.layout.data isParent
      rw [chain] at linked data
      exact addEntry_zero formatted enough fuel disk search.lblock rest volume.layout.mapped linked data
        done

theorem Volume.hfUnlink (volume : Volume sb disk nodes) (formatted : sb.Formatted)
    (enough : sb.nBlocks ≤ fuel) (inStep : InStep sb disk sb.firstCmb sb.rootDirBlock path.tokens) :
    ∃ result disk' nodes', sb.hfUnlink fuel disk path = .ok (result, disk') ∧
      Volume sb disk' nodes' ∧ UnlinkedAt sb disk nodes path.tokens result disk' nodes' ∧
      disk' 0 = disk 0 := by
  obtain ⟨root, search, _, top, found, located⟩ := searchdirectory_inStep volume formatted enough inStep
  obtain ⟨result, disk', nodes', done, layout, unlinked⟩ := hfUnlink_located formatted volume.layout enough
    (fun _ _ _ _ _ held _ => volume.held_short held) top found located
  refine ⟨result, disk', nodes', done, ?_, unlinked, ?_⟩
  · cases unlinked with
    | removed _ _ _ _ => exact volume.filter layout
    | refused _ _ => exact volume
  · rw [FsSuperblock.hfUnlink, found] at done
    simp only [bind, Except.bind] at done
    split at done
    · rw [← (Prod.mk.inj (Except.ok.inj done)).2]
    · rename_i one
      obtain ⟨_, _, _, _, _, _, held, _⟩ := located.file_of_one top (not_not.mp one)
      split at done
      · cases done
      · rename_i freed
        rw [← (Prod.mk.inj (Except.ok.inj done)).2, freeBlocks_zero fuel freed]
        exact freeEntry_zero (volume.layout.data held.isNode held.entry.held) _

theorem Volume.hfRmdir (volume : Volume sb disk nodes) (formatted : sb.Formatted)
    (enough : sb.nBlocks ≤ fuel) (inStep : InStep sb disk sb.firstCmb sb.rootDirBlock path.tokens)
    (keepsRoot : ¬RemovesRoot sb disk path) :
    ∃ result disk' nodes', sb.hfRmdir fuel disk path = .ok (result, disk') ∧
      Volume sb disk' nodes' ∧ PrunedAt sb disk nodes path.tokens result disk' nodes' ∧
      disk' 0 = disk 0 := by
  obtain ⟨root, search, isRoot, top, found, located⟩ := searchdirectory_inStep volume formatted enough inStep
  obtain ⟨base, isBase, baseTop, baseDir, head⟩ := volume.layout.root
  obtain rfl := volume.layout.same_path isBase isRoot (baseTop.trans top.symm)
  have used : ∀ name, path.tokens = [name] → ∃ child ∈ nodes, ∃ first, child.path = [first] := by
    intro name one
    by_contra none
    refine keepsRoot ⟨by rw [one]; rfl, (volume.emptyFrom_iff formatted isBase baseDir head).mpr ?_⟩
    intro node member other below
    exact none ⟨node, member, other, by rw [below, top, List.nil_append]⟩
  obtain ⟨result, disk', nodes', done, layout, pruned⟩ := hfRmdir_located formatted volume.layout enough
    (fun _ _ _ _ _ held _ => volume.held_short held) top found located used
  refine ⟨result, disk', nodes', done, ?_, pruned, ?_⟩
  · cases pruned with
    | removed _ _ _ _ _ _ => exact volume.filter layout
    | full _ _ _ _ _ _ => exact volume
    | refused _ _ => exact volume
  · rw [FsSuperblock.hfRmdir, found] at done
    simp only [bind, Except.bind] at done
    by_cases zero : search.result = 0
    · rw [if_neg (not_not.mpr zero)] at done
      split at done
      · cases done
      · split at done
        · rw [← (Prod.mk.inj (Except.ok.inj done)).2]
        · obtain ⟨_, _, _, _, _, _, _, _, origin⟩ := located.vacant_of_zero top zero
          rcases origin with ⟨_, none⟩ | ⟨dir, i, last, held, _, some⟩
          · rw [none] at done
            cases done
          · rw [some] at done
            simp only at done
            split at done
            · cases done
            · rename_i freed
              rw [← (Prod.mk.inj (Except.ok.inj done)).2, freeBlocks_zero fuel freed]
              exact freeEntry_zero (volume.layout.data held.isNode held.entry.held) last
    · rw [if_pos zero] at done
      rw [← (Prod.mk.inj (Except.ok.inj done)).2]

theorem Volume.serve (volume : Volume sb disk nodes) (formatted : sb.Formatted) (enough : sb.nBlocks ≤ fuel)
    {op : VolumeOp} (orderly : Orderly sb disk op) :
    ∃ result disk' nodes', sb.serve fuel disk op = .ok (result, disk') ∧ Volume sb disk' nodes' ∧
      disk' 0 = disk 0 := by
  have inStep := orderly.inStep
  cases op with
  | node op =>
      cases op with
      | mkdir path =>
          exact volume.insert formatted enough inStep (orderly.fits path (Or.inl rfl)) mkdir_fresh
      | create path =>
          exact volume.insert formatted enough inStep (orderly.fits path (Or.inr rfl)) create_fresh
      | unlink path =>
          obtain ⟨result, disk', nodes', done, volume', _, same⟩ := volume.hfUnlink formatted enough inStep
          exact ⟨result, disk', nodes', done, volume', same⟩
      | rmdir path =>
          obtain ⟨result, disk', nodes', done, volume', _, same⟩ :=
            volume.hfRmdir formatted enough inStep (orderly.keepsRoot path rfl)
          exact ⟨result, disk', nodes', done, volume', same⟩
  | rename path newname =>
      obtain ⟨result, disk', done, changed⟩ := volume.changeEntry formatted enough inStep
        fun block i => setName block i newname.bytes
      cases changed with
      | @changed dir child block i name rest held isFile whole =>
          obtain ⟨first, behind, chain⟩ := List.exists_cons_of_ne_nil (volume.layout.chain_ne_nil held.isNode)
          have head : dir.chain.head? = some first := by rw [chain]; rfl
          have names : Names sb disk sb.rootDirBlock child.path first block i := by
            refine (volume.names_iff formatted ?_).mpr ⟨dir, child, name, held, rfl, head⟩
            exact fun part member => (volume.short child held.isChild part member).ended
          have isNew := orderly.newName path newname rfl child.path rest first block i whole names
            (held.first_eq.2.symm.trans isFile)
          refine ⟨0, _, _, done, volume.rename formatted held isFile head newname.ended isNew, ?_⟩
          exact writeBlock_other _ _ (volume.layout.data held.isNode held.entry.held).ne_zero.symm
      | refused _ => exact ⟨-1, disk, nodes, done, volume, rfl⟩
  | chmod path mode =>
      obtain ⟨result, disk', done, changed⟩ := volume.changeEntry formatted enough inStep
        fun block i => setAttributes block i (FsSuperblock.changeMode (attributes block i) mode)
      cases changed with
      | @changed dir child block i name rest held isFile whole =>
          have data := volume.layout.data held.isNode held.entry.held
          refine ⟨0, _, nodes, done, ⟨?_, volume.short⟩, writeBlock_other _ _ data.ne_zero.symm⟩
          exact volume.layout.chmod formatted data (orderly.mode path mode rfl)
      | refused _ => exact ⟨-1, disk, nodes, done, volume, rfl⟩

theorem OrderlyRun.volume {disk' : Disk} (run : OrderlyRun sb fuel disk disk') (formatted : sb.Formatted)
    (enough : sb.nBlocks ≤ fuel) (start : Volume sb disk nodes) :
    (∃ nodes', Volume sb disk' nodes') ∧ disk' 0 = disk 0 := by
  induction run with
  | start => exact ⟨⟨nodes, start⟩, rfl⟩
  | call _ orderly performed ih =>
      obtain ⟨⟨nodes₁, volume⟩, kept⟩ := ih
      obtain ⟨result, disk', nodes₂, done, volume', same⟩ := volume.serve formatted enough orderly
      obtain ⟨_, rfl⟩ := Prod.mk.inj (Except.ok.inj (performed.symm.trans done))
      exact ⟨⟨nodes₂, volume'⟩, same.trans kept⟩

theorem emptyVolume (layout : Layout sb disk emptyNodes) : Volume sb disk emptyNodes := by
  refine ⟨layout, fun node member name inPath => ?_⟩
  obtain rfl := List.mem_singleton.mp member
  cases inPath

end Steps

section Tidy

/-- A test for calls that are in order on a volume with one storage region. A file that gets another
name is in the root directory, which has one block. -/
def FsSuperblock.tidy (sb : FsSuperblock) (disk : Disk) : VolumeOp → Bool
  | .node (.mkdir path) | .node (.create path) => path.tokens.all fun name => name.length ≤ 38
  | .node (.unlink _) => true
  | .node (.rmdir path) => path.tokens.length ≠ 1
  | .rename path newname =>
      path.tokens.length = 1 && newname.bytes.length ≤ 38 &&
        sb.follower disk sb.rootDirBlock = uhfsEochblk &&
        (List.range sb.dirEntries).all fun j =>
          !holdsString (disk sb.rootDirBlock) (filename j) newname.bytes
  | .chmod _ mode => mode &&& 0x81 = 0

/-- The disk after calls that pass the test and return 0. -/
def FsSuperblock.tidily (sb : FsSuperblock) (fuel : Nat) : Disk → List VolumeOp → Option Disk
  | disk, [] => some disk
  | disk, op :: rest =>
      match sb.serve fuel disk op with
      | .ok (result, next) => if sb.tidy disk op && result = 0 then tidily sb fuel next rest else none
      | .error _ => none

theorem newName_of_tidy (formatted : sb.Formatted) {newname : CString}
    (tidy : sb.tidy disk (.rename path newname) = true) {above rest : List Name} {dir block i : Nat}
    (split : path.tokens = above ++ rest)
    (names : Names sb disk sb.rootDirBlock above dir block i) :
    NewName sb disk dir block i newname.bytes := by
  simp only [FsSuperblock.tidy, Bool.and_eq_true, decide_eq_true_eq, List.all_eq_true, List.mem_range,
    Bool.not_eq_true'] at tidy
  obtain ⟨⟨⟨one, short⟩, ends⟩, lacks⟩ := tidy
  rw [split, List.length_append] at one
  have isChain : ChainFrom sb disk sb.rootDirBlock [sb.rootDirBlock] :=
    ⟨rfl, .single ends, by rw [formatted.root]; decide⟩
  cases names with
  | @last _ name before _ after _ isOwn _ first =>
      have inside : block ∈ [sb.rootDirBlock] := by
        rw [isChain.unique isOwn]
        simp
      obtain rfl := List.mem_singleton.mp inside
      refine ⟨short, ?_, fun j less => lacks j (less.trans first.holds.1)⟩
      intro chain isOther place member j _ holds
      rw [← isChain.unique isOther, List.mem_singleton] at member
      rw [member] at holds
      exact absurd holds.2.2 (by rw [lacks j holds.1]; decide)
  | enter _ _ _ _ below =>
      have positive := List.length_pos_of_ne_nil below.ne_nil
      rw [List.length_cons] at one
      omega

theorem Volume.orderly_of_tidy (volume : Volume sb disk nodes) (formatted : sb.Formatted)
    (one : sb.OneRegion) {op : VolumeOp} (tidy : sb.tidy disk op = true) : Orderly sb disk op := by
  refine ⟨volume.inStep_path formatted one op.path, ?_, ?_, ?_, ?_⟩
  · intro path creates above name tokens
    have fits : path.tokens.all (fun name => name.length ≤ 38) = true := by
      rcases creates with rfl | rfl
      · exact tidy
      · exact tidy
    rw [tokens, List.all_eq_true] at fits
    exact of_decide_eq_true (fits name (by simp))
  · rintro path rfl ⟨single, _⟩
    exact of_decide_eq_true tidy single
  · rintro path newname rfl above rest dir block i split names _
    exact newName_of_tidy formatted tidy split names
  · rintro path mode rfl
    exact of_decide_eq_true tidy

theorem Volume.run_tidily {first disk' : Disk} (formatted : sb.Formatted) (enough : sb.nBlocks ≤ fuel)
    (one : sb.OneRegion) (ops : List VolumeOp) : ∀ disk nodes, Volume sb disk nodes →
      OrderlyRun sb fuel first disk → sb.tidily fuel disk ops = some disk' →
      OrderlyRun sb fuel first disk' := by
  induction ops with
  | nil =>
      intro disk nodes _ run done
      rw [← Option.some.inj done]
      exact run
  | cons op rest ih =>
      intro disk nodes volume run done
      rw [FsSuperblock.tidily] at done
      split at done
      · rename_i result next served
        split at done
        · rename_i both
          have orderly := volume.orderly_of_tidy formatted one (Bool.and_eq_true_iff.mp both).1
          obtain ⟨_, _, nodes', returned, volume', _⟩ := volume.serve formatted enough orderly
          obtain ⟨_, rfl⟩ := Prod.mk.inj (Except.ok.inj (served.symm.trans returned))
          exact ih next nodes' volume' (.call run orderly served) done
        · cases done
      · cases done

theorem OrderlyRun.of_tidily {disk' : Disk} {ops : List VolumeOp} (formatted : sb.Formatted)
    (enough : sb.nBlocks ≤ fuel) (one : sb.OneRegion) (layout : Layout sb disk emptyNodes)
    (done : sb.tidily fuel disk ops = some disk') : OrderlyRun sb fuel disk disk' :=
  Volume.run_tidily formatted enough one ops disk emptyNodes (emptyVolume layout) .start done

def CString.of (bytes : List UInt8) : CString where
  bytes := bytes.filter fun byte => byte ≠ 0
  ended := by simp

def fileA : CString := ⟨[47, 97], by decide⟩

def fileB : CString := ⟨[47, 98], by decide⟩

/-- Calls on a new volume of eight blocks that pass the test, and a property of the disk behind them. -/
theorem tidily_eightBlocks {formatted mounted : Device} (ops : List VolumeOp) (test : Disk → Bool)
    (made : hfMkfs 128 ⟨⟨8, 128⟩, fun _ => zeroBlock, none⟩ = (0, formatted))
    (isMounted : hfMount formatted = (0, mounted))
    (checked : ((BlkInfo.volume ⟨8, 128⟩).tidily 8
      (hfMkfs 128 ⟨⟨8, 128⟩, fun _ => zeroBlock, none⟩).2.disk ops).any test = true) :
    ∃ disk nodes, (BlkInfo.volume ⟨8, 128⟩).tidily 8 mounted.disk ops = some disk ∧ test disk = true ∧
      OrderlyRun (BlkInfo.volume ⟨8, 128⟩) 8 mounted.disk disk ∧
      Volume (BlkInfo.volume ⟨8, 128⟩) disk nodes := by
  have one := eightBlocks_oneRegion
  have enough : (BlkInfo.volume ⟨8, 128⟩).nBlocks ≤ 8 := by decide
  obtain ⟨start, made', mounted', layout⟩ := format_eightBlocks
  obtain rfl := (Prod.mk.inj (made.symm.trans made')).2
  obtain rfl := (Prod.mk.inj (isMounted.symm.trans mounted')).2
  rw [made'] at checked
  obtain ⟨disk, done, passed⟩ := (Option.any_eq_true _ _).mp checked
  have run := OrderlyRun.of_tidily one.roomy.toFormatted enough one.region layout done
  obtain ⟨⟨nodes, volume⟩, _⟩ := run.volume one.roomy.toFormatted enough (emptyVolume layout)
  exact ⟨disk, nodes, done, passed, run, volume⟩

end Tidy

end Hellfire

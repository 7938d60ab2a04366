import Hellfire.UhfsCalls
import Hellfire.UhfsFormat

/-!
Every block of a volume with one storage region is free or belongs to one chain, which leads from
the root directory or from an entry that is in use.
-/

namespace Hellfire

open ByteMemory Chains

inductive Owner
  | root
  | entry (block i : Nat)
deriving DecidableEq

namespace Owner

def first (sb : FsSuperblock) (disk : Disk) : Owner → Nat
  | root => sb.rootDirBlock
  | entry block i => firstBlock (disk block) i

def isDirectory (disk : Disk) : Owner → Bool
  | root => true
  | entry block i => Hellfire.isDirectory (disk block) i

end Owner

structure ChainFrom (sb : FsSuperblock) (disk : Disk) (first : Nat) (chain : List Nat) : Prop where
  head : chain.head? = some first
  linked : Linked (sb.follower disk) uhfsEochblk chain
  inner : uhfsEochblk ∉ chain

instance (sb : FsSuperblock) (disk : Disk) (first : Nat) (chain : List Nat) :
    Decidable (ChainFrom sb disk first chain) :=
  decidable_of_iff (chain.head? = some first ∧ Linked (sb.follower disk) uhfsEochblk chain ∧ uhfsEochblk ∉ chain)
    ⟨fun all => ⟨all.1, all.2.1, all.2.2⟩, fun all => ⟨all.head, all.linked, all.inner⟩⟩

inductive Reachable (sb : FsSuperblock) (disk : Disk) : Owner → Prop
  | root : Reachable sb disk .root
  | entry {owner chain block i} : Reachable sb disk owner → owner.isDirectory disk = true →
      ChainFrom sb disk (owner.first sb disk) chain → block ∈ chain → i < sb.dirEntries →
      isFree (disk block) i = false → Reachable sb disk (.entry block i)

def FsSuperblock.dataBlocks (sb : FsSuperblock) : List Nat :=
  (List.range sb.nBlocks).filter fun block => sb.IsData block

/-- Every owner that is reached has a chain of data blocks in use, no block is in two chains or twice
in one, and `hf_getfree` counts the other data blocks. -/
def OwnsBlocks (sb : FsSuperblock) (fuel : Nat) (disk : Disk) : Prop :=
  ∃ (owners : List Owner) (chain : Owner → List Nat), owners.Nodup ∧
    (∀ owner, owner ∈ owners ↔ Reachable sb disk owner) ∧
    (∀ owner ∈ owners, ChainFrom sb disk (owner.first sb disk) (chain owner)) ∧
    (owners.flatMap chain).Nodup ∧
    (∀ block ∈ owners.flatMap chain, sb.IsData block ∧ sb.follower disk block ≠ uhfsFreeblk ∧
      sb.follower disk block ≠ uhfsFixdblk) ∧
    sb.hfGetfree fuel disk = .ok (sb.dataBlocks.length - (owners.flatMap chain).length)

section Count

variable {sb : FsSuperblock} {disk : Disk} {nodes : List Node} {fuel : Nat}

theorem mem_dataBlocks {block : Nat} : block ∈ sb.dataBlocks ↔ sb.IsData block := by
  simp only [FsSuperblock.dataBlocks, List.mem_filter, List.mem_range, decide_eq_true_eq]
  exact ⟨fun both => both.2, fun data => ⟨data.2.1, data⟩⟩

theorem dataBlocks_nodup : sb.dataBlocks.Nodup := List.nodup_range.filter _

theorem FsSuperblock.OneRegion.dataBlocks_perm (one : sb.OneRegion) (formatted : sb.Formatted) :
    sb.dataBlocks.Perm (List.range' 2 (sb.nBlocks - 2)) := by
  rw [List.perm_ext_iff_of_nodup dataBlocks_nodup List.nodup_range']
  intro block
  have blocks := formatted.blocks
  rw [mem_dataBlocks, List.mem_range'_1]
  constructor
  · rintro ⟨low, high, _⟩
    omega
  · rintro ⟨low, high⟩
    refine ⟨low, by omega, ?_⟩
    unfold FsSuperblock.OneRegion at one
    rw [Nat.mod_eq_of_lt (by omega)]
    omega

theorem hfGetfree_spec (formatted : sb.Formatted) (one : sb.OneRegion) (mapped : sb.Mapped disk)
    (enough : 0 < fuel) : sb.hfGetfree fuel disk =
      .ok (sb.dataBlocks.countP fun block => sb.follower disk block = uhfsFreeblk) := by
  obtain ⟨fuel, rfl⟩ := Nat.exists_eq_succ_of_ne_zero (Nat.ne_of_gt enough)
  have blocks := formatted.blocks
  have bounds := formatted.mapEntries_bounds
  have isMap : sb.IsMap 1 := ⟨le_rfl, by omega, Nat.zero_mod _⟩
  have last := mapped.heads 1 isMap
  have fits := one
  unfold FsSuperblock.OneRegion at fits
  rw [if_neg (by omega)] at last
  rw [FsSuperblock.hfGetfree, FsSuperblock.hfGetfreeFrom, formatted.cmb, last]
  simp only [if_true, Nat.zero_add]
  congr 1
  -- the places of the map up to the end of the volume, and those behind it
  have split : List.range' 1 (sb.mapEntries - 1) =
      List.range' 1 (sb.nBlocks - 2) ++ List.range' (sb.nBlocks - 1) (sb.mapEntries + 1 - sb.nBlocks) := by
    rw [show sb.nBlocks - 1 = 1 + (sb.nBlocks - 2) by omega, List.range'_append_1]
    congr 1
    omega
  have behind : (List.range' (sb.nBlocks - 1) (sb.mapEntries + 1 - sb.nBlocks)).countP
      (fun k => cmbData (disk 1) k = uhfsFreeblk) = 0 := by
    rw [List.countP_eq_zero]
    intro k member
    rw [List.mem_range'_1] at member
    rw [decide_eq_true_eq]
    exact mapped.outside 1 isMap k (by omega) (by omega) (by omega)
  have shift : List.range' 2 (sb.nBlocks - 2) = (List.range' 1 (sb.nBlocks - 2)).map (1 + ·) := by
    rw [List.map_add_range']
  rw [split, List.countP_append, behind, (one.dataBlocks_perm formatted).countP_eq, shift,
    List.countP_map]
  apply List.countP_congr
  intro k member
  rw [List.mem_range'_1] at member
  obtain ⟨_, place, index⟩ := isMap.place formatted (i := k) (by omega) (by omega) (by omega)
  simp only [Function.comp_apply, decide_eq_true_eq, FsSuperblock.follower, place, index]

theorem Layout.count (layout : Layout sb disk nodes) (formatted : sb.Formatted) :
    (sb.dataBlocks.countP fun block => sb.follower disk block = uhfsFreeblk) +
      (nodes.map Node.chain).flatten.length = sb.dataBlocks.length := by
  refine layout.owned.count (by decide) (FsSuperblock.not_isData_of_ge ?_) dataBlocks_nodup
    fun block => mem_dataBlocks
  have small := formatted.nBlocks_small
  unfold uhfsFreeblk
  omega

end Count

inductive Owns (sb : FsSuperblock) (disk : Disk) (nodes : List Node) : Node → Owner → Prop
  | root {node} : node.path = [] → Owns sb disk nodes node .root
  | entry {dir child block i} : dir ∈ nodes → dir.isDir = true → Entry sb disk dir block i →
      Leads dir (slotAt disk block i) child → Owns sb disk nodes child (.entry block i)

section Owners

variable {sb : FsSuperblock} {disk : Disk} {nodes : List Node} {node : Node} {owner : Owner}

theorem Layout.exists_owner (layout : Layout sb disk nodes) (isNode : node ∈ nodes) :
    ∃ owner, Owns sb disk nodes node owner := by
  by_cases top : node.path = []
  · exact ⟨.root, .root top⟩
  · have parts := List.dropLast_append_getLast top
    obtain ⟨dir, isDir, samePath, _⟩ := layout.placed node isNode _ _ parts.symm
    rw [← samePath] at parts
    obtain ⟨isDirectory, block, i, entry, _, leads⟩ := layout.entry_of isDir isNode parts.symm
    exact ⟨.entry block i, .entry isDir isDirectory entry leads⟩

theorem Owns.same_node (layout : Layout sb disk nodes) {other : Node} (isNode : node ∈ nodes)
    (isOther : other ∈ nodes) (owns : Owns sb disk nodes node owner)
    (owns' : Owns sb disk nodes other owner) : node = other := by
  cases owns with
  | root top =>
      cases owns' with
      | root top' => exact layout.same_path isNode isOther (top.trans top'.symm)
  | entry isDir isDirectory entry leads =>
      cases owns' with
      | entry isDir' _ entry' leads' =>
          obtain rfl := layout.same_node isDir isDir' entry.held entry'.held
          exact layout.same_path isNode isOther (leads.path.trans leads'.path.symm)

theorem Owns.same_owner (layout : Layout sb disk nodes) {other : Owner}
    (owns : Owns sb disk nodes node owner) (owns' : Owns sb disk nodes node other) : owner = other := by
  cases owns with
  | root top =>
      cases owns' with
      | root _ => rfl
      | entry _ _ _ leads =>
          rw [leads.path] at top
          exact absurd top (List.append_ne_nil_of_right_ne_nil _ (List.cons_ne_nil _ _))
  | entry isDir isDirectory entry leads =>
      cases owns' with
      | root top =>
          rw [leads.path] at top
          exact absurd top (List.append_ne_nil_of_right_ne_nil _ (List.cons_ne_nil _ _))
      | entry isDir' _ entry' leads' =>
          obtain ⟨dirs, names⟩ := List.append_inj' (leads.path.symm.trans leads'.path) rfl
          obtain rfl := layout.same_path isDir isDir' dirs
          obtain ⟨rfl, rfl⟩ := layout.single _ isDir isDirectory _ _ _ _ entry entry'
            (List.singleton_inj.mp names)
          rfl

theorem Owns.isDirectory_eq (owns : Owns sb disk nodes node owner) (layout : Layout sb disk nodes)
    (isNode : node ∈ nodes) : owner.isDirectory disk = node.isDir := by
  cases owns with
  | root top =>
      obtain ⟨root, isRoot, path, isDir, _⟩ := layout.root
      rw [layout.same_path isNode isRoot (top.trans path.symm), isDir]
      rfl
  | entry _ _ _ leads => exact leads.isDir.symm

theorem Owns.chainFrom (owns : Owns sb disk nodes node owner) (formatted : sb.Formatted)
    (layout : Layout sb disk nodes) (isNode : node ∈ nodes) :
    ChainFrom sb disk (owner.first sb disk) node.chain := by
  refine ⟨?_, (layout.chain_mem isNode).2, fun member => ?_⟩
  · cases owns with
    | root top =>
        obtain ⟨root, isRoot, path, _, head⟩ := layout.root
        rw [layout.same_path isNode isRoot (top.trans path.symm), head]
        rfl
    | entry _ _ _ leads => exact leads.first
  · have inside := (layout.data isNode member).2.1
    have small := formatted.nBlocks_small
    unfold uhfsEochblk at inside
    omega

theorem ChainFrom.unique {first : Nat} {chain chain' : List Nat} (isChain : ChainFrom sb disk first chain)
    (isChain' : ChainFrom sb disk first chain') : chain = chain' := by
  obtain ⟨rest, rfl⟩ := List.head?_eq_some_iff.mp isChain.head
  obtain ⟨rest', rfl⟩ := List.head?_eq_some_iff.mp isChain'.head
  rw [isChain.linked.unique isChain'.linked (fun member => isChain.inner (List.mem_cons_of_mem _ member))
    fun member => isChain'.inner (List.mem_cons_of_mem _ member)]

theorem Owns.reachable (owns : Owns sb disk nodes node owner) (formatted : sb.Formatted)
    (layout : Layout sb disk nodes) : Reachable sb disk owner := by
  obtain ⟨depth, bound⟩ : ∃ depth, node.path.length ≤ depth := ⟨_, le_rfl⟩
  induction depth generalizing node owner with
  | zero =>
      cases owns with
      | root _ => exact .root
      | entry _ _ _ leads => simp [leads.path] at bound
  | succ depth ih =>
      cases owns with
      | root _ => exact .root
      | @entry dir child block i isDir isDirectory entry leads =>
          obtain ⟨above, aboveOwns⟩ := layout.exists_owner isDir
          have shorter : dir.path.length ≤ depth := by
            rw [leads.path, List.length_append, List.length_singleton] at bound
            omega
          exact .entry (ih aboveOwns shorter) ((aboveOwns.isDirectory_eq layout isDir).trans isDirectory)
            (aboveOwns.chainFrom formatted layout isDir) entry.held entry.inside entry.live

theorem Reachable.owns (reachable : Reachable sb disk owner) (formatted : sb.Formatted)
    (layout : Layout sb disk nodes) : ∃ node ∈ nodes, Owns sb disk nodes node owner := by
  induction reachable with
  | root =>
      obtain ⟨root, isRoot, path, _⟩ := layout.root
      exact ⟨root, isRoot, .root path⟩
  | @entry owner chain block i _ isDirectory isChain inChain inside live ih =>
      obtain ⟨dir, isNode, owns⟩ := ih
      rw [owns.isDirectory_eq layout isNode] at isDirectory
      rw [isChain.unique (owns.chainFrom formatted layout isNode)] at inChain
      have entry : Entry sb disk dir block i := ⟨inChain, inside, live⟩
      obtain ⟨child, isChild, leads⟩ := layout.listed dir isNode isDirectory block i entry
      exact ⟨child, isChild, .entry isNode isDirectory entry leads⟩

theorem Layout.follower_ne_fixed (layout : Layout sb disk nodes) (formatted : sb.Formatted)
    (isNode : node ∈ nodes) {block : Nat} (inChain : block ∈ node.chain) :
    sb.follower disk block ≠ uhfsFixdblk := by
  obtain ⟨before, rest, chain⟩ := List.append_of_mem inChain
  have linked := (layout.chain_mem isNode).2
  rw [chain] at linked
  rw [linked.next_eq]
  cases rest with
  | nil => decide
  | cons next rest =>
      have inside := (layout.data isNode (show next ∈ node.chain by simp [chain])).2.1
      have small := formatted.nBlocks_small
      rw [List.head?_cons, Option.getD_some]
      unfold uhfsFixdblk
      omega

theorem Layout.ownsBlocks (layout : Layout sb disk nodes) (formatted : sb.Formatted)
    (one : sb.OneRegion) {fuel : Nat} (enough : 0 < fuel) : OwnsBlocks sb fuel disk := by
  have exists_owner : ∀ node, ∃ owner, node ∈ nodes → Owns sb disk nodes node owner := by
    intro node
    by_cases isNode : node ∈ nodes
    · obtain ⟨owner, owns⟩ := layout.exists_owner isNode
      exact ⟨owner, fun _ => owns⟩
    · exact ⟨.root, fun isNode' => absurd isNode' isNode⟩
  choose ownerOf isOwner using exists_owner
  have exists_chain : ∀ owner, ∃ chain, ∀ node ∈ nodes, Owns sb disk nodes node owner →
      node.chain = chain := by
    intro owner
    by_cases some : ∃ node ∈ nodes, Owns sb disk nodes node owner
    · obtain ⟨node, isNode, owns⟩ := some
      exact ⟨node.chain, fun other isOther owns' => by rw [owns'.same_node layout isOther isNode owns]⟩
    · exact ⟨[], fun node isNode owns => absurd ⟨node, isNode, owns⟩ some⟩
  choose chainOf isChain using exists_chain
  have blocks : (nodes.map ownerOf).flatMap chainOf = (nodes.map Node.chain).flatten := by
    rw [List.flatMap_map, List.flatMap_def]
    congr 1
    apply List.map_congr_left
    intro node isNode
    exact (isChain _ node isNode (isOwner node isNode)).symm
  refine ⟨nodes.map ownerOf, chainOf, ?_, ?_, ?_, ?_, ?_, ?_⟩
  · have distinct : nodes.Nodup := List.Nodup.of_map _ layout.keys
    refine List.Nodup.map_on (fun node isNode other isOther same => ?_) distinct
    have owns := isOwner node isNode
    rw [same] at owns
    exact owns.same_node layout isNode isOther (isOwner other isOther)
  · intro owner
    constructor
    · intro member
      obtain ⟨node, isNode, rfl⟩ := List.mem_map.mp member
      exact (isOwner node isNode).reachable formatted layout
    · intro reachable
      obtain ⟨node, isNode, owns⟩ := reachable.owns formatted layout
      rw [owns.same_owner layout (isOwner node isNode)]
      exact List.mem_map_of_mem isNode
  · intro owner member
    obtain ⟨node, isNode, rfl⟩ := List.mem_map.mp member
    rw [← isChain _ node isNode (isOwner node isNode)]
    exact (isOwner node isNode).chainFrom formatted layout isNode
  · rw [blocks]
    exact layout.owned.apart
  · rw [blocks]
    intro block member
    obtain ⟨chain, inMap, inChain⟩ := List.mem_flatten.mp member
    obtain ⟨node, isNode, rfl⟩ := List.mem_map.mp inMap
    exact ⟨layout.data isNode inChain, layout.used formatted isNode inChain,
      layout.follower_ne_fixed formatted isNode inChain⟩
  · rw [hfGetfree_spec formatted one layout.mapped enough, blocks]
    congr 1
    have count := layout.count formatted
    omega

end Owners

def UhfsOp.path : UhfsOp → CString
  | mkdir path => path
  | create path => path
  | unlink path => path
  | rmdir path => path

def FsSuperblock.NamesDirectory (sb : FsSuperblock) (disk : Disk) (path : CString) : Prop :=
  ∃ name rest chain block i, path.tokens = name :: rest ∧ ChainFrom sb disk sb.rootDirBlock chain ∧
    block ∈ chain ∧ i < sb.dirEntries ∧ isFree (disk block) i = false ∧
    isDirectory (disk block) i = true ∧ holdsString (disk block) (filename i) name = true

def FsSuperblock.Admits (sb : FsSuperblock) (disk : Disk) (op : UhfsOp) : Prop :=
  op.path.Short ∧ ∀ path, op = .rmdir path → sb.NamesDirectory disk path

inductive Device.Run (fuel : Nat) (sb : FsSuperblock) : Device → Device → Prop
  | start {device} : Run fuel sb device device
  | call {first device next op result} : Run fuel sb first device → sb.Admits device.disk op →
      device.perform fuel op = .ok (result, next) → Run fuel sb first next

section Calls

variable {sb : FsSuperblock} {disk : Disk} {nodes : List Node} {fuel : Nat}

theorem namesDirectory_starts (formatted : sb.Formatted) (layout : Layout sb disk nodes) {path : CString}
    (short : path.Short) (names : sb.NamesDirectory disk path) : StartsInDirectory nodes path.tokens := by
  obtain ⟨name, rest, chain, block, i, tokens, isChain, inChain, inside, live, isDirectory, holds⟩ := names
  obtain ⟨root, isRoot, top, isDir, _⟩ := layout.root
  have rootOwns : Owns sb disk nodes root .root := .root top
  rw [isChain.unique (rootOwns.chainFrom formatted layout isRoot)] at inChain
  obtain ⟨child, isChild, leads⟩ := layout.listed root isRoot isDir block i ⟨inChain, inside, live⟩
  have named := (holdsString_slot (short.names name (by simp [tokens]))).mp holds
  refine ⟨child, isChild, leads.isDir.trans isDirectory, name, rest, tokens, ?_⟩
  rw [leads.path, top, List.nil_append]
  exact congrArg (fun name => [name]) named

theorem mkdir_fresh : Fresh sb (uhfsAttrdir ||| uhfsAttrread ||| uhfsAttrwrite ||| uhfsAttrexec)
    sb.emptyDirectory := ⟨by decide, fun _ => rfl⟩

theorem create_fresh : Fresh sb (uhfsAttrread ||| uhfsAttrwrite) zeroBlock :=
  ⟨by decide, fun isDirectory => absurd (by decide) isDirectory⟩

theorem perform_layout (formatted : sb.Formatted) (one : sb.OneRegion) (layout : Layout sb disk nodes)
    (enough : sb.nBlocks ≤ fuel) {op : UhfsOp} (admits : sb.Admits disk op) :
    ∃ result disk' nodes', sb.perform fuel disk op = .ok (result, disk') ∧ Layout sb disk' nodes' := by
  obtain ⟨short, names⟩ := admits
  cases op with
  | mkdir path =>
      obtain ⟨result, disk', nodes', done, layout', _⟩ :=
        insert_spec formatted one layout enough short mkdir_fresh
      exact ⟨result, disk', nodes', done, layout'⟩
  | create path =>
      obtain ⟨result, disk', nodes', done, layout', _⟩ :=
        insert_spec formatted one layout enough short create_fresh
      exact ⟨result, disk', nodes', done, layout'⟩
  | unlink path =>
      obtain ⟨result, disk', nodes', done, layout', _⟩ := hfUnlink_spec formatted one layout enough short
      exact ⟨result, disk', nodes', done, layout'⟩
  | rmdir path =>
      obtain ⟨result, disk', nodes', done, layout', _⟩ := hfRmdir_spec formatted one layout enough short
        (namesDirectory_starts formatted layout short (names path rfl))
      exact ⟨result, disk', nodes', done, layout'⟩

theorem Device.perform_eq {device : Device} (mounted : device.ptr = some sb) (op : UhfsOp) :
    device.perform fuel op = (sb.perform fuel device.disk op).map fun (result, disk) =>
      (result, { device with disk }) := by
  rw [Device.perform, mounted]

theorem Device.Run.layout (formatted : sb.Formatted) (one : sb.OneRegion) (enough : sb.nBlocks ≤ fuel)
    {first device : Device} (run : Device.Run fuel sb first device) (mounted : first.ptr = some sb)
    (start : Layout sb first.disk nodes) :
    device.ptr = some sb ∧ ∃ nodes', Layout sb device.disk nodes' := by
  induction run with
  | start => exact ⟨mounted, nodes, start⟩
  | call _ admits performed ih =>
      obtain ⟨stillMounted, nodes', layout⟩ := ih
      obtain ⟨result, disk', nodes'', done, layout'⟩ := perform_layout formatted one layout enough admits
      rw [Device.perform_eq stillMounted, done] at performed
      obtain ⟨rfl, rfl⟩ := Prod.mk.inj (Except.ok.inj performed)
      exact ⟨stillMounted, nodes'', layout'⟩

end Calls

/-- Blocks of the size of the device's sectors, a power of two, and one storage region. -/
structure BlkInfo.OneRegion (info : BlkInfo) : Prop where
  power : isPowerOf2 info.bytesSector.toNat = true
  least : 128 ≤ info.bytesSector.toNat
  blocks : 3 ≤ info.volume.nBlocks
  region : info.volume.nBlocks ≤ info.volume.blockSize / 4 + 1

theorem BlkInfo.OneRegion.roomy {info : BlkInfo} (one : info.OneRegion) : Roomy info.volume := by
  obtain ⟨s, low, high, size⟩ := info.exponent one.power one.least
  have region := one.region
  have blockSize : info.volume.blockSize = info.bytesSector.toNat := rfl
  have top : 2 ^ s ≤ 2 ^ 15 := Nat.pow_le_pow_right (by decide) high
  have room : ∀ k, info.volume.IsMap k →
      (k + info.volume.mapEntries) * info.volume.blockSize ≤ 32768 * 32768 := by
    rintro k ⟨_, inside, _⟩
    unfold FsSuperblock.mapEntries
    exact Nat.mul_le_mul (by omega) (by omega)
  have less : info.volume.nBlocks * info.volume.blockSize ≤ 8193 * 32768 :=
    Nat.mul_le_mul (by omega) (by omega)
  exact { size := ⟨s, by omega, high, blockSize.trans size⟩, blocks := one.blocks,
          bytes := by omega, cmb := rfl, root := rfl,
          room := fun k isMap => by have := room k isMap; omega }

/-- On a new volume with one storage region, every call keeps what the blocks belong to, and the next
one returns. -/
theorem blocks_owned {device : Device} {blkSize : UInt32} (unmounted : device.ptr = none)
    (size : blkSize.toNat = device.info.bytesSector.toNat) (one : device.info.OneRegion) {fuel : Nat}
    (enough : device.info.volume.nBlocks ≤ fuel) :
    ∃ formatted mounted, hfMkfs blkSize device = (0, formatted) ∧ hfMount formatted = (0, mounted) ∧
      ∀ later, Device.Run fuel device.info.volume mounted later →
        OwnsBlocks device.info.volume fuel later.disk ∧
        ∀ op, device.info.volume.Admits later.disk op →
          ∃ result next, later.perform fuel op = .ok (result, next) := by
  have roomy := one.roomy
  have formatted := roomy.toFormatted
  have region : device.info.volume.OneRegion := one.region
  obtain ⟨disk, made, mounted, layout⟩ := format_spec unmounted size roomy
  refine ⟨_, _, made, mounted, fun later run => ?_⟩
  obtain ⟨stillMounted, nodes, layout'⟩ := run.layout formatted region enough rfl layout
  have positive : 0 < fuel := by
    have blocks := formatted.blocks
    omega
  refine ⟨layout'.ownsBlocks formatted region positive, fun op admits => ?_⟩
  obtain ⟨result, disk', nodes', done, _⟩ := perform_layout formatted region layout' enough admits
  exact ⟨result, { later with disk := disk' }, by rw [Device.perform_eq stillMounted, done]; rfl⟩

theorem eightBlocks_oneRegion : BlkInfo.OneRegion ⟨8, 128⟩ := ⟨by decide, by decide, by decide, by decide⟩

theorem format_eightBlocks : ∃ disk,
    hfMkfs 128 ⟨⟨8, 128⟩, fun _ => zeroBlock, none⟩ = (0, ⟨⟨8, 128⟩, disk, none⟩) ∧
      hfMount ⟨⟨8, 128⟩, disk, none⟩ = (0, ⟨⟨8, 128⟩, disk, some (BlkInfo.volume ⟨8, 128⟩)⟩) ∧
      Layout (BlkInfo.volume ⟨8, 128⟩) disk emptyNodes := by
  have size : (128 : UInt32).toNat = (128 : UInt16).toNat := by decide
  exact format_spec (show (⟨⟨8, 128⟩, fun _ => zeroBlock, none⟩ : Device).ptr = none from rfl) size
    eightBlocks_oneRegion.roomy

/-- A new directory on a volume of eight blocks. -/
theorem blocks_owned_mkdir :
    ∃ formatted mounted result next,
      hfMkfs 128 ⟨⟨8, 128⟩, fun _ => zeroBlock, none⟩ = (0, formatted) ∧
        hfMount formatted = (0, mounted) ∧
        mounted.perform 8 (.mkdir ⟨[47, 97], by decide⟩) = .ok (result, next) ∧
        OwnsBlocks (BlkInfo.volume ⟨8, 128⟩) 8 next.disk := by
  have one := eightBlocks_oneRegion
  have enough : (BlkInfo.volume ⟨8, 128⟩).nBlocks ≤ 8 := by decide
  have size : (128 : UInt32).toNat = (128 : UInt16).toNat := by decide
  obtain ⟨formatted, mounted, made, isMounted, keeps⟩ := blocks_owned
    (show (⟨⟨8, 128⟩, fun _ => zeroBlock, none⟩ : Device).ptr = none from rfl) size one enough
  have admits : (BlkInfo.volume ⟨8, 128⟩).Admits mounted.disk (.mkdir ⟨[47, 97], by decide⟩) :=
    ⟨by decide, fun path isRmdir => by cases isRmdir⟩
  obtain ⟨result, next, performed⟩ := (keeps mounted .start).2 _ admits
  exact ⟨formatted, mounted, result, next, made, isMounted, performed,
    (keeps next (.call .start admits performed)).1⟩

end Hellfire

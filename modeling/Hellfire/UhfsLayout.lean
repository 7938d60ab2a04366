import Hellfire.UhfsBlocks
import Mathlib.Data.List.Perm.Basic

/-!
The directories and files of a volume with their paths and their chains of blocks, and the three
ways in which a call changes them.
-/

namespace Hellfire

open ByteMemory Chains

structure Node where
  path : List Name
  isDir : Bool
  chain : List Nat
deriving DecidableEq

def slotAt (disk : Disk) (block i : Nat) : Slot := Slot.ofBlock (disk block) i

structure Entry (sb : FsSuperblock) (disk : Disk) (dir : Node) (block i : Nat) : Prop where
  held : block ∈ dir.chain
  inside : i < sb.dirEntries
  live : (slotAt disk block i).isFree = false

structure Leads (dir : Node) (slot : Slot) (child : Node) : Prop where
  path : child.path = dir.path ++ [slot.name]
  isDir : child.isDir = slot.isDirectory
  first : child.chain.head? = some slot.first
  size : slot.size = 0

/-- The chains of the nodes share no block, and the entries of the directories are the nodes below
them. The name of an entry is not the name of an earlier one of its block, be it free or not. -/
structure Layout (sb : FsSuperblock) (disk : Disk) (nodes : List Node) : Prop where
  mapped : sb.Mapped disk
  owned : Owned sb.IsData (sb.follower disk) uhfsEochblk uhfsFreeblk (nodes.map Node.chain)
  keys : (nodes.map Node.path).Nodup
  root : ∃ node ∈ nodes, node.path = [] ∧ node.isDir = true ∧ node.chain.head? = some sb.rootDirBlock
  listed : ∀ dir ∈ nodes, dir.isDir = true → ∀ block i, Entry sb disk dir block i →
    ∃ child ∈ nodes, Leads dir (slotAt disk block i) child
  placed : ∀ child ∈ nodes, ∀ path name, child.path = path ++ [name] →
    ∃ dir ∈ nodes, dir.path = path ∧ dir.isDir = true ∧
      ∃ block i, Entry sb disk dir block i ∧ (slotAt disk block i).name = name
  single : ∀ dir ∈ nodes, dir.isDir = true → ∀ block i block' i', Entry sb disk dir block i →
    Entry sb disk dir block' i' → (slotAt disk block i).name = (slotAt disk block' i').name →
    block = block' ∧ i = i'
  earlier : ∀ dir ∈ nodes, dir.isDir = true → ∀ block i, Entry sb disk dir block i →
    ∀ j < i, (slotAt disk block j).name ≠ (slotAt disk block i).name

structure Entered (sb : FsSuperblock) (disk disk' : Disk) (block i k : Nat) (slot : Slot) : Prop where
  mapped : sb.Mapped disk'
  followers : ∀ place, sb.IsData place →
    sb.follower disk' place = Function.update (sb.follower disk) k uhfsEochblk place
  written : slotAt disk' block i = slot
  same : ∀ place j, sb.IsData place → place ≠ k → (place ≠ block ∨ j ≠ i) →
    slotAt disk' place j = slotAt disk place j

section Keys

variable {α κ : Type} {key : α → κ} {l : List α}

theorem eq_of_key (distinct : (l.map key).Nodup) {a b : α} (inA : a ∈ l) (inB : b ∈ l)
    (same : key a = key b) : a = b :=
  List.inj_on_of_nodup_map distinct inA inB same

theorem perm_cons_filter [DecidableEq κ] (distinct : (l.map key).Nodup) {a : α} (member : a ∈ l) :
    l.Perm (a :: l.filter fun other => key other ≠ key a) := by
  have apart : l.Nodup := List.Nodup.of_map key distinct
  have outside : a ∉ l.filter fun other => key other ≠ key a := by simp
  rw [List.perm_ext_iff_of_nodup apart (List.nodup_cons.mpr ⟨outside, apart.filter _⟩)]
  intro other
  rw [List.mem_cons, List.mem_filter, decide_eq_true_eq]
  constructor
  · intro inside
    by_cases same : key other = key a
    · exact Or.inl (eq_of_key distinct inside member same)
    · exact Or.inr ⟨inside, same⟩
  · rintro (rfl | ⟨inside, _⟩)
    · exact member
    · exact inside

theorem eq_of_flatten {β : Type} {f : β → List α} {l : List β} (distinct : (l.map f).flatten.Nodup)
    {a b : β} (inA : a ∈ l) (inB : b ∈ l) {x : α} (xA : x ∈ f a) (xB : x ∈ f b) : a = b := by
  induction l with
  | nil => cases inA
  | cons first rest ih =>
      rw [List.map_cons, List.flatten_cons] at distinct
      have across : ∀ other ∈ rest, x ∈ f first → x ∉ f other := by
        intro other member inFirst inOther
        have later : x ∈ (rest.map f).flatten :=
          List.mem_flatten_of_mem (List.mem_map_of_mem member) inOther
        exact List.disjoint_of_nodup_append distinct inFirst later
      rcases List.mem_cons.mp inA with rfl | laterA
      · rcases List.mem_cons.mp inB with rfl | laterB
        · rfl
        · exact absurd xB (across b laterB xA)
      · rcases List.mem_cons.mp inB with rfl | laterB
        · exact absurd xA (across a laterA xB)
        · exact ih distinct.of_append_right laterA laterB

end Keys

theorem FsSuperblock.length_of_data {sb : FsSuperblock} {chain : List Nat} (apart : chain.Nodup)
    (data : ∀ block ∈ chain, sb.IsData block) (nonempty : chain ≠ []) :
    chain.length + 2 ≤ sb.nBlocks := by
  have inside : chain ⊆ List.range' 2 (sb.nBlocks - 2) := by
    intro block inChain
    obtain ⟨low, high, _⟩ := data block inChain
    rw [List.mem_range'_1]
    omega
  have fits := (List.subperm_of_subset apart inside).length_le
  have some := List.length_pos_iff.mpr nonempty
  rw [List.length_range'] at fits
  omega

namespace Layout

variable {sb : FsSuperblock} {disk disk' : Disk} {nodes : List Node}

theorem chain_mem (layout : Layout sb disk nodes) {node : Node} (member : node ∈ nodes) :
    node.chain ∈ nodes.map Node.chain ∧ Linked (sb.follower disk) uhfsEochblk node.chain := by
  have inMap := List.mem_map_of_mem (f := Node.chain) member
  exact ⟨inMap, layout.owned.linked _ inMap⟩

theorem data (layout : Layout sb disk nodes) {node : Node} (member : node ∈ nodes) {block : Nat}
    (inside : block ∈ node.chain) : sb.IsData block :=
  layout.owned.inside block (List.mem_flatten_of_mem (layout.chain_mem member).1 inside)

theorem used (layout : Layout sb disk nodes) (formatted : sb.Formatted) {node : Node}
    (member : node ∈ nodes) {block : Nat} (inside : block ∈ node.chain) :
    sb.follower disk block ≠ uhfsFreeblk := by
  refine layout.owned.used (by decide) (FsSuperblock.not_isData_of_ge ?_)
    (List.mem_flatten_of_mem (layout.chain_mem member).1 inside)
  have small := formatted.nBlocks_small
  unfold uhfsFreeblk
  omega

theorem same_node (layout : Layout sb disk nodes) {node other : Node} (inA : node ∈ nodes)
    (inB : other ∈ nodes) {block : Nat} (blockA : block ∈ node.chain) (blockB : block ∈ other.chain) :
    node = other :=
  eq_of_flatten layout.owned.apart inA inB blockA blockB

theorem chain_length (layout : Layout sb disk nodes) {node : Node} (member : node ∈ nodes) :
    node.chain.length + 2 ≤ sb.nBlocks :=
  FsSuperblock.length_of_data
    ((List.nodup_flatten.mp layout.owned.apart).1 _ (layout.chain_mem member).1)
    (fun _ => layout.data member) (layout.chain_mem member).2.ne_nil

theorem same_path (layout : Layout sb disk nodes) {node other : Node} (inA : node ∈ nodes)
    (inB : other ∈ nodes) (same : node.path = other.path) : node = other :=
  eq_of_key layout.keys inA inB same

theorem entry_of (layout : Layout sb disk nodes) {dir child : Node} (isNode : dir ∈ nodes)
    (isChild : child ∈ nodes) {name : Name} (path : child.path = dir.path ++ [name]) :
    dir.isDir = true ∧ ∃ block i, Entry sb disk dir block i ∧ (slotAt disk block i).name = name ∧
      Leads dir (slotAt disk block i) child := by
  obtain ⟨found, isFound, samePath, isDir, block, i, entry, named⟩ :=
    layout.placed child isChild dir.path name path
  obtain rfl := layout.same_path isFound isNode samePath
  obtain ⟨other, isOther, leads⟩ := layout.listed found isNode isDir block i entry
  have sameChild : other = child := by
    apply layout.same_path isOther isChild
    rw [leads.path, named, path]
  rw [sameChild] at leads
  exact ⟨isDir, block, i, entry, named, leads⟩

theorem named_iff (layout : Layout sb disk nodes) {dir : Node} (isNode : dir ∈ nodes)
    (isDir : dir.isDir = true) (name : Name) :
    (∃ block i, Entry sb disk dir block i ∧ (slotAt disk block i).name = name) ↔
      ∃ child ∈ nodes, child.path = dir.path ++ [name] := by
  constructor
  · rintro ⟨block, i, entry, rfl⟩
    obtain ⟨child, isChild, leads⟩ := layout.listed dir isNode isDir block i entry
    exact ⟨child, isChild, leads.path⟩
  · rintro ⟨child, isChild, path⟩
    obtain ⟨_, block, i, entry, named, _⟩ := layout.entry_of isNode isChild path
    exact ⟨block, i, entry, named⟩

theorem entered_iff (layout : Layout sb disk nodes) (formatted : sb.Formatted) {dir : Node}
    (isNode : dir ∈ nodes) {block i k : Nat} {slot : Slot} (inChain : block ∈ dir.chain)
    (inside : i < sb.dirEntries) (empty : (slotAt disk block i).isFree = true)
    (isFree : sb.follower disk k = uhfsFreeblk) (entered : Entered sb disk disk' block i k slot)
    (live : slot.isFree = false) {node : Node} (member : node ∈ nodes) (place j : Nat) :
    Entry sb disk' node place j ↔ Entry sb disk node place j ∨ node = dir ∧ place = block ∧ j = i := by
  by_cases here : place = block ∧ j = i
  · obtain ⟨rfl, rfl⟩ := here
    constructor
    · intro entry
      exact Or.inr ⟨layout.same_node member isNode entry.held inChain, rfl, rfl⟩
    · rintro (entry | ⟨rfl, _⟩)
      · rw [entry.live] at empty
        cases empty
      · exact ⟨inChain, inside, by rw [entered.written, live]⟩
  · have apart : place ≠ block ∨ j ≠ i := by tauto
    have slots : place ∈ node.chain → slotAt disk' place j = slotAt disk place j := by
      intro inNode
      refine entered.same place j (layout.data member inNode) ?_ apart
      rintro rfl
      exact layout.used formatted member inNode isFree
    constructor
    · intro entry
      refine Or.inl ⟨entry.held, entry.inside, ?_⟩
      rw [← slots entry.held]
      exact entry.live
    · rintro (entry | ⟨_, rfl, rfl⟩)
      · refine ⟨entry.held, entry.inside, ?_⟩
        rw [slots entry.held]
        exact entry.live
      · exact absurd ⟨rfl, rfl⟩ here

theorem entered_old (layout : Layout sb disk nodes) (formatted : sb.Formatted) {block i k : Nat}
    {slot : Slot} (empty : (slotAt disk block i).isFree = true)
    (isFree : sb.follower disk k = uhfsFreeblk) (entered : Entered sb disk disk' block i k slot)
    {node : Node} (member : node ∈ nodes) {place j : Nat} (entry : Entry sb disk node place j) :
    slotAt disk' place j = slotAt disk place j := by
  refine entered.same place j (layout.data member entry.held) ?_ ?_
  · rintro rfl
    exact layout.used formatted member entry.held isFree
  · by_contra both
    obtain ⟨rfl, rfl⟩ : place = block ∧ j = i := by tauto
    rw [entry.live] at empty
    cases empty

theorem insert (layout : Layout sb disk nodes) (formatted : sb.Formatted) {dir : Node}
    (isNode : dir ∈ nodes) (isDir : dir.isDir = true) {block i k : Nat} (inChain : block ∈ dir.chain)
    (inside : i < sb.dirEntries) (empty : (slotAt disk block i).isFree = true)
    (before : ∀ j < i, (slotAt disk block j).isFree = false) {slot : Slot}
    (absent : ∀ child ∈ nodes, child.path ≠ dir.path ++ [slot.name]) (isData : sb.IsData k)
    (isFree : sb.follower disk k = uhfsFreeblk) (entered : Entered sb disk disk' block i k slot)
    (first : slot.first = k) (size : slot.size = 0) (live : slot.isFree = false)
    (clean : slot.isDirectory = true → ∀ j < sb.dirEntries, (slotAt disk' k j).isFree = true) :
    Layout sb disk' (⟨dir.path ++ [slot.name], slot.isDirectory, [k]⟩ :: nodes) := by
  have fresh : ∀ node ∈ nodes, k ∉ node.chain := fun node member inK =>
    layout.used formatted member inK isFree
  have entries : ∀ node ∈ nodes, ∀ place j, Entry sb disk' node place j ↔
      Entry sb disk node place j ∨ node = dir ∧ place = block ∧ j = i := fun _ member =>
    layout.entered_iff formatted isNode inChain inside empty isFree entered live member
  have old : ∀ node ∈ nodes, ∀ place j, Entry sb disk node place j →
      slotAt disk' place j = slotAt disk place j := fun _ member _ _ =>
    layout.entered_old formatted empty isFree entered member
  have written := entered.written
  have unnamed : ∀ place j, Entry sb disk dir place j → (slotAt disk place j).name ≠ slot.name := by
    intro place j entry named
    obtain ⟨child, isChild, path⟩ := (layout.named_iff isNode isDir slot.name).mp ⟨place, j, entry, named⟩
    exact absent child isChild path
  have cleaned : ∀ place j, Entry sb disk' ⟨dir.path ++ [slot.name], slot.isDirectory, [k]⟩ place j →
      slot.isDirectory = true → False := by
    intro place j entry isDirectory
    have atK := List.mem_singleton.mp entry.held
    have free := clean isDirectory j entry.inside
    rw [← atK, entry.live] at free
    cases free
  have newPath : ∀ node ∈ nodes, node.path ≠ dir.path ++ [slot.name] := absent
  constructor
  · exact entered.mapped
  · refine (layout.owned.add isData ?_).congr entered.followers
    intro inFlat
    obtain ⟨chain, isChain, inK⟩ := List.mem_flatten.mp inFlat
    obtain ⟨node, member, rfl⟩ := List.mem_map.mp isChain
    exact fresh node member inK
  · rw [List.map_cons, List.nodup_cons]
    refine ⟨fun member => ?_, layout.keys⟩
    obtain ⟨node, isNode', path⟩ := List.mem_map.mp member
    exact newPath node isNode' path
  · obtain ⟨node, member, rest⟩ := layout.root
    exact ⟨node, List.mem_cons_of_mem _ member, rest⟩
  · intro node member nodeDir place j entry
    rcases List.mem_cons.mp member with rfl | oldNode
    · exact (cleaned place j entry nodeDir).elim
    · rcases (entries node oldNode place j).mp entry with oldEntry | ⟨rfl, rfl, rfl⟩
      · rw [old node oldNode place j oldEntry]
        obtain ⟨child, isChild, leads⟩ := layout.listed node oldNode nodeDir place j oldEntry
        exact ⟨child, List.mem_cons_of_mem _ isChild, leads⟩
      · refine ⟨_, List.mem_cons_self, ?_⟩
        rw [written]
        exact ⟨rfl, rfl, by rw [List.head?_cons, first], size⟩
  · intro child member path name isPath
    rcases List.mem_cons.mp member with rfl | oldChild
    · obtain ⟨rfl, same⟩ := List.append_inj' isPath rfl
      obtain rfl := List.singleton_inj.mp same
      refine ⟨dir, List.mem_cons_of_mem _ isNode, rfl, isDir, block, i, ?_, by rw [written]⟩
      exact (entries dir isNode block i).mpr (Or.inr ⟨rfl, rfl, rfl⟩)
    · obtain ⟨found, isFound, samePath, foundDir, place, j, entry, named⟩ :=
        layout.placed child oldChild path name isPath
      refine ⟨found, List.mem_cons_of_mem _ isFound, samePath, foundDir, place, j, ?_, ?_⟩
      · exact (entries found isFound place j).mpr (Or.inl entry)
      · rw [old found isFound place j entry, named]
  · intro node member nodeDir place j place' j' entry entry' names
    rcases List.mem_cons.mp member with rfl | oldNode
    · exact (cleaned place j entry nodeDir).elim
    · rcases (entries node oldNode place j).mp entry with was | ⟨isDir₁, isBlock, isI⟩
      · rcases (entries node oldNode place' j').mp entry' with was' | ⟨isDir₂, isBlock', isI'⟩
        · rw [old node oldNode place j was, old node oldNode place' j' was'] at names
          exact layout.single node oldNode nodeDir place j place' j' was was' names
        · rw [old node oldNode place j was, isBlock', isI', written] at names
          rw [isDir₂] at was
          exact absurd names (unnamed place j was)
      · rcases (entries node oldNode place' j').mp entry' with was' | ⟨_, isBlock', isI'⟩
        · rw [old node oldNode place' j' was', isBlock, isI, written] at names
          rw [isDir₁] at was'
          exact absurd names.symm (unnamed place' j' was')
        · exact ⟨isBlock.trans isBlock'.symm, isI.trans isI'.symm⟩
  · intro node member nodeDir place j entry j' less
    rcases List.mem_cons.mp member with rfl | oldNode
    · exact (cleaned place j entry nodeDir).elim
    · have notK : place ≠ k := by
        rintro rfl
        exact fresh node oldNode entry.held
      have placeData := layout.data oldNode entry.held
      rcases (entries node oldNode place j).mp entry with was | ⟨rfl, rfl, rfl⟩
      · rw [old node oldNode place j was]
        by_cases here : place = block ∧ j' = i
        · obtain ⟨rfl, rfl⟩ := here
          have sameDir := layout.same_node oldNode isNode was.held inChain
          rw [sameDir] at was
          rw [written]
          exact (unnamed place j was).symm
        · rw [entered.same place j' placeData notK (by tauto)]
          exact layout.earlier node oldNode nodeDir place j was j' less
      · rw [written, entered.same place j' placeData notK (Or.inr (Nat.ne_of_lt less))]
        exact unnamed place j' ⟨inChain, less.trans inside, before j' less⟩

end Layout

def Node.grow (path : List Name) (k : Nat) (node : Node) : Node :=
  if node.path = path then { node with chain := node.chain ++ [k] } else node

@[simp] theorem Node.grow_path (path : List Name) (k : Nat) (node : Node) :
    (node.grow path k).path = node.path := by
  unfold Node.grow
  split <;> rfl

@[simp] theorem Node.grow_isDir (path : List Name) (k : Nat) (node : Node) :
    (node.grow path k).isDir = node.isDir := by
  unfold Node.grow
  split <;> rfl

theorem Node.grow_other {path : List Name} {k : Nat} {node : Node} (apart : node.path ≠ path) :
    node.grow path k = node := if_neg apart

theorem Node.grow_chain_sub (path : List Name) (k : Nat) (node : Node) {block : Nat}
    (member : block ∈ (node.grow path k).chain) : block ∈ node.chain ∨ block = k := by
  unfold Node.grow at member
  split at member
  · rcases List.mem_append.mp member with old | new
    · exact Or.inl old
    · exact Or.inr (List.mem_singleton.mp new)
  · exact Or.inl member

theorem Node.mem_grow (path : List Name) (k : Nat) (node : Node) {block : Nat}
    (member : block ∈ node.chain) : block ∈ (node.grow path k).chain := by
  unfold Node.grow
  split
  · exact List.mem_append_left _ member
  · exact member

theorem Node.grow_head (path : List Name) (k : Nat) {node : Node} (some : node.chain ≠ []) :
    (node.grow path k).chain.head? = node.chain.head? := by
  unfold Node.grow
  split
  · exact List.head?_append_of_ne_nil _ some
  · rfl

namespace Layout

variable {sb : FsSuperblock} {disk disk' : Disk} {nodes : List Node}

theorem chain_ne_nil (layout : Layout sb disk nodes) {node : Node} (member : node ∈ nodes) :
    node.chain ≠ [] := (layout.chain_mem member).2.ne_nil

theorem leads_grow (layout : Layout sb disk nodes) (path : List Name) (k : Nat) {dir child : Node}
    {slot : Slot} (isChild : child ∈ nodes) (leads : Leads dir slot child) :
    Leads (dir.grow path k) slot (child.grow path k) := by
  constructor
  · rw [Node.grow_path, Node.grow_path, leads.path]
  · rw [Node.grow_isDir, leads.isDir]
  · rw [Node.grow_head _ _ (layout.chain_ne_nil isChild), leads.first]
  · exact leads.size

theorem extend (layout : Layout sb disk nodes) (formatted : sb.Formatted) {dir : Node}
    (isNode : dir ∈ nodes) {before : List Nat} {tail k : Nat} (chain : dir.chain = before ++ [tail])
    (isData : sb.IsData k) (isFree : sb.follower disk k = uhfsFreeblk) (mapped : sb.Mapped disk')
    (followers : ∀ place, sb.IsData place → sb.follower disk' place =
      Function.update (Function.update (sb.follower disk) k uhfsEochblk) tail k place)
    (same : ∀ place j, sb.IsData place → place ≠ k → slotAt disk' place j = slotAt disk place j)
    (clean : ∀ j < sb.dirEntries, (slotAt disk' k j).isFree = true) :
    Layout sb disk' (nodes.map (Node.grow dir.path k)) := by
  have fresh : ∀ node ∈ nodes, k ∉ node.chain := fun node member inK =>
    layout.used formatted member inK isFree
  have slots : ∀ node ∈ nodes, ∀ place ∈ node.chain, ∀ j, slotAt disk' place j = slotAt disk place j := by
    intro node member place inChain j
    refine same place j (layout.data member inChain) ?_
    rintro rfl
    exact fresh node member inChain
  have entries : ∀ node ∈ nodes, ∀ place j, Entry sb disk' (node.grow dir.path k) place j →
      Entry sb disk node place j := by
    intro node member place j entry
    rcases Node.grow_chain_sub _ _ _ entry.held with old | rfl
    · refine ⟨old, entry.inside, ?_⟩
      rw [← slots node member place old j]
      exact entry.live
    · have free := clean j entry.inside
      rw [entry.live] at free
      cases free
  have entries' : ∀ node ∈ nodes, ∀ place j, Entry sb disk node place j →
      Entry sb disk' (node.grow dir.path k) place j := by
    intro node member place j entry
    refine ⟨Node.mem_grow _ _ _ entry.held, entry.inside, ?_⟩
    rw [slots node member place entry.held j]
    exact entry.live
  constructor
  · exact mapped
  · have first := perm_cons_filter layout.keys isNode
    have outside : k ∉ (nodes.map Node.chain).flatten := by
      intro inFlat
      obtain ⟨chain, isChain, inK⟩ := List.mem_flatten.mp inFlat
      obtain ⟨node, member, rfl⟩ := List.mem_map.mp isChain
      exact fresh node member inK
    have added := layout.owned.add isData outside
    have turned : ([k] :: nodes.map Node.chain).Perm ((before ++ [tail]) :: [k] ::
        (nodes.filter fun other => other.path ≠ dir.path).map Node.chain) := by
      rw [← chain]
      exact ((first.map Node.chain).cons [k]).trans (List.Perm.swap _ _ _)
    refine ((added.perm turned).extend.perm ?_).congr followers
    have grown : (nodes.map (Node.grow dir.path k)).Perm (dir.grow dir.path k ::
        (nodes.filter fun other => other.path ≠ dir.path).map (Node.grow dir.path k)) := first.map _
    have rest : (nodes.filter fun other => other.path ≠ dir.path).map (Node.grow dir.path k) =
        nodes.filter fun other => other.path ≠ dir.path := by
      refine (List.map_congr_left fun node member => ?_).trans (List.map_id _)
      exact Node.grow_other (by simpa using (List.mem_filter.mp member).2)
    refine List.Perm.trans ?_ (grown.map Node.chain).symm
    rw [rest, List.map_cons, Node.grow, if_pos rfl, chain]
  · rw [List.map_map, show Node.path ∘ Node.grow dir.path k = Node.path from funext fun node =>
      Node.grow_path _ _ node]
    exact layout.keys
  · obtain ⟨node, member, path, isDir, head⟩ := layout.root
    refine ⟨node.grow dir.path k, List.mem_map_of_mem member, ?_, ?_, ?_⟩
    · rw [Node.grow_path, path]
    · rw [Node.grow_isDir, isDir]
    · rw [Node.grow_head _ _ (layout.chain_ne_nil member), head]
  · intro grown member isDir place j entry
    obtain ⟨node, isOld, rfl⟩ := List.mem_map.mp member
    rw [Node.grow_isDir] at isDir
    have was := entries node isOld place j entry
    obtain ⟨child, isChild, leads⟩ := layout.listed node isOld isDir place j was
    rw [slots node isOld place was.held j]
    exact ⟨child.grow dir.path k, List.mem_map_of_mem isChild, layout.leads_grow _ _ isChild leads⟩
  · intro grown member path name isPath
    obtain ⟨child, isOld, rfl⟩ := List.mem_map.mp member
    rw [Node.grow_path] at isPath
    obtain ⟨found, isFound, samePath, isDir, place, j, entry, named⟩ :=
      layout.placed child isOld path name isPath
    refine ⟨found.grow dir.path k, List.mem_map_of_mem isFound, ?_, ?_, place, j,
      entries' found isFound place j entry, ?_⟩
    · rw [Node.grow_path, samePath]
    · rw [Node.grow_isDir, isDir]
    · rw [slots found isFound place entry.held j, named]
  · intro grown member isDir place j place' j' entry entry' names
    obtain ⟨node, isOld, rfl⟩ := List.mem_map.mp member
    rw [Node.grow_isDir] at isDir
    have was := entries node isOld place j entry
    have was' := entries node isOld place' j' entry'
    rw [slots node isOld place was.held j, slots node isOld place' was'.held j'] at names
    exact layout.single node isOld isDir place j place' j' was was' names
  · intro grown member isDir place j entry j' less
    obtain ⟨node, isOld, rfl⟩ := List.mem_map.mp member
    rw [Node.grow_isDir] at isDir
    have was := entries node isOld place j entry
    rw [slots node isOld place was.held j, slots node isOld place was.held j']
    exact layout.earlier node isOld isDir place j was j' less

theorem remove (layout : Layout sb disk nodes) {dir child : Node} (isNode : dir ∈ nodes)
    (isChild : child ∈ nodes) {name : Name} (path : child.path = dir.path ++ [name])
    (leaf : ∀ node ∈ nodes, ∀ other, node.path ≠ child.path ++ [other]) {block i : Nat}
    (entry : Entry sb disk dir block i) (named : (slotAt disk block i).name = name)
    (mapped : sb.Mapped disk') (freed : ∀ place ∈ child.chain, sb.follower disk' place = uhfsFreeblk)
    (others : ∀ place, sb.IsData place → place ∉ child.chain →
      sb.follower disk' place = sb.follower disk place)
    (written : (slotAt disk' block i).isFree = true)
    (names : ∀ place j, sb.IsData place → (slotAt disk' place j).name = (slotAt disk place j).name)
    (same : ∀ place j, sb.IsData place → (place ≠ block ∨ j ≠ i) →
      slotAt disk' place j = slotAt disk place j) :
    Layout sb disk' (nodes.filter fun node => node.path ≠ child.path) := by
  have kept : ∀ node, node ∈ nodes.filter (fun node => node.path ≠ child.path) ↔
      node ∈ nodes ∧ node.path ≠ child.path := by
    intro node
    rw [List.mem_filter, decide_eq_true_eq]
  have isDir := (layout.entry_of isNode isChild path).1
  have apart : ∀ node place j, Entry sb disk' node place j → place ≠ block ∨ j ≠ i := by
    intro node place j now
    by_contra both
    obtain ⟨rfl, rfl⟩ : place = block ∧ j = i := by tauto
    rw [now.live] at written
    cases written
  have entries : ∀ node ∈ nodes, ∀ place j, Entry sb disk' node place j →
      Entry sb disk node place j ∧ slotAt disk' place j = slotAt disk place j := by
    intro node member place j now
    have slot := same place j (layout.data member now.held) (apart node place j now)
    refine ⟨⟨now.held, now.inside, ?_⟩, slot⟩
    rw [← slot]
    exact now.live
  constructor
  · exact mapped
  · have turned := layout.owned.perm ((perm_cons_filter layout.keys isChild).map Node.chain)
    exact turned.release freed others
  · exact layout.keys.sublist (List.filter_sublist.map _)
  · obtain ⟨node, member, empty, rest⟩ := layout.root
    refine ⟨node, (kept node).mpr ⟨member, ?_⟩, empty, rest⟩
    rw [empty, path]
    exact (List.append_ne_nil_of_right_ne_nil _ (List.cons_ne_nil _ _)).symm
  · intro node member nodeDir place j now
    obtain ⟨isOld, _⟩ := (kept node).mp member
    obtain ⟨was, slot⟩ := entries node isOld place j now
    obtain ⟨other, isOther, leads⟩ := layout.listed node isOld nodeDir place j was
    rw [slot]
    refine ⟨other, (kept other).mpr ⟨isOther, fun samePath => ?_⟩, leads⟩
    obtain rfl := layout.same_path isOther isChild samePath
    -- the entry of the child is the one that is free now
    have parts := leads.path
    rw [path] at parts
    obtain ⟨dirs, name_eq⟩ := List.append_inj' parts rfl
    obtain rfl := layout.same_path isNode isOld dirs
    have here := layout.single dir isNode isDir place j block i was entry
      (by rw [named, List.singleton_inj.mp name_eq])
    rcases apart dir place j now with other | other
    · exact other here.1
    · exact other here.2
  · intro node member above last isPath
    obtain ⟨isOld, differs⟩ := (kept node).mp member
    obtain ⟨found, isFound, samePath, foundDir, place, j, was, isNamed⟩ :=
      layout.placed node isOld above last isPath
    have notChild : found.path ≠ child.path := by
      intro isAbove
      apply leaf node isOld last
      rw [isPath, ← samePath, isAbove]
    have notHere : place ≠ block ∨ j ≠ i := by
      by_contra both
      obtain ⟨rfl, rfl⟩ : place = block ∧ j = i := by tauto
      obtain rfl := layout.same_node isFound isNode was.held entry.held
      apply differs
      rw [isPath, ← samePath, ← isNamed, named, path]
    have slot := same place j (layout.data isFound was.held) notHere
    refine ⟨found, (kept found).mpr ⟨isFound, notChild⟩, samePath, foundDir, place, j,
      ⟨was.held, was.inside, ?_⟩, ?_⟩
    · rw [slot]
      exact was.live
    · rw [slot, isNamed]
  · intro node member nodeDir place j place' j' now now' sameName
    obtain ⟨isOld, _⟩ := (kept node).mp member
    obtain ⟨was, slot⟩ := entries node isOld place j now
    obtain ⟨was', slot'⟩ := entries node isOld place' j' now'
    rw [slot, slot'] at sameName
    exact layout.single node isOld nodeDir place j place' j' was was' sameName
  · intro node member nodeDir place j now j' less
    obtain ⟨isOld, _⟩ := (kept node).mp member
    obtain ⟨was, slot⟩ := entries node isOld place j now
    rw [slot, names place j' (layout.data isOld now.held)]
    exact layout.earlier node isOld nodeDir place j was j' less

end Layout

end Hellfire

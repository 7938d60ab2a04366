import Hellfire.UhfsOwnership
import Mathlib.Data.List.ProdSigma
import Mathlib.Data.List.TakeWhile

/-!
A volume with one storage region stands for a tree of directories and files with a limited number of
blocks.
-/

namespace Hellfire

open ByteMemory Chains

structure TreeNode where
  path : List Name
  isDir : Bool
  blocks : Nat
deriving DecidableEq

abbrev Tree : Type := List TreeNode

structure Space where
  blocks : Nat
  entries : Nat

inductive TreeOp
  | mkdir (path : CString)
  | create (path : CString)
  | unlink (path : CString)
  | rmdir (path : CString)

namespace Tree

def IsDirectory (tree : Tree) (path : List Name) : Prop := ∃ node ∈ tree, node.path = path ∧ node.isDir = true

def IsFile (tree : Tree) (path : List Name) : Prop := ∃ node ∈ tree, node.path = path ∧ node.isDir = false

def below (tree : Tree) (path : List Name) : Nat :=
  tree.countP fun node => node.path ≠ [] ∧ node.path.dropLast = path

def free (space : Space) (tree : Tree) : Nat := space.blocks - (tree.map TreeNode.blocks).sum

def HasRoom (space : Space) (tree : Tree) (path : List Name) : Prop :=
  ∃ node ∈ tree, node.path = path ∧ tree.below path < node.blocks * space.entries

instance (tree : Tree) (path : List Name) : Decidable (tree.IsDirectory path) :=
  inferInstanceAs (Decidable (∃ node ∈ tree, _))

instance (tree : Tree) (path : List Name) : Decidable (tree.IsFile path) :=
  inferInstanceAs (Decidable (∃ node ∈ tree, _))

instance (space : Space) (tree : Tree) (path : List Name) : Decidable (tree.HasRoom space path) :=
  inferInstanceAs (Decidable (∃ node ∈ tree, _))

def need (space : Space) (tree : Tree) (path : List Name) : Nat := if tree.HasRoom space path then 1 else 2

/-- The parent directory exists and the name is absent. -/
def Vacant (tree : Tree) (path : List Name) : Prop :=
  path ≠ [] ∧ tree.IsDirectory path.dropLast ∧ ∀ node ∈ tree, node.path ≠ path

instance (tree : Tree) (path : List Name) : Decidable (tree.Vacant path) :=
  inferInstanceAs (Decidable (_ ∧ _ ∧ _))

/-- The calls that succeed. -/
def Legal (space : Space) (tree : Tree) : TreeOp → Prop
  | .mkdir path => tree.Vacant path.tokens ∧ tree.need space path.tokens.dropLast ≤ tree.free space
  | .create path => tree.Vacant path.tokens ∧ tree.need space path.tokens.dropLast ≤ tree.free space
  | .unlink path => tree.IsFile path.tokens
  | .rmdir path => tree.IsDirectory path.tokens ∧ tree.below path.tokens = 0

instance (space : Space) (tree : Tree) (op : TreeOp) : Decidable (tree.Legal space op) :=
  match op with
  | .mkdir _ => inferInstanceAs (Decidable (_ ∧ _))
  | .create _ => inferInstanceAs (Decidable (_ ∧ _))
  | .unlink path => inferInstanceAs (Decidable (tree.IsFile path.tokens))
  | .rmdir _ => inferInstanceAs (Decidable (_ ∧ _))

def grow (tree : Tree) (path : List Name) : Tree :=
  tree.map fun node => if node.path = path then { node with blocks := node.blocks + 1 } else node

/-- A full directory grows before a new entry is made, also if that leaves no block for the entry. -/
def extended (space : Space) (tree : Tree) (path : List Name) : Tree :=
  if tree.Vacant path ∧ ¬tree.HasRoom space path.dropLast ∧ 0 < tree.free space then
    tree.grow path.dropLast
  else tree

def remove (tree : Tree) (path : List Name) : Tree := tree.filter fun node => node.path ≠ path

def next (space : Space) (tree : Tree) (op : TreeOp) : Tree :=
  match op with
  | .mkdir path =>
      if tree.Legal space (.mkdir path) then ⟨path.tokens, true, 1⟩ :: tree.extended space path.tokens
      else tree.extended space path.tokens
  | .create path =>
      if tree.Legal space (.create path) then ⟨path.tokens, false, 1⟩ :: tree.extended space path.tokens
      else tree.extended space path.tokens
  | .unlink path => if tree.Legal space (.unlink path) then tree.remove path.tokens else tree
  | .rmdir path => if tree.Legal space (.rmdir path) then tree.remove path.tokens else tree

def result (space : Space) (tree : Tree) (op : TreeOp) : Int := if tree.Legal space op then 0 else -1

/-- No file is above the path. -/
def Clear (tree : Tree) (path : List Name) : Prop :=
  ∀ node ∈ tree, node.isDir = false → node.path <+: path → node.path = path

instance (tree : Tree) (path : List Name) : Decidable (tree.Clear path) :=
  inferInstanceAs (Decidable (∀ node ∈ tree, _))

end Tree

def CString.dot (path : CString) : CString where
  bytes := path.bytes ++ [47, 46]
  ended := by
    rw [List.mem_append, not_or]
    exact ⟨path.ended, by decide⟩

def CString.Plain (path : CString) : Prop := ∀ token ∈ path.tokens, token.length ≤ 38 ∧ token ≠ [46]

instance (path : CString) : Decidable path.Plain :=
  inferInstanceAs (Decidable (∀ token ∈ path.tokens, _))

namespace TreeOp

def call : TreeOp → UhfsOp
  | mkdir path => .mkdir path
  | create path => .create path
  | unlink path => .unlink path
  | rmdir path => .rmdir path.dot

/-- The paths of the calls: plain components, not below a file; only directories below the root are
given to `hf_rmdir`. -/
def Allowed (tree : Tree) : TreeOp → Prop
  | mkdir path => path.Plain ∧ tree.Clear path.tokens
  | create path => path.Plain ∧ tree.Clear path.tokens
  | unlink path => path.Plain ∧ tree.Clear path.tokens
  | rmdir path => path.Plain ∧ path.tokens ≠ [] ∧ tree.IsDirectory path.tokens

instance (tree : Tree) (op : TreeOp) : Decidable (op.Allowed tree) :=
  match op with
  | mkdir _ => inferInstanceAs (Decidable (_ ∧ _))
  | create _ => inferInstanceAs (Decidable (_ ∧ _))
  | unlink _ => inferInstanceAs (Decidable (_ ∧ _))
  | rmdir _ => inferInstanceAs (Decidable (_ ∧ _ ∧ _))

end TreeOp

section Tokens

theorem strtok_none {string : List UInt8} (none : strtok string = none) :
    ∀ byte ∈ string, isDelimiter byte = true := by
  rcases strtok_cases string with ⟨blank, _⟩ | ⟨_, _, _, _, _, _, _, _, found⟩
  · exact blank
  · rw [found] at none
    cases none

theorem strtok_append {string rest : List UInt8} {token : Name} (more : List UInt8)
    (split : strtok string = some (token, rest)) :
    (strtok (string ++ 47 :: more) = some (token, rest ++ 47 :: more) ∨
      rest = [] ∧ strtok (string ++ 47 :: more) = some (token, more)) ∧ rest.length < string.length := by
  rcases strtok_cases string with
    ⟨_, none⟩ | ⟨before, run, after, rfl, delimiters, nonempty, free, stops, found⟩
  · rw [none] at split
    cases split
  · rw [found] at split
    cases split
    have some : 0 < token.length := List.length_pos_of_ne_nil nonempty
    have longer : ∀ c ∈ (after ++ 47 :: more).head?, isDelimiter c = true := by
      cases after with
      | nil =>
          intro c first
          cases first
          decide
      | cons delimiter after => exact stops
    have extended := strtok_segment delimiters nonempty free longer
    rw [List.append_assoc, List.append_assoc]
    refine ⟨?_, ?_⟩
    · cases after with
      | nil => exact .inr ⟨rfl, extended⟩
      | cons delimiter after => exact .inl extended
    · simp only [List.length_append, List.length_drop]
      omega

theorem strtok_name {name : Name} (positive : name ≠ [])
    (whole : ∀ byte ∈ name, isDelimiter byte = false) : strtok name = some (name, []) := by
  have none : ∀ c ∈ ([] : List UInt8).head?, isDelimiter c = true := fun c first => by cases first
  have found := strtok_segment (fun c member => absurd member List.not_mem_nil) positive whole none
  rwa [List.nil_append, List.append_nil] at found

theorem tokensFrom_nil (fuel : Nat) : tokensFrom fuel [] = [] := by
  cases fuel <;> rfl

theorem tokensFrom_slash {name : Name} (positive : name ≠ [])
    (whole : ∀ byte ∈ name, isDelimiter byte = false) (fuel more : Nat) (string : List UInt8)
    (enough : string.length ≤ fuel) :
    tokensFrom (fuel + 1 + more) (string ++ 47 :: name) = tokensFrom fuel string ++ [name] := by
  have last : ∀ more, tokensFrom (more + 1) name = [name] := by
    intro more
    rw [tokensFrom, strtok_name positive whole]
    simp only
    rw [tokensFrom_nil]
  have behind : ∀ string, (∀ byte ∈ string, isDelimiter byte = true) →
      strtok (string ++ 47 :: name) = some (name, []) := by
    intro string all
    have slash : (47 :: name : List UInt8).dropWhile isDelimiter = name.dropWhile isDelimiter :=
      List.dropWhile_cons_of_pos (by decide)
    rw [← strtok_name positive whole, strtok, strtok, List.dropWhile_append_of_pos all, slash]
  induction fuel generalizing string with
  | zero =>
      obtain rfl := List.length_eq_zero_iff.mp (Nat.le_zero.mp enough)
      have first := behind [] (by simp)
      rw [List.nil_append] at first ⊢
      rw [show 0 + 1 + more = more + 1 by omega, tokensFrom_nil, tokensFrom, first]
      simp only
      rw [tokensFrom_nil]
      rfl
  | succ fuel ih =>
      rw [show fuel + 1 + 1 + more = (fuel + 1 + more) + 1 by omega, tokensFrom, tokensFrom]
      cases split : strtok string with
      | none =>
          rw [behind string (strtok_none split)]
          simp only
          rw [tokensFrom_nil]
          rfl
      | some parts =>
          obtain ⟨token, rest⟩ := parts
          obtain ⟨found | ⟨rfl, found⟩, less⟩ := strtok_append name split
          · rw [found]
            simp only [List.cons_append]
            rw [ih rest (by omega)]
          · rw [found]
            simp only [List.cons_append]
            rw [show fuel + 1 + more = (fuel + more) + 1 by omega, last, tokensFrom_nil]
            rfl

theorem CString.tokens_dot (path : CString) : path.dot.tokens = path.tokens ++ [[46]] := by
  unfold CString.tokens CString.dot
  rw [List.length_append]
  exact tokensFrom_slash (List.cons_ne_nil _ _) (List.forall_mem_singleton.mpr rfl) path.bytes.length 1
    path.bytes le_rfl

end Tokens

def Node.erase (node : Node) : TreeNode := ⟨node.path, node.isDir, node.chain.length⟩

def treeOf (nodes : List Node) : Tree := nodes.map Node.erase

def FsSuperblock.space (sb : FsSuperblock) : Space := ⟨sb.dataBlocks.length, sb.dirEntries⟩

section Abstraction

variable {sb : FsSuperblock} {disk : Disk} {nodes : List Node}

theorem treeOf_isDirectory {path : List Name} : (treeOf nodes).IsDirectory path ↔
    ∃ node ∈ nodes, node.path = path ∧ node.isDir = true := by
  simp [Tree.IsDirectory, treeOf, Node.erase]

theorem treeOf_isFile {path : List Name} : (treeOf nodes).IsFile path ↔
    ∃ node ∈ nodes, node.path = path ∧ node.isDir = false := by
  simp [Tree.IsFile, treeOf, Node.erase]

theorem treeOf_absent {path : List Name} : (∀ node ∈ treeOf nodes, node.path ≠ path) ↔
    ∀ node ∈ nodes, node.path ≠ path := List.forall_mem_map

theorem treeOf_clear {path : List Name} (clear : (treeOf nodes).Clear path) {node : Node}
    (isNode : node ∈ nodes) (isFile : node.isDir = false) {rest : List Name}
    (isPath : path = node.path ++ rest) : rest = [] := by
  have same := clear node.erase (List.mem_map_of_mem isNode) isFile ⟨rest, isPath.symm⟩
  rw [isPath] at same
  exact List.self_eq_append_right.mp same

theorem treeOf_remove (path : List Name) :
    (treeOf nodes).remove path = treeOf (nodes.filter fun node => node.path ≠ path) := by
  rw [treeOf, Tree.remove, List.filter_map]
  rfl

theorem treeOf_grow (path : List Name) (k : Nat) :
    (treeOf nodes).grow path = treeOf (nodes.map (Node.grow path k)) := by
  rw [treeOf, treeOf, Tree.grow, List.map_map, List.map_map]
  apply List.map_congr_left
  intro node _
  by_cases here : node.path = path
  · simp [Node.erase, Node.grow, here]
  · simp [Node.erase, Node.grow, here]

theorem Layout.free_eq (layout : Layout sb disk nodes) (formatted : sb.Formatted) :
    (treeOf nodes).free sb.space =
      sb.dataBlocks.countP fun block => sb.follower disk block = uhfsFreeblk := by
  have count := layout.count formatted
  have blocks : ((treeOf nodes).map TreeNode.blocks).sum = (nodes.map Node.chain).flatten.length := by
    rw [List.length_flatten, treeOf, List.map_map, List.map_map]
    rfl
  rw [Tree.free, blocks, FsSuperblock.space]
  simp only
  omega

theorem treeOf_below (dir : List Name) : (treeOf nodes).below dir =
    ((nodes.map Node.path).filter fun path => path ≠ [] ∧ path.dropLast = dir).length := by
  rw [← List.countP_eq_length_filter, List.countP_map, treeOf, Tree.below, List.countP_map]
  rfl

theorem Layout.below_eq (layout : Layout sb disk nodes) {dir : Node} (isNode : dir ∈ nodes)
    (isDir : dir.isDir = true) : (treeOf nodes).below dir.path =
      (dir.chain ×ˢ List.range sb.dirEntries).countP fun place =>
        (slotAt disk place.1 place.2).isFree = false := by
  have member : ∀ place, place ∈ (dir.chain ×ˢ List.range sb.dirEntries).filter (fun place =>
      (slotAt disk place.1 place.2).isFree = false) ↔ Entry sb disk dir place.1 place.2 := by
    rintro ⟨block, i⟩
    rw [List.mem_filter, List.mem_product, List.mem_range, decide_eq_true_eq]
    exact ⟨fun ⟨⟨held, inside⟩, live⟩ => ⟨held, inside, live⟩,
      fun entry => ⟨⟨entry.held, entry.inside⟩, entry.live⟩⟩
  have apart : dir.chain.Nodup := (List.nodup_flatten.mp layout.owned.apart).1 _ (layout.chain_mem isNode).1
  have places : (dir.chain ×ˢ List.range sb.dirEntries).Nodup := apart.product List.nodup_range
  have distinct := places.filter fun place => (slotAt disk place.1 place.2).isFree = false
  rw [treeOf_below, List.countP_eq_length_filter]
  have perm : ((nodes.map Node.path).filter fun path => path ≠ [] ∧ path.dropLast = dir.path).Perm
      (((dir.chain ×ˢ List.range sb.dirEntries).filter fun place =>
        (slotAt disk place.1 place.2).isFree = false).map fun place =>
          dir.path ++ [(slotAt disk place.1 place.2).name]) := by
    rw [List.perm_ext_iff_of_nodup (layout.keys.filter _)]
    · intro path
      rw [List.mem_filter, List.mem_map, List.mem_map, decide_eq_true_eq]
      constructor
      · rintro ⟨⟨child, isChild, rfl⟩, some, above⟩
        have parts := List.dropLast_append_getLast some
        rw [above] at parts
        obtain ⟨_, block, i, entry, named, _⟩ := layout.entry_of isNode isChild parts.symm
        exact ⟨(block, i), (member (block, i)).mpr entry, by rw [named, parts]⟩
      · rintro ⟨⟨block, i⟩, live, rfl⟩
        obtain ⟨child, isChild, leads⟩ :=
          layout.listed dir isNode isDir block i ((member (block, i)).mp live)
        refine ⟨⟨child, isChild, leads.path⟩, ?_, List.dropLast_concat⟩
        exact List.append_ne_nil_of_right_ne_nil _ (List.cons_ne_nil _ _)
    · refine List.Nodup.map_on ?_ distinct
      rintro ⟨block, i⟩ inA ⟨block', i'⟩ inB same
      have names := List.singleton_inj.mp (List.append_cancel_left same)
      obtain ⟨rfl, rfl⟩ := layout.single dir isNode isDir block i block' i' ((member _).mp inA)
        ((member _).mp inB) names
      rfl
  rw [perm.length_eq, List.length_map]

theorem Layout.hasRoom_iff (layout : Layout sb disk nodes) {dir : Node} (isNode : dir ∈ nodes)
    (isDir : dir.isDir = true) :
    (treeOf nodes).HasRoom sb.space dir.path ↔ HasEmpty sb disk dir.chain := by
  have places : (treeOf nodes).HasRoom sb.space dir.path ↔
      (treeOf nodes).below dir.path < dir.chain.length * sb.dirEntries := by
    constructor
    · rintro ⟨node, member, path, room⟩
      obtain ⟨other, isOther, rfl⟩ := List.mem_map.mp member
      obtain rfl := layout.same_path isOther isNode path
      exact room
    · exact fun room => ⟨dir.erase, List.mem_map_of_mem isNode, rfl, room⟩
  have total : (dir.chain ×ˢ List.range sb.dirEntries).length =
      dir.chain.length * sb.dirEntries := by
    rw [List.length_product, List.length_range]
  have split := List.length_eq_countP_add_countP (fun place : Nat × Nat =>
    decide ((slotAt disk place.1 place.2).isFree = false)) (l := dir.chain ×ˢ List.range sb.dirEntries)
  rw [places, layout.below_eq isNode isDir, ← total, split]
  have some : HasEmpty sb disk dir.chain ↔ 0 < (dir.chain ×ˢ List.range sb.dirEntries).countP
      fun place => ¬decide ((slotAt disk place.1 place.2).isFree = false) = true := by
    rw [List.countP_pos_iff]
    constructor
    · rintro ⟨block, inChain, i, inside, empty⟩
      exact ⟨(block, i), List.mem_product.mpr ⟨inChain, List.mem_range.mpr inside⟩, by simp [empty]⟩
    · rintro ⟨⟨block, i⟩, member, empty⟩
      obtain ⟨inChain, inside⟩ := List.mem_product.mp member
      exact ⟨block, inChain, i, List.mem_range.mp inside, by simpa using empty⟩
  rw [some]
  omega

theorem treeOf_vacant {path : List Name} : (treeOf nodes).Vacant path ↔ path ≠ [] ∧
    (∃ node ∈ nodes, node.path = path.dropLast ∧ node.isDir = true) ∧
    ∀ node ∈ nodes, node.path ≠ path := by
  rw [Tree.Vacant, treeOf_isDirectory, treeOf_absent]

theorem treeOf_leaf {dir : List Name} : (treeOf nodes).below dir = 0 ↔
    ∀ node ∈ nodes, ∀ other, node.path ≠ dir ++ [other] := by
  rw [treeOf_below, List.length_eq_zero_iff, List.filter_eq_nil_iff, List.forall_mem_map]
  apply forall₂_congr
  intro node _
  rw [decide_eq_true_eq]
  constructor
  · intro apart other below
    refine apart ⟨?_, by rw [below, List.dropLast_concat]⟩
    rw [below]
    exact List.append_ne_nil_of_right_ne_nil _ (List.cons_ne_nil _ _)
  · rintro apart ⟨some, above⟩
    have parts := List.dropLast_append_getLast some
    rw [above] at parts
    exact apart _ parts.symm

theorem Layout.missing (layout : Layout sb disk nodes) {above rest : List Name} {name : Name}
    (absent : ∀ child ∈ nodes, child.path ≠ above ++ [name]) (node : Node) (isNode : node ∈ nodes) :
    node.path ≠ above ++ name :: rest := by
  intro path
  rw [List.append_cons] at path
  by_cases last : rest = []
  · rw [last, List.append_nil] at path
    exact absent node isNode path
  · obtain ⟨dir, isDir, here, _⟩ := layout.above isNode path last
    exact absent dir isDir here

theorem Layout.file_end (layout : Layout sb disk nodes) {node child : Node} (isNode : node ∈ nodes)
    (isChild : child ∈ nodes) (isFile : child.isDir = false) {rest : List Name}
    (path : node.path = child.path ++ rest) : rest = [] := by
  by_contra more
  obtain ⟨dir, isDir, here, isDirectory⟩ := layout.above isNode path more
  rw [layout.same_path isDir isChild here, isFile] at isDirectory
  cases isDirectory

theorem Ends.vacant_iff {tokens : List Name} {found : Int} (ends : Ends nodes tokens found)
    (layout : Layout sb disk nodes) (clear : (treeOf nodes).Clear tokens) :
    found = 0 ↔ (treeOf nodes).Vacant tokens := by
  rw [treeOf_vacant]
  cases ends with
  | @vacant dir name path isNode isDir absent =>
      refine ⟨fun _ => ⟨?_, ⟨dir, isNode, ?_, isDir⟩, absent⟩, fun _ => rfl⟩
      · rw [path]
        exact List.append_ne_nil_of_right_ne_nil _ (List.cons_ne_nil _ _)
      · rw [path, List.dropLast_concat]
  | @file child rest path isChild isFile =>
      refine ⟨fun zero => (by cases zero), fun ⟨_, _, absent⟩ => absurd ?_ (absent child isChild)⟩
      rw [path, treeOf_clear clear isChild isFile path, List.append_nil]
  | directory path isNode _ =>
      exact ⟨fun zero => (by cases zero), fun ⟨_, _, absent⟩ => absurd path (absent _ isNode)⟩
  | @lost above name rest path more absent =>
      refine ⟨fun zero => (by cases zero), fun ⟨_, ⟨node, isNode, isParent, _⟩, _⟩ => ?_⟩
      rw [path, List.dropLast_append_of_ne_nil (List.cons_ne_nil _ _),
        List.dropLast_cons_of_ne_nil more] at isParent
      exact absurd isParent (layout.missing absent node isNode)

theorem Ends.file_iff {tokens : List Name} {found : Int} (ends : Ends nodes tokens found)
    (layout : Layout sb disk nodes) (clear : (treeOf nodes).Clear tokens) :
    found = 1 ↔ (treeOf nodes).IsFile tokens := by
  rw [treeOf_isFile]
  cases ends with
  | vacant path isNode isDir absent =>
      exact ⟨fun one => (by cases one), fun ⟨node, isNode, here, _⟩ => absurd here (absent node isNode)⟩
  | @file child rest path isChild isFile =>
      refine ⟨fun _ => ⟨child, isChild, ?_, isFile⟩, fun _ => rfl⟩
      rw [path, treeOf_clear clear isChild isFile path, List.append_nil]
  | directory path isNode isDir =>
      refine ⟨fun one => (by cases one), fun ⟨other, isOther, here, isFile⟩ => ?_⟩
      rw [layout.same_path isOther isNode (here.trans path.symm), isDir] at isFile
      cases isFile
  | lost path more absent =>
      refine ⟨fun one => (by cases one), fun ⟨node, isNode, here, _⟩ => ?_⟩
      exact absurd (here.trans path) (layout.missing absent node isNode)

def NoDots (nodes : List Node) : Prop := ∀ node ∈ nodes, [46] ∉ node.path

theorem Ends.dot_iff {tokens : List Name} {found : Int} (ends : Ends nodes (tokens ++ [[46]]) found)
    (layout : Layout sb disk nodes) (noDots : NoDots nodes) :
    found = 0 ↔ (treeOf nodes).IsDirectory tokens := by
  rw [treeOf_isDirectory]
  cases ends with
  | @vacant dir name path isNode isDir absent =>
      exact ⟨fun _ => ⟨dir, isNode, (List.append_inj' path rfl).1.symm, isDir⟩, fun _ => rfl⟩
  | @file child rest path isChild isFile =>
      refine ⟨fun zero => (by cases zero), fun ⟨node, isNode, here, isDir⟩ => ?_⟩
      rcases List.eq_nil_or_concat rest with rfl | ⟨rest, last, rfl⟩
      · refine absurd ?_ (noDots child isChild)
        rw [List.append_nil] at path
        rw [← path]
        simp
      · rw [List.concat_eq_append, ← List.append_assoc] at path
        have sameTokens := (List.append_inj' path rfl).1
        rw [sameTokens] at here
        obtain rfl := layout.file_end isNode isChild isFile here
        rw [List.append_nil] at here
        rw [layout.same_path isNode isChild here, isFile] at isDir
        cases isDir
  | @directory node path isNode isDir =>
      refine absurd ?_ (noDots node isNode)
      rw [path]
      simp
  | @lost above name rest path more absent =>
      refine ⟨fun zero => (by cases zero), fun ⟨node, isNode, here, _⟩ => ?_⟩
      obtain ⟨rest, last, rfl⟩ := (List.eq_nil_or_concat rest).resolve_left more
      rw [List.concat_eq_append, ← List.cons_append, ← List.append_assoc] at path
      rw [(List.append_inj' path rfl).1] at here
      exact absurd here (layout.missing absent node isNode)

variable {fuel : Nat} {path : CString}

theorem Created.tree {dir : Node} {name : Name} {isDir : Bool} {result : Int} {nodes' : List Node}
    (created : Created sb disk nodes dir name isDir result nodes') (formatted : sb.Formatted)
    (layout : Layout sb disk nodes) (isNode : dir ∈ nodes) (isDirectory : dir.isDir = true)
    (absent : ∀ child ∈ nodes, child.path ≠ dir.path ++ [name]) :
    (result = if (treeOf nodes).need sb.space dir.path ≤ (treeOf nodes).free sb.space then 0 else -1) ∧
      treeOf nodes' = if (treeOf nodes).need sb.space dir.path ≤ (treeOf nodes).free sb.space then
        ⟨dir.path ++ [name], isDir, 1⟩ :: (treeOf nodes).extended sb.space (dir.path ++ [name])
      else (treeOf nodes).extended sb.space (dir.path ++ [name]) := by
  have vacant : (treeOf nodes).Vacant (dir.path ++ [name]) := by
    rw [treeOf_vacant, List.dropLast_concat]
    exact ⟨List.append_ne_nil_of_right_ne_nil _ (List.cons_ne_nil _ _), ⟨dir, isNode, rfl, isDirectory⟩,
      absent⟩
  have room := layout.hasRoom_iff isNode isDirectory
  have free : (treeOf nodes).free sb.space =
      (sb.dataBlocks.filter fun block => sb.follower disk block = uhfsFreeblk).length := by
    rw [layout.free_eq formatted, List.countP_eq_length_filter]
  have member : ∀ block, block ∈ sb.dataBlocks.filter (fun block => sb.follower disk block = uhfsFreeblk) ↔
      sb.IsData block ∧ sb.follower disk block = uhfsFreeblk := by
    intro block
    rw [List.mem_filter, mem_dataBlocks, decide_eq_true_eq]
  have distinct : (sb.dataBlocks.filter fun block => sb.follower disk block = uhfsFreeblk).Nodup :=
    dataBlocks_nodup.filter _
  unfold Tree.extended Tree.need
  rw [List.dropLast_concat, free]
  cases created with
  | noBlock none =>
      have empty : sb.dataBlocks.filter (fun block => sb.follower disk block = uhfsFreeblk) = [] := by
        rw [List.eq_nil_iff_forall_not_mem]
        intro block inside
        exact none block ((member block).mp inside).1 ((member block).mp inside).2
      have few : ¬(if (treeOf nodes).HasRoom sb.space dir.path then 1 else 2) ≤ 0 := by
        split <;> decide
      rw [empty, List.length_nil, if_neg few, if_neg few, if_neg (fun both => absurd both.2.2 (by decide))]
      exact ⟨rfl, rfl⟩
  | @placed k has isData isFree =>
      have some : 1 ≤ (sb.dataBlocks.filter fun block => sb.follower disk block = uhfsFreeblk).length :=
        List.length_pos_of_mem ((member k).mpr ⟨isData, isFree⟩)
      rw [if_pos (room.mpr has), if_pos some, if_pos some, if_neg (fun both => both.2.1 (room.mpr has))]
      exact ⟨rfl, rfl⟩
  | @extended k full isData isFree others =>
      have least := List.length_pos_of_mem ((member k).mpr ⟨isData, isFree⟩)
      have most : (sb.dataBlocks.filter fun block => sb.follower disk block = uhfsFreeblk).length ≤ 1 := by
        have only : sb.dataBlocks.filter (fun block => sb.follower disk block = uhfsFreeblk) ⊆ [k] := by
          intro block inside
          obtain ⟨blockData, blockFree⟩ := (member block).mp inside
          by_contra apart
          exact others block blockData (by simpa using apart) blockFree
        exact (List.subperm_of_subset distinct only).length_le
      have few : ¬2 ≤ (sb.dataBlocks.filter fun block => sb.follower disk block = uhfsFreeblk).length := by
        omega
      rw [if_neg (mt room.mp full), if_neg few, if_neg few, if_pos ⟨vacant, mt room.mp full, least⟩]
      exact ⟨rfl, (treeOf_grow _ k).symm⟩
  | @grown k k' full isData isFree isData' isFree' apart =>
      have pair : 2 ≤ (sb.dataBlocks.filter fun block => sb.follower disk block = uhfsFreeblk).length := by
        have both : [k', k] ⊆ sb.dataBlocks.filter fun block => sb.follower disk block = uhfsFreeblk := by
          intro block inside
          rcases List.mem_cons.mp inside with rfl | inside
          · exact (member _).mpr ⟨isData', isFree'⟩
          · exact (member _).mpr (List.mem_singleton.mp inside ▸ ⟨isData, isFree⟩)
        have two : [k', k].Nodup := by simp [apart]
        exact (List.subperm_of_subset two both).length_le
      rw [if_neg (mt room.mp full), if_pos pair, if_pos pair,
        if_pos ⟨vacant, mt room.mp full, by omega⟩]
      refine ⟨rfl, ?_⟩
      rw [treeOf_grow _ k]
      rfl

theorem Inserted.tree {isDir : Bool} {result : Int} {disk' : Disk} {nodes' : List Node}
    {tokens : List Name} (inserted : Inserted sb disk nodes tokens isDir result disk' nodes')
    (formatted : sb.Formatted) (layout : Layout sb disk nodes) (clear : (treeOf nodes).Clear tokens) :
    (result = if (treeOf nodes).Vacant tokens ∧
        (treeOf nodes).need sb.space tokens.dropLast ≤ (treeOf nodes).free sb.space then 0 else -1) ∧
      treeOf nodes' = if (treeOf nodes).Vacant tokens ∧
          (treeOf nodes).need sb.space tokens.dropLast ≤ (treeOf nodes).free sb.space then
        ⟨tokens, isDir, 1⟩ :: (treeOf nodes).extended sb.space tokens
      else (treeOf nodes).extended sb.space tokens := by
  cases inserted with
  | @tried dir name _ _ _ path isNode isDirectory absent created =>
      obtain ⟨result_eq, tree_eq⟩ := created.tree formatted layout isNode isDirectory
        fun child isChild => path ▸ absent child isChild
      have vacant : (treeOf nodes).Vacant tokens := by
        rw [treeOf_vacant, path, List.dropLast_concat, ← path]
        refine ⟨?_, ⟨dir, isNode, rfl, isDirectory⟩, absent⟩
        rw [path]
        exact List.append_ne_nil_of_right_ne_nil _ (List.cons_ne_nil _ _)
      simp only [vacant, true_and]
      rw [path, List.dropLast_concat]
      exact ⟨result_eq, tree_eq⟩
  | @refused found ends notZero =>
      have occupied : ¬(treeOf nodes).Vacant tokens :=
        fun vacant => notZero ((ends.vacant_iff layout clear).mpr vacant)
      rw [if_neg fun both => occupied both.1, if_neg fun both => occupied both.1, Tree.extended,
        if_neg fun both => occupied both.1]
      exact ⟨rfl, rfl⟩

theorem CString.Plain.short (plain : path.Plain) : path.Short := fun token member => (plain token member).1

theorem CString.Plain.dot_short (plain : path.Plain) : path.dot.Short := by
  intro token member
  rw [CString.tokens_dot, List.mem_append, List.mem_singleton] at member
  rcases member with inPath | rfl
  · exact plain.short token inPath
  · decide

theorem Inserted.noDots {isDir : Bool} {result : Int} {disk' : Disk} {nodes' : List Node}
    (inserted : Inserted sb disk nodes path.tokens isDir result disk' nodes') (plain : path.Plain)
    (noDots : NoDots nodes) : NoDots nodes' := by
  have grown : ∀ dir k, NoDots (nodes.map (Node.grow dir k)) := by
    intro dir k node member
    obtain ⟨old, isOld, rfl⟩ := List.mem_map.mp member
    rw [Node.grow_path]
    exact noDots old isOld
  have new : [46] ∉ path.tokens := fun member => (plain _ member).2 rfl
  cases inserted with
  | tried isPath isNode isDirectory absent created =>
      rw [isPath] at new
      cases created with
      | noBlock _ => exact noDots
      | placed _ _ _ => exact List.forall_mem_cons.mpr ⟨new, noDots⟩
      | extended _ _ _ _ => exact grown _ _
      | grown _ _ _ _ _ _ => exact List.forall_mem_cons.mpr ⟨new, grown _ _⟩
  | refused _ _ => exact noDots

theorem NoDots.filter (noDots : NoDots nodes) (dir : List Name) :
    NoDots (nodes.filter fun node => node.path ≠ dir) :=
  fun node member => noDots node (List.mem_filter.mp member).1

structure Stands (sb : FsSuperblock) (disk : Disk) (nodes : List Node) : Prop where
  layout : Layout sb disk nodes
  noDots : NoDots nodes

theorem Stands.perform (stands : Stands sb disk nodes) (formatted : sb.Formatted) (one : sb.OneRegion)
    (enough : sb.nBlocks ≤ fuel) {op : TreeOp} (allowed : op.Allowed (treeOf nodes)) :
    ∃ disk' nodes', sb.perform fuel disk op.call = .ok ((treeOf nodes).result sb.space op, disk') ∧
      Stands sb disk' nodes' ∧ treeOf nodes' = (treeOf nodes).next sb.space op := by
  obtain ⟨layout, noDots⟩ := stands
  cases op with
  | mkdir path =>
      obtain ⟨plain, clear⟩ := allowed
      obtain ⟨result, disk', nodes', done, layout', inserted⟩ :=
        insert_spec formatted one layout enough plain.short mkdir_fresh
      obtain ⟨result_eq, tree_eq⟩ := inserted.tree formatted layout clear
      refine ⟨disk', nodes', ?_, ⟨layout', inserted.noDots plain noDots⟩, tree_eq⟩
      rw [show (treeOf nodes).result sb.space (.mkdir path) = result from result_eq.symm]
      exact done
  | create path =>
      obtain ⟨plain, clear⟩ := allowed
      obtain ⟨result, disk', nodes', done, layout', inserted⟩ :=
        insert_spec formatted one layout enough plain.short create_fresh
      obtain ⟨result_eq, tree_eq⟩ := inserted.tree formatted layout clear
      refine ⟨disk', nodes', ?_, ⟨layout', inserted.noDots plain noDots⟩, tree_eq⟩
      rw [show (treeOf nodes).result sb.space (.create path) = result from result_eq.symm]
      exact done
  | unlink path =>
      obtain ⟨plain, clear⟩ := allowed
      obtain ⟨result, disk', nodes', done, layout', unlinked⟩ :=
        hfUnlink_spec formatted one layout enough plain.short
      have legal : (treeOf nodes).Legal sb.space (.unlink path) ↔ (treeOf nodes).IsFile path.tokens := Iff.rfl
      simp only [Tree.result, Tree.next, legal, TreeOp.call, FsSuperblock.perform, done]
      cases unlinked with
      | @removed child rest disk' isPath isChild isFile =>
          obtain rfl := treeOf_clear clear isChild isFile isPath
          rw [List.append_nil] at isPath
          have file := treeOf_isFile.mpr ⟨child, isChild, isPath.symm, isFile⟩
          refine ⟨disk', _, by rw [if_pos file], ⟨layout', noDots.filter _⟩, ?_⟩
          rw [if_pos file, treeOf_remove]
          simp only [isPath]
      | refused ends notOne =>
          have notFile := mt (ends.file_iff layout clear).mpr notOne
          exact ⟨disk, nodes, by rw [if_neg notFile], ⟨layout, noDots⟩, by rw [if_neg notFile]⟩
  | rmdir path =>
      obtain ⟨plain, notRoot, isDirectory⟩ := allowed
      have starts : StartsInDirectory nodes path.dot.tokens := by
        obtain ⟨dir, isNode, isPath, isDir⟩ := treeOf_isDirectory.mp isDirectory
        obtain ⟨name, rest, tokens⟩ := List.exists_cons_of_ne_nil notRoot
        rw [CString.tokens_dot, tokens]
        rw [tokens] at isPath
        by_cases last : rest = []
        · exact ⟨dir, isNode, isDir, name, _, rfl, by rw [isPath, last]⟩
        · obtain ⟨first, isFirst, here, firstDir⟩ := layout.above isNode (show dir.path = [name] ++ rest from isPath) last
          exact ⟨first, isFirst, firstDir, name, _, rfl, here⟩
      obtain ⟨result, disk', nodes', done, layout', pruned⟩ :=
        hfRmdir_spec formatted one layout enough plain.dot_short starts
      have legal : (treeOf nodes).Legal sb.space (.rmdir path) ↔ (treeOf nodes).below path.tokens = 0 :=
        ⟨fun both => both.2, fun leaf => ⟨isDirectory, leaf⟩⟩
      simp only [Tree.result, Tree.next, legal, TreeOp.call, FsSuperblock.perform, done]
      rw [CString.tokens_dot] at pruned
      cases pruned with
      | @removed dir name disk' isPath _ isNode isDir absent leaf =>
          have here := (List.append_inj' isPath rfl).1
          rw [← here] at leaf
          have empty := treeOf_leaf.mpr leaf
          refine ⟨disk', _, by rw [if_pos empty], ⟨layout', noDots.filter _⟩, ?_⟩
          rw [if_pos empty, treeOf_remove, here]
      | @full dir name node other isPath isDir isDirectory absent isNode below =>
          have here := (List.append_inj' isPath rfl).1
          have notEmpty : ¬(treeOf nodes).below path.tokens = 0 := by
            rw [treeOf_leaf, here]
            exact fun leaf => leaf node isNode other below
          exact ⟨disk, nodes, by rw [if_neg notEmpty], ⟨layout, noDots⟩, by rw [if_neg notEmpty]⟩
      | refused ends notZero => exact absurd ((ends.dot_iff layout noDots).mpr isDirectory) notZero

theorem Stands.hfSize (stands : Stands sb disk nodes) (formatted : sb.Formatted) (one : sb.OneRegion)
    (enough : sb.nBlocks ≤ fuel) (short : path.Short) (clear : (treeOf nodes).Clear path.tokens) :
    ∃ size, sb.hfSize fuel disk path = .ok size ∧ (0 ≤ size ↔ (treeOf nodes).IsFile path.tokens) := by
  obtain ⟨layout, _⟩ := stands
  obtain ⟨root, search, isRoot, top, found, located⟩ :=
    searchdirectory_spec formatted one layout enough short
  rw [← (located.ends top).file_iff layout clear, FsSuperblock.hfSize, found]
  simp only [bind, Except.bind]
  by_cases isOne : search.result = 1
  · rw [if_neg (not_not.mpr isOne)]
    obtain ⟨dir, child, i, name, rest, _, held, member, _, _, kept⟩ := located.file_of_one top isOne
    have entry := findEntry_spec layout held.isNode held.isDir held.entry (short.names name member)
      held.named
    have size : fileSize (disk search.pblock) i = 0 := held.leads.size
    rw [kept, Option.getD_some, entry]
    exact ⟨0, by simp only [size]; rfl, by simp [isOne]⟩
  · rw [if_pos isOne]
    exact ⟨-1, rfl, by simp [isOne]⟩

theorem Stands.hfOpendir (stands : Stands sb disk nodes) (formatted : sb.Formatted) (one : sb.OneRegion)
    (enough : sb.nBlocks ≤ fuel) (plain : path.Plain) :
    ∃ found, sb.hfOpendir fuel disk path.dot = .ok found ∧
      (found ≠ none ↔ (treeOf nodes).IsDirectory path.tokens) := by
  obtain ⟨layout, noDots⟩ := stands
  obtain ⟨root, search, isRoot, top, found, located⟩ :=
    searchdirectory_spec formatted one layout enough plain.dot_short
  have ends := located.ends top
  rw [CString.tokens_dot] at ends
  rw [← ends.dot_iff layout noDots, FsSuperblock.hfOpendir, found]
  simp only [bind, Except.bind]
  by_cases zero : search.result = 0
  · exact ⟨some search.lblock, by rw [if_pos zero], by simp [zero]⟩
  · exact ⟨none, by rw [if_neg zero], by simp [zero]⟩

end Abstraction

def Tree.runs (space : Space) : Tree → List TreeOp → List Int × Tree
  | tree, [] => ([], tree)
  | tree, op :: rest =>
      let later := runs space (tree.next space op) rest
      (tree.result space op :: later.1, later.2)

def Tree.AllAllowed (space : Space) : Tree → List TreeOp → Prop
  | _, [] => True
  | tree, op :: rest => op.Allowed tree ∧ AllAllowed space (tree.next space op) rest

instance Tree.decidableAllAllowed (space : Space) : ∀ (tree : Tree) (ops : List TreeOp),
    Decidable (tree.AllAllowed space ops)
  | _, [] => inferInstanceAs (Decidable True)
  | tree, op :: rest =>
      have := decidableAllAllowed space (tree.next space op) rest
      inferInstanceAs (Decidable (_ ∧ _))

def Device.runs (fuel : Nat) : Device → List UhfsOp → Except UhfsFault (List Int × Device)
  | device, [] => .ok ([], device)
  | device, op :: rest => do
      let (result, device) ← device.perform fuel op
      let (results, device) ← runs fuel device rest
      .ok (result :: results, device)

theorem Stands.runs {sb : FsSuperblock} {fuel : Nat} (formatted : sb.Formatted) (one : sb.OneRegion)
    (enough : sb.nBlocks ≤ fuel) (ops : List TreeOp) : ∀ (device : Device) nodes, device.ptr = some sb →
      Stands sb device.disk nodes → (treeOf nodes).AllAllowed sb.space ops →
      ∃ (later : Device) (nodes' : List Node), device.runs fuel (ops.map TreeOp.call) =
          .ok (((treeOf nodes).runs sb.space ops).1, later) ∧
        Stands sb later.disk nodes' ∧ treeOf nodes' = ((treeOf nodes).runs sb.space ops).2 := by
  induction ops with
  | nil => exact fun device nodes _ stands _ => ⟨device, nodes, rfl, stands, rfl⟩
  | cons op rest ih =>
      intro device nodes mounted stands allowed
      obtain ⟨disk', nodes', done, stands', tree⟩ := stands.perform formatted one enough allowed.1
      have allowed' := allowed.2
      rw [← tree] at allowed'
      obtain ⟨later, nodes'', ran, stands'', tree'⟩ :=
        ih { device with disk := disk' } nodes' mounted stands' allowed'
      have performed : device.perform fuel op.call =
          .ok ((treeOf nodes).result sb.space op, { device with disk := disk' }) := by
        rw [Device.perform_eq mounted, done]
        rfl
      refine ⟨later, nodes'', ?_, stands'', ?_⟩
      · rw [List.map_cons, Device.runs, performed]
        simp only [bind, Except.bind]
        rw [ran, tree]
        rfl
      · rw [tree', tree]
        rfl

def Tree.empty : Tree := [⟨[], true, 1⟩]

/-- On a new volume with one storage region, the results of the calls are those of the tree, and
afterwards `hf_size` and `hf_opendir` find its files and its directories. -/
theorem refines_tree {device : Device} {blkSize : UInt32} (unmounted : device.ptr = none)
    (size : blkSize.toNat = device.info.bytesSector.toNat) (one : device.info.OneRegion) {fuel : Nat}
    (enough : device.info.volume.nBlocks ≤ fuel) :
    ∃ formatted mounted, hfMkfs blkSize device = (0, formatted) ∧ hfMount formatted = (0, mounted) ∧
      ∀ ops, Tree.empty.AllAllowed device.info.volume.space ops →
        ∃ later, mounted.runs fuel (ops.map TreeOp.call) =
            .ok ((Tree.empty.runs device.info.volume.space ops).1, later) ∧
          ∀ path : CString, path.Plain →
            ((Tree.empty.runs device.info.volume.space ops).2.Clear path.tokens →
              ∃ size, device.info.volume.hfSize fuel later.disk path = .ok size ∧
                (0 ≤ size ↔ (Tree.empty.runs device.info.volume.space ops).2.IsFile path.tokens)) ∧
            ∃ found, device.info.volume.hfOpendir fuel later.disk path.dot = .ok found ∧
              (found ≠ none ↔
                (Tree.empty.runs device.info.volume.space ops).2.IsDirectory path.tokens) := by
  have roomy := one.roomy
  have formatted := roomy.toFormatted
  have region : device.info.volume.OneRegion := one.region
  obtain ⟨disk, made, mounted, layout⟩ := format_spec unmounted size roomy
  refine ⟨_, _, made, mounted, fun ops allowed => ?_⟩
  have noDots : NoDots emptyNodes := by
    intro node member
    obtain rfl := List.mem_singleton.mp member
    exact List.not_mem_nil
  obtain ⟨later, nodes, ran, stands, tree⟩ := Stands.runs formatted region enough ops
    { device with disk, ptr := some device.info.volume } emptyNodes rfl ⟨layout, noDots⟩ allowed
  have final : treeOf nodes = (Tree.empty.runs device.info.volume.space ops).2 := tree
  refine ⟨later, ran, fun path plain => ?_⟩
  rw [← final]
  exact ⟨stands.hfSize formatted region enough plain.short, stands.hfOpendir formatted region enough plain⟩

/-- A directory with a file on a volume of eight blocks. -/
theorem refines_tree_file :
    ∃ formatted mounted later,
      hfMkfs 128 ⟨⟨8, 128⟩, fun _ => zeroBlock, none⟩ = (0, formatted) ∧
        hfMount formatted = (0, mounted) ∧
        mounted.runs 8 [.mkdir ⟨[47, 97], by decide⟩, .create ⟨[47, 97, 47, 98], by decide⟩,
          .rmdir ⟨[47, 97, 47, 46], by decide⟩] = .ok ([0, 0, -1], later) ∧
        ∃ size, (BlkInfo.volume ⟨8, 128⟩).hfSize 8 later.disk ⟨[47, 97, 47, 98], by decide⟩ = .ok size ∧
          0 ≤ size := by
  have one := eightBlocks_oneRegion
  have enough : (BlkInfo.volume ⟨8, 128⟩).nBlocks ≤ 8 := by decide
  have size : (128 : UInt32).toNat = (128 : UInt16).toNat := by decide
  obtain ⟨formatted, mounted, made, isMounted, runs⟩ := refines_tree
    (show (⟨⟨8, 128⟩, fun _ => zeroBlock, none⟩ : Device).ptr = none from rfl) size one enough
  obtain ⟨later, ran, queries⟩ := runs [.mkdir ⟨[47, 97], by decide⟩,
    .create ⟨[47, 97, 47, 98], by decide⟩, .rmdir ⟨[47, 97], by decide⟩] (by decide)
  obtain ⟨size, found, means⟩ := (queries ⟨[47, 97, 47, 98], by decide⟩ (by decide)).1 (by decide)
  exact ⟨formatted, mounted, later, made, isMounted, ran, size, found, means.mpr (by decide)⟩

end Hellfire

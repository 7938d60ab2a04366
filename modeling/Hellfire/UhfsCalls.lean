import Hellfire.Library.Splitting
import Hellfire.UhfsChanges
import Mathlib.Data.List.Induction

/-!
The calls that change a volume with one storage region, from the path to the nodes.
-/

namespace Hellfire

open ByteMemory Chains Splitting

theorem strtok_segment {before run after : List UInt8} (delimiters : ∀ c ∈ before, isDelimiter c = true)
    (nonempty : run ≠ []) (free : ∀ c ∈ run, isDelimiter c = false)
    (stops : ∀ c ∈ after.head?, isDelimiter c = true) :
    strtok (before ++ (run ++ after)) = some (run, after.drop 1) := by
  have kept : ∀ c ∈ run, (!isDelimiter c) = true := by
    intro c member
    rw [free c member]
    rfl
  have ends : after.takeWhile (fun c => !isDelimiter c) = [] ∧
      after.dropWhile (fun c => !isDelimiter c) = after := by
    cases after with
    | nil => exact ⟨rfl, rfl⟩
    | cons delimiter after =>
        have stop : ¬(!isDelimiter delimiter) = true := by
          rw [stops delimiter rfl]
          decide
        exact ⟨List.takeWhile_cons_of_neg stop, List.dropWhile_cons_of_neg stop⟩
  have start : (before ++ (run ++ after)).dropWhile isDelimiter = run ++ after := by
    obtain ⟨first, others, rfl⟩ := List.exists_cons_of_ne_nil nonempty
    rw [List.dropWhile_append_of_pos delimiters, List.cons_append, List.dropWhile_cons_of_neg]
    rw [free first List.mem_cons_self]
    decide
  obtain ⟨first, others, same⟩ :=
    List.exists_cons_of_ne_nil (List.append_ne_nil_of_left_ne_nil nonempty after)
  rw [strtok, start, same]
  simp only
  rw [← same, List.takeWhile_append_of_pos kept, List.dropWhile_append_of_pos kept, ends.1, ends.2,
    List.append_nil]

theorem strtok_blank {string : List UInt8} (blank : ∀ byte ∈ string, isDelimiter byte = true) :
    strtok string = none := by
  rw [strtok, List.dropWhile_eq_nil_iff.mpr blank]

theorem strtok_cases (string : List UInt8) :
    ((∀ byte ∈ string, isDelimiter byte = true) ∧ strtok string = none) ∨
      ∃ before run after, string = before ++ (run ++ after) ∧
        (∀ c ∈ before, isDelimiter c = true) ∧ run ≠ [] ∧ (∀ c ∈ run, isDelimiter c = false) ∧
        (∀ c ∈ after.head?, isDelimiter c = true) ∧ strtok string = some (run, after.drop 1) := by
  rcases segment isDelimiter string with
    blank | ⟨before, run, after, rfl, delimiters, nonempty, free, stops⟩
  · exact .inl ⟨blank, strtok_blank blank⟩
  · exact .inr ⟨before, run, after, rfl, delimiters, nonempty, free, stops,
      strtok_segment delimiters nonempty free stops⟩

theorem strtok_subset {string rest : List UInt8} {token : Name}
    (split : strtok string = some (token, rest)) : token ⊆ string ∧ rest ⊆ string := by
  rcases strtok_cases string with ⟨_, none⟩ | ⟨before, run, after, rfl, _, _, _, _, found⟩
  · rw [none] at split
    cases split
  · rw [found] at split
    cases split
    constructor
    · exact fun byte member => List.mem_append_right _ (List.mem_append_left _ member)
    · exact fun byte member =>
        List.mem_append_right _ (List.mem_append_right _ (List.mem_of_mem_drop member))

theorem mem_tokensFrom {fuel : Nat} {string : List UInt8} {token : Name}
    (member : token ∈ tokensFrom fuel string) : token ⊆ string := by
  induction fuel generalizing string with
  | zero => cases member
  | succ fuel ih =>
      rw [tokensFrom] at member
      cases split : strtok string with
      | none => simp [split] at member
      | some parts =>
          simp only [split, List.mem_cons] at member
          obtain ⟨inFirst, inRest⟩ := strtok_subset split
          rcases member with rfl | later
          · exact inFirst
          · exact fun byte inside => inRest (ih later inside)

def CString.Short (path : CString) : Prop := ∀ token ∈ path.tokens, token.length ≤ 38

instance (path : CString) : Decidable path.Short :=
  inferInstanceAs (Decidable (∀ token ∈ path.tokens, token.length ≤ 38))

theorem CString.Short.names {path : CString} (short : path.Short) :
    ∀ token ∈ path.tokens, ShortName token := fun token member =>
  ⟨fun zero => path.ended (mem_tokensFrom member zero), short token member⟩

variable {sb : FsSuperblock} {disk : Disk} {nodes : List Node}

namespace Layout

theorem above (layout : Layout sb disk nodes) {node : Node} (member : node ∈ nodes)
    {path rest : List Name} (isPath : node.path = path ++ rest) (below : rest ≠ []) :
    ∃ dir ∈ nodes, dir.path = path ∧ dir.isDir = true := by
  induction rest using List.reverseRecOn generalizing node with
  | nil => exact absurd rfl below
  | append_singleton rest name ih =>
      rw [← List.append_assoc] at isPath
      obtain ⟨dir, isDir, samePath, isDirectory, _⟩ := layout.placed node member _ _ isPath
      by_cases last : rest = []
      · rw [last, List.append_nil] at samePath
        exact ⟨dir, isDir, samePath, isDirectory⟩
      · exact ih isDir samePath last

end Layout

structure Held (sb : FsSuperblock) (disk : Disk) (nodes : List Node) (dir child : Node) (block i : Nat)
    (name : Name) : Prop where
  isNode : dir ∈ nodes
  isDir : dir.isDir = true
  isChild : child ∈ nodes
  entry : Entry sb disk dir block i
  named : (slotAt disk block i).name = name
  leads : Leads dir (slotAt disk block i) child

theorem Held.path {dir child : Node} {block i : Nat} {name : Name}
    (held : Held sb disk nodes dir child block i name) : child.path = dir.path ++ [name] := by
  rw [held.leads.path, held.named]

inductive Located (sb : FsSuperblock) (disk : Disk) (nodes : List Node) (start : Node)
    (tokens : List Name) (pblock : Nat) (ppath : Option Name) (search : FsSuperblock.Search) : Prop
  | vacant {above name parent} : tokens = above ++ [name] → parent ∈ nodes → parent.isDir = true →
      parent.path = start.path ++ above → (∀ child ∈ nodes, child.path ≠ parent.path ++ [name]) →
      search.result = 0 → parent.chain.head? = some search.lblock → search.lpath = some name →
      (above = [] ∧ parent = start ∧ search.pblock = pblock ∧ search.ppath = ppath ∨
        ∃ dir i last, Held sb disk nodes dir parent search.pblock i last ∧ last ∈ tokens ∧
          search.ppath = some last) →
      Located sb disk nodes start tokens pblock ppath search
  | file {above name rest dir child i} : tokens = above ++ name :: rest → dir.path = start.path ++ above →
      Held sb disk nodes dir child search.pblock i name → child.isDir = false → search.result = 1 →
      child.chain.head? = some search.lblock → search.ppath = some name →
      Located sb disk nodes start tokens pblock ppath search
  | directory {node} : node ∈ nodes → node.isDir = true → node.path = start.path ++ tokens →
      search.result = -1 → Located sb disk nodes start tokens pblock ppath search
  | lost {above name rest parent} : tokens = above ++ name :: rest → rest ≠ [] → parent ∈ nodes →
      parent.path = start.path ++ above → (∀ child ∈ nodes, child.path ≠ parent.path ++ [name]) →
      search.result = -1 → Located sb disk nodes start tokens pblock ppath search

theorem Resolves.located {start : Node} {tokens : List Name} {pblock : Nat} {ppath : Option Name}
    {search : FsSuperblock.Search} (resolves : Resolves sb disk nodes start tokens pblock ppath search)
    (isNode : start ∈ nodes) (isDir : start.isDir = true) :
    Located sb disk nodes start tokens pblock ppath search := by
  induction resolves with
  | whole failed => exact .directory isNode isDir (List.append_nil _).symm failed
  | missing absent result place kept head lpath =>
      exact .vacant rfl isNode isDir (List.append_nil _).symm absent result head lpath
        (Or.inl ⟨rfl, rfl, place, kept⟩)
  | lost more absent failed =>
      exact .lost rfl more isNode (List.append_nil _).symm absent failed
  | file isChild entry named leads isFile one place kept head =>
      obtain rfl := place
      exact .file rfl (List.append_nil _).symm ⟨isNode, isDir, isChild, entry, named, leads⟩ isFile one
        head kept
  | @enter dir child name rest pblock ppath search later block i isChild entry named leads childDir _
      sameResult samePblock samePpath sameLblock sameLpath ih =>
      have below : child.path = dir.path ++ [name] := by rw [leads.path, named]
      have longer : ∀ tokens, child.path ++ tokens = dir.path ++ name :: tokens := by
        intro tokens
        rw [below, List.append_assoc, List.singleton_append]
      cases ih isChild childDir with
      | @vacant above last parent tokens isParent parentDir path absent zero head lpath origin =>
          refine .vacant (congrArg (name :: ·) tokens) isParent parentDir (path.trans (longer above)) absent
            (sameResult.trans zero) (by rw [sameLblock, head]) (sameLpath.trans lpath) (Or.inr ?_)
          rcases origin with ⟨_, rfl, place, kept⟩ | ⟨grand, j, next, held, member, kept⟩
          · rw [samePblock, place]
            exact ⟨dir, i, name, ⟨isNode, isDir, isChild, entry, named, leads⟩, List.mem_cons_self,
              samePpath.trans kept⟩
          · rw [samePblock]
            exact ⟨grand, j, next, held, List.mem_cons_of_mem _ member, samePpath.trans kept⟩
      | @file above last others grand node j tokens path held isFile one head kept =>
          refine .file (congrArg (name :: ·) tokens) (path.trans (longer above)) (samePblock ▸ held) isFile
            (sameResult.trans one) (by rw [sameLblock, head]) (samePpath.trans kept)
      | directory isNode isDirectory path failed =>
          exact .directory isNode isDirectory (path.trans (longer _)) (sameResult.trans failed)
      | @lost above last others parent tokens more isParent path absent failed =>
          exact .lost (congrArg (name :: ·) tokens) more isParent (path.trans (longer above)) absent
            (sameResult.trans failed)

/-- What is on a path: the tokens lead to a missing last component, to a file or below one, to a
directory, or an inner component is missing. -/
inductive Ends (nodes : List Node) (tokens : List Name) : Int → Prop
  | vacant {dir name} : tokens = dir.path ++ [name] → dir ∈ nodes → dir.isDir = true →
      (∀ child ∈ nodes, child.path ≠ tokens) → Ends nodes tokens 0
  | file {child rest} : tokens = child.path ++ rest → child ∈ nodes → child.isDir = false →
      Ends nodes tokens 1
  | directory {node} : node.path = tokens → node ∈ nodes → node.isDir = true → Ends nodes tokens (-1)
  | lost {above name rest} : tokens = above ++ name :: rest → rest ≠ [] →
      (∀ child ∈ nodes, child.path ≠ above ++ [name]) → Ends nodes tokens (-1)

theorem Located.ends {root : Node} {tokens : List Name} {search : FsSuperblock.Search}
    (located : Located sb disk nodes root tokens 0 none search) (top : root.path = []) :
    Ends nodes tokens search.result := by
  cases located with
  | @vacant above name parent tokens isParent parentDir path absent zero _ _ _ =>
      rw [top, List.nil_append] at path
      rw [← path] at tokens
      exact zero ▸ .vacant tokens isParent parentDir fun child member => tokens ▸ absent child member
  | @file above name rest dir child i split path held isFile one _ _ =>
      rw [top, List.nil_append] at path
      have below := held.path
      rw [path] at below
      have whole : tokens = child.path ++ rest := by
        rw [split, below, List.append_assoc, List.singleton_append]
      exact one ▸ .file whole held.isChild isFile
  | @directory node isNode isDir path failed =>
      rw [top, List.nil_append] at path
      exact failed ▸ .directory path isNode isDir
  | @lost above name rest parent tokens more isParent path absent failed =>
      rw [top, List.nil_append] at path
      exact failed ▸ .lost tokens more fun child member => path ▸ absent child member

theorem Located.vacant_of_zero {root : Node} {tokens : List Name} {pblock : Nat} {ppath : Option Name}
    {search : FsSuperblock.Search} (located : Located sb disk nodes root tokens pblock ppath search)
    (top : root.path = []) (zero : search.result = 0) :
    ∃ parent name, tokens = parent.path ++ [name] ∧ parent ∈ nodes ∧ parent.isDir = true ∧
      (∀ child ∈ nodes, child.path ≠ tokens) ∧ parent.chain.head? = some search.lblock ∧
      search.lpath = some name ∧
      (parent = root ∧ search.ppath = ppath ∨ ∃ dir i last,
        Held sb disk nodes dir parent search.pblock i last ∧ last ∈ tokens ∧ search.ppath = some last) := by
  cases located with
  | @vacant above name parent tokens isParent parentDir place absent _ head lpath origin =>
      rw [top, List.nil_append] at place
      rw [← place] at tokens
      refine ⟨parent, name, tokens, isParent, parentDir, fun child member => tokens ▸ absent child member,
        head, lpath, ?_⟩
      rcases origin with ⟨_, isRoot, _, kept⟩ | behind
      · exact Or.inl ⟨isRoot, kept⟩
      · exact Or.inr behind
  | file _ _ _ _ result _ _ => simp [zero] at result
  | directory _ _ _ result => simp [zero] at result
  | lost _ _ _ _ _ result => simp [zero] at result

theorem Located.file_of_one {root : Node} {tokens : List Name} {pblock : Nat} {ppath : Option Name}
    {search : FsSuperblock.Search} (located : Located sb disk nodes root tokens pblock ppath search)
    (top : root.path = []) (one : search.result = 1) :
    ∃ dir child i name rest, tokens = child.path ++ rest ∧
      Held sb disk nodes dir child search.pblock i name ∧ name ∈ tokens ∧ child.isDir = false ∧
      child.chain.head? = some search.lblock ∧ search.ppath = some name := by
  cases located with
  | @file above name rest dir child i tokens place held isFile _ head kept =>
      rw [top, List.nil_append] at place
      refine ⟨dir, child, i, name, rest, ?_, held, by simp [tokens], isFile, head, kept⟩
      rw [tokens, held.path, place, List.append_assoc, List.singleton_append]
  | vacant _ _ _ _ _ result _ _ _ => simp [one] at result
  | directory _ _ _ result => simp [one] at result
  | lost _ _ _ _ _ result => simp [one] at result

variable {fuel : Nat} {path : CString}

theorem searchdirectory_spec (formatted : sb.Formatted) (one : sb.OneRegion)
    (layout : Layout sb disk nodes) (enough : sb.nBlocks ≤ fuel) (short : path.Short) :
    ∃ root search, root ∈ nodes ∧ root.path = [] ∧
      sb.searchdirectory fuel disk path = .ok search ∧
      Located sb disk nodes root path.tokens 0 none search := by
  obtain ⟨root, isNode, top, isDir, head⟩ := layout.root
  obtain ⟨search, done, resolves⟩ := searchFrom_spec formatted one layout enough path.tokens root isNode
    isDir short.names sb.rootDirBlock 0 none head
  refine ⟨root, search, isNode, top, ?_, resolves.located isNode isDir⟩
  rw [FsSuperblock.searchdirectory, formatted.cmb]
  exact done

inductive Inserted (sb : FsSuperblock) (disk : Disk) (nodes : List Node) (tokens : List Name)
    (isDir : Bool) : Int → Disk → List Node → Prop
  | tried {dir name result disk' nodes'} : tokens = dir.path ++ [name] → dir ∈ nodes → dir.isDir = true →
      (∀ child ∈ nodes, child.path ≠ tokens) → Created sb disk nodes dir name isDir result nodes' →
      Inserted sb disk nodes tokens isDir result disk' nodes'
  | refused {found} : Ends nodes tokens found → found ≠ 0 →
      Inserted sb disk nodes tokens isDir (-1) disk nodes

theorem insert_located (formatted : sb.Formatted) (layout : Layout sb disk nodes)
    (enough : sb.nBlocks ≤ fuel) (short : ∀ above name, path.tokens = above ++ [name] → ShortName name)
    {root : Node} {search : FsSuperblock.Search} (top : root.path = [])
    (found : sb.searchdirectory fuel disk path = .ok search)
    (located : Located sb disk nodes root path.tokens 0 none search) {attributes : UInt8} {fresh : Memory}
    (isFresh : Fresh sb attributes fresh) :
    ∃ result disk' nodes', sb.insert attributes fresh fuel disk path = .ok (result, disk') ∧
      Layout sb disk' nodes' ∧
      Inserted sb disk nodes path.tokens (attributes &&& uhfsAttrdir ≠ 0) result disk' nodes' := by
  have ends := located.ends top
  rw [FsSuperblock.insert, found]
  simp only [bind, Except.bind]
  by_cases zero : search.result = 0
  · obtain ⟨parent, name, tokens, isParent, parentDir, absent, head, lpath, _⟩ :=
      located.vacant_of_zero top zero
    have isShort := short parent.path name tokens
    obtain ⟨result, disk', nodes', done, layout', created⟩ := addEntry_spec formatted layout isParent
      parentDir isShort (fun child member => tokens ▸ absent child member) isFresh enough head
    rw [if_neg (not_not.mpr zero), lpath]
    exact ⟨result, disk', nodes', done, layout', .tried tokens isParent parentDir absent created⟩
  · rw [if_pos zero]
    exact ⟨-1, disk, nodes, rfl, layout, .refused ends zero⟩

theorem insert_spec (formatted : sb.Formatted) (one : sb.OneRegion) (layout : Layout sb disk nodes)
    (enough : sb.nBlocks ≤ fuel) (short : path.Short) {attributes : UInt8} {fresh : Memory}
    (isFresh : Fresh sb attributes fresh) :
    ∃ result disk' nodes', sb.insert attributes fresh fuel disk path = .ok (result, disk') ∧
      Layout sb disk' nodes' ∧
      Inserted sb disk nodes path.tokens (attributes &&& uhfsAttrdir ≠ 0) result disk' nodes' := by
  obtain ⟨root, search, _, top, found, located⟩ :=
    searchdirectory_spec formatted one layout enough short
  exact insert_located formatted layout enough (fun above name tokens => short.names name (by simp [tokens]))
    top found located isFresh

structure Removed (sb : FsSuperblock) (disk disk' : Disk) (child : Node) (block i : Nat) : Prop where
  freed : (slotAt disk' block i).isFree = true
  released : ∀ place ∈ child.chain, sb.follower disk' place = uhfsFreeblk
  followers : ∀ place, sb.IsData place → place ∉ child.chain →
    sb.follower disk' place = sb.follower disk place
  same : ∀ place j, sb.IsData place → (place ≠ block ∨ j ≠ i) →
    slotAt disk' place j = slotAt disk place j

theorem removal_spec (formatted : sb.Formatted) (layout : Layout sb disk nodes) {dir child : Node}
    {block i first : Nat} {name : Name} (held : Held sb disk nodes dir child block i name)
    (short : ShortName name) (leaf : ∀ node ∈ nodes, ∀ other, node.path ≠ child.path ++ [other])
    (head : child.chain.head? = some first) (enough : sb.nBlocks ≤ fuel) :
    ∃ disk', sb.freeBlocks fuel (sb.freeEntry disk block name) (sb.mapBlock first) first = .ok disk' ∧
      Layout sb disk' (nodes.filter fun node => node.path ≠ child.path) ∧
      Removed sb disk disk' child block i := by
  obtain ⟨rest, chain⟩ : ∃ rest, child.chain = first :: rest := List.head?_eq_some_iff.mp head
  obtain ⟨freed, names, others, same⟩ :=
    freeEntry_spec layout held.isNode held.isDir held.entry short held.named
  have blockData := layout.data held.isNode held.entry.held
  have unmapped : ∀ place, sb.IsData place →
      sb.follower (sb.freeEntry disk block name) place = sb.follower disk place := by
    intro place placeData
    have apart := (blockData.ne_map (placeData.place formatted).1).symm
    rw [FsSuperblock.follower, same _ apart, FsSuperblock.follower]
  have mapped : sb.Mapped (sb.freeEntry disk block name) := by
    constructor
    · intro k isMap
      rw [same k (blockData.ne_map isMap).symm]
      exact layout.mapped.heads k isMap
    · intro k isMap
      rw [same k (blockData.ne_map isMap).symm]
      exact layout.mapped.outside k isMap
  have linked := (layout.chain_mem held.isChild).2
  have apart : child.chain.Nodup :=
    (List.nodup_flatten.mp layout.owned.apart).1 _ (layout.chain_mem held.isChild).1
  have bound := layout.chain_length held.isChild
  have data : ∀ place ∈ child.chain, sb.IsData place := fun place => layout.data held.isChild
  rw [chain] at linked apart bound data
  have linked' := linked.congr fun place member => unmapped place (data place member)
  obtain ⟨disk', done, mapped', free, kept, contents⟩ := freeBlocks_spec formatted rest first
    (sb.freeEntry disk block name) fuel linked' data apart (by simp at bound; omega) mapped
  have slots : ∀ place j, sb.IsData place →
      slotAt disk' place j = slotAt (sb.freeEntry disk block name) place j := by
    intro place j placeData
    rw [slotAt, slotAt, contents place placeData]
  rw [← chain] at free kept
  have removed : Removed sb disk disk' child block i := by
    refine ⟨?_, free, ?_, ?_⟩
    · rw [slots block i blockData, freed]
    · intro place placeData outside
      rw [kept place placeData outside, unmapped place placeData]
    · intro place j placeData differs
      rw [slots place j placeData, others place j differs]
  refine ⟨disk', done, ?_, removed⟩
  refine layout.remove held.isNode held.isChild held.path leaf held.entry held.named mapped' free
    removed.followers removed.freed ?_ removed.same
  intro place j placeData
  rw [slots place j placeData, names]

theorem Layout.file_leaf (layout : Layout sb disk nodes) {child : Node} (isChild : child ∈ nodes)
    (isFile : child.isDir = false) (node : Node) (isNode : node ∈ nodes) (other : Name) :
    node.path ≠ child.path ++ [other] := by
  intro below
  obtain ⟨dir, isDir, samePath, isDirectory, _⟩ := layout.placed node isNode _ _ below
  rw [layout.same_path isDir isChild samePath, isFile] at isDirectory
  cases isDirectory

inductive Unlinked (disk : Disk) (nodes : List Node) (tokens : List Name) : Int → Disk → List Node → Prop
  | removed {child rest disk'} : tokens = child.path ++ rest → child ∈ nodes → child.isDir = false →
      Unlinked disk nodes tokens 0 disk' (nodes.filter fun node => node.path ≠ child.path)
  | refused {found} : Ends nodes tokens found → found ≠ 1 → Unlinked disk nodes tokens (-1) disk nodes

inductive UnlinkedAt (sb : FsSuperblock) (disk : Disk) (nodes : List Node) (tokens : List Name) :
    Int → Disk → List Node → Prop
  | removed {dir child block i name rest disk'} : Held sb disk nodes dir child block i name →
      child.isDir = false → tokens = child.path ++ rest → Removed sb disk disk' child block i →
      UnlinkedAt sb disk nodes tokens 0 disk' (nodes.filter fun node => node.path ≠ child.path)
  | refused {found} : Ends nodes tokens found → found ≠ 1 → UnlinkedAt sb disk nodes tokens (-1) disk nodes

theorem UnlinkedAt.unlinked {tokens : List Name} {result : Int} {disk' : Disk} {nodes' : List Node}
    (unlinked : UnlinkedAt sb disk nodes tokens result disk' nodes') :
    Unlinked disk nodes tokens result disk' nodes' := by
  cases unlinked with
  | removed held isFile whole _ => exact .removed whole held.isChild isFile
  | refused ends notOne => exact .refused ends notOne

theorem hfUnlink_located (formatted : sb.Formatted) (layout : Layout sb disk nodes)
    (enough : sb.nBlocks ≤ fuel) (short : ∀ dir child block i name,
      Held sb disk nodes dir child block i name → name ∈ path.tokens → ShortName name)
    {root : Node} {search : FsSuperblock.Search} (top : root.path = [])
    (found : sb.searchdirectory fuel disk path = .ok search)
    (located : Located sb disk nodes root path.tokens 0 none search) :
    ∃ result disk' nodes', sb.hfUnlink fuel disk path = .ok (result, disk') ∧
      Layout sb disk' nodes' ∧ UnlinkedAt sb disk nodes path.tokens result disk' nodes' := by
  have ends := located.ends top
  rw [FsSuperblock.hfUnlink, found]
  simp only [bind, Except.bind]
  by_cases isOne : search.result = 1
  · obtain ⟨dir, child, i, name, rest, whole, held, member, isFile, head, kept⟩ :=
      located.file_of_one top isOne
    rw [if_neg (not_not.mpr isOne), kept, Option.getD_some]
    have isShort := short dir child search.pblock i name held member
    obtain ⟨disk', done, layout', removed⟩ := removal_spec formatted layout held isShort
      (layout.file_leaf held.isChild isFile) head enough
    rw [done]
    exact ⟨0, disk', _, rfl, layout', .removed held isFile whole removed⟩
  · rw [if_pos isOne]
    exact ⟨-1, disk, nodes, rfl, layout, .refused ends isOne⟩

theorem hfUnlink_spec (formatted : sb.Formatted) (one : sb.OneRegion) (layout : Layout sb disk nodes)
    (enough : sb.nBlocks ≤ fuel) (short : path.Short) :
    ∃ result disk' nodes', sb.hfUnlink fuel disk path = .ok (result, disk') ∧
      Layout sb disk' nodes' ∧ Unlinked disk nodes path.tokens result disk' nodes' := by
  obtain ⟨root, search, _, top, found, located⟩ :=
    searchdirectory_spec formatted one layout enough short
  obtain ⟨result, disk', nodes', done, layout', unlinked⟩ := hfUnlink_located formatted layout enough
    (fun _ _ _ _ name _ member => short.names name member) top found located
  exact ⟨result, disk', nodes', done, layout', unlinked.unlinked⟩

theorem allFree_iff (layout : Layout sb disk nodes) {dir : Node} (isNode : dir ∈ nodes)
    (isDir : dir.isDir = true) : AllFree sb disk dir.chain ↔
      ∀ node ∈ nodes, ∀ other, node.path ≠ dir.path ++ [other] := by
  constructor
  · intro free node member other below
    obtain ⟨_, block, i, entry, _⟩ := layout.entry_of isNode member below
    have isFree := free block entry.held i entry.inside
    rw [entry.live] at isFree
    cases isFree
  · intro leaf block inChain i inside
    by_contra live
    obtain ⟨child, isChild, leads⟩ :=
      layout.listed dir isNode isDir block i ⟨inChain, inside, by simpa using live⟩
    exact leaf child isChild _ leads.path

inductive Pruned (disk : Disk) (nodes : List Node) (tokens : List Name) : Int → Disk → List Node → Prop
  | removed {dir name disk'} : tokens = dir.path ++ [name] → dir.path ≠ [] → dir ∈ nodes →
      dir.isDir = true → (∀ child ∈ nodes, child.path ≠ tokens) →
      (∀ node ∈ nodes, ∀ other, node.path ≠ dir.path ++ [other]) →
      Pruned disk nodes tokens 0 disk' (nodes.filter fun node => node.path ≠ dir.path)
  | full {dir name node other} : tokens = dir.path ++ [name] → dir ∈ nodes → dir.isDir = true →
      (∀ child ∈ nodes, child.path ≠ tokens) → node ∈ nodes → node.path = dir.path ++ [other] →
      Pruned disk nodes tokens (-1) disk nodes
  | refused {found} : Ends nodes tokens found → found ≠ 0 → Pruned disk nodes tokens (-1) disk nodes

def StartsInDirectory (nodes : List Node) (tokens : List Name) : Prop :=
  ∃ child ∈ nodes, child.isDir = true ∧ ∃ name rest, tokens = name :: rest ∧ child.path = [name]

inductive PrunedAt (sb : FsSuperblock) (disk : Disk) (nodes : List Node) (tokens : List Name) :
    Int → Disk → List Node → Prop
  | removed {dir child block i name last disk'} : Held sb disk nodes dir child block i name →
      child.isDir = true → tokens = child.path ++ [last] → (∀ node ∈ nodes, node.path ≠ tokens) →
      (∀ node ∈ nodes, ∀ other, node.path ≠ child.path ++ [other]) → Removed sb disk disk' child block i →
      PrunedAt sb disk nodes tokens 0 disk' (nodes.filter fun node => node.path ≠ child.path)
  | full {dir name node other} : tokens = dir.path ++ [name] → dir ∈ nodes → dir.isDir = true →
      (∀ child ∈ nodes, child.path ≠ tokens) → node ∈ nodes → node.path = dir.path ++ [other] →
      PrunedAt sb disk nodes tokens (-1) disk nodes
  | refused {found} : Ends nodes tokens found → found ≠ 0 → PrunedAt sb disk nodes tokens (-1) disk nodes

theorem PrunedAt.pruned {tokens : List Name} {result : Int} {disk' : Disk} {nodes' : List Node}
    (pruned : PrunedAt sb disk nodes tokens result disk' nodes') :
    Pruned disk nodes tokens result disk' nodes' := by
  cases pruned with
  | removed held isDir whole missing leaf _ =>
      refine .removed whole ?_ held.isChild isDir missing leaf
      rw [held.path]
      exact List.append_ne_nil_of_right_ne_nil _ (List.cons_ne_nil _ _)
  | full whole isNode isDir missing member below => exact .full whole isNode isDir missing member below
  | refused ends notZero => exact .refused ends notZero

theorem hfRmdir_located (formatted : sb.Formatted) (layout : Layout sb disk nodes)
    (enough : sb.nBlocks ≤ fuel) (short : ∀ dir child block i name,
      Held sb disk nodes dir child block i name → name ∈ path.tokens → ShortName name)
    {root : Node} {search : FsSuperblock.Search} (top : root.path = [])
    (found : sb.searchdirectory fuel disk path = .ok search)
    (located : Located sb disk nodes root path.tokens 0 none search)
    (used : ∀ name, path.tokens = [name] → ∃ child ∈ nodes, ∃ first, child.path = [first]) :
    ∃ result disk' nodes', sb.hfRmdir fuel disk path = .ok (result, disk') ∧
      Layout sb disk' nodes' ∧ PrunedAt sb disk nodes path.tokens result disk' nodes' := by
  have ends := located.ends top
  rw [FsSuperblock.hfRmdir, found]
  simp only [bind, Except.bind]
  by_cases zero : search.result = 0
  · obtain ⟨parent, name, tokens, isParent, parentDir, missing, head, _, origin⟩ :=
      located.vacant_of_zero top zero
    rw [if_neg (not_not.mpr zero)]
    obtain ⟨rest, chain⟩ : ∃ rest, parent.chain = search.lblock :: rest := List.head?_eq_some_iff.mp head
    have linked := (layout.chain_mem isParent).2
    have bound := layout.chain_length isParent
    have data : ∀ block ∈ parent.chain, sb.IsData block := fun block => layout.data isParent
    rw [chain] at linked bound data
    obtain ⟨isEmpty, tested, means⟩ := isEmptyFrom_spec formatted rest search.lblock fuel linked data
      (by simp at bound; omega)
    rw [← chain, allFree_iff layout isParent parentDir] at means
    rw [tested]
    cases isEmpty with
    | false =>
        obtain ⟨node, isNode, other, below⟩ : ∃ node ∈ nodes, ∃ other,
            node.path = parent.path ++ [other] := by
          simpa using means
        exact ⟨-1, disk, nodes, rfl, layout, .full tokens isParent parentDir missing isNode below⟩
    | true =>
        have leaf := means.mp rfl
        rcases origin with ⟨rfl, _⟩ | ⟨dir, i, last, held, member, kept⟩
        · -- a path of one component, and the root directory is in use
          obtain ⟨child, isChild, first, isFirst⟩ := used name (by rw [tokens, top, List.nil_append])
          exact absurd (by rw [isFirst, top, List.nil_append]) (leaf child isChild first)
        · have isShort := short dir parent search.pblock i last held member
          obtain ⟨disk', done, layout', removed⟩ :=
            removal_spec formatted layout held isShort leaf head enough
          simp only [Bool.true_eq_false, if_false, kept]
          rw [done]
          exact ⟨0, disk', _, rfl, layout', .removed held parentDir tokens missing leaf removed⟩
  · rw [if_pos zero]
    exact ⟨-1, disk, nodes, rfl, layout, .refused ends zero⟩

theorem hfRmdir_spec (formatted : sb.Formatted) (one : sb.OneRegion) (layout : Layout sb disk nodes)
    (enough : sb.nBlocks ≤ fuel) (short : path.Short) (starts : StartsInDirectory nodes path.tokens) :
    ∃ result disk' nodes', sb.hfRmdir fuel disk path = .ok (result, disk') ∧
      Layout sb disk' nodes' ∧ Pruned disk nodes path.tokens result disk' nodes' := by
  obtain ⟨root, search, _, top, found, located⟩ :=
    searchdirectory_spec formatted one layout enough short
  obtain ⟨child, isChild, _, first, _, _, isFirst⟩ := starts
  obtain ⟨result, disk', nodes', done, layout', pruned⟩ := hfRmdir_located formatted layout enough
    (fun _ _ _ _ name _ member => short.names name member) top found located
    fun _ _ => ⟨child, isChild, first, isFirst⟩
  exact ⟨result, disk', nodes', done, layout', pruned.pruned⟩

end Hellfire

import Hellfire.UhfsEntries

/-!
What a path names on a disk, and that `searchdirectory` finds it on any volume on which it reads the
cluster map blocks of the directories that it visits.
-/

namespace Hellfire

open ByteMemory Chains

open FsSuperblock (Scan Search)

/-- The path leads from a directory through the directories below it to an entry of the last one,
which starts with block `dir`. -/
inductive Names (sb : FsSuperblock) (disk : Disk) : Nat → List Name → Nat → Nat → Nat → Prop
  | last {dir name before block after i} : ChainFrom sb disk dir (before ++ block :: after) →
      Lacks sb disk name before → FirstHolds sb disk name block i → Names sb disk dir [name] dir block i
  | enter {first name rest before block after i dir place j} :
      ChainFrom sb disk first (before ++ block :: after) → Lacks sb disk name before →
      FirstHolds sb disk name block i → isDirectory (disk block) i = true →
      Names sb disk (firstBlock (disk block) i) rest dir place j →
      Names sb disk first (name :: rest) dir place j

def NamesFile (sb : FsSuperblock) (disk : Disk) (tokens : List Name) : Prop :=
  ∃ dir block i, Names sb disk sb.rootDirBlock tokens dir block i ∧ isDirectory (disk block) i = false

def DirectoryAt (sb : FsSuperblock) (disk : Disk) (above : List Name) (first : Nat) : Prop :=
  above = [] ∧ first = sb.rootDirBlock ∨ ∃ dir block i, Names sb disk sb.rootDirBlock above dir block i ∧
    isDirectory (disk block) i = true ∧ firstBlock (disk block) i = first

def EmptyFrom (sb : FsSuperblock) (disk : Disk) (first : Nat) : Prop :=
  ∃ chain, ChainFrom sb disk first chain ∧ AllFree sb disk chain

structure Volume (sb : FsSuperblock) (disk : Disk) (nodes : List Node) : Prop where
  layout : Layout sb disk nodes
  short : ∀ node ∈ nodes, ∀ name ∈ node.path, ShortName name

variable {sb : FsSuperblock} {disk : Disk} {nodes : List Node}

theorem holdsString_readString {memory : Memory} {string : List UInt8} (ended : 0 ∉ string) :
    ∀ {address limit : Nat}, holdsString memory address string = true →
      readString memory address limit = string.take limit := by
  induction string with
  | nil =>
      intro address limit holds
      rw [List.take_nil]
      cases limit with
      | zero => rfl
      | succ limit => rw [readString, if_pos (by simpa [holdsString] using holds)]
  | cons byte rest ih =>
      intro address limit holds
      rw [holdsString, Bool.and_eq_true, decide_eq_true_eq] at holds
      cases limit with
      | zero => rfl
      | succ limit =>
          rw [List.mem_cons, not_or] at ended
          rw [readString, holds.1, if_neg (Ne.symm ended.1), ih ended.2 holds.2, List.take_succ_cons]

theorem Held.first_eq {dir child : Node} {block i : Nat} {name : Name}
    (held : Held sb disk nodes dir child block i name) :
    child.chain.head? = some (firstBlock (disk block) i) ∧ child.isDir = isDirectory (disk block) i :=
  ⟨held.leads.first, held.leads.isDir⟩

namespace Volume

theorem held_short (volume : Volume sb disk nodes) {dir child : Node} {block i : Nat} {name : Name}
    (held : Held sb disk nodes dir child block i name) : ShortName name :=
  volume.short child held.isChild name (by simp [held.path])

theorem held_of_entry (volume : Volume sb disk nodes) {dir : Node} (isNode : dir ∈ nodes)
    (isDir : dir.isDir = true) {block i : Nat} (entry : Entry sb disk dir block i) :
    ∃ child, Held sb disk nodes dir child block i (slotAt disk block i).name := by
  obtain ⟨child, isChild, leads⟩ := volume.layout.listed dir isNode isDir block i entry
  exact ⟨child, isNode, isDir, isChild, entry, rfl, leads⟩

theorem holds_iff (volume : Volume sb disk nodes) {dir : Node} (isNode : dir ∈ nodes)
    (isDir : dir.isDir = true) {block : Nat} (inChain : block ∈ dir.chain) {name : Name} (ended : 0 ∉ name)
    (i : Nat) : Holds sb disk name block i ↔
      Entry sb disk dir block i ∧ (slotAt disk block i).name = name := by
  constructor
  · rintro ⟨inside, live, holds⟩
    have entry : Entry sb disk dir block i := ⟨inChain, inside, live⟩
    refine ⟨entry, ?_⟩
    obtain ⟨child, held⟩ := volume.held_of_entry isNode isDir entry
    have fits := (volume.held_short held).fits
    have start : (slotAt disk block i).name = name.take 39 := holdsString_readString ended holds
    rw [start, List.length_take] at fits
    rw [start, List.take_of_length_le (by omega)]
  · rintro ⟨entry, rfl⟩
    obtain ⟨child, held⟩ := volume.held_of_entry isNode isDir entry
    exact ⟨entry.inside, entry.live, (holdsString_slot (volume.held_short held)).mpr rfl⟩

theorem lacks_iff (volume : Volume sb disk nodes) {dir : Node} (isNode : dir ∈ nodes)
    (isDir : dir.isDir = true) {name : Name} (ended : 0 ∉ name) :
    Lacks sb disk name dir.chain ↔ ∀ child ∈ nodes, child.path ≠ dir.path ++ [name] := by
  constructor
  · intro lacks child isChild path
    obtain ⟨_, block, i, entry, named, _⟩ := volume.layout.entry_of isNode isChild path
    exact lacks block entry.held i ((volume.holds_iff isNode isDir entry.held ended i).mpr ⟨entry, named⟩)
  · intro absent block inChain i holds
    obtain ⟨entry, named⟩ := (volume.holds_iff isNode isDir inChain ended i).mp holds
    obtain ⟨child, isChild, leads⟩ := volume.layout.listed dir isNode isDir block i entry
    exact absent child isChild (leads.path.trans (by rw [named]))

theorem chainFrom (volume : Volume sb disk nodes) (formatted : sb.Formatted) {dir : Node}
    (isNode : dir ∈ nodes) {first : Nat} (head : dir.chain.head? = some first) :
    ChainFrom sb disk first dir.chain := by
  refine ⟨head, (volume.layout.chain_mem isNode).2, fun inside => ?_⟩
  have small := formatted.nBlocks_small
  have bound := (volume.layout.data isNode inside).2.1
  unfold uhfsEochblk at bound
  omega

theorem held_of_first (volume : Volume sb disk nodes) (formatted : sb.Formatted) {dir : Node}
    (isNode : dir ∈ nodes) (isDir : dir.isDir = true) {first : Nat} (head : dir.chain.head? = some first)
    {before after : List Nat} {block i : Nat} {name : Name} (ended : 0 ∉ name)
    (isChain : ChainFrom sb disk first (before ++ block :: after)) (holds : FirstHolds sb disk name block i) :
    dir.chain = before ++ block :: after ∧ ∃ child, Held sb disk nodes dir child block i name := by
  have chain := (volume.chainFrom formatted isNode head).unique isChain
  have inChain : block ∈ dir.chain := by simp [chain]
  obtain ⟨entry, named⟩ := (volume.holds_iff isNode isDir inChain ended i).mp holds.holds
  obtain ⟨child, held⟩ := volume.held_of_entry isNode isDir entry
  exact ⟨chain, child, named ▸ held⟩

theorem first_of_held (volume : Volume sb disk nodes) {dir child : Node} {block i : Nat} {name : Name}
    (held : Held sb disk nodes dir child block i name) :
    FirstHolds sb disk name block i ∧ ∃ before after, dir.chain = before ++ block :: after ∧
      Lacks sb disk name before := by
  have layout := volume.layout
  have ended := (volume.held_short held).ended
  have entry := held.entry
  have named := held.named
  have holds := (volume.holds_iff held.isNode held.isDir entry.held ended i).mpr ⟨entry, named⟩
  obtain ⟨before, after, split⟩ := List.append_of_mem entry.held
  refine ⟨⟨holds, fun j less other => ?_⟩, before, after, split, fun place inBefore j other => ?_⟩
  · obtain ⟨_, same⟩ := (volume.holds_iff held.isNode held.isDir entry.held ended j).mp other
    exact layout.earlier dir held.isNode held.isDir block i entry j less (same.trans named.symm)
  · have inChain : place ∈ dir.chain := by simp [split, inBefore]
    obtain ⟨otherEntry, same⟩ := (volume.holds_iff held.isNode held.isDir inChain ended j).mp other
    obtain ⟨rfl, _⟩ := layout.single dir held.isNode held.isDir place j block i otherEntry entry
      (same.trans named.symm)
    have distinct := (List.nodup_flatten.mp layout.owned.apart).1 _ (layout.chain_mem held.isNode).1
    rw [split, List.nodup_append] at distinct
    exact distinct.2.2 _ inBefore _ List.mem_cons_self rfl

end Volume

def NoFile (nodes : List Node) (tokens : List Name) : Prop :=
  ∀ child ∈ nodes, child.isDir = false → ∀ rest, tokens ≠ child.path ++ rest

theorem Layout.file_behind (layout : Layout sb disk nodes) {dir child : Node} (isNode : dir ∈ nodes)
    (isDir : dir.isDir = true) (isChild : child ∈ nodes) (isFile : child.isDir = false)
    {more rest : List Name} (path : dir.path ++ more = child.path ++ rest) :
    ∃ first others, child.path = dir.path ++ first :: others ∧ more = first :: others ++ rest := by
  obtain ⟨behind, same, split⟩ | ⟨behind, same, split⟩ := List.append_eq_append_iff.mp path
  · cases behind with
    | nil =>
        rw [List.append_nil] at same
        rw [layout.same_path isChild isNode same, isDir] at isFile
        cases isFile
    | cons first others => exact ⟨first, others, same, split⟩
  · obtain rfl := layout.file_end isNode isChild isFile same
    rw [List.append_nil] at same
    rw [layout.same_path isChild isNode same.symm, isDir] at isFile
    cases isFile

section Search

variable {fuel chainBlk first : Nat} {tokens : List Name}

theorem Layout.ends_below (layout : Layout sb disk nodes) {dir : Node} (isNode : dir ∈ nodes)
    (isDir : dir.isDir = true) {last : Name} (absent : ∀ node ∈ nodes, node.path ≠ dir.path ++ [last])
    {found : Int} (ends : Ends nodes (dir.path ++ [last]) found) : found = 0 := by
  have missing : ∀ node ∈ nodes, ∀ others, node.path ≠ dir.path ++ last :: others :=
    fun node member others => layout.missing absent node member
  generalize tokens : dir.path ++ [last] = whole at ends
  cases ends with
  | vacant _ _ _ _ => rfl
  | @file child rest path isChild isFile =>
      obtain ⟨first, others, below, more⟩ :=
        layout.file_behind isNode isDir isChild isFile (tokens.trans path)
      obtain rfl : last = first := (List.cons.inj more).1
      exact absurd below (missing child isChild others)
  | @directory node path isNode' _ => exact absurd (path.trans tokens.symm) (absent node isNode')
  | @lost above name rest path more none =>
      obtain ⟨behind, end_, rfl⟩ := (List.eq_nil_or_concat' rest).resolve_left more
      rw [path, ← List.cons_append, ← List.append_assoc] at tokens
      exact absurd (List.append_inj' tokens rfl).1 (layout.missing none dir isNode)

theorem Resolves.noFile {dir : Node} {pblock : Nat} {ppath : Option Name} {search : Search}
    (resolves : Resolves sb disk nodes dir tokens pblock ppath search) (layout : Layout sb disk nodes)
    (isNode : dir ∈ nodes) (isDir : dir.isDir = true) (notOne : search.result ≠ 1) :
    NoFile nodes (dir.path ++ tokens) := by
  induction resolves with
  | whole _ =>
      intro child isChild isFile rest path
      obtain ⟨first, others, _, none⟩ := layout.file_behind isNode isDir isChild isFile path
      cases none
  | missing absent _ _ _ _ _ =>
      intro child isChild isFile rest path
      obtain ⟨first, others, below, split⟩ := layout.file_behind isNode isDir isChild isFile path
      rw [← (List.cons.inj split).1] at below
      exact layout.missing absent child isChild below
  | lost _ absent _ =>
      intro child isChild isFile rest path
      obtain ⟨first, others, below, split⟩ := layout.file_behind isNode isDir isChild isFile path
      rw [← (List.cons.inj split).1] at below
      exact layout.missing absent child isChild below
  | file _ _ _ _ _ one _ _ _ => exact absurd one notOne
  | @enter dir child name rest _ _ _ _ _ _ isChild entry named leads childDir _ same _ _ _ _ ih =>
      have below : child.path = dir.path ++ [name] := by rw [leads.path, named]
      have later := ih isChild childDir (fun one => notOne (same.trans one))
      rw [below, List.append_assoc, List.singleton_append] at later
      exact later

theorem Volume.scan_hit (volume : Volume sb disk nodes) (formatted : sb.Formatted)
    (enough : sb.nBlocks ≤ fuel) {dir : Node} (isNode : dir ∈ nodes) (isDir : dir.isDir = true)
    {chainBlk first : Nat} (head : dir.chain.head? = some first) {before after : List Nat}
    {block i : Nat} {name : Name} (ended : 0 ∉ name)
    (isOwn : ChainFrom sb disk first (before ++ block :: after)) (lacks : Lacks sb disk name before)
    (holds : FirstHolds sb disk name block i) (agrees : before ≠ [] → Agrees sb disk chainBlk first) :
    sb.scan disk name fuel chainBlk first = .ok ⟨before ++ [block],
        if before = [] then chainBlk else sb.mapBlock block, some (block, i)⟩ ∧
      ∃ child, Held sb disk nodes dir child block i name := by
  obtain ⟨chain, held⟩ := volume.held_of_first formatted isNode isDir head ended isOwn holds
  have length : (before ++ block :: after).length ≤ fuel := by
    have bound := volume.layout.chain_length isNode
    rw [chain] at bound
    omega
  exact ⟨scan_agreed_hit formatted (chain ▸ (volume.layout.chain_mem isNode).2)
    (chain ▸ fun block => volume.layout.data isNode) isOwn.head length lacks holds agrees, held⟩

theorem InStep.resolves (inStep : InStep sb disk chainBlk first tokens) (volume : Volume sb disk nodes)
    (formatted : sb.Formatted) (enough : sb.nBlocks ≤ fuel) {dir : Node} (isNode : dir ∈ nodes)
    (isDir : dir.isDir = true) (head : dir.chain.head? = some first) (ended : ∀ name ∈ tokens, 0 ∉ name)
    (pblock : Nat) (ppath : Option Name) : ∃ search,
      sb.searchFrom fuel disk tokens chainBlk first pblock ppath = .ok search ∧
        Resolves sb disk nodes dir tokens pblock ppath search := by
  induction inStep generalizing dir pblock ppath with
  | whole => exact ⟨_, rfl, .whole rfl⟩
  | @missing chainBlk first name rest own isOwn lacks agrees =>
      obtain rfl := isOwn.unique (volume.chainFrom formatted isNode head)
      have absent := (volume.lacks_iff isNode isDir (ended name List.mem_cons_self)).mp lacks
      obtain ⟨behind, chain⟩ := List.head?_eq_some_iff.mp head
      have linked := (volume.layout.chain_mem isNode).2
      have data : ∀ block ∈ dir.chain, sb.IsData block := fun block => volume.layout.data isNode
      have length := volume.layout.chain_length isNode
      rw [chain] at linked data length lacks
      rw [List.length_cons] at length
      obtain ⟨before, block, after, i, split, _, holds, _⟩ | ⟨_, _, scanned⟩ :=
        scan_agreed formatted linked data (show behind.length < fuel by omega) name fun _ => agrees
      · exact absurd holds.holds (lacks block (by simp [split]) i)
      · rw [FsSuperblock.searchFrom, scanned]
        simp only [bind, Except.bind]
        by_cases last : rest = []
        · rw [last, if_pos rfl]
          exact ⟨_, rfl, .missing absent rfl rfl rfl head rfl⟩
        · rw [if_neg last]
          exact ⟨_, rfl, .lost last absent rfl⟩
  | @file chainBlk first name rest before block after i isOwn lacks holds isFile agrees =>
      obtain ⟨scanned, child, held⟩ := volume.scan_hit formatted enough isNode isDir head
        (ended name List.mem_cons_self) isOwn lacks holds agrees
      have childFile := held.first_eq.2.trans isFile
      rw [FsSuperblock.searchFrom, scanned]
      simp only [bind, Except.bind, isFile, Bool.false_eq_true, if_false]
      exact ⟨_, rfl, .file held.isChild held.entry held.named held.leads childFile rfl rfl rfl
        held.first_eq.1⟩
  | @enter chainBlk first name rest before block after i isOwn lacks holds isDirectory agrees _ ih =>
      obtain ⟨scanned, child, held⟩ := volume.scan_hit formatted enough isNode isDir head
        (ended name List.mem_cons_self) isOwn lacks holds agrees
      obtain ⟨childHead, childDir⟩ := held.first_eq
      rw [isDirectory] at childDir
      obtain ⟨later, done, resolves⟩ := ih held.isChild childDir childHead
        (fun name member => ended name (List.mem_cons_of_mem _ member)) block (some name)
      rw [FsSuperblock.searchFrom, scanned]
      simp only [bind, Except.bind, isDirectory, if_true]
      rw [done]
      exact ⟨_, rfl, .enter held.isChild held.entry held.named held.leads childDir resolves
        rfl rfl rfl rfl rfl⟩

theorem searchdirectory_inStep (volume : Volume sb disk nodes) (formatted : sb.Formatted)
    (enough : sb.nBlocks ≤ fuel) {path : CString}
    (inStep : InStep sb disk sb.firstCmb sb.rootDirBlock path.tokens) :
    ∃ root search, root ∈ nodes ∧ root.path = [] ∧
      sb.searchdirectory fuel disk path = .ok search ∧
      Located sb disk nodes root path.tokens 0 none search := by
  obtain ⟨root, isNode, top, isDir, head⟩ := volume.layout.root
  have ended : ∀ name ∈ path.tokens, 0 ∉ name := fun name member zero =>
    path.ended (mem_tokensFrom member zero)
  obtain ⟨search, done, resolves⟩ :=
    inStep.resolves volume formatted enough isNode isDir head ended 0 none
  exact ⟨root, search, isNode, top, done, resolves.located isNode isDir⟩

theorem Volume.search_noFile (volume : Volume sb disk nodes) (formatted : sb.Formatted)
    (enough : sb.nBlocks ≤ fuel) {path : CString}
    (inStep : InStep sb disk sb.firstCmb sb.rootDirBlock path.tokens) {search : Search}
    (found : sb.searchdirectory fuel disk path = .ok search) (notOne : search.result ≠ 1) :
    NoFile nodes path.tokens := by
  obtain ⟨root, isNode, top, isDir, head⟩ := volume.layout.root
  have ended : ∀ name ∈ path.tokens, 0 ∉ name := fun name member zero =>
    path.ended (mem_tokensFrom member zero)
  obtain ⟨other, done, resolves⟩ :=
    inStep.resolves volume formatted enough isNode isDir head ended 0 none
  obtain rfl := Except.ok.inj (found.symm.trans done)
  have none := resolves.noFile volume.layout isNode isDir notOne
  rw [top, List.nil_append] at none
  exact none

theorem Volume.inStep_one (volume : Volume sb disk nodes) (formatted : sb.Formatted) (one : sb.OneRegion)
    (tokens : List Name) : ∀ {dir first}, dir ∈ nodes → dir.isDir = true → dir.chain.head? = some first →
      (∀ name ∈ tokens, 0 ∉ name) → InStep sb disk 1 first tokens := by
  induction tokens with
  | nil => exact fun _ _ _ _ => .whole
  | cons name rest ih =>
      intro dir first isNode isDir head ended
      have isChain := volume.chainFrom formatted isNode head
      have data : ∀ block ∈ dir.chain, sb.IsData block := fun block => volume.layout.data isNode
      have agrees : Agrees sb disk 1 first := by
        refine Or.inl ?_
        rw [FsSuperblock.follower, one.mapBlock formatted (data first (List.mem_of_mem_head? head))]
      have nameEnded := ended name List.mem_cons_self
      by_cases some : ∃ child ∈ nodes, child.path = dir.path ++ [name]
      · obtain ⟨child, isChild, path⟩ := some
        obtain ⟨_, block, i, entry, named, leads⟩ := volume.layout.entry_of isNode isChild path
        have held : Held sb disk nodes dir child block i name := ⟨isNode, isDir, isChild, entry, named, leads⟩
        obtain ⟨holds, before, after, split, lacks⟩ := volume.first_of_held held
        obtain ⟨childHead, childDir⟩ := held.first_eq
        rw [split] at isChain
        cases directory : isDirectory (disk block) i with
        | false => exact .file isChain lacks holds directory fun _ => agrees
        | true =>
            refine .enter isChain lacks holds directory (fun _ => agrees) ?_
            have region : (if before = [] then 1 else sb.mapBlock block) = 1 := by
              split
              · rfl
              · exact one.mapBlock formatted (data block entry.held)
            rw [region]
            exact ih isChild (childDir.trans directory) childHead
              fun name member => ended name (List.mem_cons_of_mem _ member)
      · refine .missing isChain ((volume.lacks_iff isNode isDir nameEnded).mpr ?_) agrees
        exact fun child isChild path => some ⟨child, isChild, path⟩

theorem Volume.inStep_path (volume : Volume sb disk nodes) (formatted : sb.Formatted) (one : sb.OneRegion)
    (path : CString) : InStep sb disk sb.firstCmb sb.rootDirBlock path.tokens := by
  obtain ⟨root, isNode, _, isDir, head⟩ := volume.layout.root
  rw [formatted.cmb]
  exact volume.inStep_one formatted one path.tokens isNode isDir head
    fun name member zero => path.ended (mem_tokensFrom member zero)

end Search

section Names

variable {tokens : List Name} {d block i : Nat}

theorem Names.ne_nil {first : Nat} (names : Names sb disk first tokens d block i) : tokens ≠ [] := by
  cases names with
  | last _ _ _ => exact List.cons_ne_nil _ _
  | enter _ _ _ _ _ => exact List.cons_ne_nil _ _

theorem Names.held {first : Nat} (names : Names sb disk first tokens d block i)
    (volume : Volume sb disk nodes) (formatted : sb.Formatted) {start : Node} (isNode : start ∈ nodes)
    (isDir : start.isDir = true) (head : start.chain.head? = some first) (ended : ∀ name ∈ tokens, 0 ∉ name) :
    ∃ dir child name, Held sb disk nodes dir child block i name ∧ child.path = start.path ++ tokens ∧
      dir.chain.head? = some d := by
  induction names generalizing start with
  | last isChain lacks holds =>
      obtain ⟨chain, child, held⟩ := volume.held_of_first formatted isNode isDir head
        (ended _ List.mem_cons_self) isChain holds
      exact ⟨start, child, _, held, held.path, head⟩
  | enter isChain lacks holds directory _ ih =>
      obtain ⟨chain, between, held⟩ := volume.held_of_first formatted isNode isDir head
        (ended _ List.mem_cons_self) isChain holds
      obtain ⟨betweenHead, betweenDir⟩ := held.first_eq
      obtain ⟨dir, child, name, childHeld, path, dirHead⟩ := ih held.isChild (betweenDir.trans directory)
        betweenHead fun name member => ended name (List.mem_cons_of_mem _ member)
      refine ⟨dir, child, name, childHeld, ?_, dirHead⟩
      rw [path, held.path, List.append_assoc, List.singleton_append]

theorem Volume.names_below (volume : Volume sb disk nodes) (formatted : sb.Formatted) (tokens : List Name) :
    ∀ {start first dir child name}, start ∈ nodes → start.isDir = true → start.chain.head? = some first →
      Held sb disk nodes dir child block i name → child.path = start.path ++ tokens → tokens ≠ [] →
      dir.chain.head? = some d → Names sb disk first tokens d block i := by
  have layout := volume.layout
  induction tokens with
  | nil => exact fun _ _ _ _ _ none _ => absurd rfl none
  | cons token rest ih =>
      intro start first dir child name isNode isDir head held path _ dirHead
      by_cases last : rest = []
      · subst last
        have below := held.path
        rw [path] at below
        obtain ⟨samePath, sameName⟩ := List.append_inj' below rfl
        obtain rfl := layout.same_path isNode held.isNode samePath
        obtain rfl := List.singleton_inj.mp sameName
        obtain rfl := Option.some.inj (head.symm.trans dirHead)
        obtain ⟨holds, before, after, split, lacks⟩ := volume.first_of_held held
        have isChain := volume.chainFrom formatted isNode head
        rw [split] at isChain
        exact .last isChain lacks holds
      · have longer : child.path = (start.path ++ [token]) ++ rest := by
          rw [path, List.append_assoc, List.singleton_append]
        obtain ⟨between, isBetween, betweenPath, betweenDir⟩ := layout.above held.isChild longer last
        obtain ⟨_, place, j, entry, named, leads⟩ := layout.entry_of isNode isBetween betweenPath
        have betweenHeld : Held sb disk nodes start between place j token :=
          ⟨isNode, isDir, isBetween, entry, named, leads⟩
        obtain ⟨holds, before, after, split, lacks⟩ := volume.first_of_held betweenHeld
        obtain ⟨betweenHead, directory⟩ := betweenHeld.first_eq
        have isChain := volume.chainFrom formatted isNode head
        rw [split] at isChain
        refine .enter isChain lacks holds (directory.symm.trans betweenDir) ?_
        exact ih isBetween betweenDir betweenHead held (betweenPath ▸ longer) last dirHead

theorem Volume.names_iff (volume : Volume sb disk nodes) (formatted : sb.Formatted)
    (ended : ∀ name ∈ tokens, 0 ∉ name) : Names sb disk sb.rootDirBlock tokens d block i ↔
      ∃ dir child name, Held sb disk nodes dir child block i name ∧ child.path = tokens ∧
        dir.chain.head? = some d := by
  obtain ⟨root, isRoot, top, isDir, head⟩ := volume.layout.root
  constructor
  · intro names
    obtain ⟨dir, child, name, held, path, dirHead⟩ := names.held volume formatted isRoot isDir head ended
    rw [top, List.nil_append] at path
    exact ⟨dir, child, name, held, path, dirHead⟩
  · rintro ⟨dir, child, name, held, rfl, dirHead⟩
    refine volume.names_below formatted child.path isRoot isDir head held ?_ ?_ dirHead
    · rw [top, List.nil_append]
    · rw [held.path]
      exact List.append_ne_nil_of_right_ne_nil _ (List.cons_ne_nil _ _)

theorem Volume.held_of_child (volume : Volume sb disk nodes) {child : Node} (isChild : child ∈ nodes)
    (below : child.path ≠ []) : ∃ dir block i name first, Held sb disk nodes dir child block i name ∧
      dir.chain.head? = some first := by
  obtain top | ⟨above, name, path⟩ := List.eq_nil_or_concat' child.path
  · exact absurd top below
  · obtain ⟨dir, isNode, samePath, isDir, _⟩ := volume.layout.placed child isChild above name path
    rw [← samePath] at path
    obtain ⟨_, block, i, entry, named, leads⟩ := volume.layout.entry_of isNode isChild path
    obtain ⟨first, rest, chain⟩ := List.exists_cons_of_ne_nil (volume.layout.chain_ne_nil isNode)
    exact ⟨dir, block, i, name, first, ⟨isNode, isDir, isChild, entry, named, leads⟩, by rw [chain]; rfl⟩

theorem Volume.directoryAt (volume : Volume sb disk nodes) (formatted : sb.Formatted) {dir : Node}
    (isNode : dir ∈ nodes) (isDir : dir.isDir = true) {first : Nat} (head : dir.chain.head? = some first) :
    DirectoryAt sb disk dir.path first := by
  by_cases top : dir.path = []
  · obtain ⟨root, isRoot, rootTop, _, rootHead⟩ := volume.layout.root
    obtain rfl := volume.layout.same_path isRoot isNode (rootTop.trans top.symm)
    exact Or.inl ⟨top, Option.some.inj (head.symm.trans rootHead)⟩
  · obtain ⟨above, block, i, name, start, held, aboveHead⟩ := volume.held_of_child isNode top
    have ended : ∀ part ∈ dir.path, 0 ∉ part := fun part member => (volume.short dir isNode part member).ended
    refine Or.inr ⟨start, block, i, ?_, held.first_eq.2.symm.trans isDir, ?_⟩
    · exact (volume.names_iff formatted ended).mpr ⟨above, dir, name, held, rfl, aboveHead⟩
    · exact Option.some.inj (held.first_eq.1.symm.trans head)

theorem Volume.file_below (volume : Volume sb disk nodes) {child : Node} (isChild : child ∈ nodes)
    (isFile : child.isDir = false) : child.path ≠ [] := by
  intro isTop
  obtain ⟨root, isRoot, top, isDir, _⟩ := volume.layout.root
  rw [volume.layout.same_path isRoot isChild (top.trans isTop.symm), isFile] at isDir
  cases isDir

theorem Volume.namesFile_iff (volume : Volume sb disk nodes) (formatted : sb.Formatted)
    (ended : ∀ name ∈ tokens, 0 ∉ name) : NamesFile sb disk tokens ↔
      ∃ child ∈ nodes, child.path = tokens ∧ child.isDir = false := by
  constructor
  · rintro ⟨d, block, i, names, isFile⟩
    obtain ⟨dir, child, name, held, path, _⟩ := (volume.names_iff formatted ended).mp names
    exact ⟨child, held.isChild, path, held.first_eq.2.trans isFile⟩
  · rintro ⟨child, isChild, rfl, isFile⟩
    obtain ⟨dir, block, i, name, first, held, head⟩ :=
      volume.held_of_child isChild (volume.file_below isChild isFile)
    refine ⟨first, block, i, (volume.names_iff formatted ended).mpr ?_, held.first_eq.2.symm.trans isFile⟩
    exact ⟨dir, child, name, held, rfl, head⟩

theorem Volume.directory_node (volume : Volume sb disk nodes) (formatted : sb.Formatted) {above : List Name}
    {first : Nat} (ended : ∀ name ∈ above, 0 ∉ name) (isDirectory : DirectoryAt sb disk above first) :
    ∃ dir ∈ nodes, dir.path = above ∧ dir.isDir = true ∧ dir.chain.head? = some first := by
  rcases isDirectory with ⟨rfl, rfl⟩ | ⟨_, block, i, names, directory, rfl⟩
  · exact volume.layout.root
  · obtain ⟨_, child, _, held, path, _⟩ := (volume.names_iff formatted ended).mp names
    exact ⟨child, held.isChild, path, held.first_eq.2.trans directory, held.first_eq.1⟩

theorem Volume.emptyFrom_iff (volume : Volume sb disk nodes) (formatted : sb.Formatted) {dir : Node}
    (isNode : dir ∈ nodes) (isDir : dir.isDir = true) {first : Nat} (head : dir.chain.head? = some first) :
    EmptyFrom sb disk first ↔ ∀ node ∈ nodes, ∀ other, node.path ≠ dir.path ++ [other] := by
  rw [← allFree_iff volume.layout isNode isDir]
  have isChain := volume.chainFrom formatted isNode head
  constructor
  · rintro ⟨chain, isFrom, free⟩
    rw [isChain.unique isFrom]
    exact free
  · exact fun free => ⟨dir.chain, isChain, free⟩

end Names

end Hellfire

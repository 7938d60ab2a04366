import Hellfire.UhfsLayout

/-!
`searchdirectory` on a volume with one storage region follows the tree of nodes.
-/

namespace Hellfire

open ByteMemory Chains

def Named (sb : FsSuperblock) (disk : Disk) (name : Name) (block i : Nat) : Prop :=
  i < sb.dirEntries ∧ (slotAt disk block i).isFree = false ∧ (slotAt disk block i).name = name

open FsSuperblock (Scan Search)

inductive Scanned (sb : FsSuperblock) (disk : Disk) (name : Name) : Nat → List Nat → Scan → Prop
  | hit {chainBlk block rest i} : Named sb disk name block i →
      Scanned sb disk name chainBlk (block :: rest) ⟨[block], chainBlk, some (block, i)⟩
  | nowhere {chainBlk block ended} : (∀ i, ¬Named sb disk name block i) →
      Scanned sb disk name chainBlk [block] ⟨[block], ended, none⟩
  | later {chainBlk block next rest found} : (∀ i, ¬Named sb disk name block i) →
      Scanned sb disk name (sb.mapBlock next) (next :: rest) found →
      Scanned sb disk name chainBlk (block :: next :: rest)
        { found with visits := block :: found.visits }

section Scan

variable {sb : FsSuperblock} {disk : Disk} {name : Name}

theorem Scanned.hit_mem {chainBlk block i : Nat} {chain : List Nat} {found : Scan}
    (scanned : Scanned sb disk name chainBlk chain found) (isHit : found.hit = some (block, i)) :
    block ∈ chain ∧ Named sb disk name block i := by
  induction scanned with
  | hit named =>
      obtain ⟨rfl, rfl⟩ : _ = block ∧ _ = i := by simpa using isHit
      exact ⟨List.mem_cons_self, named⟩
  | nowhere absent => cases isHit
  | later absent _ ih =>
      obtain ⟨member, named⟩ := ih isHit
      exact ⟨List.mem_cons_of_mem _ member, named⟩

theorem Scanned.absent {chainBlk : Nat} {chain : List Nat} {found : Scan}
    (scanned : Scanned sb disk name chainBlk chain found) (isNone : found.hit = none) :
    found.visits = chain ∧ ∀ block ∈ chain, ∀ i, ¬Named sb disk name block i := by
  induction scanned with
  | hit named => cases isNone
  | nowhere absent => exact ⟨rfl, List.forall_mem_singleton.mpr absent⟩
  | later absent _ ih =>
      obtain ⟨visits, rest⟩ := ih isNone
      exact ⟨by rw [visits], List.forall_mem_cons.mpr ⟨absent, rest⟩⟩

theorem slotAt_isFree (block i : Nat) : isFree (disk block) i = (slotAt disk block i).isFree := rfl

theorem find_named (sb : FsSuperblock) (disk : Disk) (short : ShortName name) (block : Nat) :
    (∃ i, (List.range sb.dirEntries).find? (fun i =>
        !isFree (disk block) i && holdsString (disk block) (filename i) name) = some i ∧
      Named sb disk name block i) ∨
    (List.range sb.dirEntries).find? (fun i =>
        !isFree (disk block) i && holdsString (disk block) (filename i) name) = none ∧
      ∀ i, ¬Named sb disk name block i := by
  cases found : (List.range sb.dirEntries).find? fun i =>
      !isFree (disk block) i && holdsString (disk block) (filename i) name with
  | some i =>
      obtain ⟨holds, member, _⟩ := List.find?_range_eq_some.mp found
      rw [Bool.and_eq_true, Bool.not_eq_true', holdsString_slot short] at holds
      exact Or.inl ⟨i, rfl, List.mem_range.mp member, holds.1, holds.2⟩
  | none =>
      refine Or.inr ⟨rfl, ?_⟩
      rintro i ⟨inside, live, named⟩
      have differs := List.find?_range_eq_none.mp found i inside
      rw [Bool.not_eq_true', Bool.and_eq_false_iff] at differs
      rcases differs with free | other
      · rw [slotAt_isFree, live] at free
        cases free
      · have same : holdsString (disk block) (filename i) name = true := (holdsString_slot short).mpr named
        rw [other] at same
        cases same

theorem scan_spec (formatted : sb.Formatted) (short : ShortName name) (rest : List Nat) :
    ∀ block chainBlk fuel, Linked (sb.follower disk) uhfsEochblk (block :: rest) →
      (∀ place ∈ block :: rest, sb.IsData place) →
      cmbData (disk chainBlk) (sb.mapIndex block) = sb.follower disk block → rest.length < fuel →
      ∃ found, sb.scan disk name fuel chainBlk block = .ok found ∧
        Scanned sb disk name chainBlk (block :: rest) found := by
  have end_lt : sb.lastPlace < uhfsEochblk := formatted.lastPlace_lt.trans (by decide)
  induction rest with
  | nil =>
      intro block chainBlk fuel linked data aligned enough
      obtain ⟨fuel, rfl⟩ := Nat.exists_eq_succ_of_ne_zero (Nat.ne_of_gt enough)
      have ends : sb.follower disk block = uhfsEochblk := linked.head_next
      rw [FsSuperblock.scan, aligned, ends]
      simp only
      obtain ⟨i, found, named⟩ | ⟨found, absent⟩ := find_named sb disk short block
      · rw [found]
        exact ⟨_, rfl, .hit named⟩
      · rw [found]
        simp only [end_lt, true_or, if_true]
        exact ⟨_, rfl, .nowhere absent⟩
  | cons next rest ih =>
      intro block chainBlk fuel linked data aligned enough
      obtain ⟨fuel, rfl⟩ := Nat.exists_eq_succ_of_ne_zero (Nat.ne_of_gt (Nat.zero_lt_of_lt enough))
      have leads : sb.follower disk block = next := linked.head_next
      have nextData := data next (by simp)
      have inside : ¬(sb.lastPlace < next ∨ next = uhfsEochblk) := by
        have less := nextData.2.1
        have last := formatted.lastPlace_ge
        omega
      rw [FsSuperblock.scan, aligned, leads]
      simp only
      obtain ⟨i, found, named⟩ | ⟨found, absent⟩ := find_named sb disk short block
      · rw [found]
        exact ⟨_, rfl, .hit named⟩
      · rw [found]
        simp only [inside, if_false]
        obtain ⟨later, isLater, scanned⟩ := ih next (sb.mapBlock next) fuel
          linked.rest (fun place member => data place (List.mem_cons_of_mem _ member))
          rfl (by simpa using enough)
        rw [isLater]
        exact ⟨_, rfl, .later absent scanned⟩

end Scan

def FsSuperblock.OneRegion (sb : FsSuperblock) : Prop := sb.nBlocks ≤ sb.mapEntries + 1

theorem FsSuperblock.OneRegion.mapBlock {sb : FsSuperblock} (one : sb.OneRegion)
    (formatted : sb.Formatted) {block : Nat} (data : sb.IsData block) : sb.mapBlock block = 1 := by
  have small := formatted.nBlocks_small
  obtain ⟨low, high, inner⟩ := data
  unfold FsSuperblock.OneRegion at one
  rw [mapBlock_eq formatted (by omega) (by omega), Nat.mod_eq_of_lt]
  · omega
  · omega

theorem Scanned.region {sb : FsSuperblock} {disk : Disk} {name : Name} (one : sb.OneRegion)
    (formatted : sb.Formatted) {chainBlk : Nat} {chain : List Nat} {found : Scan}
    (scanned : Scanned sb disk name chainBlk chain found) (data : ∀ block ∈ chain, sb.IsData block)
    (start : chainBlk = 1) (isHit : found.hit ≠ none) : found.chainBlk = 1 := by
  induction scanned with
  | hit named => exact start
  | nowhere absent => exact absurd rfl isHit
  | later absent _ ih =>
      rw [List.forall_mem_cons] at data
      exact ih data.2 (one.mapBlock formatted (data.2 _ List.mem_cons_self)) isHit

inductive Resolves (sb : FsSuperblock) (disk : Disk) (nodes : List Node) :
    Node → List Name → Nat → Option Name → Search → Prop
  | whole {dir pblock ppath search} : search.result = -1 → Resolves sb disk nodes dir [] pblock ppath search
  | missing {dir name pblock ppath search} :
      (∀ child ∈ nodes, child.path ≠ dir.path ++ [name]) → search.result = 0 →
      search.pblock = pblock → search.ppath = ppath → dir.chain.head? = some search.lblock →
      search.lpath = some name → Resolves sb disk nodes dir [name] pblock ppath search
  | lost {dir name rest pblock ppath search} : rest ≠ [] →
      (∀ child ∈ nodes, child.path ≠ dir.path ++ [name]) → search.result = -1 →
      Resolves sb disk nodes dir (name :: rest) pblock ppath search
  | file {dir child name rest pblock ppath search block i} : child ∈ nodes →
      Entry sb disk dir block i → (slotAt disk block i).name = name →
      Leads dir (slotAt disk block i) child → child.isDir = false → search.result = 1 →
      search.pblock = block → search.ppath = some name → child.chain.head? = some search.lblock →
      Resolves sb disk nodes dir (name :: rest) pblock ppath search
  | enter {dir child name rest pblock ppath search later block i} : child ∈ nodes →
      Entry sb disk dir block i → (slotAt disk block i).name = name →
      Leads dir (slotAt disk block i) child → child.isDir = true →
      Resolves sb disk nodes child rest block (some name) later →
      search.result = later.result → search.pblock = later.pblock → search.ppath = later.ppath →
      search.lblock = later.lblock → search.lpath = later.lpath →
      Resolves sb disk nodes dir (name :: rest) pblock ppath search

theorem searchFrom_spec {sb : FsSuperblock} {disk : Disk} {nodes : List Node} {fuel : Nat}
    (formatted : sb.Formatted) (one : sb.OneRegion) (layout : Layout sb disk nodes)
    (enough : sb.nBlocks ≤ fuel) (tokens : List Name) :
    ∀ dir ∈ nodes, dir.isDir = true → (∀ token ∈ tokens, ShortName token) →
      ∀ first pblock ppath, dir.chain.head? = some first →
      ∃ search, sb.searchFrom fuel disk tokens 1 first pblock ppath = .ok search ∧
        Resolves sb disk nodes dir tokens pblock ppath search := by
  induction tokens with
  | nil =>
      intro dir isNode isDir short first pblock ppath head
      exact ⟨_, rfl, .whole rfl⟩
  | cons name rest ih =>
      intro dir isNode isDir short first pblock ppath head
      obtain ⟨chain, isChain⟩ : ∃ chain, dir.chain = first :: chain := by
        cases chain : dir.chain with
        | nil => simp [chain] at head
        | cons block others =>
            simp only [chain, List.head?_cons, Option.some.injEq] at head
            exact ⟨others, by rw [head]⟩
      have linked := (layout.chain_mem isNode).2
      rw [isChain] at linked
      have data : ∀ place ∈ first :: chain, sb.IsData place := by
        rw [← isChain]
        exact fun place member => layout.data isNode member
      have aligned : cmbData (disk 1) (sb.mapIndex first) = sb.follower disk first := by
        rw [FsSuperblock.follower, one.mapBlock formatted (data first List.mem_cons_self)]
      have short_chain : chain.length < fuel := by
        have bound := layout.chain_length isNode
        rw [isChain, List.length_cons] at bound
        omega
      obtain ⟨found, isFound, scanned⟩ := scan_spec formatted (short name List.mem_cons_self) chain
        first 1 fuel linked data aligned short_chain
      rw [FsSuperblock.searchFrom, isFound]
      simp only [bind, Except.bind]
      cases isHit : found.hit with
      | none =>
          have absent := (scanned.absent isHit).2
          have noChild : ∀ child ∈ nodes, child.path ≠ dir.path ++ [name] := by
            intro child isChild path
            obtain ⟨_, block, i, entry, named, _⟩ := layout.entry_of isNode isChild path
            refine absent block (by rw [← isChain]; exact entry.held) i ⟨entry.inside, entry.live, named⟩
          simp only
          by_cases last : rest = []
          · rw [last, if_pos rfl]
            exact ⟨_, rfl, .missing noChild rfl rfl rfl head rfl⟩
          · rw [if_neg last]
            exact ⟨_, rfl, .lost last noChild rfl⟩
      | some place =>
          obtain ⟨block, i⟩ := place
          obtain ⟨inChain, inside, live, named⟩ := scanned.hit_mem isHit
          have entry : Entry sb disk dir block i := ⟨by rw [isChain]; exact inChain, inside, live⟩
          obtain ⟨child, isChild, leads⟩ := layout.listed dir isNode isDir block i entry
          have sameDir : isDirectory (disk block) i = child.isDir := leads.isDir.symm
          have region := scanned.region one formatted data rfl (by simp [isHit])
          simp only [sameDir, region]
          cases childDir : child.isDir with
          | false =>
              simp only [Bool.false_eq_true, if_false]
              exact ⟨_, rfl, .file isChild entry named leads childDir rfl rfl rfl leads.first⟩
          | true =>
              obtain ⟨later, isLater, resolves⟩ := ih child isChild childDir
                (fun token member => short token (List.mem_cons_of_mem _ member))
                (firstBlock (disk block) i) block (some name) leads.first
              rw [if_pos rfl, isLater]
              exact ⟨_, rfl, .enter isChild entry named leads childDir resolves rfl rfl rfl rfl rfl⟩

end Hellfire

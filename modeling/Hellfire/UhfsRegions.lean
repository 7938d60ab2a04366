import Hellfire.Library.Machine
import Hellfire.UhfsTree

/-!
Path lookup on volumes with several storage regions. After entering a directory, `searchdirectory`
reads the follower of its first block in the cluster map block that it used last.
-/

namespace Hellfire

open ByteMemory Chains Machine

open FsSuperblock (Scan Search)

def Holds (sb : FsSuperblock) (disk : Disk) (name : Name) (block i : Nat) : Prop :=
  i < sb.dirEntries ∧ isFree (disk block) i = false ∧ holdsString (disk block) (filename i) name = true

instance (sb : FsSuperblock) (disk : Disk) (name : Name) (block i : Nat) :
    Decidable (Holds sb disk name block i) := inferInstanceAs (Decidable (_ ∧ _ ∧ _))

structure FirstHolds (sb : FsSuperblock) (disk : Disk) (name : Name) (block i : Nat) : Prop where
  holds : Holds sb disk name block i
  first : ∀ j < i, ¬Holds sb disk name block j

instance (sb : FsSuperblock) (disk : Disk) (name : Name) (block i : Nat) :
    Decidable (FirstHolds sb disk name block i) :=
  decidable_of_iff (Holds sb disk name block i ∧ ∀ j < i, ¬Holds sb disk name block j)
    ⟨fun both => ⟨both.1, both.2⟩, fun both => ⟨both.holds, both.first⟩⟩

/-- The component is in no entry in use of the blocks. -/
def Lacks (sb : FsSuperblock) (disk : Disk) (name : Name) (blocks : List Nat) : Prop :=
  ∀ block ∈ blocks, ∀ i, ¬Holds sb disk name block i

instance (sb : FsSuperblock) (disk : Disk) (name : Name) (blocks : List Nat) :
    Decidable (Lacks sb disk name blocks) :=
  decidable_of_iff (∀ block ∈ blocks, ∀ i < sb.dirEntries, ¬Holds sb disk name block i)
    ⟨fun lacks block member i holds => lacks block member i holds.1 holds,
      fun lacks block member i _ => lacks block member i⟩

/-- The search visits in each directory of the path the blocks of its own chain in order, up to the
first entry in use with the component, and its result says so. -/
inductive Follows (sb : FsSuperblock) (disk : Disk) : Nat → List Name → Search → Prop
  | whole {first search} : search.visits = [] → search.result = -1 → Follows sb disk first [] search
  | missing {first name rest chain search} : ChainFrom sb disk first chain → Lacks sb disk name chain →
      search.visits = [chain] → search.result = (if rest = [] then 0 else -1) →
      Follows sb disk first (name :: rest) search
  | file {first name rest before block after i search} :
      ChainFrom sb disk first (before ++ block :: after) → Lacks sb disk name before →
      FirstHolds sb disk name block i → isDirectory (disk block) i = false →
      search.visits = [before ++ [block]] → search.result = 1 →
      Follows sb disk first (name :: rest) search
  | enter {first name rest before block after i search later} :
      ChainFrom sb disk first (before ++ block :: after) → Lacks sb disk name before →
      FirstHolds sb disk name block i → isDirectory (disk block) i = true →
      Follows sb disk (firstBlock (disk block) i) rest later →
      search.visits = (before ++ [block]) :: later.visits → search.result = later.result →
      Follows sb disk first (name :: rest) search

/-- No block of the directory behind an entry of the cluster map. -/
def Ended (sb : FsSuperblock) (next : Nat) : Prop := sb.lastPlace < next ∨ next = uhfsEochblk

instance (sb : FsSuperblock) (next : Nat) : Decidable (Ended sb next) := inferInstanceAs (Decidable (_ ∨ _))

/-- The entry that is read in a cluster map block for the first block of a directory is the follower
of that block, or both end the directory. -/
def Agrees (sb : FsSuperblock) (disk : Disk) (chainBlk first : Nat) : Prop :=
  cmbData (disk chainBlk) (sb.mapIndex first) = sb.follower disk first ∨
    Ended sb (cmbData (disk chainBlk) (sb.mapIndex first)) ∧ Ended sb (sb.follower disk first)

/-- Along the path, the cluster map block in use agrees about the first block of each directory in
which the component is not found in that block. The one in use changes only to that of a later block
of a directory. -/
inductive InStep (sb : FsSuperblock) (disk : Disk) : Nat → Nat → List Name → Prop
  | whole {chainBlk first} : InStep sb disk chainBlk first []
  | missing {chainBlk first name rest chain} : ChainFrom sb disk first chain →
      Lacks sb disk name chain → Agrees sb disk chainBlk first →
      InStep sb disk chainBlk first (name :: rest)
  | file {chainBlk first name rest before block after i} :
      ChainFrom sb disk first (before ++ block :: after) → Lacks sb disk name before →
      FirstHolds sb disk name block i → isDirectory (disk block) i = false →
      (before ≠ [] → Agrees sb disk chainBlk first) → InStep sb disk chainBlk first (name :: rest)
  | enter {chainBlk first name rest before block after i} :
      ChainFrom sb disk first (before ++ block :: after) → Lacks sb disk name before →
      FirstHolds sb disk name block i → isDirectory (disk block) i = true →
      (before ≠ [] → Agrees sb disk chainBlk first) →
      InStep sb disk (if before = [] then chainBlk else sb.mapBlock block)
        (firstBlock (disk block) i) rest →
      InStep sb disk chainBlk first (name :: rest)

/-- The chains of the directories and of the files. A file has one block, and an entry for a directory
leads to one of the chains of directories. -/
structure Flat (sb : FsSuperblock) (disk : Disk) (dirs files : List (List Nat)) : Prop where
  mapped : sb.Mapped disk
  fixed : ∀ k, sb.IsMap k → ∀ i, 1 ≤ i → i < sb.mapEntries → sb.nBlocks ≤ k + i →
    cmbData (disk k) i = uhfsFixdblk
  owned : Owned sb.IsData (sb.follower disk) uhfsEochblk uhfsFreeblk (dirs ++ files)
  root : ∃ chain ∈ dirs, chain.head? = some sb.rootDirBlock
  listed : ∀ chain ∈ dirs, ∀ block ∈ chain, ∀ i < sb.dirEntries, isFree (disk block) i = false →
    isDirectory (disk block) i = true → ∃ child ∈ dirs, child.head? = some (firstBlock (disk block) i)
  single : ∀ chain ∈ files, ∃ block, chain = [block]

variable {sb : FsSuperblock} {disk : Disk} {dirs files : List (List Nat)}

namespace Flat

theorem mem (flat : Flat sb disk dirs files) {chain : List Nat} (member : chain ∈ dirs) :
    Linked (sb.follower disk) uhfsEochblk chain ∧ (∀ block ∈ chain, sb.IsData block) ∧ chain.Nodup := by
  have inAll : chain ∈ dirs ++ files := List.mem_append_left _ member
  refine ⟨flat.owned.linked chain inAll, fun block inside => ?_, ?_⟩
  · exact flat.owned.inside block (List.mem_flatten_of_mem inAll inside)
  · exact (List.nodup_flatten.mp flat.owned.apart).1 chain inAll

theorem chainFrom (flat : Flat sb disk dirs files) (formatted : sb.Formatted) {chain : List Nat}
    {first : Nat} (member : chain ∈ dirs) (head : chain.head? = some first) :
    ChainFrom sb disk first chain := by
  refine ⟨head, (flat.mem member).1, fun inside => ?_⟩
  have small := formatted.nBlocks_small
  have bound := ((flat.mem member).2.1 _ inside).2.1
  unfold uhfsEochblk at bound
  omega

theorem length (flat : Flat sb disk dirs files) {chain : List Nat} (member : chain ∈ dirs) :
    chain.length + 2 ≤ sb.nBlocks :=
  FsSuperblock.length_of_data (flat.mem member).2.2 (flat.mem member).2.1 (flat.mem member).1.ne_nil

end Flat

theorem not_ended_of_data (formatted : sb.Formatted) {block : Nat} (data : sb.IsData block) :
    ¬Ended sb block := by
  have inside := data.2.1
  have last := formatted.lastPlace_ge
  have small := formatted.nBlocks_small
  unfold Ended uhfsEochblk
  omega

theorem ended_end (formatted : sb.Formatted) {next : Nat} (high : 1073741824 ≤ next) : Ended sb next :=
  Or.inl (formatted.lastPlace_lt.trans_le high)

section Scans

variable {name : Name} {fuel chainBlk first : Nat}

theorem find_holds (sb : FsSuperblock) (disk : Disk) (name : Name) (block : Nat) :
    (∃ i, (List.range sb.dirEntries).find? (fun i =>
        !isFree (disk block) i && holdsString (disk block) (filename i) name) = some i ∧
      FirstHolds sb disk name block i) ∨
    (List.range sb.dirEntries).find? (fun i =>
        !isFree (disk block) i && holdsString (disk block) (filename i) name) = none ∧
      ∀ i, ¬Holds sb disk name block i := by
  cases found : (List.range sb.dirEntries).find? fun i =>
      !isFree (disk block) i && holdsString (disk block) (filename i) name with
  | some i =>
      obtain ⟨holds, member, before⟩ := List.find?_range_eq_some.mp found
      rw [Bool.and_eq_true, Bool.not_eq_true'] at holds
      refine Or.inl ⟨i, rfl, ⟨List.mem_range.mp member, holds.1, holds.2⟩, ?_⟩
      rintro j less ⟨_, live, same⟩
      have differs := before j less
      rw [live, same] at differs
      cases differs
  | none =>
      refine Or.inr ⟨rfl, ?_⟩
      rintro i ⟨inside, live, same⟩
      have differs := List.find?_range_eq_none.mp found i inside
      rw [live, same] at differs
      cases differs

theorem FirstHolds.unique {block i j : Nat} (here : FirstHolds sb disk name block i)
    (there : FirstHolds sb disk name block j) : i = j := by
  rcases Nat.lt_trichotomy i j with less | same | more
  · exact absurd here.holds (there.first i less)
  · exact same
  · exact absurd there.holds (here.first j more)

theorem scan_hit {i : Nat} (holds : FirstHolds sb disk name first i) :
    sb.scan disk name (fuel + 1) chainBlk first = .ok ⟨[first], chainBlk, some (first, i)⟩ := by
  obtain ⟨j, found, first'⟩ | ⟨_, none⟩ := find_holds sb disk name first
  · rw [FsSuperblock.scan, found, first'.unique holds]
  · exact absurd holds.holds (none i)

theorem scan_miss (lacks : ∀ i, ¬Holds sb disk name first i) :
    sb.scan disk name (fuel + 1) chainBlk first =
      if Ended sb (cmbData (disk chainBlk) (sb.mapIndex first)) then
        .ok ⟨[first], sb.mapBlock (cmbData (disk chainBlk) (sb.mapIndex first)), none⟩
      else (sb.scan disk name fuel (sb.mapBlock (cmbData (disk chainBlk) (sb.mapIndex first)))
        (cmbData (disk chainBlk) (sb.mapIndex first))).map fun later =>
          { later with visits := first :: later.visits } := by
  obtain ⟨j, _, holds⟩ | ⟨found, _⟩ := find_holds sb disk name first
  · exact absurd holds.holds (lacks j)
  · rw [FsSuperblock.scan, found]
    rfl

theorem lacks_nil : Lacks sb disk name [] := fun _ member => absurd member List.not_mem_nil

theorem Lacks.split {before before' after after' : List Nat} {block block' i j : Nat}
    (lacks : Lacks sb disk name before) (lacks' : Lacks sb disk name before')
    (holds : Holds sb disk name block i) (holds' : Holds sb disk name block' j)
    (same : before ++ block :: after = before' ++ block' :: after') : before = before' ∧ block = block' := by
  induction before generalizing before' with
  | nil =>
      cases before' with
      | nil => exact ⟨rfl, (List.cons.inj same).1⟩
      | cons first' rest' =>
          rw [(List.cons.inj same).1] at holds
          exact absurd holds (lacks' first' List.mem_cons_self i)
  | cons first rest ih =>
      cases before' with
      | nil =>
          rw [← (List.cons.inj same).1] at holds'
          exact absurd holds' (lacks first List.mem_cons_self j)
      | cons first' rest' =>
          obtain ⟨rfl, tail⟩ := List.cons.inj same
          obtain ⟨rfl, rfl⟩ := ih (fun block member => lacks block (List.mem_cons_of_mem _ member))
            (fun block member => lacks' block (List.mem_cons_of_mem _ member)) tail
          exact ⟨rfl, rfl⟩

theorem scan_miss_cases {found : Scan} (lacks : ∀ i, ¬Holds sb disk name first i)
    (scanned : sb.scan disk name (fuel + 1) chainBlk first = .ok found) :
    Ended sb (cmbData (disk chainBlk) (sb.mapIndex first)) ∧ found.visits = [first] ∧ found.hit = none ∨
    ¬Ended sb (cmbData (disk chainBlk) (sb.mapIndex first)) ∧ ∃ later,
      sb.scan disk name fuel (sb.mapBlock (cmbData (disk chainBlk) (sb.mapIndex first)))
        (cmbData (disk chainBlk) (sb.mapIndex first)) = .ok later ∧
      found = ⟨first :: later.visits, later.chainBlk, later.hit⟩ := by
  rw [scan_miss lacks] at scanned
  split at scanned
  · rename_i ended
    rw [← Except.ok.inj scanned]
    exact Or.inl ⟨ended, rfl, rfl⟩
  · rename_i more
    cases behind : sb.scan disk name fuel (sb.mapBlock (cmbData (disk chainBlk) (sb.mapIndex first)))
        (cmbData (disk chainBlk) (sb.mapIndex first)) with
    | error fault =>
        rw [behind] at scanned
        cases scanned
    | ok later =>
        rw [behind] at scanned
        exact Or.inr ⟨more, later, rfl, (Except.ok.inj scanned).symm⟩

theorem scan_head {found : Scan} (scanned : sb.scan disk name fuel chainBlk first = .ok found) :
    found.visits.head? = some first := by
  cases fuel with
  | zero => cases scanned
  | succ fuel =>
      obtain ⟨i, _, holds⟩ | ⟨_, lacks⟩ := find_holds sb disk name first
      · rw [scan_hit holds] at scanned
        rw [← Except.ok.inj scanned]
        rfl
      · obtain ⟨_, visits, _⟩ | ⟨_, later, _, rfl⟩ := scan_miss_cases lacks scanned
        · rw [visits]
          rfl
        · rfl

theorem scan_second {found : Scan} (lacks : ∀ i, ¬Holds sb disk name first i)
    (scanned : sb.scan disk name fuel chainBlk first = .ok found) :
    found.visits.tail.head? = if Ended sb (cmbData (disk chainBlk) (sb.mapIndex first)) then none
      else some (cmbData (disk chainBlk) (sb.mapIndex first)) := by
  cases fuel with
  | zero => cases scanned
  | succ fuel =>
      obtain ⟨ended, visits, _⟩ | ⟨more, later, behind, rfl⟩ := scan_miss_cases lacks scanned
      · rw [visits, if_pos ended]
        rfl
      · rw [if_neg more, List.tail_cons, scan_head behind]

theorem scan_chain (formatted : sb.Formatted) (rest : List Nat) : ∀ first chainBlk fuel,
    Linked (sb.follower disk) uhfsEochblk (first :: rest) → (∀ block ∈ first :: rest, sb.IsData block) →
    cmbData (disk chainBlk) (sb.mapIndex first) = sb.follower disk first → rest.length < fuel →
    (∃ before block after i, first :: rest = before ++ block :: after ∧ Lacks sb disk name before ∧
      FirstHolds sb disk name block i ∧ sb.scan disk name fuel chainBlk first =
        .ok ⟨before ++ [block], if before = [] then chainBlk else sb.mapBlock block, some (block, i)⟩) ∨
    Lacks sb disk name (first :: rest) ∧ ∃ ended,
      sb.scan disk name fuel chainBlk first = .ok ⟨first :: rest, ended, none⟩ := by
  induction rest with
  | nil =>
      intro first chainBlk fuel linked data aligned enough
      obtain ⟨fuel, rfl⟩ := Nat.exists_eq_succ_of_ne_zero (Nat.ne_of_gt enough)
      have ends : sb.follower disk first = uhfsEochblk := linked.head_next
      obtain ⟨i, _, holds⟩ | ⟨_, lacks⟩ := find_holds sb disk name first
      · exact Or.inl ⟨[], first, [], i, rfl, lacks_nil, holds, scan_hit holds⟩
      · refine Or.inr ⟨List.forall_mem_singleton.mpr lacks, ?_⟩
        rw [scan_miss lacks, aligned, if_pos (show Ended sb (sb.follower disk first) from Or.inr ends)]
        exact ⟨_, rfl⟩
  | cons next rest ih =>
      intro first chainBlk fuel linked data aligned enough
      obtain ⟨fuel, rfl⟩ := Nat.exists_eq_succ_of_ne_zero (Nat.ne_of_gt (Nat.zero_lt_of_lt enough))
      have leads : sb.follower disk first = next := linked.head_next
      have nextData := data next (by simp)
      obtain ⟨i, _, holds⟩ | ⟨_, lacks⟩ := find_holds sb disk name first
      · exact Or.inl ⟨[], first, next :: rest, i, rfl, lacks_nil, holds,
          scan_hit holds⟩
      · have later := ih next (sb.mapBlock next) fuel linked.rest
          (fun block member => data block (List.mem_cons_of_mem _ member)) rfl (by simpa using enough)
        rw [scan_miss lacks, aligned, leads, if_neg (not_ended_of_data formatted nextData)]
        obtain ⟨before, block, after, i, chain, none, holds, scanned⟩ | ⟨none, ended, scanned⟩ := later
        · refine Or.inl ⟨first :: before, block, after, i, by rw [chain]; rfl,
            List.forall_mem_cons.mpr ⟨lacks, none⟩, holds, ?_⟩
          rw [scanned, if_neg (List.cons_ne_nil _ _)]
          have here : (if before = [] then sb.mapBlock next else sb.mapBlock block) = sb.mapBlock block := by
            split
            · rename_i empty
              rw [empty] at chain
              rw [(List.cons.inj chain).1]
            · rfl
          rw [here]
          rfl
        · refine Or.inr ⟨List.forall_mem_cons.mpr ⟨lacks, none⟩, ended, ?_⟩
          rw [scanned]
          rfl

end Scans

section Lookup

variable {fuel chainBlk first : Nat}

theorem ChainFrom.split {before after : List Nat} {block : Nat}
    (chain : ChainFrom sb disk first (before ++ block :: after)) (some : before ≠ []) :
    ∃ inner, before = first :: inner := by
  obtain ⟨head, inner, rfl⟩ := List.exists_cons_of_ne_nil some
  exact ⟨inner, by rw [Option.some.inj chain.head]⟩

theorem scan_agreed (formatted : sb.Formatted) {rest : List Nat}
    (linked : Linked (sb.follower disk) uhfsEochblk (first :: rest))
    (data : ∀ block ∈ first :: rest, sb.IsData block) (enough : rest.length < fuel) (name : Name)
    (agrees : (∀ i, ¬Holds sb disk name first i) → Agrees sb disk chainBlk first) :
    (∃ before block after i, first :: rest = before ++ block :: after ∧ Lacks sb disk name before ∧
      FirstHolds sb disk name block i ∧ sb.scan disk name fuel chainBlk first =
        .ok ⟨before ++ [block], if before = [] then chainBlk else sb.mapBlock block, some (block, i)⟩) ∨
    Lacks sb disk name (first :: rest) ∧ ∃ ended,
      sb.scan disk name fuel chainBlk first = .ok ⟨first :: rest, ended, none⟩ := by
  obtain ⟨fuel, rfl⟩ : ∃ less, fuel = less + 1 := ⟨fuel - 1, by omega⟩
  obtain ⟨i, _, holds⟩ | ⟨_, lacks⟩ := find_holds sb disk name first
  · exact Or.inl ⟨[], first, rest, i, rfl, lacks_nil, holds, scan_hit holds⟩
  · rcases agrees lacks with aligned | ⟨endedRead, ended⟩
    · exact scan_chain formatted rest first chainBlk (fuel + 1) linked data aligned enough
    · have alone : rest = [] := by
        cases rest with
        | nil => rfl
        | cons next rest =>
            rw [linked.head_next] at ended
            exact absurd ended (not_ended_of_data formatted (data next (by simp)))
      rw [alone]
      refine Or.inr ⟨List.forall_mem_singleton.mpr lacks, ?_⟩
      rw [scan_miss lacks, if_pos endedRead]
      exact ⟨_, rfl⟩

theorem scan_agreed_hit (formatted : sb.Formatted) {before after : List Nat} {block i : Nat} {name : Name}
    (linked : Linked (sb.follower disk) uhfsEochblk (before ++ block :: after))
    (data : ∀ place ∈ before ++ block :: after, sb.IsData place)
    (head : (before ++ block :: after).head? = some first)
    (enough : (before ++ block :: after).length ≤ fuel) (lacks : Lacks sb disk name before)
    (holds : FirstHolds sb disk name block i) (agrees : before ≠ [] → Agrees sb disk chainBlk first) :
    sb.scan disk name fuel chainBlk first =
      .ok ⟨before ++ [block], if before = [] then chainBlk else sb.mapBlock block, some (block, i)⟩ := by
  have needed : (∀ i, ¬Holds sb disk name first i) → Agrees sb disk chainBlk first := by
    intro none
    apply agrees
    rintro rfl
    have here : block = first := by simpa using head
    exact none i (here ▸ holds.holds)
  obtain ⟨rest, chain⟩ := List.head?_eq_some_iff.mp head
  rw [chain] at linked data enough
  obtain ⟨before', block', after', i', split, lacks', holds', scanned⟩ | ⟨none, _⟩ :=
    scan_agreed formatted linked data enough name needed
  · obtain ⟨rfl, rfl⟩ := lacks.split lacks' holds.holds holds'.holds (chain.trans split)
    rw [holds.unique holds']
    exact scanned
  · exact absurd holds.holds (none block (by simp [← chain]) i)

theorem Flat.agrees (flat : Flat sb disk dirs files) {rest : List Nat} {name : Name}
    (member : first :: rest ∈ dirs) {found : Scan} (lacks : ∀ i, ¬Holds sb disk name first i)
    (scanned : sb.scan disk name fuel chainBlk first = .ok found)
    (same : found.visits.tail.head? = rest.head?) : Agrees sb disk chainBlk first := by
  have leads := (flat.mem member).1.head_next
  rw [scan_second lacks scanned] at same
  unfold Agrees
  rw [leads, ← same]
  split
  · rename_i ended
    exact Or.inr ⟨ended, Or.inr rfl⟩
  · exact Or.inl rfl

theorem Follows.congr {tokens : List Name} {search other : Search}
    (follows : Follows sb disk first tokens search) (visits : other.visits = search.visits)
    (result : other.result = search.result) : Follows sb disk first tokens other := by
  cases follows with
  | whole none failed => exact .whole (visits.trans none) (result.trans failed)
  | missing chain lacks all failed => exact .missing chain lacks (visits.trans all) (result.trans failed)
  | file chain lacks holds isFile all one =>
      exact .file chain lacks holds isFile (visits.trans all) (result.trans one)
  | enter chain lacks holds isDir later all same =>
      exact .enter chain lacks holds isDir later (visits.trans all) (result.trans same)

theorem InStep.follows {tokens : List Name} (inStep : InStep sb disk chainBlk first tokens)
    (flat : Flat sb disk dirs files) (formatted : sb.Formatted) (enough : sb.nBlocks ≤ fuel)
    {chain : List Nat} (member : chain ∈ dirs) (head : chain.head? = some first) (pblock : Nat)
    (ppath : Option Name) : ∃ search,
      sb.searchFrom fuel disk tokens chainBlk first pblock ppath = .ok search ∧
        Follows sb disk first tokens search := by
  induction inStep generalizing chain pblock ppath with
  | whole => exact ⟨_, rfl, .whole rfl rfl⟩
  | @missing chainBlk first name rest own isOwn lacks agrees =>
      obtain rfl := isOwn.unique (flat.chainFrom formatted member head)
      obtain ⟨rest, rfl⟩ := List.head?_eq_some_iff.mp head
      obtain ⟨linked, data, _⟩ := flat.mem member
      have length := flat.length member
      rw [List.length_cons] at length
      obtain ⟨before, block, after, i, split, _, holds, _⟩ | ⟨_, ended, scanned⟩ :=
        scan_agreed formatted linked data (show rest.length < fuel by omega) name fun _ => agrees
      · exact absurd holds.holds (lacks block (by simp [split]) i)
      · rw [FsSuperblock.searchFrom, scanned]
        exact ⟨_, rfl, .missing isOwn lacks rfl rfl⟩
  | @file chainBlk first name rest before block after i isOwn lacks holds isFile agrees =>
      obtain rfl := isOwn.unique (flat.chainFrom formatted member head)
      obtain ⟨linked, data, _⟩ := flat.mem member
      have length : (before ++ block :: after).length ≤ fuel := by
        have bound := flat.length member
        omega
      have scanned := scan_agreed_hit formatted linked data head length lacks holds agrees
      rw [FsSuperblock.searchFrom, scanned]
      simp only [bind, Except.bind, isFile, Bool.false_eq_true, if_false]
      exact ⟨_, rfl, .file isOwn lacks holds isFile rfl rfl⟩
  | @enter chainBlk first name rest before block after i isOwn lacks holds isDir agrees _ ih =>
      obtain rfl := isOwn.unique (flat.chainFrom formatted member head)
      obtain ⟨linked, data, _⟩ := flat.mem member
      have length : (before ++ block :: after).length ≤ fuel := by
        have bound := flat.length member
        omega
      have scanned := scan_agreed_hit formatted linked data head length lacks holds agrees
      obtain ⟨inside, live, _⟩ := holds.holds
      obtain ⟨child, isChild, childHead⟩ := flat.listed _ member block (by simp) i inside live isDir
      obtain ⟨later, done, follows⟩ := ih isChild childHead block (some name)
      rw [FsSuperblock.searchFrom, scanned]
      simp only [bind, Except.bind, isDir, if_true]
      rw [done]
      exact ⟨_, rfl, .enter isOwn lacks holds isDir follows rfl rfl⟩

inductive Searched (sb : FsSuperblock) (fuel : Nat) (disk : Disk) (name : Name) (rest : List Name)
    (found : Scan) (pblock : Nat) (ppath : Option Name) (first : Nat) : Search → Prop
  | missing : found.hit = none → Searched sb fuel disk name rest found pblock ppath first
      ⟨if rest = [] then 0 else -1, pblock, ppath, first, some name, [found.visits]⟩
  | file {block i} : found.hit = some (block, i) → isDirectory (disk block) i = false →
      Searched sb fuel disk name rest found pblock ppath first
        ⟨1, block, some name, firstBlock (disk block) i, some name, [found.visits]⟩
  | entered {block i later} : found.hit = some (block, i) → isDirectory (disk block) i = true →
      sb.searchFrom fuel disk rest found.chainBlk (firstBlock (disk block) i) block (some name) =
        .ok later →
      Searched sb fuel disk name rest found pblock ppath first
        { later with visits := found.visits :: later.visits }

theorem searchFrom_cases {name : Name} {rest : List Name} {pblock : Nat} {ppath : Option Name}
    {search : Search} (done : sb.searchFrom fuel disk (name :: rest) chainBlk first pblock ppath = .ok search) :
    ∃ found, sb.scan disk name fuel chainBlk first = .ok found ∧
      Searched sb fuel disk name rest found pblock ppath first search := by
  rw [FsSuperblock.searchFrom] at done
  obtain ⟨found, scanned, done⟩ := ok_of_bind done
  refine ⟨found, scanned, ?_⟩
  cases isHit : found.hit with
  | none =>
      simp only [isHit] at done
      exact Except.ok.inj done ▸ .missing isHit
  | some place =>
      obtain ⟨block, i⟩ := place
      simp only [isHit] at done
      cases isDir : isDirectory (disk block) i with
      | true =>
          rw [if_pos isDir] at done
          obtain ⟨later, more, done⟩ := ok_of_bind done
          exact Except.ok.inj done ▸ .entered isHit isDir more
      | false =>
          rw [if_neg (by simp [isDir])] at done
          exact Except.ok.inj done ▸ .file isHit isDir

theorem Searched.visits {name : Name} {rest : List Name} {found : Scan} {pblock : Nat}
    {ppath : Option Name} {search : Search}
    (searched : Searched sb fuel disk name rest found pblock ppath first search) :
    search.visits.head? = some found.visits := by
  cases searched <;> rfl

theorem Follows.inStep {tokens : List Name} (flat : Flat sb disk dirs files) (formatted : sb.Formatted)
    (enough : sb.nBlocks ≤ fuel) : ∀ {first chainBlk pblock ppath chain search}, chain ∈ dirs →
      chain.head? = some first →
      sb.searchFrom fuel disk tokens chainBlk first pblock ppath = .ok search →
      Follows sb disk first tokens search → InStep sb disk chainBlk first tokens := by
  induction tokens with
  | nil => exact fun _ _ _ _ => .whole
  | cons name rest ih =>
      intro first chainBlk pblock ppath chain search member head done follows
      obtain ⟨found, scanned, searched⟩ := searchFrom_cases done
      have visits := searched.visits
      -- the second block that is visited is the one behind the first block of the chain
      have agrees : ∀ {before after block}, ChainFrom sb disk first (before ++ block :: after) →
          Lacks sb disk name before → found.visits = before ++ [block] → before ≠ [] →
          Agrees sb disk chainBlk first := by
        intro before after block isOwn lacks same some
        obtain ⟨inner, rfl⟩ := isOwn.split some
        obtain rfl := isOwn.unique (flat.chainFrom formatted member head)
        refine flat.agrees member (lacks first List.mem_cons_self) scanned ?_
        rw [same]
        cases inner <;> rfl
      cases follows with
      | @missing _ _ _ own _ isOwn lacks all _ =>
          obtain rfl := isOwn.unique (flat.chainFrom formatted member head)
          obtain ⟨behind, rfl⟩ := List.head?_eq_some_iff.mp head
          refine .missing isOwn lacks (flat.agrees member (lacks first List.mem_cons_self) scanned ?_)
          rw [all] at visits
          rw [← Option.some.inj visits]
          rfl
      | @file _ _ _ before block after i _ isOwn lacks holds isFile all _ =>
          rw [all] at visits
          exact .file isOwn lacks holds isFile (agrees isOwn lacks (Option.some.inj visits).symm)
      | @enter _ _ _ before block after i _ later' isOwn lacks holds isDir follows' all result =>
          have first_visits := visits
          rw [all] at first_visits
          have inUse := agrees isOwn lacks (Option.some.inj first_visits).symm
          obtain rfl := isOwn.unique (flat.chainFrom formatted member head)
          obtain ⟨linked, data, _⟩ := flat.mem member
          have length : (before ++ block :: after).length ≤ fuel := by
            have bound := flat.length member
            omega
          have exact_scan := scan_agreed_hit formatted linked data head length lacks holds inUse
          obtain ⟨inside, live, _⟩ := holds.holds
          obtain ⟨child, isChild, childHead⟩ := flat.listed _ member block (by simp) i inside live isDir
          have same := Except.ok.inj (scanned.symm.trans exact_scan)
          cases searched with
          | missing hit =>
              rw [same] at hit
              cases hit
          | file hit isFile =>
              rw [same] at hit
              cases hit
              rw [isDir] at isFile
              cases isFile
          | entered hit _ more =>
              rw [same] at hit more
              cases hit
              refine .enter isOwn lacks holds isDir inUse (ih isChild childHead more (follows'.congr ?_ result))
              exact (List.cons.inj all).2

theorem Flat.follows_iff (flat : Flat sb disk dirs files) (formatted : sb.Formatted)
    (enough : sb.nBlocks ≤ fuel) (path : CString) :
    (∃ search, sb.searchdirectory fuel disk path = .ok search ∧
        Follows sb disk sb.rootDirBlock path.tokens search) ↔
      InStep sb disk sb.firstCmb sb.rootDirBlock path.tokens := by
  obtain ⟨chain, member, head⟩ := flat.root
  constructor
  · rintro ⟨search, done, follows⟩
    exact follows.inStep flat formatted enough member head done
  · intro inStep
    exact inStep.follows flat formatted enough member head 0 none

end Lookup

end Hellfire

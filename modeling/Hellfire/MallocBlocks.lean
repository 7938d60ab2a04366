import Hellfire.Library.MergeRuns
import Hellfire.MallocCore

/-!
The block list of the heap as the memory shows it: a chain of headers from the heap
start to the sentinel, and what the loops of `hf_malloc` do on it.
-/

namespace Hellfire

open ByteMemory

structure Region where
  base : Nat
  len : Nat
  positive : 0 < base
  aligned : len % 4 = 0
  headers : 16 ≤ len
  addressable : base + len ≤ 4294967296

def Region.sentinel (region : Region) : Nat := region.base + region.len - 8

structure Block where
  used : Bool
  len : Nat
deriving DecidableEq, Repr

namespace Heap

def spans : List Block → Nat
  | [] => 0
  | block :: rest => 8 + block.len + spans rest

/-- The headers that start at `p` describe the given blocks. The size word of a free block
may be stale. -/
def Chain (memory : Memory) : Nat → List Block → Prop
  | _, [] => True
  | p, block :: rest =>
      next memory p = p + 8 + block.len ∧
      (if block.used then size memory p = block.len + 1 else marked (size memory p) = false) ∧
      block.len % 4 = 0 ∧ Chain memory (p + 8 + block.len) rest

def usedAt : Nat → List Block → List (Nat × Nat)
  | _, [] => []
  | p, block :: rest =>
      if block.used then (p, block.len) :: usedAt (p + 8 + block.len) rest
      else usedAt (p + 8 + block.len) rest

theorem spans_append (first second : List Block) :
    spans (first ++ second) = spans first + spans second := by
  induction first with
  | nil => simp [spans]
  | cons block first ih =>
      simp only [List.cons_append, spans, ih]
      omega

theorem chain_append (memory : Memory) (first second : List Block) : ∀ p,
    Chain memory p (first ++ second) ↔
      Chain memory p first ∧ Chain memory (p + spans first) second := by
  induction first with
  | nil => simp [Chain, spans]
  | cons block first ih =>
      intro p
      simp only [List.cons_append, Chain, spans, ih, and_assoc]
      rw [show p + 8 + block.len + spans first = p + (8 + block.len + spans first) by omega]

theorem usedAt_append (first second : List Block) : ∀ p,
    usedAt p (first ++ second) = usedAt p first ++ usedAt (p + spans first) second := by
  induction first with
  | nil => simp [usedAt, spans]
  | cons block first ih =>
      intro p
      have place : p + 8 + block.len + spans first = p + (8 + block.len + spans first) := by omega
      simp only [List.cons_append, usedAt, spans, ih, place]
      split
      · rfl
      · rfl

theorem usedAt_free {blocks : List Block} (free : ∀ block ∈ blocks, block.used = false) :
    ∀ p, usedAt p blocks = [] := by
  induction blocks with
  | nil => simp [usedAt]
  | cons block blocks ih =>
      intro p
      simp only [usedAt, free block List.mem_cons_self, Bool.false_eq_true, if_false]
      exact ih (fun other member => free other (List.mem_cons_of_mem _ member)) _

theorem usedAt_bounds {blocks : List Block} {entry : Nat × Nat} : ∀ {p},
    entry ∈ usedAt p blocks → p ≤ entry.1 ∧ entry.1 + 8 + entry.2 ≤ p + spans blocks := by
  induction blocks with
  | nil => simp [usedAt]
  | cons block blocks ih =>
      intro p member
      simp only [usedAt] at member
      simp only [spans]
      split at member
      · rcases List.mem_cons.mp member with rfl | later
        · constructor
          · exact Nat.le_refl _
          · simp only
            omega
        · have := ih later
          omega
      · have := ih member
        omega

theorem Chain.congr {memory memory' : Memory} {blocks : List Block} : ∀ {p},
    Chain memory p blocks →
      (∀ place, p ≤ place → place < p + spans blocks → memory' place = memory place) →
      Chain memory' p blocks := by
  induction blocks with
  | nil => exact fun _ _ => trivial
  | cons block blocks ih =>
      intro p chain same
      obtain ⟨link, state, aligned, rest⟩ := chain
      simp only [spans] at same
      have sameNext : next memory' p = next memory p :=
        readWord_congr fun place low high => same place low (by omega)
      have sameSize : size memory' p = size memory p :=
        readWord_congr fun place low high => same place (by omega) (by omega)
      refine ⟨by rw [sameNext, link], by rw [sameSize]; exact state, aligned, ih rest ?_⟩
      intro place low high
      exact same place (by omega) (by omega)

theorem Chain.spans_mod {memory : Memory} {blocks : List Block} : ∀ {p},
    Chain memory p blocks → spans blocks % 4 = 0 := by
  induction blocks with
  | nil => exact fun _ => rfl
  | cons block blocks ih =>
      intro p chain
      have := ih chain.2.2.2
      have := chain.2.2.1
      simp only [spans]
      omega

theorem skipUsed_eq {memory : Memory} (blocks : List Block) : ∀ (fuel p q : Nat),
    Chain memory p blocks → (∀ block ∈ blocks, block.used = true) →
      marked (size memory (p + spans blocks)) = false → blocks.length < fuel →
      skipUsed memory fuel p q = some (p + spans blocks,
        if blocks = [] then q else p + spans blocks) := by
  induction blocks with
  | nil =>
      intro fuel p q _ _ stop enough
      obtain ⟨fuel, rfl⟩ : ∃ less, fuel = less + 1 := ⟨fuel - 1, by simp at enough; omega⟩
      simp only [spans, Nat.add_zero] at stop
      simp [skipUsed, stop, spans]
  | cons block blocks ih =>
      intro fuel p q chain allUsed stop enough
      simp only [List.length_cons] at enough
      obtain ⟨fuel, rfl⟩ : ∃ less, fuel = less + 1 := ⟨fuel - 1, by omega⟩
      obtain ⟨link, state, aligned, rest⟩ := chain
      rw [allUsed block List.mem_cons_self, if_pos rfl] at state
      have used : marked (size memory p) = true := by
        simp only [marked, state, decide_eq_true_eq]
        omega
      have place : p + 8 + block.len + spans blocks = p + (8 + block.len + spans blocks) := by omega
      have later := ih fuel (p + 8 + block.len) (p + 8 + block.len) rest
        (fun other member => allUsed other (List.mem_cons_of_mem _ member))
        (by rw [place]; exact stop) (by omega)
      rw [skipUsed, if_pos used, link, later, place]
      simp only [spans, List.cons_ne_nil, if_false, Option.some.injEq, Prod.mk.injEq, true_and]
      split
      · rename_i empty
        rw [empty]
        simp only [spans]
        omega
      · rfl

theorem skipFree_eq {memory : Memory} (blocks : List Block) : ∀ (fuel p : Nat),
    Chain memory p blocks → (∀ block ∈ blocks, block.used = false) →
      (marked (size memory (p + spans blocks)) = true ∨ next memory (p + spans blocks) = 0) →
      blocks.length < fuel → skipFree memory fuel p = some (p + spans blocks) := by
  induction blocks with
  | nil =>
      intro fuel p _ _ stop enough
      obtain ⟨fuel, rfl⟩ : ∃ less, fuel = less + 1 := ⟨fuel - 1, by simp at enough; omega⟩
      simp only [spans, Nat.add_zero] at stop
      simp only [skipFree, spans, Nat.add_zero]
      rw [if_neg]
      rintro ⟨free, link⟩
      rcases stop with used | last
      · rw [used] at free
        cases free
      · exact link last
  | cons block blocks ih =>
      intro fuel p chain allFree stop enough
      simp only [List.length_cons] at enough
      obtain ⟨fuel, rfl⟩ : ∃ less, fuel = less + 1 := ⟨fuel - 1, by omega⟩
      obtain ⟨link, state, aligned, rest⟩ := chain
      rw [allFree block List.mem_cons_self] at state
      simp only [Bool.false_eq_true, if_false] at state
      have place : p + 8 + block.len + spans blocks = p + (8 + block.len + spans blocks) := by omega
      have later := ih fuel (p + 8 + block.len) rest
        (fun other member => allFree other (List.mem_cons_of_mem _ member))
        (by rw [place]; exact stop) (by omega)
      rw [skipFree, if_pos ⟨state, by rw [link]; omega⟩, link, later, place]
      rfl

structure Tiled (region : Region) (memory : Memory) (blocks : List Block) : Prop where
  chain : Chain memory region.base blocks
  total : region.base + spans blocks = region.sentinel
  lastNext : next memory region.sentinel = 0
  lastSize : size memory region.sentinel = 0

def KeepsUsed (region : Region) (blocks : List Block) (memory memory' : Memory) : Prop :=
  ∀ entry ∈ usedAt region.base blocks, ∀ place, entry.1 ≤ place → place < entry.1 + 8 + entry.2 →
    memory' place = memory place

section Writing

variable {region : Region} {memory memory' : Memory} {front middle middle' back : List Block}

theorem Tiled.replace (tiled : Tiled region memory (front ++ (middle ++ back)))
    (same : ∀ place, place < region.base + spans front ∨
      region.base + spans front + spans middle ≤ place → memory' place = memory place)
    (chain : Chain memory' (region.base + spans front) middle')
    (span : spans middle' = spans middle) : Tiled region memory' (front ++ (middle' ++ back)) := by
  have total := tiled.total
  simp only [spans_append] at total
  obtain ⟨before, rest⟩ := (chain_append memory front (middle ++ back) region.base).mp tiled.chain
  obtain ⟨_, after⟩ := (chain_append memory middle back _).mp rest
  refine ⟨?_, ?_, ?_, ?_⟩
  · rw [chain_append, chain_append, span]
    refine ⟨before.congr fun place low high => same place (Or.inl high), chain, ?_⟩
    exact after.congr fun place low high => same place (Or.inr low)
  · simp only [spans_append, span]
    exact total
  · rw [← tiled.lastNext]
    exact readWord_congr fun place low high => same place (Or.inr (by omega))
  · rw [← tiled.lastSize]
    exact readWord_congr fun place low high => same place (Or.inr (by omega))

theorem keepsUsed_of_free (free : ∀ block ∈ middle, block.used = false)
    (same : ∀ place, place < region.base + spans front ∨
      region.base + spans front + spans middle ≤ place → memory' place = memory place) :
    KeepsUsed region (front ++ (middle ++ back)) memory memory' := by
  intro entry member place low high
  rw [usedAt_append, usedAt_append, usedAt_free free, List.nil_append] at member
  rcases List.mem_append.mp member with before | after
  · have bounds := usedAt_bounds before
    exact same place (Or.inl (by omega))
  · have bounds := usedAt_bounds after
    exact same place (Or.inr (by omega))

theorem setNext_outside {p place : Nat} (word : Nat) (outside : place < p ∨ p + 8 ≤ place) :
    setNext memory p word place = memory place :=
  writeWord_outside memory word (by omega)

theorem setSize_outside {p place : Nat} (word : Nat) (outside : place < p ∨ p + 8 ≤ place) :
    setSize memory p word place = memory place :=
  writeWord_outside memory word (by omega)

theorem next_setSize (p word : Nat) : next (setSize memory p word) p = next memory p :=
  readWord_writeWord_apart memory word (by omega)

theorem size_setNext (p word : Nat) : size (setNext memory p word) p = size memory p :=
  readWord_writeWord_apart memory word (by omega)

theorem next_setNext (p : Nat) {word : Nat} (small : word < 4294967296) :
    next (setNext memory p word) p = word :=
  readWord_writeWord memory p small

theorem size_setSize (p : Nat) {word : Nat} (small : word < 4294967296) :
    size (setSize memory p word) p = word :=
  readWord_writeWord memory (p + 4) small

theorem wrap32_lt (value : Nat) : wrap32 value < 4294967296 := Nat.mod_lt _ (by decide)

theorem size_coalesce (p q : Nat) :
    size (coalesce memory p q) q = wrap32 (p + 4294967296 - q - 8) := by
  rw [coalesce, size_setNext, size_setSize _ (wrap32_lt _)]

theorem Tiled.coalesce (tiled : Tiled region memory (front ++ (middle ++ back)))
    (free : ∀ block ∈ middle, block.used = false) (nonempty : middle ≠ []) :
    Tiled region (coalesce memory (region.base + spans front + spans middle)
        (region.base + spans front)) (front ++ ([⟨false, spans middle - 8⟩] ++ back)) ∧
      KeepsUsed region (front ++ (middle ++ back)) memory
        (coalesce memory (region.base + spans front + spans middle) (region.base + spans front)) ∧
      size (coalesce memory (region.base + spans front + spans middle)
        (region.base + spans front)) (region.base + spans front) = spans middle - 8 := by
  have total := tiled.total
  have addressable := region.addressable
  have headers := region.headers
  simp only [spans_append, Region.sentinel] at total
  have wide : 8 ≤ spans middle := by
    cases middle with
    | nil => exact absurd rfl nonempty
    | cons block rest =>
        simp only [spans]
        omega
  obtain ⟨_, rest⟩ := (chain_append memory front (middle ++ back) region.base).mp tiled.chain
  have aligned := ((chain_append memory middle back _).mp rest).1.spans_mod
  have width : wrap32 (region.base + spans front + spans middle + 4294967296 -
      (region.base + spans front) - 8) = spans middle - 8 := by
    unfold wrap32
    omega
  have same : ∀ place, place < region.base + spans front ∨
      region.base + spans front + spans middle ≤ place →
      Heap.coalesce memory (region.base + spans front + spans middle)
        (region.base + spans front) place = memory place := by
    intro place outside
    rw [Heap.coalesce, setNext_outside _ (by omega), setSize_outside _ (by omega)]
  have sizeWord : size (Heap.coalesce memory (region.base + spans front + spans middle)
      (region.base + spans front)) (region.base + spans front) = spans middle - 8 := by
    rw [size_coalesce, width]
  refine ⟨tiled.replace same ?_ ?_, keepsUsed_of_free free same, sizeWord⟩
  · refine ⟨?_, ?_, ?_, trivial⟩
    · rw [Heap.coalesce, next_setNext _ (by omega)]
      simp only
      omega
    · simp only [Bool.false_eq_true, if_false, sizeWord, marked, decide_eq_false_iff_not]
      omega
    · simp only
      omega
  · simp only [spans]
    omega

end Writing

open MergeRuns

section Joining

def joining : Joining Block where
  loose := fun block => !block.used
  join := fun first second => ⟨false, first.len + 8 + second.len⟩
  loose_join := by simp
  join_assoc := by
    intro first second third _ _ _
    simp only [Block.mk.injEq, true_and]
    omega

theorem spans_attach (first : Block) (blocks : List Block) :
    spans (attach joining first blocks) = 8 + first.len + spans blocks := by
  cases blocks with
  | nil => rfl
  | cons next rest =>
      simp only [attach]
      split
      · simp only [joining, spans]
        omega
      · rfl

theorem spans_merge (blocks : List Block) : spans (merge joining blocks) = spans blocks := by
  induction blocks with
  | nil => rfl
  | cons first blocks ih => rw [merge, spans_attach, ih, spans]

theorem usedAt_attach (first : Block) (blocks : List Block) (p : Nat) :
    usedAt p (attach joining first blocks) = usedAt p (first :: blocks) := by
  cases blocks with
  | nil => rfl
  | cons next rest =>
      simp only [attach]
      split
      · rename_i loose
        have free : first.used = false ∧ next.used = false := by simpa [joining] using loose
        simp only [joining, usedAt, free, Bool.false_eq_true, if_false]
        rw [show p + 8 + (first.len + 8 + next.len) = p + 8 + first.len + 8 + next.len by omega]
      · rfl

theorem usedAt_merge (blocks : List Block) : ∀ p, usedAt p (merge joining blocks) = usedAt p blocks := by
  induction blocks with
  | nil => exact fun _ => rfl
  | cons first blocks ih =>
      intro p
      rw [merge, usedAt_attach]
      simp only [usedAt, ih]

theorem merge_free {run : List Block} (free : ∀ block ∈ run, block.used = false)
    (nonempty : run ≠ []) : merge joining run = [⟨false, spans run - 8⟩] := by
  cases run with
  | nil => exact absurd rfl nonempty
  | cons first rest =>
      have loose : ∀ block ∈ first :: rest, joining.loose block = true := by
        intro block member
        simp [joining, free block member]
      obtain ⟨whole, merged, wholeLoose⟩ := merge_run (loose first List.mem_cons_self)
        fun block member => loose block (List.mem_cons_of_mem _ member)
      have width := spans_merge (first :: rest)
      rw [merged] at width ⊢
      obtain ⟨used, len⟩ := whole
      have wholeFree : used = false := by simpa [joining] using wholeLoose
      simp only [spans] at width
      simp only [List.cons.injEq, Block.mk.injEq, wholeFree, true_and, and_true]
      simp only [spans]
      omega

theorem merge_used {front : List Block} (used : ∀ block ∈ front, block.used = true)
    (back : List Block) : merge joining (front ++ back) = front ++ merge joining back :=
  merge_append_fixed (fun block member => by simp [joining, used block member]) back

theorem starts_used (len : Nat) (blocks : List Block) : Starts joining (⟨true, len⟩ :: blocks) :=
  ⟨_, _, rfl, rfl⟩

end Joining

section Searching

def EndsFree (blocks : List Block) : Prop := ∃ front len, blocks = front ++ [⟨false, len⟩]

theorem EndsFree.tail {front back : List Block} (ends : EndsFree (front ++ back))
    (nonempty : back ≠ []) : EndsFree back := by
  obtain ⟨initial, len, split⟩ := ends
  obtain ⟨start, last, rfl⟩ : ∃ start last, back = start ++ [last] :=
    ⟨back.dropLast, back.getLast nonempty, (List.dropLast_concat_getLast nonempty).symm⟩
  rw [← List.append_assoc] at split
  have same := List.append_inj' split rfl
  exact ⟨start, len, by rw [List.singleton_inj.mp same.2]⟩

theorem EndsFree.append {back : List Block} (front : List Block) (ends : EndsFree back) :
    EndsFree (front ++ back) := by
  obtain ⟨initial, len, rfl⟩ := ends
  exact ⟨front ++ initial, len, by simp⟩

theorem EndsFree.attach {blocks : List Block} (first : Block) (ends : EndsFree blocks) :
    EndsFree (attach joining first blocks) := by
  obtain ⟨initial, len, rfl⟩ := ends
  cases initial with
  | nil =>
      rw [List.nil_append, MergeRuns.attach]
      split
      · exact ⟨[], first.len + 8 + len, rfl⟩
      · exact ⟨[first], len, rfl⟩
  | cons next initial =>
      rw [List.cons_append, MergeRuns.attach]
      split
      · exact ⟨joining.join first next :: initial, len, rfl⟩
      · exact ⟨first :: next :: initial, len, rfl⟩

theorem EndsFree.merge {blocks : List Block} (ends : EndsFree blocks) :
    EndsFree (merge joining blocks) := by
  induction blocks with
  | nil => exact ends
  | cons first blocks ih =>
      by_cases final : blocks = []
      · subst final
        exact ends
      · rw [← List.singleton_append] at ends
        exact (ih (ends.tail final)).attach first

theorem split_used {blocks : List Block} (ends : EndsFree blocks) :
    ∃ useds len rest, blocks = useds ++ ⟨false, len⟩ :: rest ∧
      ∀ block ∈ useds, block.used = true := by
  induction blocks with
  | nil =>
      obtain ⟨front, len, split⟩ := ends
      simp at split
  | cons block blocks ih =>
      obtain ⟨used, len⟩ := block
      cases used with
      | false => exact ⟨[], len, blocks, rfl, by simp⟩
      | true =>
          have nonempty : blocks ≠ [] := by
            rintro rfl
            obtain ⟨front, last, split⟩ := ends
            cases front with
            | nil => simp at split
            | cons first front => simp at split
          have later : EndsFree ([⟨true, len⟩] ++ blocks) := ends
          obtain ⟨useds, free, rest, rfl, allUsed⟩ := ih (later.tail nonempty)
          refine ⟨⟨true, len⟩ :: useds, free, rest, rfl, ?_⟩
          intro other member
          rcases List.mem_cons.mp member with rfl | later
          · rfl
          · exact allUsed other later

theorem split_free (blocks : List Block) :
    ∃ frees rest, blocks = frees ++ rest ∧ (∀ block ∈ frees, block.used = false) ∧
      (rest = [] ∨ ∃ len tail, rest = ⟨true, len⟩ :: tail) := by
  induction blocks with
  | nil => exact ⟨[], [], rfl, by simp, Or.inl rfl⟩
  | cons block blocks ih =>
      obtain ⟨used, len⟩ := block
      cases used with
      | true => exact ⟨[], _, rfl, by simp, Or.inr ⟨len, blocks, rfl⟩⟩
      | false =>
          obtain ⟨frees, rest, rfl, allFree, stop⟩ := ih
          refine ⟨⟨false, len⟩ :: frees, rest, rfl, ?_, stop⟩
          intro other member
          rcases List.mem_cons.mp member with rfl | later
          · rfl
          · exact allFree other later

variable {region : Region}

structure Searched (region : Region) (wanted : Nat) (front before after : List Block)
    (memory memory' : Memory) (p : Nat) : Prop where
  tiled : Tiled region memory' (front ++ after)
  used : usedAt (region.base + spans front) after = usedAt (region.base + spans front) before
  keeps : KeepsUsed region (front ++ before) memory memory'
  ends : EndsFree after
  found : p = region.sentinel ∨ ∃ skipped len rest, after = skipped ++ ⟨false, len⟩ :: rest ∧
    p = region.base + spans front + spans skipped ∧ wanted + 8 ≤ len

theorem Tiled.next_ne_zero {memory : Memory} {front back : List Block}
    (tiled : Tiled region memory (front ++ back)) (nonempty : back ≠ []) :
    next memory (region.base + spans front) ≠ 0 := by
  obtain ⟨_, rest⟩ := (chain_append memory front back region.base).mp tiled.chain
  cases back with
  | nil => exact absurd rfl nonempty
  | cons block back =>
      rw [rest.1]
      omega

theorem search_unfold {wanted fuel p q p' q' p'' : Nat} {memory : Memory}
    (more : next memory p ≠ 0) (skip : skipUsed memory fuel p q = some (p', q'))
    (run : skipFree memory fuel p' = some p'') (nonzero : p'' ≠ 0) :
    search wanted (fuel + 1) p q memory =
      if wrap32 (wanted + 8) ≤ size (coalesce memory p'' q') q'
      then some (q', coalesce memory p'' q')
      else search wanted fuel p'' q' (coalesce memory p'' q') := by
  rw [search, if_neg more, skip]
  simp only [run, ne_eq, nonzero, not_false_eq_true, if_true]

theorem pass_run (fuel : Nat) {q : Nat} {memory : Memory} {front useds run tail : List Block}
    (tiled : Tiled region memory (front ++ (useds ++ (run ++ tail))))
    (allUsed : ∀ block ∈ useds, block.used = true) (allFree : ∀ block ∈ run, block.used = false)
    (nonempty : run ≠ []) (stop : tail = [] ∨ ∃ len rest, tail = ⟨true, len⟩ :: rest)
    (start : useds = [] → q = region.base + spans front)
    (enough : useds.length + run.length < fuel) :
    ∃ atRun past, atRun = region.base + spans (front ++ useds) ∧
      past = region.base + spans (front ++ useds ++ [⟨false, spans run - 8⟩]) ∧ past ≠ 0 ∧
      skipUsed memory fuel (region.base + spans front) q = some (atRun, atRun) ∧
      skipFree memory fuel atRun = some past ∧
      Tiled region (coalesce memory past atRun)
        (front ++ (useds ++ ([⟨false, spans run - 8⟩] ++ tail))) ∧
      KeepsUsed region (front ++ (useds ++ (run ++ tail))) memory (coalesce memory past atRun) ∧
      size (coalesce memory past atRun) atRun = spans run - 8 := by
  have runPositive : 0 < run.length := List.length_pos_iff.mpr nonempty
  rw [← List.append_assoc] at tiled
  obtain ⟨chains, runChain⟩ := (chain_append _ _ _ _).mp tiled.chain
  have usedChain := ((chain_append _ _ _ _).mp chains).2
  obtain ⟨freeChain, tailChain⟩ := (chain_append _ _ _ _).mp runChain
  obtain ⟨joined, keeps, joinedSize⟩ := tiled.coalesce allFree nonempty
  have atUsed : region.base + spans front + spans useds = region.base + spans (front ++ useds) := by
    rw [spans_append, Nat.add_assoc]
  have wide : 8 ≤ spans run := by
    cases run with
    | nil => exact absurd rfl nonempty
    | cons block rest =>
        simp only [spans]
        omega
  have skip := skipUsed_eq useds fuel (region.base + spans front) q usedChain allUsed (by
    rw [atUsed]
    cases run with
    | nil => exact absurd rfl nonempty
    | cons block rest =>
        have free := freeChain.2.1
        rw [allFree block List.mem_cons_self] at free
        simpa using free) (by omega)
  have atRun : (if useds = [] then q else region.base + spans front + spans useds) =
      region.base + spans (front ++ useds) := by
    split
    · rename_i none
      rw [start none, none, List.append_nil]
    · exact atUsed
  rw [atRun, atUsed] at skip
  have freed := skipFree_eq run fuel (region.base + spans (front ++ useds)) freeChain allFree (by
    rcases stop with rfl | ⟨len, rest, rfl⟩
    · right
      have total := tiled.total
      rw [List.append_nil, spans_append, ← Nat.add_assoc] at total
      rw [total]
      exact tiled.lastNext
    · left
      have used := tailChain.2.1
      simp only [if_true] at used
      have aligned : len % 4 = 0 := tailChain.2.2.1
      rw [marked, used]
      simp only [decide_eq_true_eq]
      omega) (by omega)
  have past : region.base + spans (front ++ useds) + spans run =
      region.base + spans (front ++ useds ++ [⟨false, spans run - 8⟩]) := by
    rw [spans_append _ [_]]
    simp only [spans]
    omega
  rw [List.append_assoc] at joined keeps
  rw [past] at freed joined keeps joinedSize
  refine ⟨_, _, rfl, rfl, ?_, skip, freed, joined, keeps, joinedSize⟩
  have := region.positive
  omega

theorem search_turn {wanted need fuel q : Nat} {memory : Memory} {front useds run tail : List Block}
    (asks : wrap32 (wanted + 8) = need)
    (tiled : Tiled region memory (front ++ (useds ++ (run ++ tail))))
    (allUsed : ∀ block ∈ useds, block.used = true) (allFree : ∀ block ∈ run, block.used = false)
    (nonempty : run ≠ []) (stop : tail = [] ∨ ∃ len rest, tail = ⟨true, len⟩ :: rest)
    (start : useds = [] → q = region.base + spans front)
    (enough : useds.length + run.length < fuel) :
    ∃ memory', search wanted (fuel + 1) (region.base + spans front) q memory =
        (if need ≤ spans run - 8 then some (region.base + spans (front ++ useds), memory')
        else search wanted fuel (region.base + spans (front ++ useds ++ [⟨false, spans run - 8⟩]))
          (region.base + spans (front ++ useds)) memory') ∧
      Tiled region memory' (front ++ (useds ++ ([⟨false, spans run - 8⟩] ++ tail))) ∧
      KeepsUsed region (front ++ (useds ++ (run ++ tail))) memory memory' := by
  have more := tiled.next_ne_zero (by simp [nonempty])
  obtain ⟨atRun, past, rfl, rfl, nonzero, skip, freed, joined, keeps, joinedSize⟩ :=
    pass_run _ tiled allUsed allFree nonempty stop start enough
  refine ⟨_, ?_, joined, keeps⟩
  rw [search_unfold more skip freed nonzero, joinedSize, asks]

theorem KeepsUsed.trans {blocks blocks' : List Block} {memory memory' memory'' : Memory}
    (first : KeepsUsed region blocks memory memory')
    (second : KeepsUsed region blocks' memory' memory'')
    (same : usedAt region.base blocks' = usedAt region.base blocks) :
    KeepsUsed region blocks memory memory'' := by
  intro entry member place low high
  rw [second entry (by rw [same]; exact member) place low high]
  exact first entry member place low high

def TooSmall (need : Nat) (block : Block) : Prop := block.used = true ∨ block.len < need

/-- The search loop passes everything that is too small once its runs are joined, and stops at
the sentinel or at the first free run that fits. -/
structure FirstFitted (region : Region) (need : Nat) (front before after : List Block)
    (memory memory' : Memory) (p : Nat) : Prop where
  tiled : Tiled region memory' (front ++ after)
  merged : merge joining after = merge joining before
  keeps : KeepsUsed region (front ++ before) memory memory'
  ends : EndsFree after
  found : (p = region.sentinel ∧ ∀ block ∈ merge joining before, TooSmall need block) ∨
    ∃ skipped len rest, after = skipped ++ ⟨false, len⟩ :: rest ∧
      p = region.base + spans front + spans skipped ∧ need ≤ len ∧
      (∀ block ∈ merge joining skipped, TooSmall need block) ∧
      (merge joining after = merge joining skipped ++ ⟨false, len⟩ :: merge joining rest) ∧
      (rest = [] ∨ Starts joining rest) ∧ (Starts joining before → Starts joining skipped)

theorem FirstFitted.searched {wanted p : Nat} {front before after : List Block}
    {memory memory' : Memory}
    (fitted : FirstFitted region (wanted + 8) front before after memory memory' p) :
    Searched region wanted front before after memory memory' p where
  tiled := fitted.tiled
  used := by rw [← usedAt_merge after, fitted.merged, usedAt_merge]
  keeps := fitted.keeps
  ends := fitted.ends
  found := by
    rcases fitted.found with ⟨last, _⟩ | ⟨skipped, len, rest, split, position, room, _⟩
    · exact Or.inl last
    · exact Or.inr ⟨skipped, len, rest, split, position, room⟩

theorem split_turn {blocks : List Block} (ends : EndsFree blocks) :
    ∃ useds run tail, blocks = useds ++ (run ++ tail) ∧ (∀ block ∈ useds, block.used = true) ∧
      (∀ block ∈ run, block.used = false) ∧ run ≠ [] ∧
      (tail = [] ∨ ∃ len rest, tail = ⟨true, len⟩ :: rest) ∧ (tail = [] ∨ EndsFree tail) ∧
      (useds = [] → ∃ len rest, blocks = ⟨false, len⟩ :: rest) := by
  obtain ⟨useds, len, rest, rfl, allUsed⟩ := split_used ends
  obtain ⟨frees, tail, rfl, allFree, stop⟩ := split_free rest
  refine ⟨useds, ⟨false, len⟩ :: frees, tail, rfl, allUsed, ?_, List.cons_ne_nil _ _, stop, ?_, ?_⟩
  · intro block member
    rcases List.mem_cons.mp member with rfl | later
    · rfl
    · exact allFree block later
  · by_cases last : tail = []
    · exact Or.inl last
    · rw [← List.cons_append, ← List.append_assoc] at ends
      exact Or.inr (ends.tail last)
  · rintro rfl
    exact ⟨len, frees ++ tail, rfl⟩

structure Turned (region : Region) (front useds run tail : List Block) (memory memory' : Memory) :
    Prop where
  allUsed : ∀ block ∈ useds, block.used = true
  allFree : ∀ block ∈ run, block.used = false
  nonempty : run ≠ []
  stop : tail = [] ∨ ∃ len rest, tail = ⟨true, len⟩ :: rest
  joined : Tiled region memory' (front ++ (useds ++ ([⟨false, spans run - 8⟩] ++ tail)))
  keeps : KeepsUsed region (front ++ (useds ++ (run ++ tail))) memory memory'
  tailEnds : tail = [] ∨ EndsFree tail

section Turns

variable {need : Nat} {front useds run tail : List Block} {memory memory' memory'' : Memory}

theorem Turned.rejoined (turned : Turned region front useds run tail memory memory')
    {tail' : List Block} (same : merge joining tail' = merge joining tail) :
    merge joining (useds ++ ([⟨false, spans run - 8⟩] ++ tail')) =
      merge joining (useds ++ (run ++ tail)) :=
  merge_append_congr rfl
    (merge_append_congr (merge_free turned.allFree turned.nonempty).symm same)

theorem Turned.apart (turned : Turned region front useds run tail memory memory')
    {tail' : List Block} (border : tail' = [] ∨ Starts joining tail') :
    merge joining (useds ++ ([⟨false, spans run - 8⟩] ++ tail')) =
      useds ++ ⟨false, spans run - 8⟩ :: merge joining tail' := by
  rw [merge_used turned.allUsed]
  rcases border with rfl | starts
  · rfl
  · rw [merge_append_starts _ starts]
    rfl

theorem Turned.tailBorder (turned : Turned region front useds run tail memory memory') :
    tail = [] ∨ Starts joining tail := by
  rcases turned.stop with rfl | ⟨next, later, rfl⟩
  · exact Or.inl rfl
  · exact Or.inr (starts_used next later)

theorem Turned.usedFirst (turned : Turned region front useds run tail memory memory')
    (starts : Starts joining (useds ++ (run ++ tail))) : Starts joining useds := by
  obtain ⟨first, others, same, fixed⟩ := starts
  cases useds with
  | nil =>
      cases run with
      | nil => exact absurd rfl turned.nonempty
      | cons free frees =>
          simp only [List.nil_append, List.cons_append, List.cons.injEq] at same
          rw [← same.1] at fixed
          simp [joining, turned.allFree free List.mem_cons_self] at fixed
  | cons used useds =>
      exact ⟨used, useds, rfl, by simp [joining, turned.allUsed used List.mem_cons_self]⟩

theorem Turned.ends (_ : Turned region front useds run tail memory memory') {tail' : List Block}
    (tailEnds : tail' = [] ∨ EndsFree tail') :
    EndsFree (useds ++ ([⟨false, spans run - 8⟩] ++ tail')) := by
  rcases tailEnds with rfl | later
  · exact ⟨useds, spans run - 8, by simp⟩
  · exact (later.append _).append _

/-- Nothing fits into what a turn has passed, if nothing fits into the joined run and behind it. -/
theorem Turned.passed (turned : Turned region front useds run tail memory memory')
    (narrow : spans run - 8 < need) {tail' : List Block}
    (behind : ∀ block ∈ merge joining tail', TooSmall need block)
    (border : tail' = [] ∨ Starts joining tail') :
    ∀ block ∈ merge joining (useds ++ ([⟨false, spans run - 8⟩] ++ tail')), TooSmall need block := by
  rw [turned.apart border]
  intro block member
  rcases List.mem_append.mp member with used | rest
  · exact Or.inl (turned.allUsed block used)
  · rcases List.mem_cons.mp rest with rfl | deeper
    · exact Or.inr narrow
    · exact behind block deeper

theorem Turned.stops (turned : Turned region front useds run tail memory memory')
    (fits : need ≤ spans run - 8) :
    FirstFitted region need front (useds ++ (run ++ tail))
      (useds ++ ([⟨false, spans run - 8⟩] ++ tail)) memory memory'
      (region.base + spans (front ++ useds)) := by
  have alone := merge_used turned.allUsed []
  rw [List.append_nil] at alone
  refine ⟨turned.joined, turned.rejoined rfl, turned.keeps, turned.ends turned.tailEnds,
    Or.inr ⟨useds, spans run - 8, tail, rfl, by rw [spans_append, Nat.add_assoc], fits, ?_, ?_,
      turned.tailBorder, turned.usedFirst⟩⟩
  · rw [alone]
    intro block member
    exact Or.inl (turned.allUsed block (by simpa [merge] using member))
  · rw [turned.apart turned.tailBorder, alone]
    simp [merge]

theorem Turned.exhausts (turned : Turned region front useds run [] memory memory')
    (narrow : spans run - 8 < need) :
    FirstFitted region need front (useds ++ (run ++ []))
      (useds ++ ([⟨false, spans run - 8⟩] ++ [])) memory memory' region.sentinel := by
  refine ⟨turned.joined, turned.rejoined rfl, turned.keeps, turned.ends (Or.inl rfl), Or.inl ⟨rfl, ?_⟩⟩
  rw [← turned.rejoined rfl]
  exact turned.passed narrow (by simp [merge]) (Or.inl rfl)

theorem Turned.goesOn {next p : Nat} {later suffix : List Block}
    (turned : Turned region front useds run (⟨true, next⟩ :: later) memory memory')
    (narrow : spans run - 8 < need)
    (fitted : FirstFitted region need (front ++ useds ++ [⟨false, spans run - 8⟩])
      (⟨true, next⟩ :: later) suffix memory' memory'' p) :
    FirstFitted region need front (useds ++ (run ++ ⟨true, next⟩ :: later))
      (useds ++ ([⟨false, spans run - 8⟩] ++ suffix)) memory memory'' p := by
  have regroup : front ++ (useds ++ ([⟨false, spans run - 8⟩] ++ ⟨true, next⟩ :: later)) =
      (front ++ useds ++ [⟨false, spans run - 8⟩]) ++ ⟨true, next⟩ :: later := by simp
  refine ⟨?_, turned.rejoined fitted.merged, ?_, turned.ends (Or.inr fitted.ends), ?_⟩
  · have tiled := fitted.tiled
    simp only [List.append_assoc] at tiled
    exact tiled
  · refine turned.keeps.trans fitted.keeps ?_
    rw [← regroup, ← usedAt_merge, ← usedAt_merge (front ++ (useds ++ (run ++ _)))]
    rw [merge_append_congr rfl (turned.rejoined rfl)]
  · rcases fitted.found with
      ⟨last, small⟩ | ⟨skipped, free, rest, split, position, room, passed, same, border, starts⟩
    · refine Or.inl ⟨last, ?_⟩
      rw [← turned.rejoined rfl]
      exact turned.passed narrow small (Or.inr (starts_used next later))
    · have skippedStarts := starts (starts_used next later)
      refine Or.inr ⟨useds ++ ([⟨false, spans run - 8⟩] ++ skipped), free, rest, ?_, ?_, room,
        turned.passed narrow passed (Or.inr skippedStarts), ?_, border, ?_⟩
      · rw [split]
        simp
      · rw [position]
        simp only [spans_append]
        omega
      · have suffixStarts : Starts joining suffix := by
          obtain ⟨first, others, rfl, fixed⟩ := skippedStarts
          exact ⟨first, _, split, fixed⟩
        rw [turned.apart (Or.inr suffixStarts), turned.apart (Or.inr skippedStarts), same]
        simp
      · intro before
        obtain ⟨first, others, rfl, fixed⟩ := turned.usedFirst before
        exact ⟨first, _, rfl, fixed⟩

end Turns

theorem search_fits {wanted need : Nat} (asks : wrap32 (wanted + 8) = need) (bound : Nat) :
    ∀ (suffix : List Block), suffix.length ≤ bound → ∀ (front : List Block) (memory : Memory)
      (q fuel : Nat), Tiled region memory (front ++ suffix) → EndsFree suffix →
      (∀ len rest, suffix = ⟨false, len⟩ :: rest → q = region.base + spans front) →
      suffix.length + 1 < fuel →
      ∃ p memory' suffix', search wanted fuel (region.base + spans front) q memory =
          some (p, memory') ∧ FirstFitted region need front suffix suffix' memory memory' p := by
  induction bound with
  | zero =>
      intro suffix short front memory q fuel _ ends
      obtain ⟨initial, len, rfl⟩ := ends
      simp at short
  | succ bound ih =>
      intro suffix short front memory q fuel tiled ends start enough
      obtain ⟨fuel, rfl⟩ : ∃ less, fuel = less + 1 := ⟨fuel - 1, by omega⟩
      obtain ⟨useds, run, tail, rfl, allUsed, runFree, nonempty, stop, tailEnds, free⟩ := split_turn ends
      simp only [List.length_append] at short enough
      have runPositive : 0 < run.length := List.length_pos_iff.mpr nonempty
      have fewer : useds.length + run.length < fuel := by omega
      have here : useds = [] → q = region.base + spans front := by
        intro none
        obtain ⟨len, rest, same⟩ := free none
        exact start len rest same
      obtain ⟨memory', turn, joined, keeps⟩ :=
        search_turn asks tiled allUsed runFree nonempty stop here fewer
      have turned : Turned region front useds run tail memory memory' :=
        ⟨allUsed, runFree, nonempty, stop, joined, keeps, tailEnds⟩
      rw [turn]
      by_cases fits : need ≤ spans run - 8
      · exact ⟨_, memory', _, if_pos fits, turned.stops fits⟩
      · have narrow : spans run - 8 < need := by omega
        rw [if_neg fits]
        rcases stop with rfl | ⟨next, later, rfl⟩
        · obtain ⟨fuel, rfl⟩ : ∃ less, fuel = less + 1 := ⟨fuel - 1, by omega⟩
          have total := joined.total
          rw [List.append_nil, ← List.append_assoc] at total
          refine ⟨_, memory', _, ?_, turned.exhausts narrow⟩
          rw [search, total, if_pos joined.lastNext]
        · have continued := joined
          rw [show front ++ (useds ++ ([⟨false, spans run - 8⟩] ++ ⟨true, next⟩ :: later)) =
            (front ++ useds ++ [⟨false, spans run - 8⟩]) ++ ⟨true, next⟩ :: later by simp] at continued
          obtain ⟨p, memory'', suffix', found, fitted⟩ := ih (⟨true, next⟩ :: later) (by omega)
            (front ++ useds ++ [⟨false, spans run - 8⟩]) memory'
            (region.base + spans (front ++ useds)) fuel continued
            (tailEnds.resolve_left (by simp)) (by simp) (by omega)
          exact ⟨p, memory'', _, found, turned.goesOn narrow fitted⟩

theorem search_finds {wanted : Nat} (q fuel : Nat) (small : wanted + 8 < 4294967296)
    {suffix front : List Block} {memory : Memory} (tiled : Tiled region memory (front ++ suffix))
    (ends : EndsFree suffix)
    (start : ∀ len rest, suffix = ⟨false, len⟩ :: rest → q = region.base + spans front)
    (enough : suffix.length + 1 < fuel) :
    ∃ p memory' suffix', search wanted fuel (region.base + spans front) q memory =
        some (p, memory') ∧ Searched region wanted front suffix suffix' memory memory' p := by
  obtain ⟨p, memory', suffix', found, fitted⟩ := search_fits (Nat.mod_eq_of_lt small) suffix.length suffix
    (Nat.le_refl _) front memory q fuel tiled ends start enough
  exact ⟨p, memory', suffix', found, fitted.searched⟩

end Searching

section Placing

variable {region : Region} {front back : List Block}

theorem next_setNext_apart {memory : Memory} {p other : Nat} (word : Nat)
    (apart : p + 8 ≤ other ∨ other + 8 ≤ p) :
    next (setNext memory p word) other = next memory other :=
  readWord_writeWord_apart memory word (by omega)

theorem next_setSize_apart {memory : Memory} {p other : Nat} (word : Nat)
    (apart : p + 8 ≤ other ∨ other + 8 ≤ p) :
    next (setSize memory p word) other = next memory other :=
  readWord_writeWord_apart memory word (by omega)

theorem size_setNext_apart {memory : Memory} {p other : Nat} (word : Nat)
    (apart : p + 8 ≤ other ∨ other + 8 ≤ p) :
    size (setNext memory p word) other = size memory other :=
  readWord_writeWord_apart memory word (by omega)

theorem size_setSize_apart {memory : Memory} {p other : Nat} (word : Nat)
    (apart : p + 8 ≤ other ∨ other + 8 ≤ p) :
    size (setSize memory p word) other = size memory other :=
  readWord_writeWord_apart memory word (by omega)

theorem place_memory (heap : Heap) {wanted p : Nat} (aligned : wanted % 4 = 0)
    (small : p + wanted + 8 < 4294967296) :
    (heap.place wanted p).memory =
      setSize (setNext (setSize (setNext heap.memory p (p + wanted + 8)) p (wanted + 1))
        (p + wanted + 8) (next heap.memory p)) (p + wanted + 8) 4294967288 := by
  have marks : mark wanted = wanted + 1 := by
    unfold mark
    omega
  have link : wrap32 (p + wanted + 8) = p + wanted + 8 := Nat.mod_eq_of_lt small
  have stored : size (setSize (setNext heap.memory p (p + wanted + 8)) p (wanted + 1)) p =
      wanted + 1 := size_setSize p (by omega)
  have linked : next (setSize (setNext heap.memory p (p + wanted + 8)) p (wanted + 1)) p =
      p + wanted + 8 := by rw [next_setSize, next_setNext p small]
  have stale : wrap32 (unmark (wanted + 1) + 8589934592 - wanted - 8) = 4294967288 := by
    unfold wrap32 unmark
    omega
  simp only [place, marks, link, stored, linked, stale]

theorem Tiled.split {memory : Memory} {wanted len : Nat}
    (tiled : Tiled region memory (front ++ ([⟨false, len⟩] ++ back)))
    (aligned : wanted % 4 = 0) (room : wanted + 8 ≤ len) (word : Nat) (even : word % 2 = 0)
    (fits : word < 4294967296) {memory' : Memory}
    (written : memory' = setSize (setNext (setSize (setNext memory (region.base + spans front)
      (region.base + spans front + wanted + 8)) (region.base + spans front) (wanted + 1))
      (region.base + spans front + wanted + 8) (region.base + spans front + 8 + len))
      (region.base + spans front + wanted + 8) word) :
    Tiled region memory' (front ++ ([⟨true, wanted⟩, ⟨false, len - wanted - 8⟩] ++ back)) ∧
      (∀ place, place < region.base + spans front ∨
        region.base + spans front + spans [⟨false, len⟩] ≤ place → memory' place = memory place) ∧
      size memory' (region.base + spans front + wanted + 8) = word := by
  subst written
  have total := tiled.total
  have addressable := region.addressable
  have headers := region.headers
  simp only [spans_append, spans, Region.sentinel] at total
  obtain ⟨_, rest⟩ := (chain_append _ front _ region.base).mp tiled.chain
  have lenAligned : len % 4 = 0 := rest.2.2.1
  have same : ∀ place, place < region.base + spans front ∨
      region.base + spans front + spans [⟨false, len⟩] ≤ place →
      setSize (setNext (setSize (setNext memory (region.base + spans front)
        (region.base + spans front + wanted + 8)) (region.base + spans front) (wanted + 1))
        (region.base + spans front + wanted + 8) (region.base + spans front + 8 + len))
        (region.base + spans front + wanted + 8) word place = memory place := by
    intro place outside
    simp only [spans] at outside
    rw [setSize_outside _ (by omega), setNext_outside _ (by omega), setSize_outside _ (by omega),
      setNext_outside _ (by omega)]
  refine ⟨tiled.replace same ?_ ?_, same, size_setSize _ fits⟩
  · refine ⟨?_, ?_, aligned, ?_, ?_, ?_, trivial⟩
    · rw [next_setSize_apart _ (by omega), next_setNext_apart _ (by omega), next_setSize,
        next_setNext _ (by omega)]
      simp only
      omega
    · simp only [if_true]
      rw [size_setSize_apart _ (by omega), size_setNext_apart _ (by omega),
        size_setSize _ (by omega)]
    · simp only
      rw [show region.base + spans front + 8 + wanted = region.base + spans front + wanted + 8 by omega,
        next_setSize, next_setNext _ (by omega)]
      omega
    · simp only [Bool.false_eq_true, if_false]
      rw [show region.base + spans front + 8 + wanted = region.base + spans front + wanted + 8 by omega,
        size_setSize _ fits, marked]
      simp only [decide_eq_false_iff_not]
      omega
    · simp only
      omega
  · simp only [spans]
    omega

theorem Tiled.place {heap : Heap} {wanted len : Nat}
    (tiled : Tiled region heap.memory (front ++ ([⟨false, len⟩] ++ back)))
    (aligned : wanted % 4 = 0) (room : wanted + 8 ≤ len) :
    Tiled region (heap.place wanted (region.base + spans front)).memory
        (front ++ ([⟨true, wanted⟩, ⟨false, len - wanted - 8⟩] ++ back)) ∧
      KeepsUsed region (front ++ ([⟨false, len⟩] ++ back)) heap.memory
        (heap.place wanted (region.base + spans front)).memory := by
  have total := tiled.total
  have addressable := region.addressable
  have headers := region.headers
  simp only [spans_append, spans, Region.sentinel] at total
  obtain ⟨_, rest⟩ := (chain_append _ front _ region.base).mp tiled.chain
  have link : next heap.memory (region.base + spans front) = region.base + spans front + 8 + len :=
    rest.1
  obtain ⟨placed, same, _⟩ := tiled.split aligned room 4294967288 (by decide) (by decide) rfl
  rw [place_memory heap aligned (by omega), link]
  exact ⟨placed, keepsUsed_of_free (by simp) same⟩

theorem Tiled.release {memory : Memory} {len : Nat}
    (tiled : Tiled region memory (front ++ ([⟨true, len⟩] ++ back))) :
    wrap32 (region.base + spans front + 8 + 4294967296 - 8) = region.base + spans front ∧
      unmark (size memory (region.base + spans front)) = len ∧
      size (setSize memory (region.base + spans front) len) (region.base + spans front) = len ∧
      Tiled region (setSize memory (region.base + spans front) len)
        (front ++ ([⟨false, len⟩] ++ back)) := by
  have total := tiled.total
  have addressable := region.addressable
  have headers := region.headers
  simp only [spans_append, spans, Region.sentinel] at total
  obtain ⟨_, rest⟩ := (chain_append _ front _ region.base).mp tiled.chain
  obtain ⟨link, stored, aligned, _⟩ := rest
  simp only [if_true] at stored aligned
  have header : wrap32 (region.base + spans front + 8 + 4294967296 - 8) =
      region.base + spans front := by
    unfold wrap32
    omega
  have cleared : unmark (len + 1) = len := by
    unfold unmark
    omega
  have written : size (setSize memory (region.base + spans front) len)
      (region.base + spans front) = len := size_setSize _ (by omega)
  refine ⟨header, by rw [stored, cleared], written, tiled.replace (fun place away => ?_) ?_ rfl⟩
  · simp only [spans] at away
    exact setSize_outside len (by omega)
  · refine ⟨?_, ?_, aligned, trivial⟩
    · rw [next_setSize]
      exact link
    · simp only [Bool.false_eq_true, if_false]
      rw [written, marked]
      simp only [decide_eq_false_iff_not]
      omega

theorem Tiled.hfFree {heap : Heap} {len : Nat}
    (tiled : Tiled region heap.memory (front ++ ([⟨true, len⟩] ++ back))) :
    Tiled region (heap.hfFree (region.base + spans front + 8)).memory
        (front ++ ([⟨false, len⟩] ++ back)) ∧
      (heap.hfFree (region.base + spans front + 8)).krnlFree = wrap32 (heap.krnlFree + len + 8) ∧
      ∀ place, place < region.base + spans front ∨ region.base + spans front + 8 ≤ place →
        (heap.hfFree (region.base + spans front + 8)).memory place = heap.memory place := by
  obtain ⟨header, cleared, written, released⟩ := tiled.release
  simp only [Heap.hfFree, header, cleared, written]
  exact ⟨released, trivial, fun place away => setSize_outside len away⟩

theorem heapinit_size {len : Nat} (headers : 16 ≤ len) (memory : Memory) (base : Nat) :
    size (heapinit memory base len).memory base = wrap32 (align4 len + 4294967296 - 16) := by
  simp only [Heap.heapinit]
  rw [size_setSize_apart _ (by omega), size_setNext_apart _ (by omega),
    size_setSize _ (wrap32_lt _)]

theorem Region.first_len (region : Region) :
    wrap32 (align4 region.len + 4294967296 - 16) = region.len - 16 := by
  have addressable := region.addressable
  have headers := region.headers
  have aligned := region.aligned
  have positive := region.positive
  unfold wrap32 align4 wrap32
  omega

theorem Tiled.heapinit (region : Region) (memory : Memory) :
    Tiled region (heapinit memory region.base region.len).memory [⟨false, region.len - 16⟩] := by
  have addressable := region.addressable
  have headers := region.headers
  have aligned := region.aligned
  simp only [Heap.heapinit, Region.first_len]
  constructor
  · refine ⟨?_, ?_, ?_, trivial⟩
    · rw [next_setSize_apart _ (by omega), next_setNext_apart _ (by omega), next_setSize,
        next_setNext _ (by omega)]
      simp only
      omega
    · simp only [Bool.false_eq_true, if_false]
      rw [size_setSize_apart _ (by omega), size_setNext_apart _ (by omega), size_setSize _ (by omega),
        marked]
      simp only [decide_eq_false_iff_not]
      omega
    · simp only
      omega
  · simp only [spans, Region.sentinel]
    omega
  · rw [Region.sentinel, next_setSize, next_setNext _ (by omega)]
  · rw [Region.sentinel, size_setSize _ (by omega)]

end Placing

end Heap

end Hellfire

import Hellfire.LazyBlocks

/-!
Which free areas a call of `hf_malloc` finds: its search starts at `last_free`, and earlier
calls moved that pointer behind the areas that were too small for them.
-/

namespace Hellfire

open ByteMemory Machine MergeRuns

namespace Heap

theorem Chain.unique {memory : Memory} {blocks : List Block} : ∀ {p : Nat} {blocks' : List Block},
    Chain memory p blocks → Chain memory p blocks' → spans blocks = spans blocks' →
      blocks = blocks' := by
  induction blocks with
  | nil =>
      intro p blocks' _ _ same
      cases blocks' with
      | nil => rfl
      | cons block blocks' =>
          simp only [spans] at same
          omega
  | cons block blocks ih =>
      intro p blocks' chain chain' same
      cases blocks' with
      | nil =>
          simp only [spans] at same
          omega
      | cons block' blocks' =>
          obtain ⟨link, state, aligned, rest⟩ := chain
          obtain ⟨link', state', aligned', rest'⟩ := chain'
          obtain ⟨used, len⟩ := block
          obtain ⟨used', len'⟩ := block'
          simp only [spans] at same link link' state state' aligned aligned' rest rest'
          obtain rfl : len = len' := by omega
          have sameUsed : used = used' := by
            cases used with
            | false =>
                cases used' with
                | false => rfl
                | true =>
                    simp [marked] at state state'
                    omega
            | true =>
                cases used' with
                | true => rfl
                | false =>
                    simp [marked] at state state'
                    omega
          rw [sameUsed, ih rest rest' (by omega)]

theorem Tiled.unique {region : Region} {memory : Memory} {blocks blocks' : List Block}
    (tiled : Tiled region memory blocks) (tiled' : Tiled region memory blocks') :
    blocks = blocks' := by
  refine tiled.chain.unique tiled'.chain ?_
  have total := tiled.total
  have total' := tiled'.total
  omega

/-- A maximal run of adjacent free blocks: its offset in the heap, and the payload that it has
once the blocks are joined. -/
def FreeRun (blocks : List Block) (offset len : Nat) : Prop :=
  ∃ front run back, MaximalRun joining blocks front run back ∧ offset = spans front ∧
    spans run = 8 + len

theorem freeRun_iff {blocks : List Block} {offset len : Nat} :
    FreeRun blocks offset len ↔
      ∃ first rest, merge joining blocks = first ++ ⟨false, len⟩ :: rest ∧ offset = spans first := by
  constructor
  · rintro ⟨front, run, back, maximal, rfl, width⟩
    refine ⟨merge joining front, merge joining back, ?_, (spans_merge front).symm⟩
    have free : ∀ block ∈ run, block.used = false := by
      intro block member
      simpa [joining] using maximal.loose block member
    rw [maximal.merged, merge_free free maximal.nonempty, width, Nat.add_sub_cancel_left]
    rfl
  · rintro ⟨first, rest, stands, rfl⟩
    obtain ⟨front, run, back, maximal, rfl, whole, _⟩ := exists_maximalRun stands rfl
    refine ⟨front, run, back, maximal, spans_merge front, ?_⟩
    rw [← spans_merge run, whole]
    rfl

def Fits (blocks : List Block) (size offset : Nat) : Prop :=
  ∃ len, FreeRun blocks offset len ∧ align4 size + 8 ≤ len

section Finding

variable {region : Region} {heap : Heap} {front back : List Block}

theorem Lazy.blocks (lazy : Lazy region heap front back) :
    ∃ blocks, Tiled region heap.memory blocks ∧ merge joining blocks = front ++ back ∧
      heap.lastFree = region.base + spans front := by
  obtain ⟨before, after, tiled, _, position, border, rfl, rfl⟩ := lazy.split
  exact ⟨before ++ after, tiled, merge_border border, by rw [position, spans_merge]⟩

theorem Lazy.runs_behind (lazy : Lazy region heap front back) {blocks : List Block}
    (merged : merge joining blocks = front ++ back) {offset len : Nat} :
    FreeRun blocks offset len ∧ heap.lastFree ≤ region.base + offset ↔
      ∃ skipped rest, back = skipped ++ ⟨false, len⟩ :: rest ∧ offset = spans (front ++ skipped) := by
  obtain ⟨_, _, _, position⟩ := lazy.blocks
  constructor
  · rintro ⟨run, behind⟩
    obtain ⟨first, rest, stands, rfl⟩ := freeRun_iff.mp run
    rw [merged] at stands
    rcases List.append_eq_append_iff.mp stands with ⟨skipped, rfl, same⟩ | ⟨others, same, tail⟩
    · exact ⟨skipped, rest, same, rfl⟩
    · cases others with
      | nil =>
          rw [List.append_nil] at same
          exact ⟨[], rest, tail.symm, by rw [same, List.append_nil]⟩
      | cons block others =>
          rw [same, spans_append] at position
          simp only [spans] at position
          omega
  · rintro ⟨skipped, rest, rfl, rfl⟩
    refine ⟨freeRun_iff.mpr ⟨front ++ skipped, rest, ?_, rfl⟩, ?_⟩
    · rw [merged, List.append_assoc]
    · rw [position, spans_append]
      omega

theorem Lazy.fits_behind (lazy : Lazy region heap front back) {blocks : List Block}
    (merged : merge joining blocks = front ++ back) (size : Nat) :
    (∃ offset, Fits blocks size offset ∧ heap.lastFree ≤ region.base + offset) ↔
      ∃ skipped len rest, back = skipped ++ ⟨false, len⟩ :: rest ∧ align4 size + 8 ≤ len := by
  constructor
  · rintro ⟨offset, ⟨len, run, room⟩, behind⟩
    obtain ⟨skipped, rest, split, _⟩ := (lazy.runs_behind merged).mp ⟨run, behind⟩
    exact ⟨skipped, len, rest, split, room⟩
  · rintro ⟨skipped, len, rest, split, room⟩
    obtain ⟨run, behind⟩ := (lazy.runs_behind merged).mpr ⟨skipped, rest, split, rfl⟩
    exact ⟨_, ⟨len, run, room⟩, behind⟩

end Finding

end Heap

namespace HeapWorld

open Heap

structure Tracked (region : Region) (world : HeapWorld) (front back : List Block) : Prop where
  lazy : Lazy region world.heap front back
  live : Matches world.live (usedAt region.base (front ++ back))

variable {region : Region} {world : HeapWorld} {front back : List Block} {fuel : Nat}

theorem Tracked.keeps (tracked : Tracked region world front back) {memory : Memory}
    (keeps : KeepsUsed region (front ++ back) world.heap.memory memory) {address : Nat}
    (owned : world.owns address) : memory address = world.heap.memory address := by
  obtain ⟨entry, member, low, high⟩ := owned
  obtain ⟨header, pointer, used⟩ := tracked.live.block member
  refine keeps _ used address ?_ ?_
  · simp only
    omega
  · simp only
    omega

theorem Tracked.malloc_cases (tracked : Tracked region world front back) {size : Nat}
    (small : (size + 3) / 4 * 4 + 8 < 4294967296) (enough : region.len ≤ fuel) :
    (∃ heap, world.heap.hfMalloc fuel size = some (0, heap) ∧
        Tracked region ⟨heap, world.live⟩ front back ∧
        KeepsUsed region (front ++ back) world.heap.memory heap.memory ∧
        heap.krnlFree = world.heap.krnlFree ∧
        ∀ block ∈ back, TooSmall (align4 size + 8) block) ∨
      ∃ heap skipped len rest, back = skipped ++ ⟨false, len⟩ :: rest ∧ align4 size + 8 ≤ len ∧
        (∀ block ∈ skipped, TooSmall (align4 size + 8) block) ∧
        world.heap.hfMalloc fuel size =
          some (region.base + spans (front ++ skipped) + 8, heap) ∧
        Tracked region ⟨heap, (region.base + spans (front ++ skipped) + 8, size) :: world.live⟩
          (front ++ skipped) (⟨true, align4 size⟩ :: ⟨false, len - align4 size - 8⟩ :: rest) ∧
        KeepsUsed region (front ++ back) world.heap.memory heap.memory ∧
        heap.krnlFree = wrap32 (world.heap.krnlFree + 4294967296 - wrap32 (align4 size + 8)) := by
  rw [← align4_eq small] at small
  rcases tracked.lazy.hfMalloc small enough with ⟨heap, full, kept, keeps, counted, passed⟩ |
    ⟨heap, skipped, len, rest, split, passed, room, _, found, kept, keeps, counted⟩
  · exact Or.inl ⟨heap, full, ⟨kept, tracked.live⟩, keeps, counted, passed⟩
  · refine Or.inr ⟨heap, skipped, len, rest, split, room, passed, found, ⟨kept, ?_⟩, keeps, counted⟩
    have live := tracked.live
    subst split
    rw [← List.append_assoc, usedAt_append] at live
    rw [usedAt_append]
    simp only [usedAt, Bool.false_eq_true, if_false, if_true] at live ⊢
    have same : region.base + spans (front ++ skipped) + 8 + align4 size + 8 +
        (len - align4 size - 8) = region.base + spans (front ++ skipped) + 8 + len := by omega
    rw [same]
    exact live.insert

theorem Tracked.malloc (tracked : Tracked region world front back) {size : Nat}
    (small : (size + 3) / 4 * 4 + 8 < 4294967296) (enough : region.len ≤ fuel) :
    ∃ ptr heap front' back', world.heap.hfMalloc fuel size = some (ptr, heap) ∧
      (ptr ≠ 0 ↔ ∃ skipped len rest, back = skipped ++ ⟨false, len⟩ :: rest ∧
        align4 size + 8 ≤ len) ∧
      Tracked region ⟨heap, if ptr = 0 then world.live else (ptr, size) :: world.live⟩
        front' back' := by
  rcases tracked.malloc_cases small enough with ⟨heap, full, kept, _, _, passed⟩ |
    ⟨heap, skipped, len, rest, split, room, _, found, kept, _, _⟩
  · refine ⟨0, heap, front, back, full, ?_, kept⟩
    refine iff_of_false (fun other => other rfl) ?_
    rintro ⟨skipped, len, rest, rfl, room⟩
    rcases passed ⟨false, len⟩ (by simp) with used | short
    · cases used
    · simp only at short
      omega
  · have nonzero : region.base + spans (front ++ skipped) + 8 ≠ 0 := by omega
    refine ⟨_, heap, front ++ skipped, ⟨true, align4 size⟩ :: ⟨false, len - align4 size - 8⟩ :: rest,
      found, iff_of_true nonzero ⟨skipped, len, rest, split, room⟩, ?_⟩
    rw [if_neg nonzero]
    exact kept

theorem Tracked.free (tracked : Tracked region world front back) {ptr : Nat}
    (owned : ∃ entry ∈ world.live, entry.1 = ptr) :
    ∃ before len after, front ++ back = before ++ ⟨true, len⟩ :: after ∧
      Tracked region ⟨world.heap.hfFree ptr, world.live.eraseP fun entry => entry.1 = ptr⟩ []
        (merge joining (before ++ ⟨false, len⟩ :: after)) ∧
      (world.heap.hfFree ptr).krnlFree = wrap32 (world.heap.krnlFree + len + 8) := by
  obtain ⟨header, length, rfl, used, erased⟩ := tracked.live.erase owned
  obtain ⟨before, len, after, stands, pointer⟩ := mem_usedAt_split used
  rw [Prod.mk.injEq] at pointer
  obtain ⟨rfl, rfl⟩ := pointer
  rw [List.singleton_append] at stands
  obtain ⟨lazy, counted⟩ := tracked.lazy.hfFree stands
  refine ⟨before, length, after, stands, ⟨lazy, ?_⟩, counted⟩
  rw [List.nil_append, usedAt_merge, usedAt_append]
  simp only [usedAt, Bool.false_eq_true, if_false]
  apply erased
  rw [stands, usedAt_append]
  simp only [usedAt, if_true]

theorem Tracked.fill (tracked : Tracked region world front back) {entry : Nat × Nat}
    (member : entry ∈ world.live) {memory : Memory}
    (same : ∀ place, place < entry.1 ∨ entry.1 + align4 entry.2 ≤ place →
      memory place = world.heap.memory place) :
    Tracked region { world with heap := { world.heap with memory := memory } } front back := by
  obtain ⟨header, pointer, used⟩ := tracked.live.block member
  obtain ⟨before, len, after, stands, place⟩ := mem_usedAt_split used
  rw [Prod.mk.injEq] at place
  rw [List.singleton_append] at stands
  refine ⟨tracked.lazy.fill stands fun place outside => same place ?_, tracked.live⟩
  omega

theorem Tracked.store (tracked : Tracked region world front back) {address : Nat} (value : UInt8)
    (owned : world.owns address) :
    Tracked region { world with heap := { world.heap with
      memory := Function.update world.heap.memory address value } } front back := by
  obtain ⟨entry, member, low, high⟩ := owned
  exact tracked.fill member fun _ outside => Function.update_of_ne (by omega) _ _

theorem Tracked.free_keeps (tracked : Tracked region world front back) {ptr address : Nat}
    (owned : ∃ entry ∈ world.live, entry.1 = ptr) (inside : world.owns address) :
    (world.heap.hfFree ptr).memory address = world.heap.memory address := by
  obtain ⟨blocks, tiled, merged, _⟩ := tracked.lazy.blocks
  have live := tracked.live
  rw [← merged, usedAt_merge] at live
  exact live.free_keeps tiled.total owned inside

theorem Tracked.step {op : HeapOp} {next : HeapWorld} (enough : region.len ≤ fuel)
    (tracked : Tracked region world front back) (admitted : allowed op world)
    (stepped : HeapWorld.step fuel op world = .ok next) :
    ∃ front' back', Tracked region next front' back' := by
  cases op with
  | malloc size =>
      obtain ⟨ptr, heap, front', back', returned, _, kept⟩ := tracked.malloc admitted enough
      simp only [HeapWorld.step, returned, Except.ok.injEq] at stepped
      exact ⟨front', back', stepped ▸ kept⟩
  | free ptr =>
      obtain ⟨_, _, _, _, kept, _⟩ := tracked.free admitted
      simp only [HeapWorld.step, Except.ok.injEq] at stepped
      exact ⟨_, _, stepped ▸ kept⟩
  | store address value =>
      simp only [HeapWorld.step, Except.ok.injEq] at stepped
      exact ⟨front, back, stepped ▸ tracked.store value admitted⟩

theorem reached_tracked {memory : Memory} (enough : region.len ≤ fuel)
    (reached : Reaches (HeapWorld.step fuel) allowed (start region memory) world) :
    ∃ front back, Tracked region world front back :=
  reached.invariant (fun state => ∃ front back, Tracked region state front back)
    ⟨[], _, .heapinit region memory, List.Perm.nil⟩
    (fun _ _ _ ⟨_, _, tracked⟩ admitted stepped => tracked.step enough admitted stepped)

/-- `hf_malloc` finds room when there is some exactly when the areas that `last_free` has passed
do not matter: none of them fits, or one behind them does as well. -/
theorem hfMalloc_finds_room (region : Region) (memory : Memory) (enough : region.len ≤ fuel)
    (reached : Reaches (HeapWorld.step fuel) allowed (start region memory) world) :
    ∃ blocks, Tiled region world.heap.memory blocks ∧
      (∀ other, Tiled region world.heap.memory other → other = blocks) ∧
      ∀ size, (size + 3) / 4 * 4 + 8 < 4294967296 →
        ∃ ptr heap, world.heap.hfMalloc fuel size = some (ptr, heap) ∧
          (((∃ offset, Fits blocks size offset) → ptr ≠ 0) ↔
            ((∃ offset, Fits blocks size offset ∧ region.base + offset < world.heap.lastFree) →
              ∃ offset, Fits blocks size offset ∧
                world.heap.lastFree ≤ region.base + offset)) := by
  obtain ⟨front, back, tracked⟩ := reached_tracked enough reached
  obtain ⟨blocks, tiled, merged, _⟩ := tracked.lazy.blocks
  refine ⟨blocks, tiled, fun other tiled' => tiled'.unique tiled, fun size small => ?_⟩
  obtain ⟨ptr, heap, _, _, returned, succeeds, _⟩ := tracked.malloc small enough
  rw [← tracked.lazy.fits_behind merged size] at succeeds
  refine ⟨ptr, heap, returned, ?_⟩
  rw [succeeds]
  constructor
  · rintro found ⟨offset, fits, _⟩
    exact found ⟨offset, fits⟩
  · rintro beyond ⟨offset, fits⟩
    rcases Nat.lt_or_ge (region.base + offset) world.heap.lastFree with passed | behind
    · exact beyond ⟨offset, fits, passed⟩
    · exact ⟨offset, fits, behind⟩

instance (op : HeapOp) (world : HeapWorld) : Decidable (allowed op world) :=
  match op with
  | .malloc size => inferInstanceAs (Decidable ((size + 3) / 4 * 4 + 8 < 4294967296))
  | .free ptr => inferInstanceAs (Decidable (∃ entry ∈ world.live, entry.1 = ptr))
  | .store address _ => inferInstanceAs (Decidable
      (∃ entry ∈ world.live, entry.1 ≤ address ∧ address < entry.1 + align4 entry.2))

section PassedHole

def shortRegion : Region := ⟨256, 68, smallRegion.positive, by decide, by decide, by decide⟩

def passedHole : HeapWorld :=
  outcome (HeapWorld.step 68) [.malloc 12, .malloc 4, .free 264, .malloc 12]
    (start shortRegion fun _ => 0)

theorem passedHole_reached :
    Reaches (HeapWorld.step 68) allowed (start shortRegion fun _ => 0) passedHole :=
  outcome_reaches _ _ (by decide +kernel) (by decide +kernel)

theorem passedHole_tiled :
    Tiled shortRegion passedHole.heap.memory
      [⟨false, 12⟩, ⟨true, 4⟩, ⟨true, 12⟩, ⟨false, 0⟩] := by
  refine ⟨⟨?_, ?_, ?_, ?_, ?_, ?_, ?_, ?_, ?_, ?_, ?_, ?_, trivial⟩, ?_, ?_, ?_⟩
  all_goals decide +kernel

theorem hfMalloc_finds_room_passedHole :
    ∃ blocks, Tiled shortRegion passedHole.heap.memory blocks ∧
      ∀ size, (size + 3) / 4 * 4 + 8 < 4294967296 →
        ∃ ptr heap, passedHole.heap.hfMalloc 68 size = some (ptr, heap) := by
  obtain ⟨blocks, tiled, _, finds⟩ :=
    hfMalloc_finds_room shortRegion (fun _ => 0) (by decide) passedHole_reached
  refine ⟨blocks, tiled, fun size small => ?_⟩
  obtain ⟨ptr, heap, returned, _⟩ := finds size small
  exact ⟨ptr, heap, returned⟩

/-- The first 12 bytes are free and have room for 4 bytes and a header, but the search starts
behind them. -/
theorem passed_hole_missed :
    ∃ world blocks, Reaches (HeapWorld.step 68) allowed (start shortRegion fun _ => 0) world ∧
      Tiled shortRegion world.heap.memory blocks ∧ Fits blocks 4 0 ∧
      ∃ heap, world.heap.hfMalloc 68 4 = some (0, heap) := by
  refine ⟨passedHole, _, passedHole_reached, passedHole_tiled, ⟨12, ?_, by decide⟩, ?_⟩
  · exact freeRun_iff.mpr ⟨[], _, rfl, rfl⟩
  · have full : (passedHole.heap.hfMalloc 68 4).map Prod.fst = some 0 := by decide +kernel
    obtain ⟨⟨ptr, heap⟩, returned, rfl⟩ := Option.map_eq_some_iff.mp full
    exact ⟨heap, returned⟩

end PassedHole

end HeapWorld

end Hellfire

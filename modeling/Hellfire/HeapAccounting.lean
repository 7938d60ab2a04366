import Mathlib.Algebra.GroupWithZero.Nat
import Hellfire.HoleSearch

/-!
The books of the `MEM_ALLOC` 3 heap: `krnl_free` counts what the live allocations leave over, and
a heap without allocations is one area again.
-/

namespace Hellfire

open ByteMemory Machine MergeRuns

namespace Heap

def usedSpan (used : List (Nat × Nat)) : Nat := (used.map fun entry => entry.2 + 8).sum

@[simp] theorem usedSpan_append (first second : List (Nat × Nat)) :
    usedSpan (first ++ second) = usedSpan first + usedSpan second := by
  simp [usedSpan]

@[simp] theorem usedSpan_cons (entry : Nat × Nat) (used : List (Nat × Nat)) :
    usedSpan (entry :: used) = entry.2 + 8 + usedSpan used := by
  simp [usedSpan]

theorem usedSpan_le (blocks : List Block) : ∀ p, usedSpan (usedAt p blocks) ≤ spans blocks := by
  induction blocks with
  | nil => exact fun _ => Nat.le_refl _
  | cons block blocks ih =>
      intro p
      have rest := ih (p + 8 + block.len)
      simp only [usedAt, spans]
      split
      · rw [usedSpan_cons]
        omega
      · omega

theorem usedAt_none {blocks : List Block} : ∀ {p}, usedAt p blocks = [] →
    ∀ block ∈ blocks, block.used = false := by
  induction blocks with
  | nil => exact fun _ _ member => absurd member List.not_mem_nil
  | cons block blocks ih =>
      intro p none
      simp only [usedAt] at none
      split at none
      · cases none
      · rename_i free
        rw [List.forall_mem_cons]
        exact ⟨by simpa using free, ih none⟩

variable {region : Region} {heap : Heap} {front back : List Block}

theorem Lazy.usedSpan_le (lazy : Lazy region heap front back) :
    usedSpan (usedAt region.base (front ++ back)) + 16 ≤ region.len := by
  obtain ⟨before, after, tiled, ends, _, border, rfl, rfl⟩ := lazy.split
  obtain ⟨initial, len, rfl⟩ := ends
  rw [← merge_border border, usedAt_merge, ← List.append_assoc, usedAt_append, usedSpan_append]
  have bound := Heap.usedSpan_le (before ++ initial) region.base
  have total := tiled.total
  have headers := region.headers
  rw [← List.append_assoc, spans_append] at total
  simp only [spans, Region.sentinel] at total
  simp only [usedAt, Bool.false_eq_true, if_false, usedSpan, List.map_nil, List.sum_nil] at bound ⊢
  omega

theorem Lazy.recovered (lazy : Lazy region heap front back)
    (none : usedAt region.base (front ++ back) = []) :
    front = [] ∧ back = [⟨false, region.len - 16⟩] := by
  obtain ⟨before, after, tiled, ends, _, border, rfl, rfl⟩ := lazy.split
  rw [← merge_border border, usedAt_merge] at none
  have free := usedAt_none none
  have total := tiled.total
  have headers := region.headers
  obtain ⟨initial, len, rfl⟩ := ends
  have first : before = [] := by
    refine border.resolve_right ?_
    rintro ⟨block, rest, same, fixed⟩
    have unused := free block (by rw [same]; simp)
    simp [joining, unused] at fixed
  subst first
  rw [List.nil_append] at free total
  refine ⟨rfl, ?_⟩
  rw [merge_free free (by simp)]
  unfold Region.sentinel at total
  congr 2
  omega

end Heap

namespace HeapWorld

open Heap

def booked (live : List (Nat × Nat)) : Nat := (live.map fun entry => align4 entry.2 + 8).sum

theorem booked_eq {live used : List (Nat × Nat)} (matched : Matches live used) :
    booked live = usedSpan used := by
  have same := (matched.map fun entry => entry.2 + 8).sum_nat
  simpa only [List.map_map, booked, usedSpan, Function.comp_def] using same

variable {region : Region} {world : HeapWorld} {front back : List Block} {fuel : Nat}

structure Balanced (region : Region) (world : HeapWorld) (front back : List Block) : Prop where
  tracked : Tracked region world front back
  counted : world.heap.krnlFree + usedSpan (usedAt region.base (front ++ back)) + 16 = region.len

theorem Balanced.start (region : Region) (memory : Memory) :
    Balanced region (start region memory) [] [⟨false, region.len - 16⟩] := by
  have headers := region.headers
  refine ⟨⟨.heapinit region memory, List.Perm.nil⟩, ?_⟩
  have counted : (HeapWorld.start region memory).heap.krnlFree = region.len - 16 :=
    (heapinit_size headers memory region.base).trans (Region.first_len region)
  rw [counted]
  simp only [List.nil_append, usedAt, Bool.false_eq_true, if_false, usedSpan, List.map_nil, List.sum_nil]
  omega

theorem Balanced.malloc (balanced : Balanced region world front back) {size : Nat}
    (small : (size + 3) / 4 * 4 + 8 < 4294967296) (enough : region.len ≤ fuel) :
    ∃ ptr heap front' back', world.heap.hfMalloc fuel size = some (ptr, heap) ∧
      Balanced region ⟨heap, if ptr = 0 then world.live else (ptr, size) :: world.live⟩
        front' back' := by
  have counted := balanced.counted
  rcases balanced.tracked.malloc_cases small enough with ⟨heap, full, kept, _, same, _⟩ |
    ⟨heap, skipped, len, rest, split, room, _, found, kept, _, taken⟩
  · exact ⟨0, heap, front, back, full, kept, by rw [same]; exact counted⟩
  · have nonzero : region.base + spans (front ++ skipped) + 8 ≠ 0 := by omega
    refine ⟨_, heap, front ++ skipped, ⟨true, align4 size⟩ :: ⟨false, len - align4 size - 8⟩ :: rest,
      found, by rw [if_neg nonzero]; exact kept, ?_⟩
    have within := kept.lazy.usedSpan_le
    have addressable := region.addressable
    subst split
    rw [← List.append_assoc, usedAt_append] at counted
    rw [usedAt_append] at within ⊢
    simp only [usedAt, Bool.false_eq_true, if_false, if_true, usedSpan_append,
      usedSpan_cons] at counted within ⊢
    have place : region.base + spans (front ++ skipped) + 8 + align4 size + 8 +
        (len - align4 size - 8) = region.base + spans (front ++ skipped) + 8 + len := by omega
    rw [place] at within ⊢
    have header : wrap32 (align4 size + 8) = align4 size + 8 := by
      rw [align4_eq small]
      exact Nat.mod_eq_of_lt small
    have left : heap.krnlFree = world.heap.krnlFree - (align4 size + 8) := by
      rw [taken, header]
      unfold wrap32
      omega
    omega

theorem Balanced.free (balanced : Balanced region world front back) {ptr : Nat}
    (owned : ∃ entry ∈ world.live, entry.1 = ptr) :
    ∃ back', Balanced region
      ⟨world.heap.hfFree ptr, world.live.eraseP fun entry => entry.1 = ptr⟩ [] back' := by
  have counted := balanced.counted
  have addressable := region.addressable
  have positive := region.positive
  obtain ⟨before, len, after, stands, kept, returned⟩ := balanced.tracked.free owned
  refine ⟨_, kept, ?_⟩
  rw [stands, usedAt_append] at counted
  rw [List.nil_append, usedAt_merge, usedAt_append]
  simp only [usedAt, Bool.false_eq_true, if_false, if_true, usedSpan_append,
    usedSpan_cons] at counted ⊢
  have sum : (world.heap.hfFree ptr).krnlFree = world.heap.krnlFree + len + 8 := by
    rw [returned]
    exact Nat.mod_eq_of_lt (by omega)
  omega

theorem Balanced.step {op : HeapOp} {next : HeapWorld} (enough : region.len ≤ fuel)
    (balanced : Balanced region world front back) (admitted : allowed op world)
    (stepped : HeapWorld.step fuel op world = .ok next) :
    ∃ front' back', Balanced region next front' back' := by
  cases op with
  | malloc size =>
      obtain ⟨ptr, heap, front', back', returned, kept⟩ := balanced.malloc admitted enough
      simp only [HeapWorld.step, returned, Except.ok.injEq] at stepped
      exact ⟨front', back', stepped ▸ kept⟩
  | free ptr =>
      obtain ⟨back', kept⟩ := balanced.free admitted
      simp only [HeapWorld.step, Except.ok.injEq] at stepped
      exact ⟨[], back', stepped ▸ kept⟩
  | store address value =>
      simp only [HeapWorld.step, Except.ok.injEq] at stepped
      exact ⟨front, back, stepped ▸ ⟨balanced.tracked.store value admitted, balanced.counted⟩⟩

def startAt (base len : Nat) (memory : Memory) : HeapWorld := ⟨heapinit memory base len, []⟩

structure Accounted (fuel base len : Nat) (world : HeapWorld) : Prop where
  counted : world.heap.hfFreemem + booked world.live + 16 = len
  recovered : world.live = [] → 24 ≤ len →
    ∃ heap, world.heap.hfMalloc fuel (len - 24) = some (base + 8, heap)

theorem Balanced.recovered (balanced : Balanced region world front back)
    (enough : region.len ≤ fuel) (none : world.live = []) (room : 24 ≤ region.len) :
    ∃ heap, world.heap.hfMalloc fuel (region.len - 24) = some (region.base + 8, heap) := by
  have addressable := region.addressable
  have positive := region.positive
  have aligned := region.aligned
  have unused : usedAt region.base (front ++ back) = [] := by
    have live := balanced.tracked.live
    rw [none] at live
    simpa using (List.nil_perm.mp live)
  obtain ⟨rfl, rfl⟩ := balanced.tracked.lazy.recovered unused
  have small : (region.len - 24 + 3) / 4 * 4 + 8 < 4294967296 := by omega
  rcases balanced.tracked.malloc_cases small enough with ⟨heap, _, _, _, _, passed⟩ |
    ⟨heap, skipped, len, rest, split, _, _, found, _⟩
  · rcases passed _ List.mem_cons_self with used | short
    · cases used
    · rw [align4_eq small] at short
      simp only at short
      omega
  · have first : skipped = [] := by
      cases skipped with
      | nil => rfl
      | cons block skipped => simp at split
    subst first
    rw [List.nil_append] at found
    exact ⟨heap, found⟩

theorem Balanced.accounted (balanced : Balanced region world front back)
    (enough : region.len ≤ fuel) : Accounted fuel region.base region.len world := by
  refine ⟨?_, balanced.recovered enough⟩
  rw [booked_eq balanced.tracked.live, hfFreemem]
  exact balanced.counted

/-- The free memory is accounted for in every run, and whatever was allocated can be had again as
one area, exactly when the heap has room for two headers and a length that is a multiple of four. -/
theorem heap_accounting {fuel base len : Nat} (memory : Memory) (positive : 0 < base)
    (addressable : base + len ≤ 4294967296) (enough : len ≤ fuel) :
    (∀ world, Reaches (step fuel) allowed (startAt base len memory) world →
      Accounted fuel base len world) ↔ 16 ≤ len ∧ len % 4 = 0 := by
  constructor
  · intro accounted
    have counted := (accounted _ .start).counted
    have headers : 16 ≤ len := by omega
    have first : (startAt base len memory).heap.krnlFree = wrap32 (align4 len + 4294967296 - 16) :=
      heapinit_size headers memory base
    rw [hfFreemem, first] at counted
    simp only [startAt, booked, List.map_nil, List.sum_nil] at counted
    unfold wrap32 align4 wrap32 at counted
    omega
  · rintro ⟨headers, aligned⟩ world reached
    let region : Region := ⟨base, len, positive, aligned, headers, addressable⟩
    obtain ⟨front, back, balanced⟩ := reached.invariant
      (fun state => ∃ front back, Balanced region state front back)
      ⟨[], _, .start region memory⟩
      (fun _ _ _ ⟨_, _, balanced⟩ admitted stepped => balanced.step enough admitted stepped)
    exact balanced.accounted enough

theorem heap_accounting_short :
    Accounted 68 256 68 passedHole := by
  have enough : 68 ≤ 68 := Nat.le_refl _
  have addressable : 256 + 68 ≤ 4294967296 := by decide
  exact (heap_accounting (fun _ => 0) (by decide) addressable enough).mpr (by decide) passedHole
    passedHole_reached

/-- A heap of 25 bytes starts with 12 bytes of free memory. -/
theorem unaligned_heap_unaccounted :
    ∃ world, Reaches (step 25) allowed (startAt 256 25 fun _ => 0) world ∧
      world.heap.hfFreemem = 12 ∧ ¬Accounted 25 256 25 world := by
  refine ⟨startAt 256 25 fun _ => 0, .start, by decide +kernel, fun accounted => ?_⟩
  have counted := accounted.counted
  have free : (startAt 256 25 fun _ => 0).heap.hfFreemem = 12 := by decide +kernel
  rw [free] at counted
  simp [startAt, booked] at counted

end HeapWorld

end Hellfire

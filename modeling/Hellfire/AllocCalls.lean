import Hellfire.HoleSearch

/-!
`hf_malloc`, `hf_calloc`, `hf_realloc` and `hf_free` with requests of any size: a call gets the
size of its block right unless a size near 2^32, or a product that wraps, is granted.
-/

namespace Hellfire

open ByteMemory Machine MergeRuns

namespace Heap

section Copies

variable {memory : Memory} {p r1 r2 n place : Nat}

theorem memset_outside (c : UInt8) (bound : p + n ≤ 4294967296)
    (outside : place < p ∨ p + n ≤ place) : memset memory p c n place = memory place := by
  induction n generalizing memory p with
  | zero => rfl
  | succ n ih =>
      have here : writeByte memory p c place = memory place := writeByte_other _ _ (by omega)
      by_cases last : n = 0
      · subst last
        exact here
      · have next : wrap32 (p + 1) = p + 1 := Nat.mod_eq_of_lt (by omega)
        rw [memset, next, ih (by omega) (by omega), here]

theorem memcpy_outside (bound : r1 + n ≤ 4294967296) (outside : place < r1 ∨ r1 + n ≤ place) :
    memcpy memory r1 r2 n place = memory place := by
  induction n generalizing memory r1 r2 with
  | zero => rfl
  | succ n ih =>
      have here : writeByte memory r1 (memory r2) place = memory place :=
        writeByte_other _ _ (by omega)
      by_cases last : n = 0
      · subst last
        exact here
      · have next : wrap32 (r1 + 1) = r1 + 1 := Nat.mod_eq_of_lt (by omega)
        rw [memcpy, next, ih (by omega) (by omega), here]

theorem memcpy_inside {count i : Nat} (bound : r1 + n ≤ 4294967296) (source : r2 + count ≤ 4294967296)
    (short : count ≤ n) (apart : r2 + count ≤ r1 ∨ r1 + n ≤ r2) (inside : i < count) :
    memcpy memory r1 r2 n (r1 + i) = memory (r2 + i) := by
  induction n generalizing memory r1 r2 count i with
  | zero => omega
  | succ n ih =>
      by_cases last : n = 0
      · obtain rfl : i = 0 := by omega
        subst last
        exact writeByte_self _ _ _
      · have next : wrap32 (r1 + 1) = r1 + 1 := Nat.mod_eq_of_lt (by omega)
        rw [memcpy, next]
        cases i with
        | zero =>
            rw [memcpy_outside (by omega) (by omega)]
            exact writeByte_self _ _ _
        | succ i =>
            have next' : wrap32 (r2 + 1) = r2 + 1 := Nat.mod_eq_of_lt (by omega)
            have less : count - 1 ≤ n := by omega
            rw [next', show r1 + (i + 1) = r1 + 1 + i by omega,
              ih (by omega) (by omega) less (by omega) (by omega), writeByte_other _ _ (by omega),
              show r2 + 1 + i = r2 + (i + 1) by omega]

end Copies

structure Granted (region : Region) (heap : Heap) (ptr len : Nat) : Prop where
  inside : region.base + 8 ≤ ptr
  used : marked (size heap.memory (ptr - 8)) = true
  room : ptr + len ≤ next heap.memory (ptr - 8)
  within : next heap.memory (ptr - 8) ≤ region.sentinel

def NoRoom (region : Region) (heap : Heap) (need : Nat) : Prop :=
  ∀ blocks, Tiled region heap.memory blocks → ∀ offset len, FreeRun blocks offset len →
    heap.lastFree ≤ region.base + offset → len < need

/-- The 32-bit arithmetic of `hf_malloc` either is exact for a request of `len` bytes, or asks for
more than there is. -/
def Sized (region : Region) (heap : Heap) (len : Nat) : Prop :=
  len + 12 ≤ 4294967296 ∨ NoRoom region heap (wrap32 (align4 len + 8))

theorem align4_wrap32 (len : Nat) : align4 (wrap32 len) = align4 len := by
  unfold align4 wrap32
  omega

theorem hfMalloc_wrap32 (heap : Heap) (fuel len : Nat) :
    heap.hfMalloc fuel (wrap32 len) = heap.hfMalloc fuel len := by
  simp only [hfMalloc, align4_wrap32]

variable {region : Region} {heap : Heap} {front back : List Block}

theorem Granted.small {ptr len : Nat} (granted : Granted region heap ptr len) :
    len + 12 ≤ 4294967296 := by
  obtain ⟨inside, _, room, within⟩ := granted
  have addressable := region.addressable
  have headers := region.headers
  unfold Region.sentinel at within
  omega

theorem Granted.mono {ptr len less : Nat} (granted : Granted region heap ptr len) (fits : less ≤ len) :
    Granted region heap ptr less := by
  have room := granted.room
  exact ⟨granted.inside, granted.used, by omega, granted.within⟩

theorem hfCalloc_returns {heap' : Heap} {fuel qty typeSize buf : Nat}
    (returned : heap.hfMalloc fuel (qty * typeSize) = some (buf, heap')) :
    ∃ after, heap.hfCalloc fuel qty typeSize = some (buf, after) := by
  rw [← hfMalloc_wrap32] at returned
  simp only [hfCalloc, returned]
  split
  · exact ⟨_, rfl⟩
  · exact ⟨_, rfl⟩

theorem Lazy.noRoom_iff (lazy : Lazy region heap front back) (need : Nat) :
    NoRoom region heap need ↔ ∀ block ∈ back, TooSmall need block := by
  obtain ⟨blocks, tiled, merged, _⟩ := lazy.blocks
  constructor
  · rintro noRoom ⟨used, len⟩ member
    cases used with
    | true => exact Or.inl rfl
    | false =>
        obtain ⟨skipped, rest, split⟩ := List.append_of_mem member
        obtain ⟨run, behind⟩ := (lazy.runs_behind merged).mpr ⟨skipped, rest, split, rfl⟩
        exact Or.inr (noRoom blocks tiled _ len run behind)
  · intro passed other tiled' offset len run behind
    rw [tiled'.unique tiled] at run
    obtain ⟨skipped, rest, rfl, _⟩ := (lazy.runs_behind merged).mp ⟨run, behind⟩
    rcases passed ⟨false, len⟩ (by simp) with used | short
    · cases used
    · exact short

theorem Lazy.refuses (lazy : Lazy region heap front back) {fuel len : Nat}
    (noRoom : NoRoom region heap (wrap32 (align4 len + 8))) (enough : region.len ≤ fuel) :
    ∃ heap', heap.hfMalloc fuel len = some (0, heap') ∧ Lazy region heap' front back ∧
      KeepsUsed region (front ++ back) heap.memory heap'.memory := by
  rw [lazy.noRoom_iff] at noRoom
  rcases lazy.search (rfl : wrap32 (align4 len + 8) = _) enough with ⟨memory, found, last, kept, keeps, _⟩ |
    ⟨memory, before, skipped, room, rest, found, more, hole⟩
  · refine ⟨{ heap with memory := memory }, ?_, kept, keeps⟩
    simp only [Heap.hfMalloc, found, last, if_true]
  · have member : ⟨false, room⟩ ∈ back := by
      rw [hole.split]
      simp
    rcases noRoom _ member with used | short
    · cases used
    · exact absurd hole.room (Nat.not_le.mpr short)

theorem Lazy.grants (lazy : Lazy region heap front back) {fuel len : Nat}
    (room : ¬NoRoom region heap (wrap32 (align4 len + 8))) (enough : region.len ≤ fuel) :
    ∃ ptr heap', heap.hfMalloc fuel len = some (ptr, heap') ∧ region.base + 8 ≤ ptr := by
  rw [lazy.noRoom_iff] at room
  rcases lazy.search (rfl : wrap32 (align4 len + 8) = _) enough with ⟨memory, found, last, _, _, passed⟩ |
    ⟨memory, before, skipped, size, rest, found, more, hole⟩
  · exact absurd passed room
  · have inside := hole.inside
    have pointer : wrap32 (region.base + spans (before ++ skipped) + 8) =
        region.base + spans (before ++ skipped) + 8 := Nat.mod_eq_of_lt (by omega)
    refine ⟨region.base + spans (before ++ skipped) + 8, { heap with memory := memory }.place (align4 len)
      (region.base + spans (before ++ skipped)), ?_, by omega⟩
    simp only [Heap.hfMalloc, found, more, if_false, pointer]

end Heap

inductive AllocOp
  | malloc (size : Nat)
  | calloc (qty typeSize : Nat)
  | realloc (ptr size : Nat)
  | free (ptr : Nat)
  | store (address : Nat) (value : UInt8)
deriving DecidableEq, Repr

namespace HeapWorld

open Heap

def held (live : List (Nat × Nat)) (ptr size : Nat) : List (Nat × Nat) :=
  if ptr = 0 then live else (ptr, size) :: live

def call (fuel : Nat) : AllocOp → HeapWorld → Except Unit HeapWorld
  | .malloc size, world =>
      match world.heap.hfMalloc fuel size with
      | none => .error ()
      | some (ptr, heap) => .ok ⟨heap, held world.live ptr size⟩
  | .calloc qty typeSize, world =>
      match world.heap.hfCalloc fuel qty typeSize with
      | none => .error ()
      | some (buf, heap) => .ok ⟨heap, held world.live buf (qty * typeSize)⟩
  | .realloc ptr size, world =>
      match world.heap.hfRealloc fuel ptr size with
      | none => .error ()
      | some (buf, heap) =>
          .ok ⟨heap, if buf = 0 then world.live
            else (buf, size) :: world.live.eraseP fun entry => entry.1 = ptr⟩
  | .free ptr, world => .ok ⟨world.heap.hfFree ptr, world.live.eraseP fun entry => entry.1 = ptr⟩
  | .store address value, world =>
      .ok { world with heap := { world.heap with
        memory := Function.update world.heap.memory address value } }

/-- The clients free and resize live allocations and write into them, and the sizes of the
requests are got right. -/
def sized (region : Region) : AllocOp → HeapWorld → Prop
  | .malloc size, world => Sized region world.heap size
  | .calloc qty typeSize, world => Sized region world.heap (qty * typeSize)
  | .realloc ptr size, world =>
      size < 4294967296 ∧ (ptr = 0 ∨ ∃ entry ∈ world.live, entry.1 = ptr)
  | .free ptr, world => ∃ entry ∈ world.live, entry.1 = ptr
  | .store address _, world => world.owns address

variable {region : Region} {world : HeapWorld} {front back : List Block} {fuel : Nat}

structure Honest (region : Region) (world : HeapWorld) (front back : List Block) : Prop where
  tracked : Tracked region world front back
  exact : ∀ entry ∈ world.live, entry.2 + 12 ≤ 4294967296

theorem align4_ge {len : Nat} (small : len + 12 ≤ 4294967296) : len ≤ align4 len := by
  unfold align4 wrap32
  omega

theorem Honest.framed (honest : Honest region world front back) {entry : Nat × Nat}
    (member : entry ∈ world.live) : Granted region world.heap entry.1 (align4 entry.2) ∧
      next world.heap.memory (entry.1 - 8) = entry.1 + align4 entry.2 := by
  obtain ⟨blocks, tiled, merged, _⟩ := honest.tracked.lazy.blocks
  obtain ⟨header, pointer, used⟩ := honest.tracked.live.block member
  rw [← merged, usedAt_merge] at used
  obtain ⟨before, len, after, rfl, place⟩ := mem_usedAt_split used
  rw [Prod.mk.injEq] at place
  obtain ⟨rfl, rfl⟩ := place
  obtain ⟨_, link, state, aligned, _⟩ := (chain_append _ before _ region.base).mp tiled.chain
  have total := tiled.total
  rw [spans_append before, List.singleton_append] at total
  simp only [spans] at total
  simp only [if_true] at link state aligned
  have here : entry.1 - 8 = region.base + spans before := by omega
  refine ⟨⟨by omega, ?_, ?_, ?_⟩, ?_⟩
  · rw [here, marked, state]
    simp only [decide_eq_true_eq]
    omega
  · rw [here, link]
    omega
  · rw [here, link]
    omega
  · rw [here, link]
    omega

theorem Honest.granted (honest : Honest region world front back) {entry : Nat × Nat}
    (member : entry ∈ world.live) : Granted region world.heap entry.1 entry.2 :=
  (honest.framed member).1.mono (align4_ge (honest.exact entry member))

theorem Honest.inside (honest : Honest region world front back) {entry : Nat × Nat}
    (member : entry ∈ world.live) :
    region.base + 8 ≤ entry.1 ∧ entry.1 + align4 entry.2 + 8 ≤ 4294967296 := by
  obtain ⟨blocks, tiled, merged, _⟩ := honest.tracked.lazy.blocks
  obtain ⟨header, pointer, used⟩ := honest.tracked.live.block member
  rw [← merged, usedAt_merge] at used
  have bounds := usedAt_bounds used
  have total := tiled.total
  have addressable := region.addressable
  have headers := region.headers
  unfold Region.sentinel at total
  simp only at bounds
  omega

theorem Honest.malloc (honest : Honest region world front back) {size : Nat}
    (fits : Sized region world.heap size) (enough : region.len ≤ fuel) :
    ∃ ptr heap front' back', world.heap.hfMalloc fuel size = some (ptr, heap) ∧
      Honest region ⟨heap, held world.live ptr size⟩ front' back' ∧
      (∀ address, world.owns address → heap.memory address = world.heap.memory address) ∧
      (ptr ≠ 0 → size + 12 ≤ 4294967296) := by
  rcases fits with small | noRoom
  · have short : (size + 3) / 4 * 4 + 8 < 4294967296 := by omega
    rcases honest.tracked.malloc_cases short enough with ⟨heap, full, kept, keeps, _, _⟩ |
      ⟨heap, skipped, len, rest, split, room, _, found, kept, keeps, _⟩
    · exact ⟨0, heap, front, back, full, ⟨kept, honest.exact⟩,
        fun _ owned => honest.tracked.keeps keeps owned, fun _ => small⟩
    · have nonzero : region.base + spans (front ++ skipped) + 8 ≠ 0 := by omega
      refine ⟨_, heap, front ++ skipped, ⟨true, align4 size⟩ :: ⟨false, len - align4 size - 8⟩ :: rest,
        found, ?_, fun _ owned => honest.tracked.keeps keeps owned, fun _ => small⟩
      rw [held, if_neg nonzero]
      exact ⟨kept, List.forall_mem_cons.mpr ⟨small, honest.exact⟩⟩
  · obtain ⟨heap, full, kept, keeps⟩ := honest.tracked.lazy.refuses noRoom enough
    exact ⟨0, heap, front, back, full, ⟨⟨kept, honest.tracked.live⟩, honest.exact⟩,
      fun _ owned => honest.tracked.keeps keeps owned, fun other => absurd rfl other⟩

theorem Honest.fill (honest : Honest region world front back) {entry : Nat × Nat}
    (member : entry ∈ world.live) {memory : Memory}
    (same : ∀ place, place < entry.1 ∨ entry.1 + entry.2 ≤ place →
      memory place = world.heap.memory place) :
    Honest region { world with heap := { world.heap with memory := memory } } front back := by
  have covers := align4_ge (honest.exact entry member)
  exact ⟨honest.tracked.fill member fun place outside => same place (by omega), honest.exact⟩

theorem Honest.free (honest : Honest region world front back) {ptr : Nat}
    (owned : ∃ entry ∈ world.live, entry.1 = ptr) :
    ∃ back', Honest region
      ⟨world.heap.hfFree ptr, world.live.eraseP fun entry => entry.1 = ptr⟩ [] back' := by
  obtain ⟨_, _, _, _, kept, _⟩ := honest.tracked.free owned
  exact ⟨_, kept, fun entry member => honest.exact entry (List.mem_of_mem_eraseP member)⟩

theorem mem_held {live : List (Nat × Nat)} {ptr size : Nat} (nonnull : ptr ≠ 0) :
    (ptr, size) ∈ held live ptr size := by
  rw [held, if_neg nonnull]
  exact List.mem_cons_self

theorem Honest.calloc (honest : Honest region world front back) {qty typeSize : Nat}
    (fits : Sized region world.heap (qty * typeSize)) (enough : region.len ≤ fuel) :
    ∃ buf heap front' back', world.heap.hfCalloc fuel qty typeSize = some (buf, heap) ∧
      Honest region ⟨heap, held world.live buf (qty * typeSize)⟩ front' back' := by
  obtain ⟨buf, heap, front', back', returned, kept, _, small⟩ := honest.malloc fits enough
  rw [← hfMalloc_wrap32] at returned
  by_cases null : buf = 0
  · refine ⟨buf, heap, front', back', ?_, kept⟩
    simp only [hfCalloc, returned, ne_eq, null, not_true_eq_false, if_false]
  · have exact : wrap32 (qty * typeSize) = qty * typeSize := Nat.mod_eq_of_lt (by have := small null; omega)
    have inside := (kept.inside (mem_held null)).2
    have covers := align4_ge (small null)
    rw [exact] at returned
    refine ⟨buf, { heap with memory := memset heap.memory buf 0 (qty * typeSize) }, front', back', ?_, ?_⟩
    · simp only [hfCalloc, returned, exact, ne_eq, null, not_false_eq_true, if_true]
    · refine kept.fill (mem_held null) fun place outside => memset_outside 0 ?_ outside
      simp only at inside
      omega

structure Kept (region : Region) (before after : Heap) (entry : Nat × Nat) : Prop where
  granted : Granted region after entry.1 entry.2
  same : ∀ i < entry.2, after.memory (entry.1 + i) = before.memory (entry.1 + i)

structure Moved (region : Region) (world : HeapWorld) (after : Heap) (ptr old buf size : Nat) : Prop where
  granted : Granted region after buf size
  copied : ∀ i < min old size, after.memory (buf + i) = world.heap.memory (ptr + i)
  released : marked (Heap.size after.memory (ptr - 8)) = false
  others : ∀ entry ∈ world.live, entry.1 ≠ ptr → Kept region world.heap after entry ∧
    (buf + size ≤ entry.1 ∨ entry.1 + entry.2 ≤ buf)

theorem Honest.owns (honest : Honest region world front back) {entry : Nat × Nat}
    (member : entry ∈ world.live) {i : Nat} (inside : i < entry.2) : world.owns (entry.1 + i) := by
  have covers := align4_ge (honest.exact entry member)
  exact ⟨entry, member, by omega, by omega⟩

theorem hfFree_released (heap : Heap) {ptr : Nat} (low : 8 ≤ ptr) (high : ptr < 4294967296) :
    marked (Heap.size (heap.hfFree ptr).memory (ptr - 8)) = false := by
  have place : wrap32 (ptr + 4294967296 - 8) = ptr - 8 := by
    unfold wrap32
    omega
  have word : unmark (Heap.size heap.memory (ptr - 8)) < 4294967296 := by
    have byte := fun place => (heap.memory place).toNat_lt
    have first := byte (ptr - 8 + 4)
    have second := byte (ptr - 8 + 4 + 1)
    have third := byte (ptr - 8 + 4 + 2)
    have fourth := byte (ptr - 8 + 4 + 3)
    unfold unmark Heap.size readWord
    omega
  simp only [Heap.hfFree, place]
  rw [size_setSize _ word, marked, unmark]
  simp only [decide_eq_false_iff_not]
  omega

theorem Honest.move {heap : Heap} {live : List (Nat × Nat)} {ptr old buf size : Nat}
    (kept : Honest region ⟨heap, (buf, size) :: live⟩ front back) (member : (ptr, old) ∈ live) :
    (∃ back', Honest region
        ⟨{ heap with memory := memcpy heap.memory buf ptr size }.hfFree ptr,
          (buf, size) :: live.eraseP fun entry => entry.1 = ptr⟩ [] back') ∧
      Moved region ⟨heap, live⟩ ({ heap with memory := memcpy heap.memory buf ptr size }.hfFree ptr)
        ptr old buf size := by
  have fresh : (buf, size) ∈ (buf, size) :: live := List.mem_cons_self
  have place := kept.inside fresh
  have covers := align4_ge (kept.exact _ fresh)
  have oldPlace := kept.inside (List.mem_cons_of_mem _ member)
  have oldCovers := align4_ge (kept.exact _ (List.mem_cons_of_mem _ member))
  simp only at place covers oldPlace oldCovers
  have apart : ∀ entry ∈ live, buf + size + 8 ≤ entry.1 ∨ entry.1 + entry.2 + 8 ≤ buf := by
    intro entry other
    have gap := (List.pairwise_cons.mp kept.tracked.live.apart).1 entry other
    have within := align4_ge (kept.exact entry (List.mem_cons_of_mem _ other))
    simp only at gap
    omega
  have beside := apart _ member
  simp only at beside
  let copied : Heap := { heap with memory := memcpy heap.memory buf ptr size }
  have outside : ∀ place, place < buf ∨ buf + size ≤ place → copied.memory place = heap.memory place :=
    fun place away => memcpy_outside (by omega) away
  have filled : Honest region ⟨copied, (buf, size) :: live⟩ front back := kept.fill fresh outside
  have owned : ∃ entry ∈ (buf, size) :: live, entry.1 = ptr := ⟨_, List.mem_cons_of_mem _ member, rfl⟩
  have stays : ∀ entry ∈ (buf, size) :: live, ∀ i < entry.2,
      (copied.hfFree ptr).memory (entry.1 + i) = copied.memory (entry.1 + i) :=
    fun entry other i inside => filled.tracked.free_keeps owned (filled.owns other inside)
  have erased : ((buf, size) :: live).eraseP (fun entry => entry.1 = ptr) =
      (buf, size) :: live.eraseP fun entry => entry.1 = ptr := by
    rw [List.eraseP_cons_of_neg]
    simp only [decide_eq_true_eq]
    omega
  obtain ⟨back', freed⟩ := filled.free owned
  simp only [erased] at freed
  refine ⟨⟨back', freed⟩, freed.granted List.mem_cons_self, ?_, ?_, ?_⟩
  · intro i inside
    rw [stays _ fresh i (by simp only; omega)]
    exact memcpy_inside (by omega) (by omega) (Nat.min_le_right old size) (by omega) inside
  · exact hfFree_released copied (by omega) (by omega)
  · intro entry other elsewhere
    have remains : entry ∈ live.eraseP fun entry => entry.1 = ptr := by
      rw [List.mem_eraseP_of_neg (by simpa using elsewhere)]
      exact other
    have gap := apart entry other
    refine ⟨⟨freed.granted (List.mem_cons_of_mem _ remains), fun i inside => ?_⟩, by omega⟩
    rw [stays entry (List.mem_cons_of_mem _ other) i inside, outside _ (by omega)]

theorem Honest.realloc (honest : Honest region world front back) {ptr old size : Nat}
    (live : (ptr, old) ∈ world.live) (small : size < 2147483648) (enough : region.len ≤ fuel) :
    ∃ buf heap, world.heap.hfRealloc fuel ptr size = some (buf, heap) ∧
      (∃ front' back', Honest region ⟨heap, if buf = 0 then world.live
        else (buf, size) :: world.live.eraseP fun entry => entry.1 = ptr⟩ front' back') ∧
      (buf = 0 ∧ (∀ entry ∈ world.live, Kept region world.heap heap entry) ∨
        buf ≠ 0 ∧ Moved region world heap ptr old buf size) := by
  have bounds := honest.inside live
  simp only at bounds
  have nonnull : ptr ≠ 0 := by omega
  have positive : ¬2147483648 ≤ size := Nat.not_le.mpr small
  obtain ⟨buf, heap, front', back', returned, kept, same, _⟩ :=
    honest.malloc (Or.inl (show size + 12 ≤ 4294967296 by omega)) enough
  by_cases null : buf = 0
  · rw [held, if_pos null] at kept
    refine ⟨buf, heap, ?_, ⟨front', back', ?_⟩, Or.inl ⟨null, fun entry member => ⟨?_, ?_⟩⟩⟩
    · simp only [hfRealloc, if_neg positive, if_neg nonnull, returned, null, ne_eq, not_true_eq_false,
        if_false]
    · rw [if_pos null]
      exact kept
    · exact kept.granted member
    · exact fun i inside => same _ (honest.owns member inside)
  · rw [held, if_neg null] at kept
    obtain ⟨⟨back'', final⟩, moved⟩ := kept.move live
    refine ⟨buf, _, ?_, ⟨[], back'', ?_⟩, Or.inr ⟨null, moved.granted, ?_, moved.released, ?_⟩⟩
    · simp only [hfRealloc, if_neg positive, if_neg nonnull, returned, ne_eq, null, not_false_eq_true,
        if_true]
    · rw [if_neg null]
      exact final
    · intro i inside
      rw [moved.copied i inside]
      exact same _ (honest.owns live (by simp only; omega))
    · intro entry member elsewhere
      obtain ⟨⟨granted, stays⟩, apart⟩ := moved.others entry member elsewhere
      refine ⟨⟨granted, fun i inside => ?_⟩, apart⟩
      rw [stays i inside]
      exact same _ (honest.owns member inside)

theorem Honest.realloc_null (honest : Honest region world front back) {size : Nat}
    (small : size < 2147483648) (enough : region.len ≤ fuel) :
    ∃ buf heap, world.heap.hfRealloc fuel 0 size = some (buf, heap) ∧
      ∃ front' back', Honest region ⟨heap, if buf = 0 then world.live
        else (buf, size) :: world.live.eraseP fun entry => entry.1 = 0⟩ front' back' := by
  obtain ⟨buf, heap, front', back', returned, kept, _⟩ :=
    honest.malloc (Or.inl (show size + 12 ≤ 4294967296 by omega)) enough
  have unchanged : (world.live.eraseP fun entry => entry.1 = 0) = world.live := by
    refine List.eraseP_of_forall_not fun entry member => ?_
    have bounds := honest.inside member
    simp only [decide_eq_true_eq]
    omega
  refine ⟨buf, heap, ?_, front', back', ?_⟩
  · rw [hfRealloc, if_neg (Nat.not_le.mpr small), if_pos rfl, returned]
  · rw [unchanged]
    exact kept

theorem Honest.call (honest : Honest region world front back) {op : AllocOp} {next : HeapWorld}
    (enough : region.len ≤ fuel) (admitted : sized region op world)
    (called : HeapWorld.call fuel op world = .ok next) :
    ∃ front' back', Honest region next front' back' := by
  cases op with
  | malloc size =>
      obtain ⟨ptr, heap, front', back', returned, kept, _⟩ := honest.malloc admitted enough
      simp only [HeapWorld.call, returned, Except.ok.injEq] at called
      exact ⟨front', back', called ▸ kept⟩
  | calloc qty typeSize =>
      obtain ⟨buf, heap, front', back', returned, kept⟩ := honest.calloc admitted enough
      simp only [HeapWorld.call, returned, Except.ok.injEq] at called
      exact ⟨front', back', called ▸ kept⟩
  | realloc ptr size =>
      by_cases negative : 2147483648 ≤ size
      · simp only [HeapWorld.call, hfRealloc, if_pos negative, if_true, Except.ok.injEq] at called
        exact ⟨front, back, called ▸ honest⟩
      · have small := Nat.not_le.mp negative
        obtain ⟨_, rfl | ⟨entry, member, rfl⟩⟩ := admitted
        · obtain ⟨buf, heap, returned, ⟨front', back', kept⟩⟩ := honest.realloc_null small enough
          simp only [HeapWorld.call, returned, Except.ok.injEq] at called
          exact ⟨front', back', called ▸ kept⟩
        · obtain ⟨buf, heap, returned, ⟨front', back', kept⟩, _⟩ := honest.realloc member small enough
          simp only [HeapWorld.call, returned, Except.ok.injEq] at called
          exact ⟨front', back', called ▸ kept⟩
  | free ptr =>
      obtain ⟨back', kept⟩ := honest.free admitted
      simp only [HeapWorld.call, Except.ok.injEq] at called
      exact ⟨[], back', called ▸ kept⟩
  | store address value =>
      simp only [HeapWorld.call, Except.ok.injEq] at called
      exact ⟨front, back, called ▸ ⟨honest.tracked.store value admitted, honest.exact⟩⟩

theorem reached_honest {memory : Memory} (enough : region.len ≤ fuel)
    (reached : Reaches (call fuel) (sized region) (start region memory) world) :
    ∃ front back, Honest region world front back :=
  reached.invariant (fun state => ∃ front back, Honest region state front back)
    ⟨[], _, ⟨.heapinit region memory, List.Perm.nil⟩, fun _ member => absurd member List.not_mem_nil⟩
    (fun _ _ _ ⟨_, _, honest⟩ admitted called => honest.call enough admitted called)

/-- What a call returns, if anything, is a block with room for the request exactly when the request
is got right. -/
theorem allocation_sizes (region : Region) (memory : Memory) (enough : region.len ≤ fuel)
    (reached : Reaches (call fuel) (sized region) (start region memory) world) :
    (∀ size < 4294967296, ∃ ptr heap, world.heap.hfMalloc fuel size = some (ptr, heap) ∧
      ((ptr ≠ 0 → Granted region heap ptr size) ↔ Sized region world.heap size)) ∧
    ∀ qty < 4294967296, ∀ typeSize < 4294967296,
      ∃ buf heap, world.heap.hfCalloc fuel qty typeSize = some (buf, heap) ∧
        ((buf ≠ 0 → Granted region heap buf (qty * typeSize)) ↔
          Sized region world.heap (qty * typeSize)) := by
  obtain ⟨front, back, honest⟩ := reached_honest enough reached
  have wraps : ∀ {heap : Heap} {ptr len : Nat}, ¬Sized region world.heap len →
      region.base + 8 ≤ ptr →
        ((ptr ≠ 0 → Granted region heap ptr len) ↔ Sized region world.heap len) := by
    intro heap ptr len misfit inside
    refine iff_of_false (fun granted => misfit (Or.inl ?_)) misfit
    exact (granted (by omega)).small
  constructor
  · intro size _
    by_cases fits : Sized region world.heap size
    · obtain ⟨ptr, heap, _, _, returned, kept, _⟩ := honest.malloc fits enough
      exact ⟨ptr, heap, returned, iff_of_true (fun nonnull => kept.granted (mem_held nonnull)) fits⟩
    · obtain ⟨ptr, heap, returned, inside⟩ :=
        honest.tracked.lazy.grants (fun noRoom => fits (Or.inr noRoom)) enough
      exact ⟨ptr, heap, returned, wraps fits inside⟩
  · intro qty _ typeSize _
    by_cases fits : Sized region world.heap (qty * typeSize)
    · obtain ⟨buf, heap, _, _, returned, kept⟩ := honest.calloc fits enough
      exact ⟨buf, heap, returned, iff_of_true (fun nonnull => kept.granted (mem_held nonnull)) fits⟩
    · obtain ⟨buf, heap, returned, inside⟩ :=
        honest.tracked.lazy.grants (fun noRoom => fits (Or.inr noRoom)) enough
      obtain ⟨after, cleared⟩ := hfCalloc_returns returned
      exact ⟨buf, after, cleared, wraps fits inside⟩

/-- `hf_realloc` of a live allocation either fails and changes none of them, or moves its contents. -/
theorem hfRealloc_preserves (region : Region) (memory : Memory) (enough : region.len ≤ fuel)
    (reached : Reaches (call fuel) (sized region) (start region memory) world) {ptr old size : Nat}
    (live : (ptr, old) ∈ world.live) (small : size < 2147483648) :
    ∃ buf heap, world.heap.hfRealloc fuel ptr size = some (buf, heap) ∧
      (buf = 0 ∧ (∀ entry ∈ world.live, Kept region world.heap heap entry) ∨
        buf ≠ 0 ∧ Moved region world heap ptr old buf size) := by
  obtain ⟨front, back, honest⟩ := reached_honest enough reached
  obtain ⟨buf, heap, returned, _, outcome⟩ := honest.realloc live small enough
  exact ⟨buf, heap, returned, outcome⟩

section SmallRequests

def smallRequests : HeapWorld :=
  outcome (call 64) [.malloc 4, .calloc 1 5] (start smallRegion fun _ => 0)

theorem smallRequests_reached :
    Reaches (call 64) (sized smallRegion) (start smallRegion fun _ => 0) smallRequests := by
  refine execute_reaches [.malloc 4, .calloc 1 5] _ _ .start ?_ rfl
  intro op member world
  simp only [List.mem_cons, List.not_mem_nil, or_false] at member
  rcases member with rfl | rfl
  · exact Or.inl (by decide)
  · exact Or.inl (by decide)

theorem allocation_sizes_small :
    ∃ ptr heap, smallRequests.heap.hfMalloc 64 8 = some (ptr, heap) ∧
      (ptr ≠ 0 → Granted smallRegion heap ptr 8) := by
  have sizes := allocation_sizes smallRegion (fun _ => 0) (by decide) smallRequests_reached
  obtain ⟨ptr, heap, returned, granted⟩ := sizes.1 8 (by decide)
  exact ⟨ptr, heap, returned, granted.mpr (Or.inl (by decide))⟩

/-- Requests of 2^32 - 3 bytes and of 65536 times 65536 bytes are granted blocks without payload. -/
theorem wrapped_requests_granted :
    ∃ world, Reaches (call 64) (sized smallRegion) (start smallRegion fun _ => 0) world ∧
      (∃ heap, world.heap.hfMalloc 64 4294967293 = some (264, heap) ∧
        ¬Granted smallRegion heap 264 4294967293) ∧
      ∃ heap, world.heap.hfCalloc 64 65536 65536 = some (264, heap) ∧
        ¬Granted smallRegion heap 264 (65536 * 65536) := by
  refine ⟨start smallRegion fun _ => 0, .start, ?_, ?_⟩
  · have pointer : (((start smallRegion fun _ => 0).heap.hfMalloc 64 4294967293).map Prod.fst) =
        some 264 := by decide +kernel
    obtain ⟨⟨ptr, heap⟩, returned, rfl⟩ := Option.map_eq_some_iff.mp pointer
    exact ⟨heap, returned, fun granted => absurd granted.small (by decide)⟩
  · have pointer : (((start smallRegion fun _ => 0).heap.hfCalloc 64 65536 65536).map Prod.fst) =
        some 264 := by decide +kernel
    obtain ⟨⟨ptr, heap⟩, returned, rfl⟩ := Option.map_eq_some_iff.mp pointer
    exact ⟨heap, returned, fun granted => absurd granted.small (by decide)⟩

theorem hfRealloc_preserves_small :
    ∃ buf heap, smallRequests.heap.hfRealloc 64 264 8 = some (buf, heap) ∧
      (buf = 0 ∧ (∀ entry ∈ smallRequests.live, Kept smallRegion smallRequests.heap heap entry) ∨
        buf ≠ 0 ∧ Moved smallRegion smallRequests heap 264 4 buf 8) := by
  have live : (264, 4) ∈ smallRequests.live := by decide +kernel
  exact hfRealloc_preserves smallRegion (fun _ => 0) (by decide) smallRequests_reached live (by decide)

def client : AllocOp → HeapWorld → Prop
  | .malloc size, _ => size < 4294967296
  | .calloc qty typeSize, _ => qty < 4294967296 ∧ typeSize < 4294967296
  | .realloc ptr size, world =>
      size < 4294967296 ∧ (ptr = 0 ∨ ∃ entry ∈ world.live, entry.1 = ptr)
  | .free ptr, world => ∃ entry ∈ world.live, entry.1 = ptr
  | .store address _, world => world.owns address

/-- A request of 2^32 - 11 bytes is granted a block that stays free, so that `hf_realloc` moves it to
where it is and releases it. -/
theorem realloc_returns_released :
    ∃ world heap, Reaches (call 64) client (start smallRegion fun _ => 0) world ∧
      (264, 4294967285) ∈ world.live ∧ world.heap.hfRealloc 64 264 8 = some (264, heap) ∧
      ¬Moved smallRegion world heap 264 4294967285 264 8 := by
  let world := outcome (call 64) [.malloc 4294967285] (start smallRegion fun _ => 0)
  have reached : Reaches (call 64) client (start smallRegion fun _ => 0) world := by
    refine execute_reaches [.malloc 4294967285] _ _ .start ?_ rfl
    intro op member world
    rw [List.mem_singleton.mp member]
    exact (by decide : 4294967285 < 4294967296)
  have live : (264, 4294967285) ∈ world.live := by decide +kernel
  have pointer : (world.heap.hfRealloc 64 264 8).map Prod.fst = some 264 := by decide +kernel
  obtain ⟨⟨ptr, heap⟩, returned, rfl⟩ := Option.map_eq_some_iff.mp pointer
  refine ⟨world, heap, reached, live, returned, fun moved => ?_⟩
  have used := moved.granted.used
  rw [moved.released] at used
  cases used

end SmallRequests

end HeapWorld

end Hellfire

import Hellfire.FirstFitBlocks
import Hellfire.LazyBlocks

/-!
The two first-fit allocators side by side. On a heap that both allocators can tile, the
block list of `MEM_ALLOC` 2 is that of `MEM_ALLOC` 3 with its runs of free blocks merged,
and both stand at the same place of it. On other heaps `heapinit` leaves a first block
behind that is longer than the heap.
-/

namespace Hellfire

open ByteMemory Machine MergeRuns

structure Arena (len : Nat) where
  base : Nat
  positive : 0 < base
  headers : 16 ≤ len
  addressable : base + len < 4294967296

namespace Arena

variable {len : Nat}

def sentinel (arena : Arena len) : Nat := arena.base + len - 8

def region (arena : Arena len) (aligned : len % 4 = 0) : Region :=
  ⟨arena.base, len, arena.positive, aligned, arena.headers, Nat.le_of_lt arena.addressable⟩

end Arena

structure FirstFitPair where
  eager : FfHeap
  lazy : Heap
  live : List (Nat × Nat)

namespace FirstFitPair

def offset (base ptr : Nat) : Option Nat := if ptr = 0 then none else some (ptr - base)

def start {len : Nat} (eager lazy : Arena len) (memory memory' : Memory) : FirstFitPair :=
  ⟨FfHeap.heapinit memory eager.base len, Heap.heapinit memory' lazy.base len, []⟩

def owns (pair : FirstFitPair) (place : Nat) : Prop :=
  ∃ entry ∈ pair.live, entry.1 ≤ place ∧ place < entry.1 + align4 entry.2

def step (fuel : Nat) : HeapOp → FirstFitPair → Except Unit FirstFitPair
  | .malloc size, pair =>
      match pair.eager.hfMalloc fuel size, pair.lazy.hfMalloc fuel size with
      | some (_, eager), some (ptr, lazy) =>
          .ok ⟨eager, lazy, match offset pair.lazy.firstFree ptr with
            | none => pair.live
            | some place => (place, size) :: pair.live⟩
      | _, _ => .error ()
  | .free place, pair =>
      match pair.eager.hfFree fuel (pair.eager.krnlHeap + place) with
      | none => .error ()
      | some eager =>
          .ok ⟨eager, pair.lazy.hfFree (pair.lazy.firstFree + place),
            pair.live.eraseP fun entry => entry.1 = place⟩
  | .store place value, pair =>
      .ok { pair with
        eager := { pair.eager with
          memory := Function.update pair.eager.memory (pair.eager.krnlHeap + place) value }
        lazy := { pair.lazy with
          memory := Function.update pair.lazy.memory (pair.lazy.firstFree + place) value } }

def allowed : HeapOp → FirstFitPair → Prop
  | .malloc size, _ => 1 ≤ size ∧ (size + 3) / 4 * 4 + 8 < 4294967296
  | .free place, pair => ∃ entry ∈ pair.live, entry.1 = place
  | .store place _, pair => pair.owns place

def Agrees (fuel : Nat) : HeapOp → FirstFitPair → Prop
  | .malloc size, pair => ∃ ptr eager ptr' lazy,
      pair.eager.hfMalloc fuel size = some (ptr, eager) ∧
      pair.lazy.hfMalloc fuel size = some (ptr', lazy) ∧
      offset pair.eager.krnlHeap ptr = offset pair.lazy.firstFree ptr' ∧
      eager.krnlFree = lazy.krnlFree
  | .free place, pair => ∃ eager,
      pair.eager.hfFree fuel (pair.eager.krnlHeap + place) = some eager ∧
      eager.krnlFree = (pair.lazy.hfFree (pair.lazy.firstFree + place)).krnlFree
  | .store _ _, _ => True

def Interchangeable {len : Nat} (eager lazy : Arena len) : Prop :=
  ∀ fuel memory memory' pair op, len ≤ fuel →
    Reaches (step fuel) allowed (start eager lazy memory memory') pair → allowed op pair →
    Agrees fuel op pair

open Heap

structure Paired (region region' : Region) (pair : FirstFitPair) (front back : List Block) :
    Prop where
  eager : FfHeap.Eager region pair.eager front back
  lazy : Lazy region' pair.lazy front back
  counted : pair.eager.krnlFree = pair.lazy.krnlFree
  live : Matches pair.live (usedAt 0 (front ++ back))

variable {region region' : Region} {pair : FirstFitPair} {front back : List Block} {fuel : Nat}

theorem offset_add (base place : Nat) : offset base (base + place + 8) = some (place + 8) := by
  rw [offset, if_neg (by omega)]
  congr 1
  omega

theorem Paired.malloc (paired : Paired region region' pair front back) {size : Nat}
    (admitted : allowed (.malloc size) pair) (enough : region.len ≤ fuel)
    (enough' : region'.len ≤ fuel) :
    Agrees fuel (.malloc size) pair ∧ ∃ next front' back',
      step fuel (.malloc size) pair = .ok next ∧ Paired region region' next front' back' := by
  obtain ⟨positive, small⟩ := admitted
  have wanted := HeapWorld.align4_eq small
  rw [← wanted] at small
  obtain ⟨lazy', full, laidLazy, _, freeLazy, passed⟩ |
    ⟨lazy', skipped, len, rest, rfl, passed, room, _, found, laidLazy, _, freeLazy⟩ :=
    paired.lazy.hfMalloc small enough'
  · have fails := paired.eager.hfMalloc_full small (by omega) enough passed
    refine ⟨⟨0, pair.eager, 0, lazy', fails, full, rfl, paired.counted.trans freeLazy.symm⟩,
      ⟨pair.eager, lazy', pair.live⟩, front, back, ?_, paired.eager, laidLazy,
      paired.counted.trans freeLazy.symm, paired.live⟩
    simp only [step, fails, full]
    rfl
  · obtain ⟨eager', taken, laidEager, freeEager⟩ :=
      paired.eager.hfMalloc_room small enough passed room
    have sameFree : eager'.krnlFree = lazy'.krnlFree := by
      rw [freeEager, freeLazy, paired.counted]
    have sameOffset := (offset_add region.base (spans (front ++ skipped))).trans
      (offset_add region'.base (spans (front ++ skipped))).symm
    rw [← paired.eager.start, ← paired.lazy.base] at sameOffset
    refine ⟨⟨_, eager', _, lazy', taken, found, ?_, sameFree⟩,
      ⟨eager', lazy', (spans (front ++ skipped) + 8, size) :: pair.live⟩, front ++ skipped, _, ?_,
      laidEager, laidLazy, sameFree, ?_⟩
    · rw [paired.eager.start, paired.lazy.base] at sameOffset ⊢
      exact sameOffset
    · simp only [step, taken, found]
      rw [paired.lazy.base, offset_add]
    · have live := paired.live
      have regroup : front ++ (skipped ++ ⟨false, len⟩ :: rest) =
          (front ++ skipped) ++ ⟨false, len⟩ :: rest := by simp
      rw [regroup, usedAt_append, Nat.zero_add] at live
      rw [usedAt_append, Nat.zero_add]
      simp only [usedAt, Bool.false_eq_true, if_false, if_true] at live ⊢
      have same : spans (front ++ skipped) + 8 + align4 size + 8 + (len - align4 size - 8) =
          spans (front ++ skipped) + 8 + len := by omega
      rw [same]
      exact live.insert

theorem Paired.free (paired : Paired region region' pair front back) {place : Nat}
    (admitted : allowed (.free place) pair) (enough : region.len ≤ fuel) :
    Agrees fuel (.free place) pair ∧ ∃ next front' back',
      step fuel (.free place) pair = .ok next ∧ Paired region region' next front' back' := by
  obtain ⟨header, length, rfl, used, erased⟩ := paired.live.erase admitted
  obtain ⟨before, len, after, stands, pointer⟩ := mem_usedAt_split used
  rw [Nat.zero_add, Prod.mk.injEq] at pointer
  obtain ⟨rfl, rfl⟩ := pointer
  rw [List.singleton_append] at stands
  obtain ⟨eager', freed, laidEager, freeEager⟩ := paired.eager.hfFree stands enough
  obtain ⟨laidLazy, freeLazy⟩ := paired.lazy.hfFree stands
  have sameFree : eager'.krnlFree =
      (pair.lazy.hfFree (region'.base + spans before + 8)).krnlFree := by
    rw [freeEager, freeLazy, paired.counted]
  rw [Nat.add_assoc, ← paired.eager.start] at freed
  rw [Nat.add_assoc, ← paired.lazy.base] at laidLazy sameFree
  refine ⟨⟨eager', freed, sameFree⟩,
    ⟨eager', pair.lazy.hfFree (pair.lazy.firstFree + (spans before + 8)),
      pair.live.eraseP fun entry => entry.1 = spans before + 8⟩, [], _, ?_, laidEager, laidLazy,
    sameFree, ?_⟩
  · simp only [step, freed]
  · rw [List.nil_append, usedAt_merge, usedAt_append, Nat.zero_add]
    simp only [usedAt, Bool.false_eq_true, if_false]
    apply erased
    rw [stands, usedAt_append, Nat.zero_add]
    simp only [usedAt, if_true]

theorem Paired.store (paired : Paired region region' pair front back) {place : Nat} {value : UInt8}
    (admitted : allowed (.store place value) pair) :
    ∃ next, step fuel (.store place value) pair = .ok next ∧
      Paired region region' next front back := by
  obtain ⟨entry, member, low, high⟩ := admitted
  obtain ⟨header, pointer, used⟩ := paired.live.block member
  obtain ⟨before, len, after, stands, atHeader⟩ := mem_usedAt_split used
  rw [Nat.zero_add, Prod.mk.injEq] at atHeader
  obtain ⟨rfl, width⟩ := atHeader
  rw [List.singleton_append] at stands
  refine ⟨_, rfl, ?_, ?_, paired.counted, paired.live⟩
  · rw [paired.eager.start]
    exact paired.eager.store stands (by omega) (by omega) value
  · rw [paired.lazy.base]
    exact paired.lazy.store stands (by omega) (by omega) value

theorem Paired.start (region region' : Region) (sameLen : region'.len = region.len)
    (memory memory' : Memory) :
    Paired region region' ⟨FfHeap.heapinit memory region.base region.len,
      Heap.heapinit memory' region'.base region'.len, []⟩ [] [⟨false, region.len - 16⟩] := by
  have lazy := Lazy.heapinit region' memory'
  have word := heapinit_size region.headers memory region.base
  have word' := heapinit_size region'.headers memory' region'.base
  rw [sameLen] at lazy word' ⊢
  have counted : (FfHeap.heapinit memory region.base region.len).krnlFree =
      (Heap.heapinit memory' region'.base region.len).krnlFree := word.trans word'.symm
  exact ⟨.heapinit region memory, lazy, counted, List.Perm.nil⟩

theorem interchangeable_of_aligned {len : Nat} (eager lazy : Arena len) (aligned : len % 4 = 0) :
    Interchangeable eager lazy := by
  intro fuel memory memory' pair op enough reached admitted
  have steps : ∀ {state : FirstFitPair} {front back : List Block},
      Paired (eager.region aligned) (lazy.region aligned) state front back → ∀ op,
      allowed op state → Agrees fuel op state ∧ ∃ next front' back', step fuel op state = .ok next ∧
        Paired (eager.region aligned) (lazy.region aligned) next front' back' := by
    intro state front back paired op admitted
    cases op with
    | malloc size => exact paired.malloc admitted enough enough
    | free place => exact paired.free admitted enough
    | store place value =>
        obtain ⟨next, done, kept⟩ := paired.store admitted
        exact ⟨trivial, next, front, back, done, kept⟩
  obtain ⟨front, back, paired⟩ : ∃ front back,
      Paired (eager.region aligned) (lazy.region aligned) pair front back := by
    refine reached.invariant (fun state => ∃ front back,
      Paired (eager.region aligned) (lazy.region aligned) state front back) ?_ ?_
    · exact ⟨[], _, .start (eager.region aligned) (lazy.region aligned) rfl memory memory'⟩
    · rintro op before after ⟨front, back, paired⟩ admitted stepped
      obtain ⟨_, next, front', back', done, kept⟩ := steps paired op admitted
      rw [done] at stepped
      cases stepped
      exact ⟨front', back', kept⟩
  exact (steps paired op admitted).1

end FirstFitPair

section Misaligned

open Heap

structure Bare {len : Nat} (arena : Arena len) (memory : Memory) (word : Nat) : Prop where
  link : next memory arena.base = arena.sentinel
  word : size memory arena.base = word
  lastNext : next memory arena.sentinel = 0
  lastSize : size memory arena.sentinel = 0

variable {len word : Nat} {arena : Arena len} {memory : Memory}

theorem Bare.heapinit (arena : Arena len) (apart : 16 < len) (misaligned : len % 4 ≠ 0)
    (memory : Memory) :
    Bare arena (Heap.heapinit memory arena.base len).memory (len / 4 * 4 - 12) := by
  have positive := arena.positive
  have addressable := arena.addressable
  have rounded : wrap32 (align4 len + 4294967296 - 16) = len / 4 * 4 - 12 := by
    unfold wrap32 align4 wrap32
    omega
  have stored := heapinit_size arena.headers memory arena.base
  rw [rounded] at stored
  refine ⟨?_, stored, ?_, ?_⟩
  · simp only [Heap.heapinit, Arena.sentinel]
    rw [next_setSize_apart _ (by omega), next_setNext_apart _ (by omega), next_setSize,
      next_setNext _ (by omega)]
  · simp only [Heap.heapinit, Arena.sentinel]
    rw [next_setSize, next_setNext _ (by omega)]
  · simp only [Heap.heapinit, Arena.sentinel]
    rw [size_setSize _ (by omega)]

theorem Bare.firstFit_fails (bare : Bare arena memory word) (wanted fuel : Nat)
    (small : wanted + 8 < 4294967296) (positive : 0 < wanted) (short : word < wanted + 8)
    (enough : 2 ≤ fuel) : FfHeap.firstFit wanted memory fuel arena.base = some none := by
  obtain ⟨fuel, rfl⟩ : ∃ less, fuel = less + 2 := ⟨fuel - 2, by omega⟩
  have headers := arena.headers
  have based := arena.positive
  have wide : wrap32 (wanted + 8) = wanted + 8 := Nat.mod_eq_of_lt small
  have nonzero : arena.sentinel ≠ 0 := by
    unfold Arena.sentinel
    omega
  rw [FfHeap.firstFit, bare.word, bare.link, wide, if_pos (Or.inl short),
    if_neg fun last => nonzero last.1, FfHeap.firstFit, bare.lastSize, bare.lastNext, wide,
    if_pos (Or.inl (by omega)), if_pos ⟨rfl, positive⟩]

theorem Bare.search_fails (bare : Bare arena memory word) (apart : 16 < len)
    (free : marked word = false) (wanted fuel : Nat) (small : wanted + 8 < 4294967296)
    (short : len - 16 < wanted + 8) (enough : 3 ≤ fuel) :
    ∃ memory', search wanted fuel arena.base arena.base memory = some (arena.sentinel, memory') ∧
      Bare arena memory' (len - 16) := by
  obtain ⟨fuel, rfl⟩ : ∃ less, fuel = less + 3 := ⟨fuel - 3, by omega⟩
  have addressable := arena.addressable
  have based := arena.positive
  have wide : wrap32 (wanted + 8) = wanted + 8 := Nat.mod_eq_of_lt small
  have nonzero : arena.sentinel ≠ 0 := by
    unfold Arena.sentinel
    omega
  have width : wrap32 (arena.sentinel + 4294967296 - arena.base - 8) = len - 16 := by
    unfold wrap32 Arena.sentinel
    omega
  have passed : skipUsed memory (fuel + 2) arena.base arena.base = some (arena.base, arena.base) := by
    rw [skipUsed, bare.word, free, if_neg (by simp)]
  have stopped : skipFree memory (fuel + 2) arena.base = some arena.sentinel := by
    rw [skipFree, bare.word, bare.link, if_pos ⟨free, nonzero⟩, skipFree, bare.lastNext,
      if_neg fun both => both.2 rfl]
  have joined : Bare arena (coalesce memory arena.sentinel arena.base) (len - 16) := by
    refine ⟨?_, ?_, ?_, ?_⟩
    · rw [coalesce, next_setNext _ (by unfold Arena.sentinel; omega)]
    · rw [size_coalesce, width]
    · rw [coalesce, next_setNext_apart _ (by unfold Arena.sentinel; omega),
        next_setSize_apart _ (by unfold Arena.sentinel; omega), bare.lastNext]
    · rw [coalesce, size_setNext_apart _ (by unfold Arena.sentinel; omega),
        size_setSize_apart _ (by unfold Arena.sentinel; omega), bare.lastSize]
  refine ⟨_, ?_, joined⟩
  rw [search, bare.link, if_neg nonzero, passed]
  simp only [stopped, if_pos nonzero, joined.word]
  rw [wide, if_neg (by omega), search, joined.lastNext, if_pos rfl]

theorem Bare.search_sentinel (bare : Bare arena memory word) (used : marked word = true)
    (wanted fuel : Nat) (small : wanted + 16 < 4294967296) (enough : 3 ≤ fuel) :
    ∃ memory', search wanted fuel arena.base arena.base memory = some (arena.sentinel, memory') ∧
      next memory' arena.sentinel ≠ 0 := by
  obtain ⟨fuel, rfl⟩ : ∃ less, fuel = less + 3 := ⟨fuel - 3, by omega⟩
  have addressable := arena.addressable
  have headers := arena.headers
  have based := arena.positive
  have wide : wrap32 (wanted + 8) = wanted + 8 := Nat.mod_eq_of_lt (by omega)
  have nonzero : arena.sentinel ≠ 0 := by
    unfold Arena.sentinel
    omega
  have width : wrap32 (arena.sentinel + 4294967296 - arena.sentinel - 8) = 4294967288 := by
    unfold wrap32
    omega
  have free : marked 0 = false := rfl
  have passed : skipUsed memory (fuel + 2) arena.base arena.base =
      some (arena.sentinel, arena.sentinel) := by
    rw [skipUsed, bare.word, if_pos used, bare.link, skipUsed, bare.lastSize, free,
      if_neg (by simp)]
  have stopped : skipFree memory (fuel + 2) arena.sentinel = some arena.sentinel := by
    rw [skipFree, bare.lastNext, if_neg fun both => both.2 rfl]
  refine ⟨coalesce memory arena.sentinel arena.sentinel, ?_, ?_⟩
  · rw [search, bare.link, if_neg nonzero, passed]
    simp only [stopped, if_pos nonzero]
    rw [wide, if_pos]
    rw [size_coalesce, width]
    omega
  · rw [coalesce, next_setNext _ (by unfold Arena.sentinel; omega)]
    exact nonzero

end Misaligned

namespace FirstFitPair

open Heap

structure Unsplit {len : Nat} (eager lazy : Arena len) (pair : FirstFitPair) (word : Nat) :
    Prop where
  krnlHeap : pair.eager.krnlHeap = eager.base
  ff : pair.eager.ff = eager.base
  firstFree : pair.lazy.firstFree = lazy.base
  lastFree : pair.lazy.lastFree = lazy.base
  eagerBare : Bare eager pair.eager.memory (len / 4 * 4 - 12)
  lazyBare : Bare lazy pair.lazy.memory word
  counted : pair.eager.krnlFree = pair.lazy.krnlFree
  live : pair.live = []

variable {len word fuel : Nat} {eager lazy : Arena len} {pair : FirstFitPair}

theorem Unsplit.start (eager lazy : Arena len) (apart : 16 < len) (misaligned : len % 4 ≠ 0)
    (memory memory' : Memory) :
    Unsplit eager lazy (start eager lazy memory memory') (len / 4 * 4 - 12) :=
  ⟨rfl, rfl, rfl, rfl, .heapinit eager apart misaligned memory,
    .heapinit lazy apart misaligned memory',
    (heapinit_size eager.headers memory eager.base).trans
      (heapinit_size lazy.headers memory' lazy.base).symm, rfl⟩

theorem Unsplit.malloc (unsplit : Unsplit eager lazy pair word) (apart : 16 < len) (short : len < 24)
    (free : marked word = false) (size : Nat) (admitted : allowed (.malloc size) pair)
    (enough : len ≤ fuel) :
    Agrees fuel (.malloc size) pair ∧
      ∃ next, step fuel (.malloc size) pair = .ok next ∧ Unsplit eager lazy next (len - 16) := by
  obtain ⟨positive, small⟩ := admitted
  have wanted := HeapWorld.align4_eq small
  rw [← wanted] at small
  have none := unsplit.eagerBare.firstFit_fails (align4 size) fuel small (by omega) (by omega) (by omega)
  obtain ⟨memory', found, bare⟩ := unsplit.lazyBare.search_fails apart free (align4 size)
    fuel small (by omega) (by omega)
  rw [← unsplit.ff] at none
  rw [← unsplit.lastFree] at found
  have fails : pair.eager.hfMalloc fuel size = some (0, pair.eager) := by
    simp only [FfHeap.hfMalloc, none]
  have full : pair.lazy.hfMalloc fuel size = some (0, { pair.lazy with memory := memory' }) := by
    simp only [Heap.hfMalloc, found, bare.lastNext, if_true]
  refine ⟨⟨_, _, _, _, fails, full, rfl, unsplit.counted⟩,
    { pair with lazy := { pair.lazy with memory := memory' } }, ?_, unsplit.krnlHeap, unsplit.ff,
    unsplit.firstFree, unsplit.lastFree, unsplit.eagerBare, bare, unsplit.counted, unsplit.live⟩
  simp only [step, fails, full]
  rfl

theorem Unsplit.disagrees (unsplit : Unsplit eager lazy pair (len - 16)) (apart : 16 < len)
    (short : len < 24) (odd : len % 2 = 1) (enough : len ≤ fuel) :
    ¬ Agrees fuel (.malloc 1) pair := by
  rintro ⟨ptr, eager', ptr', lazy', taken, found, same, _⟩
  have addressable := lazy.addressable
  have fails := unsplit.eagerBare.firstFit_fails 4 fuel (by decide) (by decide)
    (by omega) (by omega)
  obtain ⟨memory', last, looped⟩ := unsplit.lazyBare.search_sentinel
    (by simp only [marked, decide_eq_true_eq]; omega) 4 fuel (by decide) (by omega)
  rw [← unsplit.ff] at fails
  rw [← unsplit.lastFree] at last
  have word : align4 1 = 4 := rfl
  have behind : wrap32 (lazy.sentinel + 8) = lazy.base + len := by
    unfold wrap32 Arena.sentinel
    omega
  simp only [FfHeap.hfMalloc, word, fails, Option.some.injEq, Prod.mk.injEq] at taken
  simp only [Heap.hfMalloc, word, last, if_neg looped, behind, Option.some.injEq,
    Prod.mk.injEq] at found
  rw [← taken.1, ← found.1, offset, offset, if_pos rfl, if_neg (by omega)] at same
  cases same

/-- On a heap of 25 or more bytes the longest request that `MEM_ALLOC` 2 grants is refused by
`MEM_ALLOC` 3. -/
theorem Unsplit.disagrees_long (unsplit : Unsplit eager lazy pair (len / 4 * 4 - 12))
    (long : 25 ≤ len) (enough : len ≤ fuel) :
    ¬ Agrees fuel (.malloc (len / 4 * 4 - 20)) pair := by
  rintro ⟨ptr, eager', ptr', lazy', taken, found, same, _⟩
  have addressable := lazy.addressable
  have addressable' := eager.addressable
  have positive := eager.positive
  have word : align4 (len / 4 * 4 - 20) = len / 4 * 4 - 20 := by
    unfold align4 wrap32
    omega
  have free : marked (len / 4 * 4 - 12) = false := by
    simp only [marked, decide_eq_false_iff_not]
    omega
  have fits : FfHeap.firstFit (len / 4 * 4 - 20) pair.eager.memory fuel pair.eager.ff =
      some (some eager.base) := by
    obtain ⟨fuel, rfl⟩ : ∃ less, fuel = less + 1 := ⟨fuel - 1, by omega⟩
    rw [unsplit.ff, FfHeap.firstFit, unsplit.eagerBare.word, free, if_neg]
    unfold wrap32
    simp only [Bool.false_eq_true, or_false]
    omega
  obtain ⟨memory', last, bare⟩ := unsplit.lazyBare.search_fails (by omega) free
    (len / 4 * 4 - 20) fuel (by omega) (by omega) (by omega)
  rw [← unsplit.lastFree] at last
  have pointer : wrap32 (eager.base + 8) = eager.base + 8 := Nat.mod_eq_of_lt (by omega)
  simp only [FfHeap.hfMalloc, word, fits, pointer, Option.some.injEq, Prod.mk.injEq] at taken
  simp only [Heap.hfMalloc, word, last, bare.lastNext, if_true, Option.some.injEq,
    Prod.mk.injEq] at found
  rw [← taken.1, ← found.1, offset, offset, if_pos rfl, if_neg (by omega)] at same
  cases same

theorem interchangeable_of_never (eager lazy : Arena len) (apart : 16 < len) (short : len < 24)
    (misaligned : len % 4 ≠ 0) (even : len % 2 = 0) : Interchangeable eager lazy := by
  intro fuel memory memory' pair op enough reached admitted
  have free : ∀ {word}, word % 2 = 0 → marked word = false := by
    intro word isEven
    simp only [marked, decide_eq_false_iff_not]
    omega
  obtain ⟨word, isEven, unsplit⟩ : ∃ word, word % 2 = 0 ∧ Unsplit eager lazy pair word := by
    refine reached.invariant (fun state => ∃ word, word % 2 = 0 ∧ Unsplit eager lazy state word) ?_ ?_
    · exact ⟨_, by omega, .start eager lazy apart misaligned memory memory'⟩
    · rintro op before after ⟨word, isEven, unsplit⟩ admitted stepped
      cases op with
      | malloc size =>
          obtain ⟨_, next, done, kept⟩ := unsplit.malloc apart short (free isEven) size admitted enough
          rw [done] at stepped
          cases stepped
          exact ⟨len - 16, by omega, kept⟩
      | free place =>
          obtain ⟨entry, member, _⟩ := admitted
          simp [unsplit.live] at member
      | store place value =>
          obtain ⟨entry, member, _⟩ := admitted
          simp [unsplit.live] at member
  cases op with
  | malloc size => exact (unsplit.malloc apart short (free isEven) size admitted enough).1
  | free place =>
      obtain ⟨entry, member, _⟩ := admitted
      simp [unsplit.live] at member
  | store place value => trivial

/-- The two first-fit allocators agree on every sequence of calls exactly on the heaps whose
length is a multiple of four and on two that are too short for any block. -/
theorem first_fit_interchangeable (eager lazy : Arena len) :
    Interchangeable eager lazy ↔ len % 4 = 0 ∨ len = 18 ∨ len = 22 := by
  have headers := eager.headers
  have zero : Memory := fun _ => 0
  constructor
  · intro same
    by_contra other
    have unsplit := Unsplit.start eager lazy (by omega) (by omega) zero zero
    by_cases long : 25 ≤ len
    · have addressable := eager.addressable
      have admitted : allowed (.malloc (len / 4 * 4 - 20)) (start eager lazy zero zero) :=
        ⟨by omega, by omega⟩
      exact unsplit.disagrees_long long (Nat.le_refl _)
        (same len zero zero _ _ (Nat.le_refl _) .start admitted)
    · have admitted : ∀ state, allowed (.malloc 1) state := fun _ => ⟨by decide, by decide⟩
      obtain ⟨_, next, done, kept⟩ := unsplit.malloc (by omega) (by omega)
        (by simp only [marked, decide_eq_false_iff_not]; omega) 1 (admitted _) (Nat.le_refl len)
      exact kept.disagrees (by omega) (by omega) (by omega) (Nat.le_refl _)
        (same len zero zero next _ (Nat.le_refl _) (.next .start (admitted _) done) (admitted next))
  · rintro (aligned | short)
    · exact interchangeable_of_aligned eager lazy aligned
    · exact interchangeable_of_never eager lazy (by omega) (by omega) (by omega) (by omega)

def oddArena : Arena 25 := ⟨256, Nat.succ_pos 255, by decide, by decide⟩

/-- On a heap of 25 bytes the first call of `hf_malloc` for 4 bytes gives offset 8 in
`MEM_ALLOC` 2 and NULL in `MEM_ALLOC` 3. -/
theorem first_fit_differs_at_25 :
    ((FfHeap.heapinit (fun _ => 0) 256 25).hfMalloc 25 4).map Prod.fst = some 264 ∧
      ((Heap.heapinit (fun _ => 0) 256 25).hfMalloc 25 4).map Prod.fst = some 0 ∧
      ¬ Interchangeable oddArena oddArena := by
  refine ⟨by decide, by decide, fun same => ?_⟩
  have unsplit := Unsplit.start oddArena oddArena (by decide) (by decide) (fun _ => 0) fun _ => 0
  exact unsplit.disagrees_long (by decide) (Nat.le_refl 25)
    (same 25 _ _ _ _ (Nat.le_refl 25) .start ⟨by decide, by decide⟩)

end FirstFitPair

end Hellfire

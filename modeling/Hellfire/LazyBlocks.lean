import Hellfire.Malloc

/-!
The block list of the `MEM_ALLOC` 3 heap with its runs of free blocks merged. A call of
`hf_malloc` takes the first merged block that fits.
-/

namespace Hellfire

open ByteMemory MergeRuns

namespace Heap

variable {region : Region} {heap : Heap} {front back : List Block}

theorem split_unique {first first' : Block} : ∀ {front front' back back' : List Block},
    front ++ first :: back = front' ++ first' :: back' → spans front = spans front' →
      front = front' ∧ first = first' ∧ back = back' := by
  intro front
  induction front with
  | nil =>
      intro front' back back' same width
      cases front' with
      | nil =>
          simp only [List.nil_append, List.cons.injEq] at same
          exact ⟨rfl, same⟩
      | cons block front' =>
          simp only [spans] at width
          omega
  | cons block front ih =>
      intro front' back back' same width
      cases front' with
      | nil =>
          simp only [spans] at width
          omega
      | cons block' front' =>
          simp only [List.cons_append, List.cons.injEq] at same
          obtain ⟨rfl, rest⟩ := same
          simp only [spans] at width
          obtain ⟨rfl, others⟩ := ih rest (by omega)
          exact ⟨rfl, others⟩

theorem merge_border {before after : List Block} (border : before = [] ∨ Starts joining after) :
    merge joining (before ++ after) = merge joining before ++ merge joining after := by
  rcases border with rfl | fromUsed
  · rfl
  · exact merge_append_starts _ fromUsed

theorem merge_split {blocks before after : List Block} {len : Nat}
    (stands : merge joining blocks = before ++ ⟨true, len⟩ :: after) :
    ∃ front back, blocks = front ++ ([⟨true, len⟩] ++ back) ∧ spans front = spans before ∧
      merge joining front = before ∧ merge joining back = after := by
  have member : (spans before, len) ∈ usedAt 0 blocks := by
    rw [← usedAt_merge, stands, usedAt_append, Nat.zero_add]
    simp [usedAt]
  obtain ⟨front, length, back, same, place⟩ := mem_usedAt_split member
  rw [Nat.zero_add, Prod.mk.injEq] at place
  obtain ⟨width, rfl⟩ := place
  have merged : merge joining blocks =
      merge joining front ++ ⟨true, len⟩ :: merge joining back := by
    rw [same, List.singleton_append, merge_append_starts _ (starts_used len back), merge_fixed rfl]
  obtain ⟨sameFront, _, sameBack⟩ := split_unique (merged.symm.trans stands)
    (by rw [spans_merge, width])
  exact ⟨front, back, same, width.symm, sameFront, sameBack⟩

/-- The heap structure of `MEM_ALLOC` 3 between two calls, as the merged lists of the blocks
before and behind `last_free`. -/
structure Lazy (region : Region) (heap : Heap) (front back : List Block) : Prop where
  base : heap.firstFree = region.base
  split : ∃ before after, Tiled region heap.memory (before ++ after) ∧ EndsFree after ∧
    heap.lastFree = region.base + spans before ∧ (before = [] ∨ Starts joining after) ∧
    merge joining before = front ∧ merge joining after = back

/-- The search of `hf_malloc` has stopped at a run of `len` bytes behind the blocks `skipped`. -/
structure Hole (region : Region) (need : Nat) (front back : List Block) (memory memory' : Memory)
    (before skipped : List Block) (len : Nat) (rest : List Block) : Prop where
  seen : merge joining before = front
  split : back = merge joining skipped ++ ⟨false, len⟩ :: merge joining rest
  passed : ∀ block ∈ merge joining skipped, TooSmall need block
  room : need ≤ len
  tiled : Tiled region memory' ((before ++ skipped) ++ ([⟨false, len⟩] ++ rest))
  ends : rest = [] ∨ EndsFree rest
  merged : merge joining (before ++ skipped) = merge joining before ++ merge joining skipped
  border : rest = [] ∨ Starts joining rest
  keeps : KeepsUsed region (front ++ back) memory memory'

theorem Lazy.search (lazy : Lazy region heap front back) {fuel wanted need : Nat}
    (asks : wrap32 (wanted + 8) = need) (enough : region.len ≤ fuel) :
    (∃ memory', search wanted fuel heap.lastFree heap.lastFree heap.memory =
          some (region.sentinel, memory') ∧ next memory' region.sentinel = 0 ∧
        Lazy region { heap with memory := memory' } front back ∧
        KeepsUsed region (front ++ back) heap.memory memory' ∧
        ∀ block ∈ back, TooSmall need block) ∨
      ∃ memory' before skipped len rest, search wanted fuel heap.lastFree heap.lastFree heap.memory =
          some (region.base + spans (before ++ skipped), memory') ∧
        next memory' (region.base + spans (before ++ skipped)) ≠ 0 ∧
        Hole region need front back heap.memory memory' before skipped len rest := by
  obtain ⟨before, after, tiled, ends, position, border, rfl, rfl⟩ := lazy.split
  have short := length_le_spans (before ++ after)
  have total := tiled.total
  have headers := region.headers
  rw [List.length_append] at short
  unfold Region.sentinel at total
  obtain ⟨p, memory', after', found, fitted⟩ := search_fits asks after.length after
    (Nat.le_refl _) before heap.memory heap.lastFree fuel tiled ends (fun _ _ _ => position)
    (by omega)
  rw [← position] at found
  have keeps : KeepsUsed region (merge joining before ++ merge joining after) heap.memory memory' := by
    rw [← merge_border border]
    unfold KeepsUsed
    rw [usedAt_merge]
    exact fitted.keeps
  rcases fitted.found with ⟨last, passed⟩ |
    ⟨skipped, len, rest, same, stands, room, passed, merged, restBorder, starts⟩
  · rw [last] at found
    refine Or.inl ⟨memory', found, fitted.tiled.lastNext, ⟨lazy.base, before, after', fitted.tiled,
      fitted.ends, position, ?_, rfl, fitted.merged⟩, keeps, passed⟩
    refine border.imp id fun starts => starts_of_merge ?_
    rw [fitted.merged]
    exact merge_starts starts
  · subst same
    have regroup : before ++ (skipped ++ ⟨false, len⟩ :: rest) =
        (before ++ skipped) ++ ([⟨false, len⟩] ++ rest) := by simp
    have atBlock : region.base + spans before + spans skipped =
        region.base + spans (before ++ skipped) := by rw [spans_append, Nat.add_assoc]
    have tiled' := fitted.tiled
    rw [regroup] at tiled'
    rw [stands, atBlock] at found
    refine Or.inr ⟨memory', before, skipped, len, rest, found, tiled'.next_ne_zero (by simp), rfl, ?_,
      passed, room, tiled', ?_, ?_, restBorder, keeps⟩
    · rw [← fitted.merged, merged]
    · have ends' := fitted.ends
      by_cases final : rest = []
      · exact Or.inl final
      · rw [← List.singleton_append, ← List.append_assoc] at ends'
        exact Or.inr (ends'.tail final)
    · rcases border with rfl | fromUsed
      · rfl
      · exact merge_append_starts _ (starts fromUsed)

section Holes

variable {need len : Nat} {memory memory' : Memory} {before skipped rest : List Block}

theorem Hole.spans (hole : Hole region need front back memory memory' before skipped len rest) :
    spans (before ++ skipped) = Heap.spans (front ++ merge joining skipped) := by
  rw [spans_append, spans_append, spans_merge, ← hole.seen, spans_merge]

theorem Hole.usedAt (hole : Hole region need front back memory memory' before skipped len rest) :
    usedAt region.base ((before ++ skipped) ++ ([⟨false, len⟩] ++ rest)) =
      Heap.usedAt region.base (front ++ back) := by
  have same : Heap.usedAt region.base (before ++ skipped) =
      Heap.usedAt region.base (front ++ merge joining skipped) := by
    rw [← usedAt_merge (before ++ skipped), hole.merged, hole.seen]
  rw [hole.split, ← List.append_assoc front, usedAt_append, same, usedAt_append _ (_ :: _),
    hole.spans, List.singleton_append]
  simp only [Heap.usedAt, Bool.false_eq_true, if_false, usedAt_merge]

theorem Hole.inside (hole : Hole region need front back memory memory' before skipped len rest) :
    region.base + Heap.spans (before ++ skipped) + 8 + len ≤ region.sentinel ∧
      region.sentinel + 8 ≤ 4294967296 := by
  have total := hole.tiled.total
  have addressable := region.addressable
  have headers := region.headers
  rw [spans_append (before ++ skipped)] at total
  simp only [List.singleton_append, Heap.spans] at total
  unfold Region.sentinel at total ⊢
  omega

end Holes

theorem Lazy.hfMalloc (lazy : Lazy region heap front back) {fuel size : Nat}
    (small : align4 size + 8 < 4294967296) (enough : region.len ≤ fuel) :
    (∃ heap', heap.hfMalloc fuel size = some (0, heap') ∧ Lazy region heap' front back ∧
        KeepsUsed region (front ++ back) heap.memory heap'.memory ∧
        heap'.krnlFree = heap.krnlFree ∧ ∀ block ∈ back, TooSmall (align4 size + 8) block) ∨
      ∃ heap' skipped len rest, back = skipped ++ ⟨false, len⟩ :: rest ∧
        (∀ block ∈ skipped, TooSmall (align4 size + 8) block) ∧ align4 size + 8 ≤ len ∧
        region.base + spans (front ++ skipped) + 8 < 4294967296 ∧
        heap.hfMalloc fuel size = some (region.base + spans (front ++ skipped) + 8, heap') ∧
        Lazy region heap' (front ++ skipped)
          (⟨true, align4 size⟩ :: ⟨false, len - align4 size - 8⟩ :: rest) ∧
        KeepsUsed region (front ++ back) heap.memory heap'.memory ∧
        heap'.krnlFree = wrap32 (heap.krnlFree + 4294967296 - wrap32 (align4 size + 8)) := by
  rcases lazy.search (Nat.mod_eq_of_lt small) enough with ⟨memory', found, last, kept, keeps, passed⟩ |
    ⟨memory', before, skipped, len, rest, found, more, hole⟩
  · refine Or.inl ⟨{ heap with memory := memory' }, ?_, kept, keeps, rfl, passed⟩
    simp only [Heap.hfMalloc, found, last, if_true]
  · have aligned : align4 size % 4 = 0 := by
      unfold align4
      omega
    let searched : Heap := { heap with memory := memory' }
    have placed : Tiled region searched.memory ((before ++ skipped) ++ ([⟨false, len⟩] ++ rest)) :=
      hole.tiled
    obtain ⟨split, placeKeeps⟩ := placed.place aligned hole.room
    have inside := hole.inside
    have pointer : wrap32 (region.base + spans (before ++ skipped) + 8) =
        region.base + spans (before ++ skipped) + 8 := Nat.mod_eq_of_lt (by omega)
    refine Or.inr ⟨searched.place (align4 size) (region.base + spans (before ++ skipped)),
      merge joining skipped, len, merge joining rest, hole.split, hole.passed, hole.room, ?_, ?_,
      ⟨lazy.base, before ++ skipped, ⟨true, align4 size⟩ :: ⟨false, len - align4 size - 8⟩ :: rest,
        split, ?_, rfl, Or.inr (starts_used _ _), ?_, ?_⟩, hole.keeps.trans placeKeeps ?_, rfl⟩
    · rw [← hole.spans]
      omega
    · rw [← hole.spans]
      simp only [Heap.hfMalloc, found, more, if_false, pointer]
      rfl
    · rcases hole.ends with rfl | ends
      · exact ⟨[⟨true, align4 size⟩], len - align4 size - 8, rfl⟩
      · exact ends.append [_, _]
    · rw [hole.merged, hole.seen]
    · have alone : merge joining (⟨false, len - align4 size - 8⟩ :: rest) =
          ⟨false, len - align4 size - 8⟩ :: merge joining rest := by
        rcases hole.border with rfl | fromUsed
        · rfl
        · exact merge_append_starts [_] fromUsed
      rw [merge_fixed rfl, alone]
    · exact hole.usedAt

theorem Lazy.hfFree {before after : List Block} {len : Nat} (lazy : Lazy region heap front back)
    (stands : front ++ back = before ++ ⟨true, len⟩ :: after) :
    Lazy region (heap.hfFree (region.base + spans before + 8)) []
        (merge joining (before ++ ⟨false, len⟩ :: after)) ∧
      (heap.hfFree (region.base + spans before + 8)).krnlFree =
        wrap32 (heap.krnlFree + len + 8) := by
  obtain ⟨first, rest, tiled, ends, position, border, rfl, rfl⟩ := lazy.split
  rw [← merge_border border] at stands
  obtain ⟨front, back, same, width, rfl, rfl⟩ := merge_split stands
  have wholeEnds := ends.append first
  rw [same] at tiled wholeEnds
  obtain ⟨freed, counted, _⟩ := tiled.hfFree
  rw [spans_merge]
  refine ⟨⟨lazy.base, [], front ++ ([⟨false, len⟩] ++ back), freed, ?_, ?_, Or.inl rfl, rfl, ?_⟩,
    counted⟩
  · by_cases final : back = []
    · exact ⟨front, len, by simp [final]⟩
    · rw [← List.append_assoc] at wholeEnds
      exact ((wholeEnds.tail final).append _).append _
  · rw [spans, Nat.add_zero, ← lazy.base]
    rfl
  · exact merge_append_congr (merge_merge front).symm (merge_append_merge [_] back).symm

theorem Lazy.heapinit (region : Region) (memory : Memory) :
    Lazy region (heapinit memory region.base region.len) [] [⟨false, region.len - 16⟩] :=
  ⟨rfl, [], [⟨false, region.len - 16⟩], .heapinit region memory, ⟨[], _, rfl⟩, rfl, Or.inl rfl,
    rfl, rfl⟩

theorem Lazy.fill {before after : List Block} {len : Nat} {memory : Memory}
    (lazy : Lazy region heap front back) (stands : front ++ back = before ++ ⟨true, len⟩ :: after)
    (same : ∀ place, place < region.base + spans before + 8 ∨
      region.base + spans before + 8 + len ≤ place → memory place = heap.memory place) :
    Lazy region { heap with memory := memory } front back := by
  obtain ⟨first, rest, tiled, ends, position, border, rfl, rfl⟩ := lazy.split
  rw [← merge_border border] at stands
  obtain ⟨start, others, split, width, _⟩ := merge_split stands
  refine ⟨lazy.base, first, rest, ?_, ends, position, border, rfl, rfl⟩
  rw [split] at tiled ⊢
  rw [← width] at same
  exact tiled.fill same

theorem Lazy.store {before after : List Block} {len address : Nat}
    (lazy : Lazy region heap front back) (stands : front ++ back = before ++ ⟨true, len⟩ :: after)
    (low : region.base + spans before + 8 ≤ address)
    (high : address < region.base + spans before + 8 + len) (value : UInt8) :
    Lazy region { heap with memory := Function.update heap.memory address value } front back :=
  lazy.fill stands fun _ outside => Function.update_of_ne (by omega) _ _

end Heap

end Hellfire

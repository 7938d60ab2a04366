import Mathlib.Data.List.Basic
import Hellfire.Library.Machine
import Hellfire.MallocBlocks

/-!
Integrity of the heap over every sequence of `hf_malloc` and `hf_free`, with the writes
of the clients into their live allocations between the calls.
-/

namespace Hellfire

open ByteMemory Machine

inductive HeapOp
  | malloc (size : Nat)
  | free (ptr : Nat)
  | store (address : Nat) (value : UInt8)
deriving DecidableEq, Repr

structure HeapWorld where
  heap : Heap
  live : List (Nat × Nat)

namespace HeapWorld

def start (region : Region) (memory : Memory) : HeapWorld :=
  ⟨Heap.heapinit memory region.base region.len, []⟩

def owns (world : HeapWorld) (address : Nat) : Prop :=
  ∃ entry ∈ world.live, entry.1 ≤ address ∧ address < entry.1 + align4 entry.2

def step (fuel : Nat) : HeapOp → HeapWorld → Except Unit HeapWorld
  | .malloc size, world =>
      match world.heap.hfMalloc fuel size with
      | none => .error ()
      | some (ptr, heap) =>
          .ok ⟨heap, if ptr = 0 then world.live else (ptr, size) :: world.live⟩
  | .free ptr, world => .ok ⟨world.heap.hfFree ptr, world.live.eraseP fun entry => entry.1 = ptr⟩
  | .store address value, world =>
      .ok { world with heap := { world.heap with
        memory := Function.update world.heap.memory address value } }

def allowed : HeapOp → HeapWorld → Prop
  | .malloc size, _ => (size + 3) / 4 * 4 + 8 < 4294967296
  | .free ptr, world => ∃ entry ∈ world.live, entry.1 = ptr
  | .store address _, world => world.owns address

end HeapWorld

namespace Heap

def headersAt : Nat → List Block → List Nat
  | _, [] => []
  | p, block :: rest => p :: headersAt (p + 8 + block.len) rest

theorem headersAt_bounds {blocks : List Block} {header : Nat} : ∀ {p},
    header ∈ headersAt p blocks → p ≤ header ∧ header + 8 ≤ p + spans blocks := by
  induction blocks with
  | nil => simp [headersAt]
  | cons block blocks ih =>
      intro p member
      simp only [spans]
      rcases List.mem_cons.mp member with rfl | later
      · omega
      · have := ih later
        omega

theorem usedAt_headers {blocks : List Block} {entry : Nat × Nat} {header : Nat} : ∀ {p},
    entry ∈ usedAt p blocks → header ∈ headersAt p blocks →
      header ≤ entry.1 ∨ entry.1 + 8 + entry.2 ≤ header := by
  induction blocks with
  | nil => simp [usedAt]
  | cons block blocks ih =>
      intro p used member
      simp only [usedAt] at used
      rcases List.mem_cons.mp member with rfl | later
      · left
        split at used
        · rcases List.mem_cons.mp used with rfl | after
          · exact Nat.le_refl _
          · have := usedAt_bounds after
            omega
        · have := usedAt_bounds used
          omega
      · split at used
        · rcases List.mem_cons.mp used with rfl | after
          · right
            have := headersAt_bounds later
            exact this.1
          · exact ih after later
        · exact ih used later

theorem usedAt_header {blocks : List Block} {entry : Nat × Nat} : ∀ {p},
    entry ∈ usedAt p blocks → entry.1 ∈ headersAt p blocks := by
  induction blocks with
  | nil => simp [usedAt]
  | cons block blocks ih =>
      intro p member
      simp only [usedAt] at member
      split at member
      · rcases List.mem_cons.mp member with rfl | later
        · exact List.mem_cons_self
        · exact List.mem_cons_of_mem _ (ih later)
      · exact List.mem_cons_of_mem _ (ih member)

theorem usedAt_apart (blocks : List Block) : ∀ p,
    (usedAt p blocks).Pairwise fun first second => first.1 + 8 + first.2 ≤ second.1 := by
  induction blocks with
  | nil => exact fun _ => List.Pairwise.nil
  | cons block blocks ih =>
      intro p
      simp only [usedAt]
      split
      · refine List.pairwise_cons.mpr ⟨?_, ih _⟩
        intro entry member
        exact (usedAt_bounds member).1
      · exact ih _

theorem mem_usedAt_split {blocks : List Block} {entry : Nat × Nat} : ∀ {p},
    entry ∈ usedAt p blocks → ∃ front len back, blocks = front ++ ([⟨true, len⟩] ++ back) ∧
      entry = (p + spans front, len) := by
  induction blocks with
  | nil => simp [usedAt]
  | cons block blocks ih =>
      intro p member
      obtain ⟨used, length⟩ := block
      have deeper : entry ∈ usedAt (p + 8 + length) blocks →
          ∃ front len back, ⟨used, length⟩ :: blocks = front ++ ([⟨true, len⟩] ++ back) ∧
            entry = (p + spans front, len) := by
        intro later
        obtain ⟨front, len, back, rfl, place⟩ := ih later
        refine ⟨⟨used, length⟩ :: front, len, back, rfl, ?_⟩
        rw [place, spans, Nat.add_assoc, Nat.add_assoc, Nat.add_assoc]
      simp only [usedAt] at member
      split at member
      · rename_i isUsed
        rcases List.mem_cons.mp member with rfl | later
        · exact ⟨[], length, blocks, by simp [isUsed], by simp [spans]⟩
        · exact deeper later
      · exact deeper member

theorem length_le_spans (blocks : List Block) : 8 * blocks.length ≤ spans blocks := by
  induction blocks with
  | nil => exact Nat.le_refl _
  | cons block blocks ih =>
      simp only [List.length_cons, spans]
      omega

variable {region : Region} {heap : Heap} {blocks : List Block}

structure Laid (region : Region) (heap : Heap) (blocks : List Block) : Prop where
  tiled : Tiled region heap.memory blocks
  ends : EndsFree blocks
  first : heap.firstFree = region.base
  last : ∃ front back, blocks = front ++ back ∧ back ≠ [] ∧
    heap.lastFree = region.base + spans front

theorem Laid.heapinit (region : Region) (memory : Memory) :
    Laid region (heapinit memory region.base region.len) [⟨false, region.len - 16⟩] :=
  ⟨.heapinit region memory, ⟨[], _, rfl⟩, rfl, [], _, rfl, by simp, rfl⟩

theorem Laid.length_lt (laid : Laid region heap blocks) : blocks.length + 1 < region.len := by
  have total := laid.tiled.total
  have headers := region.headers
  have short := length_le_spans blocks
  unfold Region.sentinel at total
  omega

theorem Laid.hfMalloc (laid : Laid region heap blocks) {fuel size : Nat}
    (small : align4 size + 8 < 4294967296) (enough : region.len ≤ fuel) :
    ∃ ptr heap' blocks', heap.hfMalloc fuel size = some (ptr, heap') ∧ Laid region heap' blocks' ∧
      KeepsUsed region blocks heap.memory heap'.memory ∧
      (ptr = 0 ∧ usedAt region.base blocks' = usedAt region.base blocks ∨
        ptr ≠ 0 ∧ ∃ header before after, ptr = header + 8 ∧
          usedAt region.base blocks = before ++ after ∧
          usedAt region.base blocks' = before ++ (header, align4 size) :: after) := by
  obtain ⟨front, back, rfl, nonempty, position⟩ := laid.last
  have short := laid.length_lt
  rw [List.length_append] at short
  obtain ⟨p, memory', back', found, searched⟩ := search_finds heap.lastFree fuel
    small laid.tiled (laid.ends.tail nonempty) (fun _ _ _ => position) (by omega)
  rw [← position] at found
  have sameUsed : usedAt region.base (front ++ back') = usedAt region.base (front ++ back) := by
    rw [usedAt_append, usedAt_append, searched.used]
  have notEmpty : back' ≠ [] := by
    obtain ⟨initial, len, rfl⟩ := searched.ends
    simp
  rcases searched.found with rfl | ⟨skipped, len, rest, rfl, rfl, room⟩
  · refine ⟨0, { heap with memory := memory' }, front ++ back', ?_, ?_, searched.keeps,
      Or.inl ⟨rfl, sameUsed⟩⟩
    · simp only [Heap.hfMalloc, found, searched.tiled.lastNext, if_true]
    · exact ⟨searched.tiled, searched.ends.append front, laid.first, front, back', rfl, notEmpty,
        position⟩
  · have regroup : front ++ (skipped ++ ⟨false, len⟩ :: rest) =
        (front ++ skipped) ++ ([⟨false, len⟩] ++ rest) := by simp
    have atBlock : region.base + spans front + spans skipped =
        region.base + spans (front ++ skipped) := by rw [spans_append, Nat.add_assoc]
    have tiled := searched.tiled
    have keeps := searched.keeps
    rw [regroup] at tiled sameUsed
    rw [atBlock] at found
    have aligned : align4 size % 4 = 0 := by
      unfold align4
      omega
    let searchedHeap : Heap := { heap with memory := memory' }
    have placed : Tiled region searchedHeap.memory ((front ++ skipped) ++ ([⟨false, len⟩] ++ rest)) :=
      tiled
    obtain ⟨split, placeKeeps⟩ := placed.place aligned room
    have total := tiled.total
    have addressable := region.addressable
    have headers := region.headers
    rw [spans_append _ (_ ++ _), List.singleton_append] at total
    simp only [spans, Region.sentinel] at total
    have more : next memory' (region.base + spans (front ++ skipped)) ≠ 0 :=
      tiled.next_ne_zero (by simp)
    have pointer : wrap32 (region.base + spans (front ++ skipped) + 8) =
        region.base + spans (front ++ skipped) + 8 := Nat.mod_eq_of_lt (by omega)
    refine ⟨region.base + spans (front ++ skipped) + 8,
      searchedHeap.place (align4 size) (region.base + spans (front ++ skipped)),
      (front ++ skipped) ++ ([⟨true, align4 size⟩, ⟨false, len - align4 size - 8⟩] ++ rest),
      ?_, ⟨split, ?_, laid.first, front ++ skipped, _, rfl, by simp, rfl⟩,
      keeps.trans placeKeeps sameUsed, Or.inr ⟨by omega, region.base + spans (front ++ skipped),
        usedAt region.base (front ++ skipped),
        usedAt (region.base + spans (front ++ skipped) + spans [⟨false, len⟩]) rest, rfl, ?_, ?_⟩⟩
    · simp only [Heap.hfMalloc, found, more, if_false, pointer]
      rfl
    · have ends := searched.ends
      by_cases final : rest = []
      · subst final
        exact ⟨front ++ skipped ++ [⟨true, align4 size⟩], len - align4 size - 8, by simp⟩
      · rw [← List.singleton_append, ← List.append_assoc] at ends
        exact ((ends.tail final).append _).append _
    · rw [← sameUsed, usedAt_append (front ++ skipped)]
      simp only [List.singleton_append, usedAt, spans, Bool.false_eq_true, if_false, Nat.add_zero,
        Nat.add_assoc]
    · rw [usedAt_append (front ++ skipped)]
      simp only [List.cons_append, List.nil_append, usedAt, spans, if_true, Bool.false_eq_true,
        if_false, Nat.add_zero]
      congr 3
      omega

theorem Laid.hfFree (laid : Laid region heap blocks) {entry : Nat × Nat}
    (member : entry ∈ usedAt region.base blocks) :
    ∃ blocks' before after, Laid region (heap.hfFree (entry.1 + 8)) blocks' ∧
      usedAt region.base blocks = before ++ entry :: after ∧
      usedAt region.base blocks' = before ++ after ∧
      ∀ place, place < entry.1 ∨ entry.1 + 8 ≤ place →
        (heap.hfFree (entry.1 + 8)).memory place = heap.memory place := by
  obtain ⟨front, len, back, rfl, rfl⟩ := mem_usedAt_split member
  obtain ⟨tiled, _, outside⟩ := laid.tiled.hfFree
  refine ⟨front ++ ([⟨false, len⟩] ++ back), usedAt region.base front,
    usedAt (region.base + spans front + 8 + len) back,
    ⟨tiled, ?_, laid.first, [], front ++ ([⟨false, len⟩] ++ back), rfl, by simp, ?_⟩, ?_, ?_,
    outside⟩
  · by_cases final : back = []
    · exact ⟨front, len, by simp [final]⟩
    · have ends := laid.ends
      rw [← List.append_assoc] at ends
      exact ((ends.tail final).append _).append _
  · rw [spans, Nat.add_zero, ← laid.first]
    rfl
  · rw [usedAt_append]
    simp [usedAt]
  · rw [usedAt_append]
    simp [usedAt]

theorem Tiled.fill {memory memory' : Memory} {front back : List Block} {len : Nat}
    (tiled : Tiled region memory (front ++ ([⟨true, len⟩] ++ back)))
    (same : ∀ place, place < region.base + spans front + 8 ∨
      region.base + spans front + 8 + len ≤ place → memory' place = memory place) :
    Tiled region memory' (front ++ ([⟨true, len⟩] ++ back)) := by
  obtain ⟨_, rest⟩ := (chain_append _ front _ region.base).mp tiled.chain
  refine tiled.replace (fun place away => same place ?_) ?_ rfl
  · simp only [spans] at away
    omega
  · have sameNext : next memory' (region.base + spans front) =
        next memory (region.base + spans front) :=
      readWord_congr fun place _ near => same place (by omega)
    have sameSize : size memory' (region.base + spans front) =
        size memory (region.base + spans front) :=
      readWord_congr fun place _ near => same place (by omega)
    exact ⟨sameNext.trans rest.1, by rw [sameSize]; exact rest.2.1, rest.2.2.1, trivial⟩

theorem Tiled.store {memory : Memory} {front back : List Block} {len address : Nat}
    (tiled : Tiled region memory (front ++ ([⟨true, len⟩] ++ back)))
    (low : region.base + spans front + 8 ≤ address)
    (high : address < region.base + spans front + 8 + len) (value : UInt8) :
    Tiled region (Function.update memory address value) (front ++ ([⟨true, len⟩] ++ back)) :=
  tiled.fill fun _ outside => Function.update_of_ne (by omega) _ _

theorem Laid.store (laid : Laid region heap blocks) {entry : Nat × Nat} {address : Nat}
    (member : entry ∈ usedAt region.base blocks) (low : entry.1 + 8 ≤ address)
    (high : address < entry.1 + 8 + entry.2) (value : UInt8) :
    Laid region { heap with memory := Function.update heap.memory address value } blocks := by
  obtain ⟨front, len, back, rfl, rfl⟩ := mem_usedAt_split member
  exact ⟨laid.tiled.store low high value, laid.ends, laid.first, laid.last⟩

end Heap

section Matching

open Heap

def Matches (live used : List (Nat × Nat)) : Prop :=
  (live.map fun entry => (entry.1, align4 entry.2)).Perm
    (used.map fun entry => (entry.1 + 8, entry.2))

variable {live used before after : List (Nat × Nat)} {header : Nat}

theorem Matches.block {entry : Nat × Nat} (matched : Matches live used) (member : entry ∈ live) :
    ∃ header, entry.1 = header + 8 ∧ (header, align4 entry.2) ∈ used := by
  have mapped := matched.mem_iff.mp (List.mem_map_of_mem member)
  obtain ⟨found, inside, same⟩ := List.mem_map.mp mapped
  simp only [Prod.mk.injEq] at same
  exact ⟨found.1, same.1.symm, by rw [← same.2]; exact inside⟩

theorem Matches.insert {size : Nat} (matched : Matches live (before ++ after)) :
    Matches ((header + 8, size) :: live) (before ++ (header, align4 size) :: after) := by
  unfold Matches at matched ⊢
  rw [List.map_append] at matched
  rw [List.map_cons, List.map_append, List.map_cons]
  exact (matched.cons _).trans List.perm_middle.symm

theorem Matches.erase {ptr : Nat} (matched : Matches live used)
    (owned : ∃ entry ∈ live, entry.1 = ptr) :
    ∃ header length, ptr = header + 8 ∧ (header, length) ∈ used ∧
      ∀ {before after}, used = before ++ (header, length) :: after →
        Matches (live.eraseP fun entry => entry.1 = ptr) (before ++ after) := by
  obtain ⟨found, foundMember, foundPtr⟩ := owned
  obtain ⟨entry, first, second, _, isPtr, split, erased⟩ :=
    List.exists_of_eraseP foundMember (p := fun entry => decide (entry.1 = ptr)) (by simpa using foundPtr)
  simp only [decide_eq_true_eq] at isPtr
  have member : entry ∈ live := by
    rw [split]
    simp
  obtain ⟨header, pointer, inside⟩ := matched.block member
  refine ⟨header, align4 entry.2, by rw [← isPtr, pointer], inside, ?_⟩
  rintro before after rfl
  unfold Matches at matched ⊢
  rw [split] at matched
  simp only [List.map_append, List.map_cons, pointer] at matched
  rw [erased]
  simp only [List.map_append]
  exact ((List.perm_middle.symm.trans matched).trans List.perm_middle).cons_inv

theorem Matches.apart {blocks : List Block} {p : Nat} (matched : Matches live (usedAt p blocks)) :
    live.Pairwise fun first second =>
      first.1 + align4 first.2 + 8 ≤ second.1 ∨ second.1 + align4 second.2 + 8 ≤ first.1 := by
  have mapped : ((usedAt p blocks).map fun entry => (entry.1 + 8, entry.2)).Pairwise
      fun first second : Nat × Nat =>
        first.1 + first.2 + 8 ≤ second.1 ∨ second.1 + second.2 + 8 ≤ first.1 := by
    refine List.pairwise_map.mpr ((usedAt_apart blocks p).imp ?_)
    intro first second before
    simp only
    omega
  exact List.pairwise_map.mp ((matched.pairwise_iff fun {first second} apart => apart.symm).mpr mapped)

theorem Matches.free_keeps {region : Region} {heap : Heap} {blocks : List Block} {ptr address : Nat}
    (matched : Matches live (usedAt region.base blocks))
    (total : region.base + spans blocks = region.sentinel) (owned : ∃ entry ∈ live, entry.1 = ptr)
    (inside : ∃ entry ∈ live, entry.1 ≤ address ∧ address < entry.1 + align4 entry.2) :
    (heap.hfFree ptr).memory address = heap.memory address := by
  obtain ⟨freed, freedMember, rfl⟩ := owned
  obtain ⟨entry, member, low, high⟩ := inside
  obtain ⟨header, pointer, used⟩ := matched.block freedMember
  obtain ⟨other, otherPointer, otherUsed⟩ := matched.block member
  have disjoint := usedAt_headers otherUsed (usedAt_header used)
  have within := (usedAt_bounds used).2
  have addressable := region.addressable
  have headers := region.headers
  unfold Region.sentinel at total
  simp only at disjoint within
  have place : wrap32 (freed.1 + 4294967296 - 8) = header := by
    unfold wrap32
    omega
  rw [Heap.hfFree, place]
  exact setSize_outside _ (by omega)

end Matching

namespace HeapWorld

open Heap

structure Sound (region : Region) (world : HeapWorld) (blocks : List Block) : Prop where
  laid : Laid region world.heap blocks
  live : (world.live.map fun entry => (entry.1, align4 entry.2)).Perm
    ((usedAt region.base blocks).map fun entry => (entry.1 + 8, entry.2))

variable {region : Region} {world : HeapWorld} {blocks : List Block}

theorem Sound.block (sound : Sound region world blocks) {entry : Nat × Nat}
    (member : entry ∈ world.live) :
    ∃ header, entry.1 = header + 8 ∧ (header, align4 entry.2) ∈ usedAt region.base blocks :=
  Matches.block sound.live member

theorem align4_eq {size : Nat} (small : (size + 3) / 4 * 4 + 8 < 4294967296) :
    align4 size = (size + 3) / 4 * 4 := by
  unfold align4 wrap32
  omega

theorem Sound.malloc (sound : Sound region world blocks) {fuel size : Nat}
    (small : (size + 3) / 4 * 4 + 8 < 4294967296) (enough : region.len ≤ fuel) :
    ∃ next blocks', step fuel (.malloc size) world = .ok next ∧ Sound region next blocks' ∧
      ∀ address, world.owns address → next.heap.memory address = world.heap.memory address := by
  have fits : align4 size + 8 < 4294967296 := by
    rw [align4_eq small]
    exact small
  obtain ⟨ptr, heap', blocks', returned, laid, keeps, outcome⟩ := sound.laid.hfMalloc fits enough
  refine ⟨⟨heap', if ptr = 0 then world.live else (ptr, size) :: world.live⟩, blocks', ?_, ?_, ?_⟩
  · simp only [step, returned]
  · refine ⟨laid, ?_⟩
    rcases outcome with ⟨null, same⟩ | ⟨nonzero, header, before, after, rfl, old, new⟩
    · simpa only [if_pos null, same] using sound.live
    · have live : Matches world.live (usedAt region.base blocks) := sound.live
      simp only [if_neg nonzero]
      rw [old] at live
      rw [new]
      exact live.insert
  · rintro address ⟨entry, member, low, high⟩
    obtain ⟨header, pointer, used⟩ := sound.block member
    exact keeps _ used address (by simp only; omega) (by simp only; omega)

theorem Sound.free (sound : Sound region world blocks) {fuel ptr : Nat}
    (owned : ∃ entry ∈ world.live, entry.1 = ptr) :
    ∃ next blocks', step fuel (.free ptr) world = .ok next ∧ Sound region next blocks' ∧
      ∀ address, world.owns address → next.heap.memory address = world.heap.memory address := by
  have keeps : ∀ address, world.owns address →
      (world.heap.hfFree ptr).memory address = world.heap.memory address :=
    fun address inside => Matches.free_keeps sound.live sound.laid.tiled.total owned inside
  obtain ⟨header, length, rfl, used, erased⟩ := Matches.erase sound.live owned
  obtain ⟨blocks', before, after, laid, old, new, _⟩ := sound.laid.hfFree used
  refine ⟨⟨world.heap.hfFree (header + 8), world.live.eraseP fun entry => entry.1 = header + 8⟩,
    blocks', rfl, ⟨laid, ?_⟩, keeps⟩
  rw [new]
  exact erased old

theorem Sound.store (sound : Sound region world blocks) {fuel address : Nat} {value : UInt8}
    (owned : world.owns address) :
    ∃ next, step fuel (.store address value) world = .ok next ∧ Sound region next blocks := by
  obtain ⟨entry, member, low, high⟩ := owned
  obtain ⟨header, pointer, used⟩ := sound.block member
  refine ⟨_, rfl, sound.laid.store used ?_ ?_ value, sound.live⟩
  · simp only
    omega
  · simp only
    omega

structure Intact (region : Region) (world : HeapWorld) (blocks : List Block) : Prop where
  tiled : Tiled region world.heap.memory blocks
  ends : EndsFree blocks
  inside : ∀ entry ∈ world.live,
    region.base + 8 ≤ entry.1 ∧ entry.1 + align4 entry.2 ≤ region.sentinel
  apart : world.live.Pairwise fun first second =>
    first.1 + align4 first.2 ≤ second.1 ∨ second.1 + align4 second.2 ≤ first.1
  headers : ∀ entry ∈ world.live, ∀ header ∈ headersAt region.base blocks ++ [region.sentinel],
    entry.1 + align4 entry.2 ≤ header ∨ header + 8 ≤ entry.1

theorem Sound.intact (sound : Sound region world blocks) : Intact region world blocks := by
  have total := sound.laid.tiled.total
  have bounds : ∀ entry ∈ world.live,
      region.base + 8 ≤ entry.1 ∧ entry.1 + align4 entry.2 ≤ region.sentinel := by
    intro entry member
    obtain ⟨header, pointer, used⟩ := sound.block member
    have limits := usedAt_bounds used
    simp only at limits
    omega
  refine ⟨sound.laid.tiled, sound.laid.ends, bounds, ?_, ?_⟩
  · refine (Matches.apart sound.live).imp ?_
    intro first second apart
    omega
  · intro entry member header listed
    obtain ⟨own, pointer, used⟩ := sound.block member
    rcases List.mem_append.mp listed with inner | last
    · have disjoint := usedAt_headers used inner
      simp only at disjoint
      omega
    · rw [List.mem_singleton.mp last]
      exact Or.inl (bounds entry member).2

/-- The heap stays intact over every sequence of calls, every call returns, and none of them
changes a byte of a live allocation. -/
theorem heap_integrity (region : Region) (memory : Memory) {fuel : Nat}
    (enough : region.len ≤ fuel) {world : HeapWorld}
    (reached : Reaches (step fuel) allowed (start region memory) world) :
    (∃ blocks, Intact region world blocks) ∧ ∀ op, allowed op world →
      ∃ next, step fuel op world = .ok next ∧
        ((∀ address value, op ≠ .store address value) → ∀ address, world.owns address →
          next.heap.memory address = world.heap.memory address) := by
  have steps : ∀ {state : HeapWorld} {blocks : List Block}, Sound region state blocks → ∀ op,
      allowed op state → ∃ next blocks', step fuel op state = .ok next ∧ Sound region next blocks' ∧
        ((∀ address value, op ≠ .store address value) → ∀ address, state.owns address →
          next.heap.memory address = state.heap.memory address) := by
    intro state blocks sound op admitted
    cases op with
    | malloc size =>
        obtain ⟨next, blocks', done, kept, same⟩ := sound.malloc admitted enough
        exact ⟨next, blocks', done, kept, fun _ => same⟩
    | free ptr =>
        obtain ⟨next, blocks', done, kept, same⟩ := sound.free admitted
        exact ⟨next, blocks', done, kept, fun _ => same⟩
    | store address value =>
        obtain ⟨next, done, kept⟩ := sound.store admitted
        exact ⟨next, blocks, done, kept, fun other => absurd rfl (other address value)⟩
  obtain ⟨blocks, sound⟩ : ∃ blocks, Sound region world blocks := by
    refine reached.invariant (fun state => ∃ blocks, Sound region state blocks) ?_ ?_
    · exact ⟨_, .heapinit region memory, List.Perm.refl _⟩
    · rintro op before after ⟨blocks, sound⟩ admitted stepped
      obtain ⟨next, blocks', done, kept, _⟩ := steps sound op admitted
      rw [done] at stepped
      cases stepped
      exact ⟨blocks', kept⟩
  refine ⟨⟨blocks, sound.intact⟩, ?_⟩
  intro op admitted
  obtain ⟨next, _, done, _, same⟩ := steps sound op admitted
  exact ⟨next, done, same⟩

section SmallHeap

def smallRegion : Region := ⟨256, 64, by decide, by decide, by decide, by decide⟩

def smallHeap (steps : List HeapOp) : HeapWorld :=
  match execute (step 64) steps (start smallRegion fun _ => 0) with
  | .ok world => world
  | .error _ => start smallRegion fun _ => 0

theorem smallHeap_reached :
    Reaches (step 64) allowed (start smallRegion fun _ => 0) (smallHeap [.malloc 4, .malloc 5]) := by
  refine execute_reaches [.malloc 4, .malloc 5] _ _ .start ?_ rfl
  intro op member state
  simp only [List.mem_cons, List.not_mem_nil, or_false] at member
  rcases member with rfl | rfl
  · exact (by decide : (4 + 3) / 4 * 4 + 8 < 4294967296)
  · exact (by decide : (5 + 3) / 4 * 4 + 8 < 4294967296)

theorem heap_integrity_small :
    ∃ blocks, Intact smallRegion (smallHeap [.malloc 4, .malloc 5]) blocks :=
  (heap_integrity smallRegion (fun _ => 0) (by decide) smallHeap_reached).1

/-- Two allocations in a row stand side by side: the first used block is followed by a used
one. -/
theorem adjacent_used_blocks :
    ∃ world, Reaches (step 64) allowed (start smallRegion fun _ => 0) world ∧
      marked (size world.heap.memory smallRegion.base) = true ∧
      marked (size world.heap.memory (next world.heap.memory smallRegion.base)) = true :=
  ⟨_, smallHeap_reached, by decide, by decide⟩

end SmallHeap

end HeapWorld

end Hellfire

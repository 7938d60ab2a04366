import Hellfire.FirstFitCore
import Hellfire.Malloc

/-!
The block list of the `MEM_ALLOC` 2 heap. Its size words are exact, `hf_free` merges all
runs of free blocks, and `hf_malloc` takes the first free block that fits behind `ff`.
-/

namespace Hellfire

open ByteMemory MergeRuns

namespace FfHeap

open Heap

def Exact (memory : Memory) : Nat → List Block → Prop
  | _, [] => True
  | p, block :: rest =>
      (block.used = false → size memory p = block.len) ∧ Exact memory (p + 8 + block.len) rest

theorem exact_append (memory : Memory) (first second : List Block) : ∀ p,
    Exact memory p (first ++ second) ↔
      Exact memory p first ∧ Exact memory (p + spans first) second := by
  induction first with
  | nil => simp [Exact, spans]
  | cons block first ih =>
      intro p
      simp only [List.cons_append, Exact, spans, ih, and_assoc]
      rw [show p + 8 + block.len + spans first = p + (8 + block.len + spans first) by omega]

theorem Exact.congr {memory memory' : Memory} {blocks : List Block} : ∀ {p},
    Exact memory p blocks →
      (∀ place, p ≤ place → place < p + spans blocks → memory' place = memory place) →
      Exact memory' p blocks := by
  induction blocks with
  | nil => exact fun _ _ => trivial
  | cons block blocks ih =>
      intro p exact same
      simp only [spans] at same
      refine ⟨fun free => ?_, ih exact.2 fun place low high => same place (by omega) (by omega)⟩
      rw [← exact.1 free]
      exact readWord_congr fun place low high => same place (by omega) (by omega)

theorem exact_used {memory : Memory} {blocks : List Block}
    (used : ∀ block ∈ blocks, block.used = true) : ∀ p, Exact memory p blocks := by
  induction blocks with
  | nil => exact fun _ => trivial
  | cons block blocks ih =>
      intro p
      refine ⟨fun free => ?_, ih (fun other member => used other (List.mem_cons_of_mem _ member)) _⟩
      rw [used block List.mem_cons_self] at free
      cases free

variable {region : Region} {front back : List Block}

structure Eager (region : Region) (heap : FfHeap) (front back : List Block) : Prop where
  tiled : Tiled region heap.memory (front ++ back)
  exact : Exact heap.memory region.base (front ++ back)
  ends : EndsFree back
  start : heap.krnlHeap = region.base
  first : heap.ff = region.base + spans front

theorem Eager.length_lt {heap : FfHeap} (eager : Eager region heap front back) :
    front.length + back.length + 1 < region.len := by
  have total := eager.tiled.total
  have headers := region.headers
  have short := length_le_spans (front ++ back)
  rw [List.length_append] at short
  unfold Region.sentinel at total
  omega

section Searching

theorem firstFit_skips {memory : Memory} {wanted : Nat} (small : wanted + 8 < 4294967296)
    (blocks : List Block) : ∀ (fuel p : Nat), Chain memory p blocks → Exact memory p blocks →
      (∀ block ∈ blocks, TooSmall (wanted + 8) block) →
      firstFit wanted memory (blocks.length + fuel) p =
        firstFit wanted memory fuel (p + spans blocks) := by
  induction blocks with
  | nil =>
      intro fuel p _ _ _
      simp [spans]
  | cons block blocks ih =>
      intro fuel p chain exact passed
      obtain ⟨link, state, aligned, rest⟩ := chain
      have skipped : size memory p < wrap32 (wanted + 8) ∨ marked (size memory p) = true := by
        rw [wrap32, Nat.mod_eq_of_lt small]
        by_cases used : block.used = true
        · right
          rw [if_pos used] at state
          simp only [marked, state, decide_eq_true_eq]
          omega
        · left
          have free : block.used = false := by simpa using used
          rw [exact.1 free]
          exact (passed block List.mem_cons_self).resolve_left used
      have later := ih fuel (p + 8 + block.len) rest exact.2
        (fun other member => passed other (List.mem_cons_of_mem _ member))
      rw [List.length_cons, Nat.add_right_comm, firstFit, if_pos skipped, link, if_neg (by omega),
        later, spans]
      congr 1
      omega

variable {heap : FfHeap} {wanted : Nat}

theorem Eager.firstFit_fails (eager : Eager region heap front back)
    (small : wanted + 8 < 4294967296) (positive : 0 < wanted) {fuel : Nat}
    (enough : region.len ≤ fuel) (passed : ∀ block ∈ back, TooSmall (wanted + 8) block) :
    firstFit wanted heap.memory fuel heap.ff = some none := by
  have short := eager.length_lt
  obtain ⟨less, rfl⟩ : ∃ less, fuel = back.length + (less + 1) := ⟨fuel - back.length - 1, by omega⟩
  have chain := ((chain_append _ _ _ _).mp eager.tiled.chain).2
  have exact := ((exact_append _ _ _ _).mp eager.exact).2
  have total := eager.tiled.total
  rw [spans_append, ← Nat.add_assoc] at total
  rw [eager.first, firstFit_skips small back _ _ chain exact passed, total, firstFit,
    eager.tiled.lastSize, eager.tiled.lastNext, wrap32, Nat.mod_eq_of_lt small, if_pos (by omega),
    if_pos ⟨rfl, positive⟩]

theorem Eager.firstFit_finds {skipped rest : List Block} {len : Nat}
    (eager : Eager region heap front (skipped ++ ⟨false, len⟩ :: rest))
    (small : wanted + 8 < 4294967296) {fuel : Nat} (enough : region.len ≤ fuel)
    (passed : ∀ block ∈ skipped, TooSmall (wanted + 8) block) (room : wanted + 8 ≤ len) :
    firstFit wanted heap.memory fuel heap.ff = some (some (region.base + spans (front ++ skipped))) := by
  have short := eager.length_lt
  rw [List.length_append] at short
  obtain ⟨less, rfl⟩ : ∃ less, fuel = skipped.length + (less + 1) :=
    ⟨fuel - skipped.length - 1, by omega⟩
  obtain ⟨chain, tail⟩ :=
    (chain_append _ _ _ _).mp ((chain_append _ _ _ _).mp eager.tiled.chain).2
  obtain ⟨exact, exactTail⟩ :=
    (exact_append _ _ _ _).mp ((exact_append _ _ _ _).mp eager.exact).2
  have stored := exactTail.1 rfl
  have aligned : len % 4 = 0 := tail.2.2.1
  have free : marked len = false := by
    simp only [marked, decide_eq_false_iff_not]
    omega
  rw [eager.first, firstFit_skips small skipped _ _ chain exact passed, firstFit, stored, free,
    wrap32, Nat.mod_eq_of_lt small, if_neg (by simp only [Bool.false_eq_true, or_false]; omega),
    spans_append, Nat.add_assoc]

theorem place_memory (heap : FfHeap) {wanted p len : Nat} (aligned : wanted % 4 = 0)
    (small : p + len + 8 < 4294967296) (stored : size heap.memory p = len) (even : len % 4 = 0)
    (room : wanted + 8 ≤ len) :
    (heap.place wanted p).memory =
      setSize (setNext (setSize (setNext heap.memory p (p + wanted + 8)) p (wanted + 1))
        (p + wanted + 8) (next heap.memory p)) (p + wanted + 8) (len - wanted - 8) := by
  have marks : mark wanted = wanted + 1 := by
    unfold mark
    omega
  have link : wrap32 (p + wanted + 8) = p + wanted + 8 := Nat.mod_eq_of_lt (by omega)
  have linked : next (setSize (setNext heap.memory p (p + wanted + 8)) p (wanted + 1)) p =
      p + wanted + 8 := by rw [next_setSize, next_setNext p (by omega)]
  have rest : wrap32 (unmark len + 8589934592 - wanted - 8) = len - wanted - 8 := by
    unfold wrap32 unmark
    omega
  simp only [place, marks, link, stored, linked, rest]

theorem Eager.place {skipped rest : List Block} {len : Nat}
    (eager : Eager region heap front (skipped ++ ⟨false, len⟩ :: rest)) (aligned : wanted % 4 = 0)
    (room : wanted + 8 ≤ len) :
    Eager region (heap.place wanted (region.base + spans (front ++ skipped))) (front ++ skipped)
      (⟨true, wanted⟩ :: ⟨false, len - wanted - 8⟩ :: rest) := by
  have regroup : front ++ (skipped ++ ⟨false, len⟩ :: rest) =
      (front ++ skipped) ++ ([⟨false, len⟩] ++ rest) := by simp
  have tiled := eager.tiled
  have exact := eager.exact
  rw [regroup] at tiled exact
  have total := tiled.total
  have addressable := region.addressable
  have headers := region.headers
  rw [spans_append (front ++ skipped)] at total
  simp only [List.singleton_append, spans, Region.sentinel] at total
  obtain ⟨exactFront, exactRest⟩ := (exact_append _ _ _ _).mp exact
  have stored : size heap.memory (region.base + spans (front ++ skipped)) = len := exactRest.1 rfl
  have exactTail : Exact heap.memory (region.base + spans (front ++ skipped) + 8 + len) rest :=
    exactRest.2
  obtain ⟨_, chainRest⟩ := (chain_append _ _ _ region.base).mp tiled.chain
  have link : next heap.memory (region.base + spans (front ++ skipped)) =
      region.base + spans (front ++ skipped) + 8 + len := chainRest.1
  have lenAligned : len % 4 = 0 := chainRest.2.2.1
  obtain ⟨placed, same, word⟩ := tiled.split aligned room (len - wanted - 8) (by omega)
    (by omega) rfl
  have written := place_memory heap aligned (by omega) stored lenAligned room
  rw [link] at written
  rw [← written] at placed same word
  simp only [spans] at same
  refine ⟨placed, ?_, ?_, eager.start, rfl⟩
  · rw [exact_append]
    refine ⟨exactFront.congr fun place _ high => same place (Or.inl high), ?_, fun _ => ?_, ?_⟩
    · exact fun used => absurd used (by simp)
    · rw [show region.base + spans (front ++ skipped) + 8 + wanted =
        region.base + spans (front ++ skipped) + wanted + 8 by omega]
      exact word
    · simp only
      rw [show region.base + spans (front ++ skipped) + 8 + wanted + 8 + (len - wanted - 8) =
        region.base + spans (front ++ skipped) + 8 + len by omega]
      exact exactTail.congr fun place low _ => same place (Or.inr (by omega))
  · have ends := eager.ends
    by_cases final : rest = []
    · subst final
      exact ⟨[⟨true, wanted⟩], len - wanted - 8, rfl⟩
    · rw [← List.singleton_append, ← List.append_assoc] at ends
      exact (ends.tail final).append [_, _]

end Searching

section Sweeping

theorem coalesce_outside {memory : Memory} {p q place : Nat}
    (outside : place < q ∨ q + 8 ≤ place) : coalesce memory p q place = memory place := by
  rw [coalesce, setNext_outside _ outside, setSize_outside _ outside]

theorem sweep_merges (bound : Nat) :
    ∀ (suffix : List Block), suffix.length ≤ bound → ∀ (front : List Block) (memory : Memory)
      (q fuel : Nat), Tiled region memory (front ++ suffix) → Exact memory region.base front →
      EndsFree suffix →
      (∀ len rest, suffix = ⟨false, len⟩ :: rest → q = region.base + spans front) →
      suffix.length + 1 < fuel →
      ∃ memory', sweep fuel (region.base + spans front) q memory = some memory' ∧
        Tiled region memory' (front ++ merge joining suffix) ∧
        Exact memory' region.base (front ++ merge joining suffix) := by
  induction bound with
  | zero =>
      intro suffix short front memory q fuel _ _ ends
      obtain ⟨initial, len, rfl⟩ := ends
      simp at short
  | succ bound ih =>
      intro suffix short front memory q fuel tiled exact ends start enough
      obtain ⟨fuel, rfl⟩ : ∃ less, fuel = less + 1 := ⟨fuel - 1, by omega⟩
      obtain ⟨useds, run, tail, rfl, allUsed, runFree, nonempty, stop, tailEnds, free⟩ := split_turn ends
      simp only [List.length_append] at short enough
      have runPositive : 0 < run.length := List.length_pos_iff.mpr nonempty
      have more := tiled.next_ne_zero (by simp [nonempty])
      have here : useds = [] → q = region.base + spans front := by
        intro none
        obtain ⟨len, rest, same⟩ := free none
        exact start len rest same
      obtain ⟨atRun, past, rfl, rfl, nonzero, skip, freed, joined, _, joinedSize⟩ :=
        pass_run fuel tiled allUsed runFree nonempty stop here (by omega)
      have merged : merge joining (useds ++ (run ++ tail)) =
          useds ++ ⟨false, spans run - 8⟩ :: merge joining tail := by
        rw [merge_used allUsed]
        rcases stop with rfl | ⟨next, later, rfl⟩
        · rw [List.append_nil, merge_free runFree nonempty]
          rfl
        · rw [merge_append_starts _ (starts_used next later), merge_free runFree nonempty]
          rfl
      -- the sizes before the run are as before, and that of the run was just written
      have exactJoined : Exact (coalesce memory
            (region.base + spans (front ++ useds ++ [⟨false, spans run - 8⟩]))
            (region.base + spans (front ++ useds))) region.base
          (front ++ useds ++ [⟨false, spans run - 8⟩]) := by
        rw [exact_append, exact_append]
        refine ⟨⟨exact.congr fun place _ high => coalesce_outside (Or.inl ?_), ?_⟩,
          fun _ => joinedSize, trivial⟩
        · rw [spans_append]
          omega
        · exact exact_used allUsed _
      rw [merged, sweep, if_neg more, skip]
      simp only [freed, ne_eq, nonzero, not_false_eq_true, if_true]
      rcases stop with rfl | ⟨next, later, rfl⟩
      · obtain ⟨fuel, rfl⟩ : ∃ less, fuel = less + 1 := ⟨fuel - 1, by omega⟩
        have total := joined.total
        rw [List.append_nil, ← List.append_assoc] at total
        refine ⟨_, ?_, joined, by simpa [merge] using exactJoined⟩
        rw [sweep, total, if_pos (by rw [← total]; exact total ▸ joined.lastNext)]
      · have regroup : front ++ (useds ++ ([⟨false, spans run - 8⟩] ++ ⟨true, next⟩ :: later)) =
            (front ++ useds ++ [⟨false, spans run - 8⟩]) ++ ⟨true, next⟩ :: later := by simp
        rw [regroup] at joined
        obtain ⟨memory', swept, tiled', exact'⟩ := ih (⟨true, next⟩ :: later) (by omega)
          (front ++ useds ++ [⟨false, spans run - 8⟩]) _
          (region.base + spans (front ++ useds)) fuel joined exactJoined
          (tailEnds.resolve_left (by simp)) (by simp) (by omega)
        refine ⟨memory', swept, ?_, ?_⟩
        · simpa using tiled'
        · simpa using exact'

end Sweeping

section Calling

variable {heap : FfHeap} {fuel : Nat}

theorem Eager.heapinit (region : Region) (memory : Memory) :
    Eager region (heapinit memory region.base region.len) [] [⟨false, region.len - 16⟩] := by
  refine ⟨.heapinit region memory, ⟨fun _ => ?_, trivial⟩, ⟨[], _, rfl⟩, rfl, rfl⟩
  exact (heapinit_size region.headers memory region.base).trans (Region.first_len region)

theorem Eager.hfMalloc_full (eager : Eager region heap front back) {size : Nat}
    (small : align4 size + 8 < 4294967296) (positive : 0 < align4 size)
    (enough : region.len ≤ fuel) (passed : ∀ block ∈ back, TooSmall (align4 size + 8) block) :
    heap.hfMalloc fuel size = some (0, heap) := by
  simp only [FfHeap.hfMalloc, eager.firstFit_fails small positive enough passed]

theorem Eager.hfMalloc_room {skipped rest : List Block} {len size : Nat}
    (eager : Eager region heap front (skipped ++ ⟨false, len⟩ :: rest))
    (small : align4 size + 8 < 4294967296) (enough : region.len ≤ fuel)
    (passed : ∀ block ∈ skipped, TooSmall (align4 size + 8) block) (room : align4 size + 8 ≤ len) :
    ∃ heap', heap.hfMalloc fuel size =
        some (region.base + spans (front ++ skipped) + 8, heap') ∧
      Eager region heap' (front ++ skipped)
        (⟨true, align4 size⟩ :: ⟨false, len - align4 size - 8⟩ :: rest) ∧
      heap'.krnlFree = wrap32 (heap.krnlFree + 4294967296 - wrap32 (align4 size + 8)) := by
  have aligned : align4 size % 4 = 0 := by
    unfold align4
    omega
  have found := eager.firstFit_finds small enough passed room
  have total := eager.tiled.total
  have addressable := region.addressable
  have headers := region.headers
  have below : region.base + spans (front ++ skipped) + 8 < 4294967296 := by
    simp only [spans_append, spans, Region.sentinel] at total ⊢
    omega
  refine ⟨heap.place (align4 size) (region.base + spans (front ++ skipped)), ?_,
    eager.place aligned room, rfl⟩
  simp only [FfHeap.hfMalloc, found]
  rw [wrap32, Nat.mod_eq_of_lt below]

theorem Eager.hfFree {before after : List Block} {len : Nat}
    (eager : Eager region heap front back)
    (stands : front ++ back = before ++ ⟨true, len⟩ :: after) (enough : region.len ≤ fuel) :
    ∃ heap', heap.hfFree fuel (region.base + spans before + 8) = some heap' ∧
      Eager region heap' [] (merge joining (before ++ ⟨false, len⟩ :: after)) ∧
      heap'.krnlFree = wrap32 (heap.krnlFree + len + 8) := by
  have short := eager.length_lt
  have tiled := eager.tiled
  have wholeEnds := eager.ends.append front
  rw [← List.length_append, stands, List.length_append, List.length_cons] at short
  rw [stands, ← List.singleton_append] at tiled
  rw [stands] at wholeEnds
  obtain ⟨header, cleared, written, released⟩ := tiled.release
  have freeEnds : EndsFree (before ++ ⟨false, len⟩ :: after) := by
    by_cases final : after = []
    · exact ⟨before, len, by rw [final]⟩
    · rw [← List.singleton_append, ← List.append_assoc] at wholeEnds ⊢
      exact (wholeEnds.tail final).append _
  obtain ⟨memory', swept, merged, exact⟩ := sweep_merges _
    (before ++ ([⟨false, len⟩] ++ after)) (Nat.le_refl _) ([] : List Block)
    (setSize heap.memory (region.base + spans before) len) region.base fuel released trivial
    freeEnds (fun _ _ _ => rfl) (by simp only [List.length_append, List.length_singleton]; omega)
  rw [spans, Nat.add_zero] at swept
  refine ⟨{ heap with
    memory := memory'
    ff := region.base
    krnlFree := wrap32 (heap.krnlFree + len + 8) }, ?_,
    ⟨merged, exact, freeEnds.merge, eager.start, rfl⟩, rfl⟩
  simp only [FfHeap.hfFree, header, cleared, written, eager.start, swept]

theorem Eager.store {before after : List Block} {len address : Nat}
    (eager : Eager region heap front back)
    (stands : front ++ back = before ++ ⟨true, len⟩ :: after)
    (low : region.base + spans before + 8 ≤ address)
    (high : address < region.base + spans before + 8 + len) (value : UInt8) :
    Eager region { heap with memory := Function.update heap.memory address value } front back := by
  have tiled := eager.tiled
  have exact := eager.exact
  rw [stands, ← List.singleton_append] at tiled exact
  have other : ∀ place, place ≠ address →
      Function.update heap.memory address value place = heap.memory place :=
    fun place different => Function.update_of_ne different _ _
  obtain ⟨exactBefore, _, exactAfter⟩ := (exact_append _ _ _ _).mp exact
  refine ⟨?_, ?_, eager.ends, eager.start, eager.first⟩
  · rw [stands]
    exact tiled.store low high value
  · rw [stands, exact_append]
    refine ⟨exactBefore.congr fun place _ near => other place (by omega),
      fun used => absurd used (by simp), exactAfter.congr fun place near _ => other place ?_⟩
    simp only at near
    omega

end Calling

end FfHeap

end Hellfire

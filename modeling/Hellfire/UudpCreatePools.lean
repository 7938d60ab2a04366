import Hellfire.UudpCreateCore

/-!
The pool of buffers that `hf_uudp_create` fills and gives back, with the block behind its ring. The size of
the block is computed in 32 bits, so that the block may be shorter than the ring.
-/

namespace Hellfire

open Ledgers

section Rings

variable {queue : UudpQueue} {ring : Queue Nat} {modulus : Int} {words start : Nat} {items : List Nat}

structure Rings (modulus : Int) (words : Nat) (ring : Queue Nat) (start : Nat) (items : List Nat) :
    Prop where
  size : ring.size = modulus
  head : ring.head = start
  tail : ring.tail = (start + items.length : Nat)
  elem : ring.elem = items.length
  block : ring.data.length = words
  stored : ∀ k, k < items.length → ring.data[start + k]? = (items[k]?).map some
  room : start + items.length ≤ modulus.natAbs - 1
  bounded : modulus.natAbs ≤ 2147483648

theorem tmod_small {value size : Int} (least : 0 ≤ value) (small : value < size.natAbs) :
    value.tmod size = value := by
  rcases Int.natAbs_eq size with positive | negative
  · rw [positive]
    exact Int.tmod_eq_of_lt least small
  · rw [negative, Int.tmod_neg]
    exact Int.tmod_eq_of_lt least small

theorem tmod_natAbs (size : Int) : (size.natAbs : Int).tmod size = 0 := by
  rcases Int.natAbs_eq size with positive | negative
  · nth_rewrite 2 [positive]
    exact Int.tmod_self
  · nth_rewrite 2 [negative]
    rw [Int.tmod_neg]
    exact Int.tmod_self

theorem int32_natAbs_tmod {size : Int} (bounded : size.natAbs ≤ 2147483648) :
    (int32 size.natAbs).tmod size = 0 := by
  by_cases below : size.natAbs < 2147483648
  · rw [int32_of_range (by omega) (by omega)]
    exact tmod_natAbs size
  · have wrapped : int32 size.natAbs = -(size.natAbs : Int) := by
      unfold int32
      omega
    rw [wrapped, Int.neg_tmod, tmod_natAbs, Int.neg_zero]

theorem Rings.next (rings : Rings modulus words ring 0 items) (free : items.length < modulus.natAbs - 1) :
    ring.size ≠ 0 ∧ (int32 (ring.tail + 1)).tmod ring.size = ((items.length + 1 : Nat) : Int) := by
  have bounded := rings.bounded
  rw [rings.size, rings.tail, Nat.zero_add]
  have within : int32 ((items.length : Int) + 1) = ((items.length + 1 : Nat) : Int) := by
    rw [int32_of_range (by omega) (by omega)]
    rfl
  rw [within]
  exact ⟨by omega, tmod_small (by omega) (by omega)⟩

theorem addtail_takes (ptr : Nat) (rings : Rings modulus words queue.ring 0 items)
    (free : items.length < modulus.natAbs - 1) (inside : items.length < words) :
    ∃ next, queue.hfQueueAddtail ptr = some next ∧ next.place = queue.place ∧
      next.cells = queue.cells ∧ Rings modulus words next.ring 0 (items ++ [ptr]) := by
  obtain ⟨nonzero, advanced⟩ := rings.next free
  have bounded := rings.bounded
  have apart : ((items.length + 1 : Nat) : Int) ≠ queue.ring.head := by
    rw [rings.head]
    omega
  have tail : queue.ring.tail = (items.length : Int) := by
    rw [rings.tail, Nat.zero_add]
  have accepted : queue.ring.hfQueueAddtail (some ptr) =
      (0, { queue.ring.store queue.ring.tail (some ptr) with
        tail := ((items.length + 1 : Nat) : Int), elem := int32 (queue.ring.elem + 1) }) := by
    simp only [Queue.hfQueueAddtail, nonzero, if_false, advanced, apart]
  have written : queue.ring.store queue.ring.tail (some ptr) =
      { queue.ring with data := queue.ring.data.set items.length (some ptr) } := by
    have place : ¬queue.ring.tail < 0 := by omega
    have index : queue.ring.tail.toNat = items.length := by omega
    simp only [Queue.store, place, if_false, index]
  have fits : ¬(queue.ring.data.length : Int) ≤ queue.ring.tail := by
    rw [rings.block, tail]
    omega
  refine ⟨{ queue with ring := { queue.ring.store queue.ring.tail (some ptr) with
      tail := ((items.length + 1 : Nat) : Int), elem := int32 (queue.ring.elem + 1) } }, ?_, rfl, rfl, ?_⟩
  · simp only [UudpQueue.hfQueueAddtail, accepted, fits, and_false, if_false]
  · rw [written]
    have elem : int32 (queue.ring.elem + 1) = ((items ++ [ptr]).length : Int) := by
      rw [rings.elem, int32_of_range (by omega) (by omega), List.length_append]
      rfl
    refine ⟨rings.size, rings.head, ?_, elem, ?_, ?_, ?_, bounded⟩
    · rw [List.length_append, Nat.zero_add]
      rfl
    · rw [List.length_set]
      exact rings.block
    · intro k below
      rw [List.length_append, List.length_singleton] at below
      rw [List.getElem?_set, Nat.zero_add, rings.block]
      by_cases last : items.length = k
      · subst last
        rw [if_pos rfl, if_pos inside, List.getElem?_append_right (Nat.le_refl _), Nat.sub_self]
        rfl
      · have before := rings.stored k (by omega)
        rw [Nat.zero_add] at before
        rw [if_neg last, before, List.getElem?_append_left (by omega)]
    · rw [List.length_append, List.length_singleton]
      omega

/-- The cell behind the last item may be outside of the block. -/
theorem addtail_escapes (ptr : Nat) (rings : Rings modulus words queue.ring 0 items)
    (free : items.length < modulus.natAbs - 1) (outside : words ≤ items.length) :
    queue.hfQueueAddtail ptr = none := by
  obtain ⟨nonzero, advanced⟩ := rings.next free
  have apart : ((items.length + 1 : Nat) : Int) ≠ queue.ring.head := by
    rw [rings.head]
    omega
  have beyond : (queue.ring.data.length : Int) ≤ queue.ring.tail := by
    rw [rings.block, rings.tail]
    omega
  simp only [UudpQueue.hfQueueAddtail, Queue.hfQueueAddtail, nonzero, if_false, advanced, apart, beyond,
    and_self, if_true]

theorem addtail_refuses (ptr : Nat) (rings : Rings modulus words queue.ring 0 items)
    (full : ¬items.length < modulus.natAbs - 1) : queue.hfQueueAddtail ptr = some queue := by
  have room := rings.room
  have bounded := rings.bounded
  have refused : queue.ring.hfQueueAddtail (some ptr) = (-1, queue.ring) := by
    by_cases zero : queue.ring.size = 0
    · rw [Queue.hfQueueAddtail, if_pos zero]
    · have positive : 0 < modulus.natAbs := by
        rw [rings.size] at zero
        omega
      have last : queue.ring.tail + 1 = (modulus.natAbs : Int) := by
        rw [rings.tail]
        omega
      have around : (int32 (queue.ring.tail + 1)).tmod queue.ring.size = 0 := by
        rw [last, rings.size]
        exact int32_natAbs_tmod bounded
      simp only [Queue.hfQueueAddtail, zero, if_false, around, rings.head, Int.natCast_zero, if_true]
  simp only [UudpQueue.hfQueueAddtail, refused]
  rw [if_neg (by omega)]

theorem remhead_first {ptr : Nat} (rings : Rings modulus words ring start (ptr :: items)) :
    ∃ rest, ring.hfQueueRemhead = (some ptr, rest) ∧ Rings modulus words rest (start + 1) items := by
  have room := rings.room
  have bounded := rings.bounded
  rw [List.length_cons] at room
  have nonzero : ring.size ≠ 0 := by
    rw [rings.size]
    omega
  have apart : ring.head ≠ ring.tail := by
    rw [rings.head, rings.tail, List.length_cons]
    omega
  have advanced : (int32 (ring.head + 1)).tmod ring.size = ((start + 1 : Nat) : Int) := by
    have within : int32 ((start : Int) + 1) = ((start + 1 : Nat) : Int) := by
      rw [int32_of_range (by omega) (by omega)]
      rfl
    rw [rings.head, rings.size, within]
    exact tmod_small (by omega) (by omega)
  have first : ring.cell ring.head = some ptr := by
    have place : ¬ring.head < 0 := by
      rw [rings.head]
      omega
    have index : ring.head.toNat = start := by
      rw [rings.head, Int.toNat_natCast]
    have stored := rings.stored 0 (Nat.succ_pos _)
    rw [Nat.add_zero, List.getElem?_cons_zero, Option.map_some] at stored
    rw [Queue.cell, if_neg place, index, List.getD_eq_getElem?_getD, stored, Option.getD_some]
  refine ⟨{ ring with head := ((start + 1 : Nat) : Int), elem := int32 (ring.elem - 1) }, ?_, ?_⟩
  · simp only [Queue.hfQueueRemhead, nonzero, if_false, apart, first, advanced]
  · refine ⟨rings.size, rfl, ?_, ?_, rings.block, ?_, ?_, bounded⟩
    · have tail := rings.tail
      rw [List.length_cons] at tail
      exact tail.trans (congrArg Nat.cast (by omega))
    · have elem := rings.elem
      rw [List.length_cons] at elem
      have fewer : int32 (ring.elem - 1) = (items.length : Int) := by
        rw [elem, int32_of_range (by omega) (by omega)]
        omega
      exact fewer
    · intro k below
      have later := rings.stored (k + 1) (by rw [List.length_cons]; omega)
      rw [List.getElem?_cons_succ] at later
      rw [← later, Nat.add_assoc, Nat.add_comm 1 k]
    · omega

theorem freeAll_spec (items : List Nat) : ∀ (queue : UudpQueue) (heap : Ledger Nat) (start : Nat)
    (base : List Nat), Rings modulus words queue.ring start items → heap.live.Perm (items ++ base) →
    ∃ emptied heap' last, queue.freeAll items.length heap = some (emptied, heap') ∧
      emptied.place = queue.place ∧ emptied.cells = queue.cells ∧
      Rings modulus words emptied.ring last [] ∧ heap'.live.Perm base := by
  induction items with
  | nil =>
      intro queue heap start base rings live
      have count : queue.ring.hfQueueCount = 0 := rings.elem
      refine ⟨queue, heap, start, ?_, rfl, rfl, rings, live⟩
      unfold UudpQueue.freeAll
      rw [if_pos count]
  | cons ptr items ih =>
      intro queue heap start base rings live
      have count : ¬queue.ring.hfQueueCount = 0 := by
        have elem : queue.ring.hfQueueCount = _ := rings.elem
        rw [elem, List.length_cons]
        omega
      obtain ⟨rest, taken, shorter⟩ := remhead_first rings
      obtain ⟨emptied, heap', last, freed, place, cells, empty, left⟩ :=
        ih { queue with ring := rest } (heap.free ptr) (start + 1) base shorter (Ledger.free_perm live)
      refine ⟨emptied, heap', last, ?_, place, cells, empty, left⟩
      rw [List.length_cons, ← freed]
      conv_lhs => unfold UudpQueue.freeAll
      simp only [count, if_false, taken]

theorem release_spec {heap : Ledger Nat} {base : List Nat} (rings : Rings modulus words queue.ring 0 items)
    (live : heap.live.Perm (items ++ queue.cells :: queue.place :: base)) :
    ∃ heap', queue.release heap = some heap' ∧ heap'.live.Perm base := by
  obtain ⟨emptied, heap', last, freed, place, cells, empty, left⟩ :=
    freeAll_spec items queue heap 0 _ rings live
  have turns : queue.ring.elem.toNat = items.length := by
    rw [rings.elem, Int.toNat_natCast]
  have level : emptied.ring.hfQueueDestroy = 0 := by
    rw [Queue.hfQueueDestroy, empty.head, empty.tail]
    exact if_pos rfl
  refine ⟨_, ?_, Ledger.free_perm (Ledger.free_perm left)⟩
  simp only [UudpQueue.release, turns, freed, Option.map_some, UudpQueue.hfQueueDestroy, level, if_true,
    place, cells]

end Rings

section Pools

open Ledger UudpHeap

variable {modulus : Int} {words : Nat} {live : List Nat} {answers : Nat → Option Nat}

theorem fillPool_failed (failed : answers 0 = none) (count : Nat) (queue : UudpQueue) :
    fillPool (count + 1) queue ⟨live, answers⟩ = some (false, queue, ⟨live, fun n => answers (n + 1)⟩) := by
  rw [fillPool, malloc_none failed]

theorem fillPool_given {ptr : Nat} (given : answers 0 = some ptr) (count : Nat) (queue : UudpQueue) :
    fillPool (count + 1) queue ⟨live, answers⟩ = (queue.hfQueueAddtail ptr).bind fun next =>
      fillPool count next ⟨ptr :: live, fun n => answers (n + 1)⟩ := by
  rw [fillPool, malloc_some given]
  rfl

theorem fillPool_stays (count : Nat) : ∀ (queue : UudpQueue) (live : List Nat) (answers : Nat → Option Nat)
    (items lost base : List Nat), Rings modulus words queue.ring 0 items →
    live.Perm (items ++ (lost ++ base)) →
    (items.length + obtained answers count ≤ words ∨ modulus.natAbs - 1 ≤ words) →
    ∃ filled heap items' lost',
      fillPool count queue ⟨live, answers⟩ = some (decide (obtained answers count = count), filled, heap) ∧
      filled.place = queue.place ∧ filled.cells = queue.cells ∧
      Rings modulus words filled.ring 0 items' ∧ heap.live.Perm (items' ++ (lost' ++ base)) ∧
      items'.length + lost'.length = items.length + lost.length + obtained answers count ∧
      (items.length + obtained answers count ≤ modulus.natAbs - 1 → lost'.length = lost.length) := by
  induction count with
  | zero =>
      intro queue live answers items lost base rings held _
      exact ⟨queue, ⟨live, answers⟩, items, lost, rfl, rfl, rfl, rings, held, rfl, fun _ => rfl⟩
  | succ count ih =>
      intro queue live answers items lost base rings held stays
      cases given : answers 0 with
      | none =>
          rw [obtained_none given]
          exact ⟨queue, ⟨live, fun n => answers (n + 1)⟩, items, lost, fillPool_failed given count queue, rfl,
            rfl, rings, held, rfl, fun _ => rfl⟩
      | some ptr =>
          rw [obtained_some given] at stays ⊢
          have all : decide (obtained (fun n => answers (n + 1)) count + 1 = count + 1) =
              decide (obtained (fun n => answers (n + 1)) count = count) :=
            decide_eq_decide.mpr Nat.add_right_cancel_iff
          rw [fillPool_given given, all]
          by_cases free : items.length < modulus.natAbs - 1
          · have inside : items.length < words := by
              rcases stays with within | whole
              · omega
              · exact free.trans_le whole
            obtain ⟨next, taken, place, cells, more⟩ := addtail_takes ptr rings free inside
            have longer : (ptr :: live).Perm ((items ++ [ptr]) ++ (lost ++ base)) := by
              rw [List.append_assoc]
              exact (held.cons ptr).trans List.perm_middle.symm
            obtain ⟨filled, heap, items', lost', ran, samePlace, sameCells, full, left, total, fits⟩ :=
              ih next (ptr :: live) (fun n => answers (n + 1)) (items ++ [ptr]) lost base more longer
                (by rw [List.length_append, List.length_singleton]; omega)
            rw [List.length_append, List.length_singleton] at total fits
            rw [taken, Option.bind_some, ran]
            exact ⟨filled, heap, items', lost', rfl, samePlace.trans place, sameCells.trans cells, full, left,
              by omega, fun small => fits (by omega)⟩
          · have whole : modulus.natAbs - 1 ≤ words := by
              rcases stays with within | whole
              · omega
              · exact whole
            have longer : (ptr :: live).Perm (items ++ ((ptr :: lost) ++ base)) :=
              (held.cons ptr).trans List.perm_middle.symm
            obtain ⟨filled, heap, items', lost', ran, samePlace, sameCells, full, left, total, -⟩ :=
              ih queue (ptr :: live) (fun n => answers (n + 1)) items (ptr :: lost) base rings longer
                (Or.inr whole)
            rw [List.length_cons] at total
            rw [addtail_refuses ptr rings free, Option.bind_some, ran]
            exact ⟨filled, heap, items', lost', rfl, samePlace, sameCells, full, left, by omega,
              fun small => absurd small (by omega)⟩

theorem fillPool_escapes (count : Nat) : ∀ (queue : UudpQueue) (live : List Nat) (answers : Nat → Option Nat)
    (items : List Nat), Rings modulus words queue.ring 0 items → words < modulus.natAbs - 1 →
    items.length ≤ words → words < items.length + obtained answers count →
    fillPool count queue ⟨live, answers⟩ = none := by
  induction count with
  | zero =>
      intro queue live answers items _ _ inside beyond
      rw [obtained] at beyond
      omega
  | succ count ih =>
      intro queue live answers items rings short inside beyond
      cases given : answers 0 with
      | none =>
          rw [obtained_none given] at beyond
          omega
      | some ptr =>
          rw [obtained_some given] at beyond
          have free : items.length < modulus.natAbs - 1 := by omega
          rw [fillPool_given given]
          by_cases room : items.length < words
          · obtain ⟨next, taken, -, -, more⟩ := addtail_takes ptr rings free room
            rw [taken, Option.bind_some]
            exact ih next (ptr :: live) (fun n => answers (n + 1)) (items ++ [ptr]) more short
              (by rw [List.length_append, List.length_singleton]; omega)
              (by rw [List.length_append, List.length_singleton]; omega)
          · rw [addtail_escapes ptr rings free (by omega), Option.bind_none]

end Pools

end Hellfire

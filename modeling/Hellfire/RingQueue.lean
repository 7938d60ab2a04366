import Hellfire.Queue

/-!
Ring queues that carry their well-formedness. The kernel's queues are created once
for a fixed number of tasks and only changed through the operations of `queue.c`,
so every later argument about them is one about their contents.
-/

namespace Hellfire

open ListSwap

structure RingQueue (α : Type) (capacity : Nat) where
  queue : Queue α
  wellFormed : queue.WellFormed capacity

namespace RingQueue

variable {α : Type} {capacity : Nat}

def contents (ring : RingQueue α capacity) : List (Option α) := ring.queue.contents

def create (capacity : Nat) (addressable : capacity + 1 < 1073741824) : RingQueue α capacity where
  queue := {
    size := capacity + 1
    elem := 0
    head := 0
    tail := 0
    data := List.replicate (capacity + 1) none
  }
  wellFormed := ⟨rfl, addressable, ⟨Int.le_refl 0, Int.natCast_succ_pos capacity⟩,
    ⟨Int.le_refl 0, Int.natCast_succ_pos capacity⟩, by simp, by simp⟩

theorem addtail_wellFormed (ring : RingQueue α capacity) (ptr : Option α) :
    (ring.queue.hfQueueAddtail ptr).2.WellFormed capacity := by
  have bounded := ring.wellFormed.contents_length_le
  by_cases room : ring.queue.contents.length < capacity
  · exact (Queue.hfQueueAddtail_room ring.wellFormed ptr room).2.1
  · rw [Queue.hfQueueAddtail_full ring.wellFormed ptr (by omega)]
    exact ring.wellFormed

theorem remhead_wellFormed (ring : RingQueue α capacity) :
    ring.queue.hfQueueRemhead.2.WellFormed capacity := by
  cases stored : ring.queue.contents with
  | nil =>
      rw [Queue.hfQueueRemhead_empty ring.wellFormed stored]
      exact ring.wellFormed
  | cons first rest => exact (Queue.hfQueueRemhead_cons ring.wellFormed stored).2.1

theorem swap_wellFormed (ring : RingQueue α capacity) (first second : Nat) :
    (ring.queue.hfQueueSwap first second).2.WellFormed capacity := by
  by_cases bounds : first < ring.queue.contents.length ∧ second < ring.queue.contents.length
  · exact (Queue.hfQueueSwap_inside ring.wellFormed bounds.1 bounds.2).2.1
  · have past : ring.queue.contents.length ≤ first ∨ ring.queue.contents.length ≤ second := by omega
    rw [Queue.hfQueueSwap_outside ring.wellFormed past]
    exact ring.wellFormed

def hfQueueCount (ring : RingQueue α capacity) : Nat := ring.queue.hfQueueCount.toNat

def hfQueueAddtail (ring : RingQueue α capacity) (ptr : Option α) : Int × RingQueue α capacity :=
  ((ring.queue.hfQueueAddtail ptr).1, ⟨_, ring.addtail_wellFormed ptr⟩)

def hfQueueRemhead (ring : RingQueue α capacity) : Option α × RingQueue α capacity :=
  (ring.queue.hfQueueRemhead.1, ⟨_, ring.remhead_wellFormed⟩)

def hfQueueGet (ring : RingQueue α capacity) (elem : Nat) : Option α := ring.queue.hfQueueGet elem

def hfQueueSwap (ring : RingQueue α capacity) (elem1 elem2 : Nat) : Int × RingQueue α capacity :=
  ((ring.queue.hfQueueSwap elem1 elem2).1, ⟨_, ring.swap_wellFormed elem1 elem2⟩)

theorem contents_length_le (ring : RingQueue α capacity) : ring.contents.length ≤ capacity :=
  ring.wellFormed.contents_length_le

@[simp] theorem hfQueueCount_eq (ring : RingQueue α capacity) :
    ring.hfQueueCount = ring.contents.length := by
  rw [hfQueueCount, Queue.hfQueueCount, ring.wellFormed.elem_eq_length, Int.toNat_natCast]
  rfl

theorem hfQueueAddtail_room (ring : RingQueue α capacity) (ptr : Option α)
    (room : ring.contents.length < capacity) :
    ∃ next, ring.hfQueueAddtail ptr = (0, next) ∧ next.contents = ring.contents ++ [ptr] := by
  obtain ⟨code, valid, next⟩ := Queue.hfQueueAddtail_room ring.wellFormed ptr room
  exact ⟨⟨_, valid⟩, by simp [hfQueueAddtail, code], next⟩

theorem hfQueueRemhead_nil (ring : RingQueue α capacity) (empty : ring.contents = []) :
    ring.hfQueueRemhead = (none, ring) := by
  have unchanged := Queue.hfQueueRemhead_empty ring.wellFormed empty
  simp [hfQueueRemhead, unchanged]

theorem hfQueueRemhead_cons (ring : RingQueue α capacity) {first : Option α}
    {rest : List (Option α)} (stored : ring.contents = first :: rest) :
    ∃ next, ring.hfQueueRemhead = (first, next) ∧ next.contents = rest := by
  obtain ⟨pointer, valid, next⟩ := Queue.hfQueueRemhead_cons ring.wellFormed stored
  exact ⟨⟨_, valid⟩, by simp [hfQueueRemhead, pointer], next⟩

theorem hfQueueGet_eq (ring : RingQueue α capacity) (elem : Nat) :
    ring.hfQueueGet elem = ring.contents.getD elem none :=
  Queue.hfQueueGet_eq ring.wellFormed elem

theorem hfQueueSwap_inside (ring : RingQueue α capacity) {first second : Nat}
    (firstBound : first < ring.contents.length) (secondBound : second < ring.contents.length) :
    ∃ next, ring.hfQueueSwap first second = (0, next) ∧
      next.contents = swapCells none ring.contents first second := by
  obtain ⟨code, valid, next⟩ := Queue.hfQueueSwap_inside ring.wellFormed firstBound secondBound
  exact ⟨⟨_, valid⟩, by simp [hfQueueSwap, code], next⟩

section Search

variable [DecidableEq α]

/-- The search loop `for (i = 0; i < k; i++) if (hf_queue_get(q, i) == task) break;`. -/
def searchFrom (ring : RingQueue α capacity) (task : α) : Nat → Nat → Nat
  | 0, index => index
  | fuel + 1, index =>
      if ring.hfQueueGet index = some task then index else searchFrom ring task fuel (index + 1)

def search (ring : RingQueue α capacity) (task : α) : Nat :=
  ring.searchFrom task ring.hfQueueCount 0

theorem searchFrom_eq (ring : RingQueue α capacity) (task : α) :
    ∀ fuel index, index + fuel = ring.contents.length →
      ring.searchFrom task fuel index = index + (ring.contents.drop index).idxOf (some task) := by
  intro fuel
  induction fuel with
  | zero =>
      intro index finished
      simp [searchFrom, List.drop_of_length_le (show ring.contents.length ≤ index by omega)]
  | succ fuel ih =>
      intro index remaining
      have bound : index < ring.contents.length := by omega
      rw [searchFrom, hfQueueGet_eq, List.getD_eq_getElem _ _ bound,
        List.drop_eq_getElem_cons bound, List.idxOf_cons]
      by_cases found : ring.contents[index] = some task
      · simp [found]
      · rw [if_neg found, ih (index + 1) (by omega)]
        have differs : (ring.contents[index] == some task) = false := beq_false_of_ne found
        rw [differs, cond_false]
        omega

theorem search_eq (ring : RingQueue α capacity) (task : α) :
    ring.search task = ring.contents.idxOf (some task) := by
  rw [search, hfQueueCount_eq, searchFrom_eq ring task _ 0 (by omega)]
  simp

end Search

/-- The loop `for (j = i; j > 0; j--) hf_queue_swap(q, j, j-1)`, stopped by a swap that fails. -/
def walkToHead : Nat → RingQueue α capacity → Option (RingQueue α capacity)
  | 0, ring => some ring
  | index + 1, ring =>
      match ring.hfQueueSwap (index + 1) index with
      | (code, next) => if code = 0 then walkToHead index next else none

theorem walkToHead_eq (index : Nat) :
    ∀ ring : RingQueue α capacity, index < ring.contents.length →
      ∃ next, walkToHead index ring = some next ∧
        next.contents = walkToFront none index ring.contents := by
  induction index with
  | zero => exact fun ring _ => ⟨ring, rfl, rfl⟩
  | succ index ih =>
      intro ring bound
      obtain ⟨swapped, swap, contents⟩ :=
        ring.hfQueueSwap_inside bound (show index < ring.contents.length by omega)
      obtain ⟨next, walked, final⟩ := ih swapped (by rw [contents, swapCells_length]; omega)
      refine ⟨next, by simpa [walkToHead, swap] using walked, ?_⟩
      rw [final, contents, walkToFront]

end RingQueue

end Hellfire

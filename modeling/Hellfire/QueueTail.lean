import Hellfire.Queue

/-!
Removal of the newest element by `hf_queue_remtail`, which reads the cell at the tail index
before it moves the index back, and moves it below zero from the first cell.
-/

namespace Hellfire

open CircularWindow Machine

inductive DequeOp (α : Type)
  | addtail (ptr : Option α)
  | remhead
  | remtail
deriving DecidableEq, Repr

structure Deque (α : Type) where
  queue : Queue α
  items : List (Option α)
deriving DecidableEq, Repr

namespace Queue

variable {α : Type} {queue : Queue α} {capacity : Nat}

/-- The tail is not at the first cell, and the cell behind the newest element holds the same
pointer. -/
def TailRepeats (queue : Queue α) : Prop :=
  queue.tail ≠ 0 ∧ queue.cell queue.tail = queue.cell (queue.tail - 1)

instance [DecidableEq α] (queue : Queue α) : Decidable queue.TailRepeats :=
  inferInstanceAs (Decidable (_ ∧ _))

structure RemovesNewest (queue : Queue α) (rest : List (Option α)) (newest : Option α) : Prop where
  pointer : queue.hfQueueRemtail.1 = newest
  contents : queue.hfQueueRemtail.2.contents = rest
  headRange : 0 ≤ queue.hfQueueRemtail.2.head ∧
    queue.hfQueueRemtail.2.head < queue.hfQueueRemtail.2.size
  tailRange : 0 ≤ queue.hfQueueRemtail.2.tail ∧
    queue.hfQueueRemtail.2.tail < queue.hfQueueRemtail.2.size

theorem hfQueueRemtail_empty (valid : queue.WellFormed capacity) (empty : queue.contents = []) :
    queue.hfQueueRemtail = (none, queue) := by
  have length := valid.elem_eq_length
  have elemCases := valid.elem_cases
  have sizeEq := valid.sizeEq
  obtain ⟨headLower, headUpper⟩ := valid.headRange
  obtain ⟨tailLower, tailUpper⟩ := valid.tailRange
  rw [empty] at length
  simp only [List.length_nil, Int.ofNat_zero] at length
  unfold hfQueueRemtail
  rw [if_neg (by omega), if_pos (by omega)]

theorem hfQueueRemtail_eq (valid : queue.WellFormed capacity) (present : queue.contents ≠ []) :
    queue.hfQueueRemtail = (queue.cell queue.tail, { queue with
      tail := if queue.tail = 0 then -1 else queue.tail - 1, elem := queue.elem - 1 }) := by
  have positive := List.length_pos_iff.mpr present
  have length := valid.elem_eq_length
  have bounded := valid.contents_length_le
  have elemCases := valid.elem_cases
  have sizeEq := valid.sizeEq
  have addressable := valid.addressable
  obtain ⟨headLower, headUpper⟩ := valid.headRange
  obtain ⟨tailLower, tailUpper⟩ := valid.tailRange
  have elemNext : int32 (queue.elem - 1) = queue.elem - 1 :=
    int32_of_range (by omega) (by omega)
  have tailNext : (int32 (queue.tail - 1)).tmod queue.size =
      if queue.tail = 0 then -1 else queue.tail - 1 := by
    rw [int32_of_range (by omega) (by omega)]
    split
    · rename_i first
      rw [first, Int.zero_sub, Int.neg_tmod, Int.tmod_eq_of_lt (by omega) (by omega)]
    · exact Int.tmod_eq_of_lt (by omega) (by omega)
  unfold hfQueueRemtail
  rw [if_neg (by omega), if_neg (by omega), elemNext, tailNext]

/-- In a queue whose newest pointer is not in the last cell, `hf_queue_remtail` leaves the others
behind, but returns the pointer of the cell at the tail. -/
theorem hfQueueRemtail_within (valid : queue.WellFormed capacity) {rest : List (Option α)}
    {newest : Option α} (stored : queue.contents = rest ++ [newest]) (inner : queue.tail ≠ 0) :
    newest = queue.cell (queue.tail - 1) ∧ queue.hfQueueRemtail.2.WellFormed capacity ∧
      queue.hfQueueRemtail.2.contents = rest := by
  have length := valid.elem_eq_length
  have bounded := valid.contents_length_le
  have elemCases := valid.elem_cases
  have sizeEq := valid.sizeEq
  have cells := valid.cells
  obtain ⟨headLower, headUpper⟩ := valid.headRange
  obtain ⟨tailLower, tailUpper⟩ := valid.tailRange
  have count : queue.contents.length = rest.length + 1 := by simp [stored]
  have elemNat : queue.elem.toNat = rest.length + 1 := by omega
  have last : position queue.data.length queue.head.toNat rest.length = (queue.tail - 1).toNat := by
    rw [position, cells]
    rcases elemCases with ⟨ordered, elemEq⟩ | ⟨wrapped, elemEq⟩
    · rw [wrap_of_lt (by omega)]
      omega
    · rw [wrap_of_ge (by omega) (by omega)]
      omega
  have parts := window_concat none queue.data queue.head.toNat rest.length
  rw [last] at parts
  rw [contents, elemNat, parts] at stored
  obtain ⟨others, newestEq⟩ := List.append_inj' stored rfl
  rw [List.cons.injEq] at newestEq
  have cellEq : newest = queue.cell (queue.tail - 1) := by
    rw [cell, if_neg (by omega), newestEq.1]
  refine ⟨cellEq, ?_⟩
  rw [hfQueueRemtail_eq valid (by intro none; rw [none] at count; simp at count), if_neg inner]
  have lessElem : (queue.elem - 1).toNat = rest.length := by omega
  constructor
  · refine { valid with tailRange := ?_, elemEq := ?_ }
    · simp only
      omega
    · simp only
      rcases elemCases with ⟨ordered, elemEq⟩ | ⟨wrapped, elemEq⟩
      · rw [Int.emod_eq_of_lt (by omega) (by omega)]
        omega
      · rw [← Int.add_emod_right, Int.emod_eq_of_lt (by omega) (by omega)]
        omega
  · simp only [contents, lessElem]
    exact others

theorem removesNewest_iff (valid : queue.WellFormed capacity) {rest : List (Option α)}
    {newest : Option α} (stored : queue.contents = rest ++ [newest]) :
    queue.RemovesNewest rest newest ↔ queue.TailRepeats := by
  have present : queue.contents ≠ [] := by simp [stored]
  have removed := hfQueueRemtail_eq valid present
  by_cases first : queue.tail = 0
  · refine iff_of_false (fun removes => ?_) fun repeats => repeats.1 first
    have lower := removes.tailRange.1
    rw [removed, if_pos first] at lower
    simp at lower
  · obtain ⟨newestEq, after, others⟩ := hfQueueRemtail_within valid stored first
    rw [TailRepeats, newestEq]
    constructor
    · intro removes
      refine ⟨first, ?_⟩
      rw [← removes.pointer, removed]
    · intro repeats
      refine ⟨?_, others, after.headRange, after.tailRange⟩
      rw [removed]
      exact repeats.2

theorem hfQueueAddtail_indices {ptr : Option α} {added : Queue α}
    (done : queue.hfQueueAddtail ptr = (0, added)) :
    added.head = queue.head ∧ added.tail = (int32 (queue.tail + 1)).tmod queue.size := by
  simp only [hfQueueAddtail] at done
  split at done
  · simp at done
  · split at done
    · simp at done
    · obtain ⟨_, rfl⟩ := Prod.mk.inj done
      exact ⟨store_head _ _ _, rfl⟩

end Queue

namespace Deque

variable {α : Type} {capacity : Nat}

def step : DequeOp α → Deque α → Except Empty (Deque α)
  | .addtail ptr, deque =>
      let added := deque.queue.hfQueueAddtail ptr
      .ok ⟨added.2, if added.1 = 0 then deque.items ++ [ptr] else deque.items⟩
  | .remhead, deque => .ok ⟨deque.queue.hfQueueRemhead.2, deque.items.tail⟩
  | .remtail, deque => .ok ⟨deque.queue.hfQueueRemtail.2, deque.items.dropLast⟩

def safe : DequeOp α → Deque α → Prop
  | .remtail, deque => deque.items ≠ [] → deque.queue.TailRepeats
  | _, _ => True

instance [DecidableEq α] (op : DequeOp α) (deque : Deque α) : Decidable (safe op deque) :=
  match op with
  | .remtail => inferInstanceAs (Decidable (deque.items ≠ [] → deque.queue.TailRepeats))
  | .addtail _ | .remhead => .isTrue trivial

structure Agrees (deque : Deque α) (capacity : Nat) : Prop where
  valid : deque.queue.WellFormed capacity
  stored : deque.queue.contents = deque.items

theorem Agrees.addtail {deque : Deque α} (agrees : deque.Agrees capacity) (ptr : Option α) :
    Agrees ⟨(deque.queue.hfQueueAddtail ptr).2, if (deque.queue.hfQueueAddtail ptr).1 = 0 then
      deque.items ++ [ptr] else deque.items⟩ capacity := by
  have bounded := agrees.valid.contents_length_le
  by_cases room : deque.queue.contents.length < capacity
  · obtain ⟨code, valid, stored⟩ := Queue.hfQueueAddtail_room agrees.valid ptr room
    exact ⟨valid, by rw [stored, agrees.stored, if_pos code]⟩
  · rw [Queue.hfQueueAddtail_full agrees.valid ptr (by omega)]
    exact ⟨agrees.valid, agrees.stored⟩

theorem Agrees.remhead {deque : Deque α} (agrees : deque.Agrees capacity) :
    Agrees ⟨deque.queue.hfQueueRemhead.2, deque.items.tail⟩ capacity := by
  cases stored : deque.queue.contents with
  | nil =>
      have none : deque.items = [] := agrees.stored.symm.trans stored
      rw [Queue.hfQueueRemhead_empty agrees.valid stored]
      exact ⟨agrees.valid, by rw [none]; exact stored⟩
  | cons first rest =>
      obtain ⟨_, valid, others⟩ := Queue.hfQueueRemhead_cons agrees.valid stored
      exact ⟨valid, by rw [others, ← agrees.stored, stored]; rfl⟩

theorem Agrees.remtail {deque : Deque α} (agrees : deque.Agrees capacity)
    (admitted : safe .remtail deque) :
    Agrees ⟨deque.queue.hfQueueRemtail.2, deque.items.dropLast⟩ capacity := by
  rcases List.eq_nil_or_concat' deque.items with none | ⟨rest, newest, some⟩
  · rw [Queue.hfQueueRemtail_empty agrees.valid (agrees.stored.trans none)]
    exact ⟨agrees.valid, by rw [agrees.stored, none]; rfl⟩
  · have repeats := admitted (by simp [some])
    obtain ⟨_, valid, others⟩ :=
      Queue.hfQueueRemtail_within agrees.valid (agrees.stored.trans some) repeats.1
    exact ⟨valid, by rw [others, some, List.dropLast_concat]⟩

theorem Agrees.step {op : DequeOp α} {deque after : Deque α} (agrees : deque.Agrees capacity)
    (admitted : safe op deque) (stepped : Deque.step op deque = .ok after) :
    after.Agrees capacity := by
  cases op with
  | addtail ptr =>
      cases stepped
      exact agrees.addtail ptr
  | remhead =>
      cases stepped
      exact agrees.remhead
  | remtail =>
      cases stepped
      exact agrees.remtail admitted

/-- `hf_queue_remtail` removes the newest pointer exactly when the tail index is not zero and the
cell that it points to happens to hold the same pointer, in every run in which it was called on
such queues only. -/
theorem hfQueueRemtail_newest (capacity : Nat) (fits : capacity + 1 < 2147483648)
    (structBlock : Bool) (hfMalloc : Nat → Option (Nat → Option α)) (queue : Queue α)
    (created : Queue.hfQueueCreate structBlock hfMalloc capacity = some queue)
    (allocated : queue.data.length = capacity + 1) {deque : Deque α}
    (reached : Reaches Deque.step safe ⟨queue, []⟩ deque) :
    (deque.queue.contents = deque.items ∧
      (0 ≤ deque.queue.head ∧ deque.queue.head < deque.queue.size) ∧
      0 ≤ deque.queue.tail ∧ deque.queue.tail < deque.queue.size) ∧
    (∀ rest newest, deque.items = rest ++ [newest] →
      (deque.queue.RemovesNewest rest newest ↔ deque.queue.TailRepeats)) ∧
    ∀ ptr added, deque.queue.hfQueueAddtail ptr = (0, added) →
      ((added.RemovesNewest deque.items ptr ∧ added.hfQueueRemtail.2.head = deque.queue.head ∧
          added.hfQueueRemtail.2.tail = deque.queue.tail ∧
          added.hfQueueRemtail.2.elem = deque.queue.elem) ↔ added.TailRepeats) := by
  obtain ⟨valid, empty⟩ := Queue.hfQueueCreate_wellFormed fits created allocated
  have agrees : deque.Agrees capacity := reached.invariant (fun state => state.Agrees capacity)
    ⟨valid, empty⟩ fun _ _ _ kept admitted stepped => kept.step admitted stepped
  refine ⟨⟨agrees.stored, agrees.valid.headRange, agrees.valid.tailRange⟩, ?_, ?_⟩
  · intro rest newest items
    exact Queue.removesNewest_iff agrees.valid (agrees.stored.trans items)
  · intro ptr added addedEq
    have room : deque.queue.contents.length < capacity := by
      have bounded := agrees.valid.contents_length_le
      by_contra none
      rw [Queue.hfQueueAddtail_full agrees.valid ptr (by omega)] at addedEq
      simp at addedEq
    obtain ⟨_, addedValid, stored⟩ := Queue.hfQueueAddtail_room agrees.valid ptr room
    rw [addedEq] at addedValid stored
    simp only at addedValid stored
    rw [← agrees.stored, Queue.removesNewest_iff addedValid stored]
    refine and_iff_left_of_imp fun repeats => ?_
    have present : added.contents ≠ [] := by simp [stored]
    have length := congrArg List.length stored
    rw [List.length_append, List.length_singleton] at length
    have elem := agrees.valid.elem_eq_length
    have addedElem := addedValid.elem_eq_length
    obtain ⟨head, tail⟩ := Queue.hfQueueAddtail_indices addedEq
    obtain ⟨tailLower, tailUpper⟩ := agrees.valid.tailRange
    have sizeEq := agrees.valid.sizeEq
    have inner := repeats.1
    rw [agrees.valid.next_eq tailLower tailUpper] at tail
    rw [Queue.hfQueueRemtail_eq addedValid present, if_neg inner]
    refine ⟨head, ?_, by simp only; omega⟩
    -- the tail moved to the next cell, since it is not at the first one now
    by_cases last : deque.queue.tail.toNat + 1 < capacity + 1
    · rw [wrap_of_lt last] at tail
      simp only
      omega
    · rw [wrap_of_ge (by omega) (by omega)] at tail
      omega

section Cells

def newQueue (word : Option Nat) : Queue Nat := ⟨4, 0, 0, 0, List.replicate 4 word⟩

theorem newQueue_created (word : Option Nat) :
    Queue.hfQueueCreate true (fun _ => some fun _ => word) (3 : Nat) = some (newQueue word) :=
  rfl

theorem hfQueueRemtail_newest_three :
    (outcome step [.addtail (some 5), .remtail, .addtail (some 5)]
      ⟨newQueue (some 5), []⟩).queue.RemovesNewest [] (some 5) := by
  have reached : Reaches step safe ⟨newQueue (some 5), []⟩
      (outcome step [.addtail (some 5), .remtail, .addtail (some 5)] ⟨newQueue (some 5), []⟩) :=
    outcome_reaches _ _ (by decide) (by decide)
  have removes := (hfQueueRemtail_newest 3 (by decide) true (fun _ => some fun _ => some 5)
    (newQueue (some 5)) (newQueue_created _) rfl reached).2.1 [] (some 5) (by decide)
  exact removes.mpr (by decide)

/-- The first pointer of a new queue is not returned, but what the memory held behind it. -/
theorem remtail_returns_stale_cell :
    ∃ (queue : Queue Nat) (deque : Deque Nat),
      Queue.hfQueueCreate true (fun _ => some fun _ => none) (3 : Nat) = some queue ∧
      Reaches step safe ⟨queue, []⟩ deque ∧ deque.items = [some 5] ∧
      deque.queue.hfQueueRemtail.1 = none ∧ ¬deque.queue.RemovesNewest [] (some 5) := by
  refine ⟨newQueue none, outcome step [.addtail (some 5)] ⟨newQueue none, []⟩, newQueue_created _,
    outcome_reaches _ _ (by decide) (by decide), by decide, by decide, fun removes => ?_⟩
  exact absurd removes.pointer (by decide)

end Cells

end Deque

end Hellfire

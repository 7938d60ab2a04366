import Hellfire.Library.CircularWindow
import Hellfire.Library.ListSwap
import Hellfire.Library.Machine
import Hellfire.QueueCore

/-!
Correctness of the ring queue: with its indices in range, a queue created for
`capacity` elements is a list of at most `capacity` pointers, oldest first.
-/

namespace Hellfire

open CircularWindow ListSwap

theorem wrap_of_lt {value size : Nat} (bound : value < size) : value % size = value :=
  Nat.mod_eq_of_lt bound

theorem wrap_of_ge {value size : Nat} (lower : size ≤ value) (upper : value < size + size) :
    value % size = value - size := by
  rw [Nat.mod_eq_sub_mod lower, Nat.mod_eq_of_lt (by omega)]

namespace Queue

variable {α : Type}

structure WellFormed (queue : Queue α) (capacity : Nat) : Prop where
  sizeEq : queue.size = capacity + 1
  addressable : capacity + 1 < 1073741824
  headRange : 0 ≤ queue.head ∧ queue.head < queue.size
  tailRange : 0 ≤ queue.tail ∧ queue.tail < queue.size
  elemEq : queue.elem = (queue.tail - queue.head) % queue.size
  cells : queue.data.length = capacity + 1

def contents (queue : Queue α) : List (Option α) :=
  window none queue.data queue.head.toNat queue.elem.toNat

@[simp] theorem store_head (queue : Queue α) (index : Int) (ptr : Option α) :
    (queue.store index ptr).head = queue.head := by
  unfold store
  split <;> rfl

@[simp] theorem store_size (queue : Queue α) (index : Int) (ptr : Option α) :
    (queue.store index ptr).size = queue.size := by
  unfold store
  split <;> rfl

theorem contents_length (queue : Queue α) : queue.contents.length = queue.elem.toNat := by
  simp [contents]

namespace WellFormed

variable {queue : Queue α} {capacity : Nat}

theorem elem_nonneg (valid : queue.WellFormed capacity) : 0 ≤ queue.elem := by
  rw [valid.elemEq]
  exact Int.emod_nonneg _ (by have := valid.sizeEq; omega)

theorem elem_le (valid : queue.WellFormed capacity) : queue.elem ≤ capacity := by
  have bound := Int.emod_lt_of_pos (queue.tail - queue.head)
    (show 0 < queue.size by have := valid.sizeEq; omega)
  have sizeEq := valid.sizeEq
  rw [valid.elemEq]
  omega

theorem elem_cases (valid : queue.WellFormed capacity) :
    (queue.head ≤ queue.tail ∧ queue.elem = queue.tail - queue.head) ∨
      (queue.tail < queue.head ∧ queue.elem = queue.tail - queue.head + queue.size) := by
  obtain ⟨headLower, headUpper⟩ := valid.headRange
  obtain ⟨tailLower, tailUpper⟩ := valid.tailRange
  by_cases ordered : queue.head ≤ queue.tail
  · left
    refine ⟨ordered, ?_⟩
    rw [valid.elemEq]
    exact Int.emod_eq_of_lt (by omega) (by omega)
  · right
    refine ⟨by omega, ?_⟩
    rw [valid.elemEq, ← Int.add_emod_right]
    exact Int.emod_eq_of_lt (by omega) (by omega)

theorem contents_length_le (valid : queue.WellFormed capacity) :
    queue.contents.length ≤ capacity := by
  have := valid.elem_le
  rw [contents_length]
  omega

theorem elem_eq_length (valid : queue.WellFormed capacity) :
    queue.elem = queue.contents.length := by
  have := valid.elem_nonneg
  rw [contents_length]
  omega

theorem tail_position (valid : queue.WellFormed capacity) :
    queue.tail.toNat = position queue.data.length queue.head.toNat queue.elem.toNat := by
  have sizeEq := valid.sizeEq
  obtain ⟨headLower, headUpper⟩ := valid.headRange
  obtain ⟨tailLower, tailUpper⟩ := valid.tailRange
  rw [valid.cells, position]
  rcases valid.elem_cases with ⟨ordered, elemEq⟩ | ⟨wrapped, elemEq⟩
  · rw [wrap_of_lt (by omega)]
    omega
  · rw [wrap_of_ge (by omega) (by omega)]
    omega

theorem slot_eq (valid : queue.WellFormed capacity) {index : Nat} (bound : index < capacity + 1) :
    queue.slot index = (position queue.data.length queue.head.toNat index : Nat) := by
  have sizeEq := valid.sizeEq
  have addressable := valid.addressable
  obtain ⟨headLower, headUpper⟩ := valid.headRange
  have sum : queue.head + index = ((queue.head.toNat + index : Nat) : Int) := by omega
  have size : queue.size = ((capacity + 1 : Nat) : Int) := by omega
  rw [slot, int32_of_range (by omega) (by omega), sum, size, position, valid.cells]
  rfl

theorem next_eq (valid : queue.WellFormed capacity) {index : Int}
    (lower : 0 ≤ index) (upper : index < queue.size) :
    (int32 (index + 1)).tmod queue.size = ((index.toNat + 1) % (capacity + 1) : Nat) := by
  have sizeEq := valid.sizeEq
  have addressable := valid.addressable
  have sum : index + 1 = ((index.toNat + 1 : Nat) : Int) := by omega
  have size : queue.size = ((capacity + 1 : Nat) : Int) := by omega
  rw [int32_of_range (by omega) (by omega), sum, size]
  rfl

theorem missing_eq (valid : queue.WellFormed capacity) (index : Nat) :
    queue.missing index = decide (queue.contents.length ≤ index) := by
  have sizeEq := valid.sizeEq
  have length := valid.elem_eq_length
  have cases := valid.elem_cases
  simp only [missing]
  rw [Bool.eq_iff_iff]
  simp only [Bool.or_eq_true, decide_eq_true_eq]
  omega

theorem cell_slot (valid : queue.WellFormed capacity) {index : Nat}
    (bound : index < queue.contents.length) :
    queue.cell (queue.slot index) = queue.contents.getD index none := by
  have length := valid.contents_length_le
  have elem := contents_length queue
  rw [valid.slot_eq (by omega), cell, if_neg (by omega), Int.toNat_natCast, contents,
    window_getD _ _ _ _ _ (by omega)]

theorem store_slot (valid : queue.WellFormed capacity) {index : Nat} (ptr : Option α)
    (bound : index < queue.contents.length) :
    (queue.store (queue.slot index) ptr).WellFormed capacity ∧
      (queue.store (queue.slot index) ptr).contents = queue.contents.set index ptr := by
  have length := valid.contents_length_le
  have elem := contents_length queue
  have cells := valid.cells
  rw [valid.slot_eq (by omega), store, if_neg (by omega), Int.toNat_natCast]
  constructor
  · exact { valid with cells := by simpa using valid.cells }
  · simp only [contents]
    exact window_set none queue.data queue.head.toNat queue.elem.toNat index ptr
      (by omega) (by omega)

end WellFormed

theorem hfQueueAddtail_full {queue : Queue α} {capacity : Nat} (valid : queue.WellFormed capacity)
    (ptr : Option α) (full : queue.contents.length = capacity) :
    queue.hfQueueAddtail ptr = (-1, queue) := by
  have sizeEq := valid.sizeEq
  have length := valid.elem_eq_length
  have cases := valid.elem_cases
  obtain ⟨headLower, headUpper⟩ := valid.headRange
  obtain ⟨tailLower, tailUpper⟩ := valid.tailRange
  have meets : (int32 (queue.tail + 1)).tmod queue.size = queue.head := by
    rw [valid.next_eq tailLower tailUpper]
    by_cases last : queue.tail.toNat + 1 < capacity + 1
    · rw [wrap_of_lt last]
      omega
    · rw [wrap_of_ge (by omega) (by omega)]
      omega
  unfold hfQueueAddtail
  rw [if_neg (by omega)]
  simp [meets]

theorem hfQueueAddtail_room {queue : Queue α} {capacity : Nat} (valid : queue.WellFormed capacity)
    (ptr : Option α) (room : queue.contents.length < capacity) :
    (queue.hfQueueAddtail ptr).1 = 0 ∧ (queue.hfQueueAddtail ptr).2.WellFormed capacity ∧
      (queue.hfQueueAddtail ptr).2.contents = queue.contents ++ [ptr] := by
  have sizeEq := valid.sizeEq
  have addressable := valid.addressable
  have length := valid.elem_eq_length
  have elemCases := valid.elem_cases
  have cells := valid.cells
  obtain ⟨headLower, headUpper⟩ := valid.headRange
  obtain ⟨tailLower, tailUpper⟩ := valid.tailRange
  have nextEq := valid.next_eq tailLower tailUpper
  have nextCases : (queue.tail.toNat + 1) % (capacity + 1) =
      if queue.tail.toNat + 1 < capacity + 1 then queue.tail.toNat + 1 else 0 := by
    split
    · exact wrap_of_lt ‹_›
    · rw [wrap_of_ge (by omega) (by omega)]
      omega
  rw [nextCases] at nextEq
  have apart : (int32 (queue.tail + 1)).tmod queue.size ≠ queue.head := by
    rw [nextEq]
    split <;> omega
  have elemNext : int32 (queue.elem + 1) = queue.elem + 1 :=
    int32_of_range (by omega) (by omega)
  have result : queue.hfQueueAddtail ptr =
      (0, { queue.store queue.tail ptr with
        tail := (int32 (queue.tail + 1)).tmod queue.size, elem := int32 (queue.elem + 1) }) := by
    unfold hfQueueAddtail
    rw [if_neg (by omega)]
    simp [apart]
  rw [result]
  simp only [store, if_neg (show ¬queue.tail < 0 by omega)]
  refine ⟨trivial, ?_, ?_⟩
  · refine { valid with tailRange := ?_, elemEq := ?_, cells := by simpa using valid.cells }
    · simp only [nextEq]
      split <;> omega
    · simp only [nextEq, elemNext]
      rcases elemCases with ⟨ordered, elemEq⟩ | ⟨wrapped, elemEq⟩
      · split
        · rw [Int.emod_eq_of_lt] <;> omega
        · rw [← Int.add_emod_right, Int.emod_eq_of_lt] <;> omega
      · split
        · rw [← Int.add_emod_right, Int.emod_eq_of_lt] <;> omega
        · omega
  · have elemNat : (queue.elem + 1).toNat = queue.elem.toNat + 1 := by omega
    simp only [contents, elemNext, elemNat, valid.tail_position]
    exact window_append none queue.data queue.head.toNat queue.elem.toNat ptr (by omega)

theorem hfQueueRemhead_empty {queue : Queue α} {capacity : Nat} (valid : queue.WellFormed capacity)
    (empty : queue.contents = []) : queue.hfQueueRemhead = (none, queue) := by
  have length := valid.elem_eq_length
  have elemCases := valid.elem_cases
  have sizeEq := valid.sizeEq
  obtain ⟨headLower, headUpper⟩ := valid.headRange
  obtain ⟨tailLower, tailUpper⟩ := valid.tailRange
  rw [empty] at length
  simp only [List.length_nil, Int.ofNat_zero] at length
  unfold hfQueueRemhead
  rw [if_neg (by omega), if_pos (by omega)]

theorem hfQueueRemhead_cons {queue : Queue α} {capacity : Nat} (valid : queue.WellFormed capacity)
    {first : Option α} {rest : List (Option α)} (stored : queue.contents = first :: rest) :
    queue.hfQueueRemhead.1 = first ∧ queue.hfQueueRemhead.2.WellFormed capacity ∧
      queue.hfQueueRemhead.2.contents = rest := by
  have sizeEq := valid.sizeEq
  have addressable := valid.addressable
  have length := valid.elem_eq_length
  have elemLe := valid.elem_le
  have elemCases := valid.elem_cases
  have cells := valid.cells
  obtain ⟨headLower, headUpper⟩ := valid.headRange
  obtain ⟨tailLower, tailUpper⟩ := valid.tailRange
  have some : queue.contents.length = rest.length + 1 := by simp [stored]
  have nextEq := valid.next_eq headLower headUpper
  have nextCases : (queue.head.toNat + 1) % (capacity + 1) =
      if queue.head.toNat + 1 < capacity + 1 then queue.head.toNat + 1 else 0 := by
    split
    · exact wrap_of_lt ‹_›
    · rw [wrap_of_ge (by omega) (by omega)]
      omega
  have elemNext : int32 (queue.elem - 1) = queue.elem - 1 :=
    int32_of_range (by omega) (by omega)
  have elemNat : queue.elem.toNat = (queue.elem - 1).toNat + 1 := by omega
  have headCell : queue.cell queue.head =
      queue.data.getD (position queue.data.length queue.head.toNat 0) none := by
    rw [cell, if_neg (by omega), position, cells, wrap_of_lt (by omega), Nat.add_zero]
  have unrolled : queue.contents = queue.cell queue.head ::
      window none queue.data ((queue.head.toNat + 1) % (capacity + 1)) (queue.elem - 1).toNat := by
    rw [contents, elemNat, window_advance, headCell, cells]
  rw [stored] at unrolled
  injection unrolled with firstEq restEq
  have result : queue.hfQueueRemhead = (queue.cell queue.head, { queue with
      head := (int32 (queue.head + 1)).tmod queue.size, elem := int32 (queue.elem - 1) }) := by
    unfold hfQueueRemhead
    rw [if_neg (by omega), if_neg (by omega)]
  rw [result]
  refine ⟨firstEq.symm, ?_, ?_⟩
  · rw [nextCases] at nextEq
    refine { valid with headRange := ?_, elemEq := ?_ }
    · simp only [nextEq]
      split <;> omega
    · simp only [nextEq, elemNext]
      rcases elemCases with ⟨ordered, elemEq⟩ | ⟨wrapped, elemEq⟩
      · split
        · rw [Int.emod_eq_of_lt] <;> omega
        · omega
      · split
        · rw [← Int.add_emod_right, Int.emod_eq_of_lt] <;> omega
        · rw [Int.emod_eq_of_lt] <;> omega
  · simp only [contents, nextEq, elemNext, Int.toNat_natCast]
    exact restEq.symm

theorem hfQueueGet_eq {queue : Queue α} {capacity : Nat} (valid : queue.WellFormed capacity)
    (index : Nat) : queue.hfQueueGet index = queue.contents.getD index none := by
  rw [hfQueueGet, valid.missing_eq]
  by_cases past : queue.contents.length ≤ index
  · simp [past]
  · simp only [past, decide_false, Bool.false_eq_true, if_false]
    exact valid.cell_slot (by omega)

theorem hfQueueSet_outside {queue : Queue α} {capacity : Nat} (valid : queue.WellFormed capacity)
    {index : Nat} (ptr : Option α) (past : queue.contents.length ≤ index) :
    queue.hfQueueSet index ptr = (-1, queue) := by
  simp [hfQueueSet, valid.missing_eq, past]

theorem hfQueueSet_inside {queue : Queue α} {capacity : Nat} (valid : queue.WellFormed capacity)
    {index : Nat} (ptr : Option α) (bound : index < queue.contents.length) :
    (queue.hfQueueSet index ptr).1 = 0 ∧ (queue.hfQueueSet index ptr).2.WellFormed capacity ∧
      (queue.hfQueueSet index ptr).2.contents = queue.contents.set index ptr := by
  have present : ¬queue.contents.length ≤ index := by omega
  simp only [hfQueueSet, valid.missing_eq, present, decide_false, Bool.false_eq_true, if_false]
  exact ⟨trivial, valid.store_slot ptr bound⟩

theorem hfQueueSwap_outside {queue : Queue α} {capacity : Nat} (valid : queue.WellFormed capacity)
    {first second : Nat}
    (past : queue.contents.length ≤ first ∨ queue.contents.length ≤ second) :
    queue.hfQueueSwap first second = (-1, queue) := by
  rcases past with past | past <;> simp [hfQueueSwap, valid.missing_eq, past]

theorem hfQueueSwap_inside {queue : Queue α} {capacity : Nat} (valid : queue.WellFormed capacity)
    {first second : Nat} (firstBound : first < queue.contents.length)
    (secondBound : second < queue.contents.length) :
    (queue.hfQueueSwap first second).1 = 0 ∧
      (queue.hfQueueSwap first second).2.WellFormed capacity ∧
      (queue.hfQueueSwap first second).2.contents = swapCells none queue.contents first second := by
  have firstPresent : ¬queue.contents.length ≤ first := by omega
  have secondPresent : ¬queue.contents.length ≤ second := by omega
  simp only [hfQueueSwap, valid.missing_eq, firstPresent, secondPresent, decide_false,
    Bool.or_self, Bool.false_eq_true, if_false]
  rw [valid.cell_slot firstBound, valid.cell_slot secondBound]
  obtain ⟨firstValid, firstContents⟩ :=
    valid.store_slot (queue.contents.getD second none) firstBound
  -- the second store computes its index from the same head and size
  have sameSlot : queue.slot second =
      (queue.store (queue.slot first) (queue.contents.getD second none)).slot second := by
    rw [slot, slot, store_head, store_size]
  have stillBound : second < (queue.store (queue.slot first)
      (queue.contents.getD second none)).contents.length := by
    rw [firstContents, List.length_set]
    exact secondBound
  obtain ⟨secondValid, secondContents⟩ :=
    firstValid.store_slot (queue.contents.getD first none) stillBound
  rw [sameSlot]
  refine ⟨trivial, secondValid, ?_⟩
  rw [secondContents, firstContents, swapCells]

theorem hfQueueCreate_wellFormed {structBlock : Bool} {hfMalloc : Nat → Option (Nat → Option α)}
    {capacity : Nat} {queue : Queue α} (fits : capacity + 1 < 2147483648)
    (created : hfQueueCreate structBlock hfMalloc capacity = some queue)
    (allocated : queue.data.length = capacity + 1) :
    queue.WellFormed capacity ∧ queue.contents = [] := by
  have cells : int32 ((capacity : Int) + 1) = capacity + 1 := int32_of_range (by omega) (by omega)
  simp only [hfQueueCreate, cells] at created
  split at created
  · split at created
    · cases created
    · simp only [Option.some.injEq] at created
      subst queue
      simp only [List.length_map, List.length_range] at allocated
      refine ⟨⟨rfl, by omega, ⟨Int.le_refl 0, ?_⟩, ⟨Int.le_refl 0, ?_⟩, by simp, ?_⟩, rfl⟩
      · exact Int.natCast_succ_pos capacity
      · exact Int.natCast_succ_pos capacity
      · simpa using allocated
  · cases created

end Queue

structure Fifo (α : Type) (capacity : Nat) where
  items : List (Option α)
  bounded : items.length ≤ capacity

inductive QueueOp (α : Type)
  | addtail (ptr : Option α)
  | remhead
  | get (elem : Nat)
  | set (elem : Nat) (ptr : Option α)
  | swap (elem1 elem2 : Nat)
  | count
deriving DecidableEq, Repr

inductive QueueReply (α : Type)
  | code (value : Int)
  | pointer (ptr : Option α)
deriving DecidableEq, Repr

def Queue.perform {α : Type} : QueueOp α → Queue α → QueueReply α × Queue α
  | .addtail ptr, queue => ((queue.hfQueueAddtail ptr).map .code id)
  | .remhead, queue => (queue.hfQueueRemhead.map .pointer id)
  | .get elem, queue => (.pointer (queue.hfQueueGet elem), queue)
  | .set elem ptr, queue => ((queue.hfQueueSet elem ptr).map .code id)
  | .swap elem1 elem2, queue => ((queue.hfQueueSwap elem1 elem2).map .code id)
  | .count, queue => (.code queue.hfQueueCount, queue)

namespace Fifo

variable {α : Type} {capacity : Nat}

def empty (capacity : Nat) : Fifo α capacity := ⟨[], Nat.zero_le _⟩

def addtail (fifo : Fifo α capacity) (ptr : Option α) : QueueReply α × Fifo α capacity :=
  if room : fifo.items.length < capacity then
    (.code 0, ⟨fifo.items ++ [ptr], by rw [List.length_append]; exact room⟩)
  else (.code (-1), fifo)

def remhead (fifo : Fifo α capacity) : QueueReply α × Fifo α capacity :=
  (.pointer (fifo.items.headD none), ⟨fifo.items.tail, by
    have := fifo.bounded
    simp only [List.length_tail]
    omega⟩)

def set (fifo : Fifo α capacity) (elem : Nat) (ptr : Option α) :
    QueueReply α × Fifo α capacity :=
  if elem < fifo.items.length then
    (.code 0, ⟨fifo.items.set elem ptr, by simpa using fifo.bounded⟩)
  else (.code (-1), fifo)

def swap (fifo : Fifo α capacity) (elem1 elem2 : Nat) : QueueReply α × Fifo α capacity :=
  if elem1 < fifo.items.length ∧ elem2 < fifo.items.length then
    (.code 0, ⟨swapCells none fifo.items elem1 elem2, by simpa using fifo.bounded⟩)
  else (.code (-1), fifo)

def perform : QueueOp α → Fifo α capacity → QueueReply α × Fifo α capacity
  | .addtail ptr, fifo => fifo.addtail ptr
  | .remhead, fifo => fifo.remhead
  | .get elem, fifo => (.pointer (fifo.items.getD elem none), fifo)
  | .set elem ptr, fifo => fifo.set elem ptr
  | .swap elem1 elem2, fifo => fifo.swap elem1 elem2
  | .count, fifo => (.code fifo.items.length, fifo)

end Fifo

def Represents {α : Type} {capacity : Nat} (queue : Queue α) (fifo : Fifo α capacity) : Prop :=
  queue.WellFormed capacity ∧ queue.contents = fifo.items

theorem perform_represents {α : Type} {capacity : Nat} (operation : QueueOp α) (queue : Queue α)
    (fifo : Fifo α capacity) (represents : Represents queue fifo) :
    (queue.perform operation).1 = (fifo.perform operation).1 ∧
      Represents (queue.perform operation).2 (fifo.perform operation).2 := by
  obtain ⟨valid, same⟩ := represents
  cases operation with
  | addtail ptr =>
      simp only [Queue.perform, Fifo.perform, Fifo.addtail, Prod.map_fst, Prod.map_snd, id]
      by_cases room : fifo.items.length < capacity
      · obtain ⟨code, nextValid, next⟩ := Queue.hfQueueAddtail_room valid ptr (by rwa [same])
        simp only [room, dif_pos, code]
        exact ⟨trivial, nextValid, by rw [next, same]⟩
      · have bounded := fifo.bounded
        rw [Queue.hfQueueAddtail_full valid ptr (by rw [same]; omega)]
        simp only [room, dif_neg, not_false_eq_true]
        exact ⟨trivial, valid, same⟩
  | remhead =>
      simp only [Queue.perform, Fifo.perform, Fifo.remhead, Prod.map_fst, Prod.map_snd, id]
      rcases fifo with ⟨items, bounded⟩
      cases items with
      | nil =>
          rw [Queue.hfQueueRemhead_empty valid same]
          exact ⟨rfl, valid, same⟩
      | cons first rest =>
          obtain ⟨pointer, nextValid, next⟩ := Queue.hfQueueRemhead_cons valid same
          exact ⟨by rw [pointer]; rfl, nextValid, next⟩
  | get elem =>
      simp only [Queue.perform, Fifo.perform]
      rw [Queue.hfQueueGet_eq valid, same]
      exact ⟨rfl, valid, same⟩
  | set elem ptr =>
      simp only [Queue.perform, Fifo.perform, Fifo.set, Prod.map_fst, Prod.map_snd, id]
      by_cases bound : elem < fifo.items.length
      · obtain ⟨code, nextValid, next⟩ := Queue.hfQueueSet_inside valid ptr (by rwa [same])
        simp only [bound, if_true, code]
        exact ⟨trivial, nextValid, by rw [next, same]⟩
      · rw [Queue.hfQueueSet_outside valid ptr (by rw [same]; omega)]
        simp only [bound, if_false]
        exact ⟨trivial, valid, same⟩
  | swap elem1 elem2 =>
      simp only [Queue.perform, Fifo.perform, Fifo.swap, Prod.map_fst, Prod.map_snd, id]
      by_cases bounds : elem1 < fifo.items.length ∧ elem2 < fifo.items.length
      · obtain ⟨code, nextValid, next⟩ := Queue.hfQueueSwap_inside valid
          (by rw [same]; exact bounds.1) (by rw [same]; exact bounds.2)
        simp only [bounds, and_self, if_true, code]
        exact ⟨trivial, nextValid, by rw [next, same]⟩
      · rw [Queue.hfQueueSwap_outside valid (by rw [same]; omega)]
        simp only [bounds, if_false]
        exact ⟨trivial, valid, same⟩
  | count =>
      simp only [Queue.perform, Fifo.perform, Queue.hfQueueCount]
      rw [valid.elem_eq_length, same]
      exact ⟨rfl, valid, same⟩

theorem perform_failed {α : Type} {capacity : Nat} (operation : QueueOp α) (queue : Queue α)
    (valid : queue.WellFormed capacity)
    (failed : (queue.perform operation).1 = .code (-1)) : (queue.perform operation).2 = queue := by
  cases operation with
  | addtail ptr =>
      by_cases room : queue.contents.length < capacity
      · simp [Queue.perform, (Queue.hfQueueAddtail_room valid ptr room).1] at failed
      · have := valid.contents_length_le
        simp [Queue.perform, Queue.hfQueueAddtail_full valid ptr (by omega)]
  | remhead => simp [Queue.perform] at failed
  | get elem => rfl
  | set elem ptr =>
      by_cases bound : elem < queue.contents.length
      · simp [Queue.perform, (Queue.hfQueueSet_inside valid ptr bound).1] at failed
      · have past : queue.contents.length ≤ elem := by omega
        simp [Queue.perform, Queue.hfQueueSet_outside valid ptr past]
  | swap elem1 elem2 =>
      by_cases bounds : elem1 < queue.contents.length ∧ elem2 < queue.contents.length
      · simp [Queue.perform, (Queue.hfQueueSwap_inside valid bounds.1 bounds.2).1] at failed
      · have past : queue.contents.length ≤ elem1 ∨ queue.contents.length ≤ elem2 := by omega
        simp [Queue.perform, Queue.hfQueueSwap_outside valid past]
  | count => rfl

namespace Queue

variable {α : Type} {capacity : Nat}

/-- A sequence of queue operations answers as the bounded list does, and the indices stay in range
with the element counter in agreement. -/
def RefinesFifo (queue : Queue α) (capacity : Nat) (operations : List (QueueOp α)) : Prop :=
  let concrete := Machine.replies Queue.perform operations queue
  let abstract := Machine.replies Fifo.perform operations (Fifo.empty capacity)
  concrete.1 = abstract.1 ∧ concrete.2.contents = abstract.2.items ∧
    concrete.2.size = capacity + 1 ∧
    (0 ≤ concrete.2.head ∧ concrete.2.head < concrete.2.size) ∧
    (0 ≤ concrete.2.tail ∧ concrete.2.tail < concrete.2.size) ∧
    concrete.2.elem = (concrete.2.tail - concrete.2.head) % concrete.2.size ∧
    ∀ operation, (concrete.2.perform operation).1 = .code (-1) →
      (concrete.2.perform operation).2 = concrete.2

theorem WellFormed.refinesFifo {queue : Queue α} (valid : queue.WellFormed capacity)
    (empty : queue.contents = []) (operations : List (QueueOp α)) :
    queue.RefinesFifo capacity operations := by
  obtain ⟨sameReplies, finalValid, sameContents⟩ := Machine.replies_simulate Queue.perform
    Fifo.perform Represents perform_represents operations queue
    (Fifo.empty capacity) ⟨valid, empty⟩
  exact ⟨sameReplies, sameContents, finalValid.sizeEq, finalValid.headRange, finalValid.tailRange,
    finalValid.elemEq, fun operation failed => perform_failed operation _ finalValid failed⟩

structure Filled (queue : Queue α) (capacity count cells : Nat) : Prop where
  sizeEq : queue.size = capacity + 1
  elemEq : queue.elem = count
  headEq : queue.head = 0
  tailEq : queue.tail = count
  cells : queue.data.length = cells

theorem Filled.addtail {queue : Queue α} {count cells : Nat}
    (filled : queue.Filled capacity count cells) (fits : capacity + 1 < 2147483648)
    (room : count < capacity) (ptr : Option α) :
    (queue.perform (.addtail ptr)).2.Filled capacity (count + 1) cells := by
  obtain ⟨sizeEq, elemEq, headEq, tailEq, cellsEq⟩ := filled
  have next : (int32 (queue.tail + 1)).tmod queue.size = (count + 1 : Nat) := by
    rw [tailEq, sizeEq, int32_of_range (by omega) (by omega)]
    exact Int.tmod_eq_of_lt (by omega) (by omega)
  have elem : int32 (queue.elem + 1) = (count + 1 : Nat) := by
    rw [elemEq, int32_of_range (by omega) (by omega)]
    omega
  have apart : ((count + 1 : Nat) : Int) ≠ queue.head := by omega
  have nonempty : queue.size ≠ 0 := by omega
  simp only [perform, hfQueueAddtail, if_neg nonempty, next, if_neg apart, elem, Prod.map_snd, id]
  refine ⟨by simpa using sizeEq, rfl, by simpa using headEq, rfl, ?_⟩
  simp only [store]
  split
  · exact cellsEq
  · simpa using cellsEq

theorem Filled.fill {queue : Queue α} {count cells more : Nat}
    (filled : queue.Filled capacity count cells) (fits : capacity + 1 < 2147483648)
    (room : count + more ≤ capacity) (ptr : Option α) :
    (Machine.replies Queue.perform (List.replicate more (.addtail ptr)) queue).2.Filled capacity
      (count + more) cells := by
  induction more generalizing queue count with
  | zero => exact filled
  | succ more ih =>
      rw [List.replicate_succ, Machine.replies]
      have rest := ih (filled.addtail fits (by omega) ptr) (by omega)
      rwa [show count + (more + 1) = count + 1 + more by omega]

theorem hfQueueCreate_cells {structBlock : Bool} {hfMalloc : Nat → Option (Nat → Option α)}
    {queue : Queue α} (fits : capacity + 1 < 2147483648)
    (created : hfQueueCreate structBlock hfMalloc capacity = some queue) :
    queue.Filled capacity 0 ((capacity + 1) % 1073741824) := by
  have cells : int32 ((capacity : Int) + 1) = capacity + 1 := int32_of_range (by omega) (by omega)
  simp only [hfQueueCreate, cells] at created
  split at created
  · split at created
    · cases created
    · simp only [Option.some.injEq] at created
      subst queue
      refine ⟨rfl, rfl, rfl, rfl, ?_⟩
      simp only [List.length_map, List.length_range]
      omega
  · cases created

end Queue

theorem Fifo.fill {α : Type} {capacity more : Nat} {fifo : Fifo α capacity}
    (room : fifo.items.length + more ≤ capacity) (ptr : Option α) :
    (Machine.replies Fifo.perform (List.replicate more (.addtail ptr)) fifo).2.items =
      fifo.items ++ List.replicate more ptr := by
  induction more generalizing fifo with
  | zero => simp [Machine.replies]
  | succ more ih =>
      have added : (fifo.perform (.addtail ptr)).2.items = fifo.items ++ [ptr] := by
        simp only [Fifo.perform, Fifo.addtail, dif_pos (show fifo.items.length < capacity by omega)]
      rw [List.replicate_succ, Machine.replies, ih (by rw [added, List.length_append]; simp; omega), added,
        List.append_assoc]
      rfl

theorem Queue.Filled.loses {α : Type} {capacity cells : Nat} {queue : Queue α}
    (filled : queue.Filled capacity 0 cells) (fits : capacity + 1 < 2147483648)
    (short : cells < capacity) (pointer : α) :
    ¬queue.RefinesFifo capacity (List.replicate (cells + 1) (.addtail (some pointer)) ++ [.get cells]) := by
  rintro ⟨replies, _⟩
  have full := @Filled.fill α capacity queue 0 cells (cells + 1) filled fits (by omega) (some pointer)
  have listed := @Fifo.fill α capacity (cells + 1) (Fifo.empty capacity)
    (by simp only [Fifo.empty, List.length_nil]; omega) (some pointer)
  simp only [Machine.replies_append, Machine.replies] at replies
  have last := (List.append_inj' replies rfl).2
  simp only [Queue.perform, Fifo.perform, List.cons.injEq, QueueReply.pointer.injEq, and_true] at last
  rw [listed] at last
  obtain ⟨sizeEq, elemEq, headEq, tailEq, cellsEq⟩ := full
  have present : Queue.missing (Machine.replies Queue.perform
      (List.replicate (cells + 1) (.addtail (some pointer))) queue).2 cells = false := by
    simp only [Queue.missing, sizeEq, elemEq, headEq, tailEq, Bool.or_eq_false_iff, decide_eq_false_iff_not]
    omega
  have slot : Queue.slot (Machine.replies Queue.perform
      (List.replicate (cells + 1) (.addtail (some pointer))) queue).2 cells = cells := by
    rw [Queue.slot, headEq, sizeEq, Int.zero_add, int32_of_range (by omega) (by omega)]
    exact Int.tmod_eq_of_lt (by omega) (by omega)
  rw [Queue.hfQueueGet, present, slot, Queue.cell] at last
  simp [List.getD, cellsEq, Fifo.empty] at last

/-- A queue refines the list of at most `capacity` pointers exactly if the size of its block does
not wrap. -/
theorem hfQueue_refines_fifo_iff {α : Type} [Nonempty α] (capacity : Nat)
    (fits : capacity + 1 < 2147483648) (structBlock : Bool)
    (hfMalloc : Nat → Option (Nat → Option α)) (queue : Queue α)
    (created : Queue.hfQueueCreate structBlock hfMalloc capacity = some queue) :
    (∀ operations, queue.RefinesFifo capacity operations) ↔ capacity + 1 < 1073741824 := by
  have filled := Queue.hfQueueCreate_cells fits created
  constructor
  · intro refines
    by_contra wraps
    obtain ⟨pointer⟩ := ‹Nonempty α›
    exact filled.loses fits (by omega) pointer (refines _)
  · intro whole operations
    rw [Nat.mod_eq_of_lt whole] at filled
    obtain ⟨valid, empty⟩ := Queue.hfQueueCreate_wellFormed fits created filled.cells
    exact valid.refinesFifo empty operations

theorem hfQueue_refines_fifo_three :
    ∃ queue, Queue.hfQueueCreate true (fun _ => some fun _ => none) 3 = some queue ∧
      (Machine.replies Queue.perform [.addtail (some 5), .addtail (some 6), .swap 0 1, .remhead]
        queue).1 = [.code 0, .code 0, .code 0, .pointer (some 6)] := by
  refine ⟨_, rfl, ?_⟩
  have refined := (hfQueue_refines_fifo_iff (α := Nat) 3 (by decide) true
    (fun _ => some fun _ => none) _ rfl).mpr (by decide)
    [.addtail (some 5), .addtail (some 6), .swap 0 1, .remhead]
  exact refined.1.trans (by decide)

/-- For `2 ^ 30` pointers `hf_malloc` is asked for four bytes, and the second pointer is lost. -/
theorem hfQueue_loses_pointer :
    ∃ queue, Queue.hfQueueCreate (α := Nat) true (fun bytes => if bytes = 4 then some fun _ => none else none)
        1073741824 = some queue ∧
      (Machine.replies Queue.perform [.addtail (some 5), .addtail (some 6), .get 0, .get 1] queue).1 =
        [.code 0, .code 0, .pointer (some 5), .pointer none] ∧
      ¬queue.RefinesFifo 1073741824 [.addtail (some 5), .addtail (some 6), .get 0, .get 1] := by
  refine ⟨⟨1073741825, 0, 0, 0, [none]⟩, by decide, by decide, ?_⟩
  rintro ⟨replies, _⟩
  have differs : (Machine.replies Fifo.perform [.addtail (some 5), .addtail (some 6), .get 0, .get 1]
      (Fifo.empty (α := Nat) 1073741824)).1 = [.code 0, .code 0, .pointer (some 5), .pointer (some 6)] := by
    decide
  rw [differs] at replies
  revert replies
  decide

end Hellfire

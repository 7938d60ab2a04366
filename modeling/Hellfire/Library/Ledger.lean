import Mathlib.Data.List.Basic

/-!
The blocks that an allocator has handed out, for programs whose allocations may fail in any pattern.
-/

namespace Ledgers

structure Ledger (α : Type) where
  live : List α
  answers : Nat → Option α

variable {α β ε : Type}

namespace Ledger

def malloc (heap : Ledger α) : Option α × Ledger α :=
  let answers := fun n => heap.answers (n + 1)
  match heap.answers 0 with
  | none => (none, ⟨heap.live, answers⟩)
  | some place => (some place, ⟨place :: heap.live, answers⟩)

def Balanced (heap heap' : Ledger α) : Prop := heap'.live.Perm heap.live

theorem balanced_of_eq {heap heap' : Ledger α} (same : heap'.live = heap.live) : heap.Balanced heap' :=
  List.Perm.of_eq same

theorem not_balanced_of_cons {heap heap' : Ledger α} {place : α} (more : heap'.live = place :: heap.live) :
    ¬heap.Balanced heap' := by
  intro same
  have length := same.length_eq
  rw [more, List.length_cons] at length
  omega

theorem malloc_none {heap : Ledger α} (failed : heap.answers 0 = none) :
    heap.malloc = (none, ⟨heap.live, fun n => heap.answers (n + 1)⟩) := by
  rw [malloc, failed]

theorem malloc_some {heap : Ledger α} {place : α} (given : heap.answers 0 = some place) :
    heap.malloc = (some place, ⟨place :: heap.live, fun n => heap.answers (n + 1)⟩) := by
  rw [malloc, given]

def obtained (answers : Nat → Option α) : Nat → Nat
  | 0 => 0
  | count + 1 =>
      match answers 0 with
      | none => 0
      | some _ => obtained (fun n => answers (n + 1)) count + 1

theorem obtained_none {answers : Nat → Option α} (failed : answers 0 = none) (count : Nat) :
    obtained answers (count + 1) = 0 := by
  rw [obtained, failed]

theorem obtained_some {answers : Nat → Option α} {place : α} (given : answers 0 = some place) (count : Nat) :
    obtained answers (count + 1) = obtained (fun n => answers (n + 1)) count + 1 := by
  rw [obtained, given]

theorem obtained_le (count : Nat) : ∀ answers : Nat → Option α, obtained answers count ≤ count := by
  induction count with
  | zero => exact fun _ => Nat.le_refl 0
  | succ count ih =>
      intro answers
      cases given : answers 0 with
      | none =>
          rw [obtained_none given]
          exact Nat.zero_le _
      | some place =>
          rw [obtained_some given]
          exact Nat.succ_le_succ (ih _)

variable [DecidableEq α] {heap heap' : Ledger α}

def free (heap : Ledger α) (place : α) : Ledger α := { heap with live := heap.live.erase place }

theorem free_perm {place : α} {rest : List α} (same : heap.live.Perm (place :: rest)) :
    (heap.free place).live.Perm rest := by
  have erased := same.erase place
  rw [List.erase_cons_head] at erased
  exact erased

theorem free_cons (place : α) (live : List α) (answers : Nat → Option α) :
    (Ledger.mk (place :: live) answers).free place = ⟨live, answers⟩ := by
  rw [free, List.erase_cons_head]

theorem free_both (first second : α) (live : List α) (answers : Nat → Option α) :
    ((Ledger.mk (second :: first :: live) answers).free first).free second = ⟨live, answers⟩ := by
  by_cases same : second = first
  · rw [same, free_cons, free_cons]
  · rw [free, free, List.erase_cons_tail (by simpa using same), List.erase_cons_head, List.erase_cons_head]

def borrow (heap : Ledger α) (failed : β) (call : Except ε β) : Except ε (β × Ledger α) :=
  match heap.malloc with
  | (none, heap) => .ok (failed, heap)
  | (some place, heap) => call.map fun result => (result, heap.free place)

theorem borrow_balanced {failed result : β} {call : Except ε β}
    (done : heap.borrow failed call = .ok (result, heap')) : heap.Balanced heap' := by
  refine balanced_of_eq ?_
  rw [borrow] at done
  cases given : heap.answers 0 with
  | none =>
      rw [malloc_none given] at done
      rw [← (Prod.mk.inj (Except.ok.inj done)).2]
  | some place =>
      rw [malloc_some given] at done
      cases call with
      | error fault => cases done
      | ok result =>
          rw [← (Prod.mk.inj (Except.ok.inj done)).2, free_cons]

theorem borrow_ok (heap : Ledger α) (failed : β) {result : β} {call : Except ε β} (done : call = .ok result) :
    ∃ ran, heap.borrow failed call = .ok ran := by
  rw [borrow, done]
  cases given : heap.answers 0 with
  | none =>
      rw [malloc_none given]
      exact ⟨_, rfl⟩
  | some place =>
      rw [malloc_some given]
      exact ⟨_, rfl⟩

end Ledger

end Ledgers

import Hellfire.Partition

/-!
One tick of `dispatch_isr`: the delay queue is counted down, the real time tasks are
accounted for, and a task that is not blocked is switched to.
-/

namespace Hellfire

open Kernel Machine

theorem rtTick_sameBudget (selected : Bool) {first second : TcbEntry}
    (same : SameBudget first second) (period : second.period = first.period) :
    SameBudget (rtTick selected first) (rtTick selected second) := by
  have charge : charged selected second = charged selected first := by
    simp only [charged, same.capacityRem]
  constructor
  · rw [rtTick_capacity, rtTick_capacity, same.capacity]
  · simp only [rtTick_capacityRem, same.deadlineRem, same.capacity, charge]
  · simp only [rtTick_deadlineRem, same.deadlineRem, period]
  · simp only [rtTick_deadlineMisses, same.deadlineRem, same.deadlineMisses, charge]

namespace Kernel

variable {config : Config}

structure Ticked (before after : Kernel config) (rt sorted : List Nat) : Prop where
  perm : sorted.Perm rt
  ordered : sorted.Pairwise fun first second =>
    periodOf before.krnlTcb first ≤ periodOf before.krnlTcb second
  budgets : ∀ slot, SameBudget
    (if slot ∈ rt then rtTick (firstEligible before.krnlTcb sorted = some slot) (before.krnlTcb slot)
    else before.krnlTcb slot) (after.krnlTcb slot)
  chosen : ∀ task, firstEligible before.krnlTcb sorted = some task → after.krnlCurrentTask = task

theorem dispatchIsr_locked (kernel : Kernel config) (around : Surroundings)
    (locked : kernel.krnlSchedule = 0) : kernel.dispatchIsr around = .ok kernel := by
  simp [dispatchIsr, locked]

theorem hfYield_parts {kernel after : Kernel config} {around : Surroundings}
    (done : kernel.hfYield around = .ok after) :
    ∃ id chosen, kernel.suspendCurrent.bestEffort around.random = .ok (id, chosen) ∧
      after = { chosen.switchTo id with
        coopCswitch := (chosen.switchTo id).coopCswitch + 1 } := by
  cases intact : around.stackIntact with
  | false => simp [hfYield, intact] at done
  | true =>
      by_cases tasks : 0 < kernel.suspendCurrent.krnlTasks
      · simp only [hfYield, intact, Bool.true_eq_false, if_false, if_pos tasks] at done
        obtain ⟨⟨id, chosen⟩, picked, same⟩ := ok_of_bind done
        exact ⟨id, chosen, picked, (Except.ok.inj same).symm⟩
      · simp [hfYield, intact, tasks] at done

theorem dispatchIsr_parts {kernel after : Kernel config} {around : Surroundings}
    (unlocked : kernel.krnlSchedule ≠ 0) (done : kernel.dispatchIsr around = .ok after) :
    ∃ ready selected ticked id chosen, kernel.suspendCurrent.processDelayQueue = .ok ready ∧
      ready.schedRma = .ok (selected, ticked) ∧
      (selected ≠ 0 ∧ id = selected ∧ chosen = ticked ∨
        selected = 0 ∧ ticked.bestEffort around.random = .ok (id, chosen)) ∧
      after = { chosen.switchTo id with
        preemptCswitch := (chosen.switchTo id).preemptCswitch + 1 } := by
  cases intact : around.stackIntact with
  | false => simp [dispatchIsr, unlocked, intact] at done
  | true =>
      by_cases tasks : 0 < kernel.suspendCurrent.krnlTasks
      · simp only [dispatchIsr, if_neg unlocked, intact, Bool.true_eq_false, if_false,
          if_pos tasks] at done
        obtain ⟨ready, processed, rest⟩ := ok_of_bind done
        obtain ⟨⟨selected, ticked⟩, ran, rest⟩ := ok_of_bind rest
        refine ⟨ready, selected, ticked, ?_⟩
        by_cases idle : selected = 0
        · simp only [if_pos idle] at rest
          obtain ⟨⟨id, chosen⟩, picked, same⟩ := ok_of_bind rest
          exact ⟨id, chosen, processed, ran, Or.inr ⟨idle, picked⟩, (Except.ok.inj same).symm⟩
        · simp only [if_neg idle] at rest
          exact ⟨selected, ticked, processed, ran, Or.inl ⟨idle, rfl, rfl⟩, (Except.ok.inj rest).symm⟩
      · simp [dispatchIsr, unlocked, intact, tasks] at done

theorem suspendCurrent_queues (kernel : Kernel config) (delay : List Nat) :
    kernel.suspendCurrent.expired background delay = kernel.expired background delay ∧
      kernel.suspendCurrent.expired realTime delay = kernel.expired realTime delay ∧
      kernel.suspendCurrent.pending delay = kernel.pending delay := by
  have expiring : expires kernel.suspendCurrent.krnlTcb = expires kernel.krnlTcb := by
    funext slot
    simp [expires, suspendCurrent_entry]
  have back : background kernel.suspendCurrent.krnlTcb = background kernel.krnlTcb := by
    funext slot
    simp [background, suspendCurrent_entry]
  have periodic : realTime kernel.suspendCurrent.krnlTcb = realTime kernel.krnlTcb := by
    funext slot
    simp [realTime, suspendCurrent_entry]
  simp only [expired, pending, expiring, back, periodic, and_self]

theorem Partition.dispatch_prepares {kernel : Kernel config} {run rt delay : List Nat}
    (partition : Partition kernel run rt delay) :
    ∃ delayed, kernel.suspendCurrent.processDelayQueue = .ok delayed ∧
      Placed delayed (run ++ kernel.expired background delay)
        (rt ++ kernel.expired realTime delay) (kernel.pending delay) ∧
      IdleReady delayed ∧ Suspended kernel delayed ∧ delayed.krnlSchedule = kernel.krnlSchedule ∧
      ∀ slot, SameBudget (kernel.krnlTcb slot) (delayed.krnlTcb slot) := by
  have suspended := kernel.suspendCurrent_suspended
  obtain ⟨placed, ready⟩ := partition.suspendCurrent_placed
  obtain ⟨delayed, processed, frame, entries, kept, idle⟩ := placed.processDelayQueue_moves ready
  obtain ⟨back, periodic, left⟩ := kernel.suspendCurrent_queues delay
  rw [back, periodic, left] at kept
  refine ⟨delayed, processed, kept, idle, ⟨?_, ?_, frame.current, frame.schedBe⟩, frame.schedule, ?_⟩
  · intro slot
    rw [entries]
    split
    · exact (suspended.same slot).trans ⟨rfl, rfl, rfl, rfl⟩
    · exact suspended.same slot
  · intro slot
    rw [entries]
    split
    · exact suspended.states slot
    · exact suspended.states slot
  · intro slot
    rw [entries]
    split
    · exact (kernel.suspendCurrent_sameBudget slot).trans ⟨rfl, rfl, rfl, rfl⟩
    · exact kernel.suspendCurrent_sameBudget slot

theorem Suspended.after_rma {before middle after : Kernel config} (suspended : Suspended before middle)
    (frame : RtFrame middle after)
    (only : ∀ slot, RealTimeOnly (middle.krnlTcb slot) (after.krnlTcb slot)) :
    Suspended before after := by
  refine ⟨fun slot => (suspended.same slot).trans (only slot).sameTask, ?_,
    frame.current.trans suspended.current, frame.schedBe.trans suspended.schedBe⟩
  intro slot
  rw [(only slot).state, suspended.states]

theorem Suspended.after_selection {before middle after : Kernel config} {task : Nat}
    (suspended : Suspended before middle) (selected : Selected middle after task) :
    Suspended before after := by
  refine ⟨fun slot => (suspended.same slot).trans (selected.entries slot).sameTask, ?_,
    selected.frame.current.trans suspended.current, selected.frame.schedBe.trans suspended.schedBe⟩
  intro slot
  rw [(selected.entries slot).state, suspended.states]

def rmaSelects (kernel : Kernel config) : Except Halt Nat := do
  let kernel ← kernel.suspendCurrent.processDelayQueue
  let (id, _) ← kernel.schedRma
  .ok id

theorem Partition.dispatchIsr_switches {kernel : Kernel config} {run rt delay : List Nat}
    (partition : Partition kernel run rt delay) {around : Surroundings}
    (unlocked : kernel.krnlSchedule ≠ 0) (intact : around.stackIntact = true) :
    ∃ after run' sorted, kernel.dispatchIsr around = .ok after ∧
      run'.Perm (run ++ kernel.expired background delay) ∧
      Ticked kernel after (rt ++ kernel.expired realTime delay) sorted ∧ Switched kernel after ∧
      Partition after run' sorted (kernel.pending delay) ∧
      after.krnlSchedule = kernel.krnlSchedule ∧
      kernel.rmaSelects = .ok ((firstEligible kernel.krnlTcb sorted).getD 0) := by
  obtain ⟨delayed, processed, delayPlaced, delayReady, suspended, schedule, budgets⟩ :=
    partition.dispatch_prepares
  obtain ⟨sorted, ticked, rma, perm, ordered, rtPlaced, rtReady, rtFrame, pointer, entries⟩ :=
    delayPlaced.schedRma_ticks delayReady
  have only : ∀ slot, RealTimeOnly (delayed.krnlTcb slot) (ticked.krnlTcb slot) := by
    intro slot
    rw [entries]
    split
    · exact rtTick_only _ _
    · rfl
  have halted := suspended.after_rma rtFrame only
  have eligible : firstEligible delayed.krnlTcb sorted = firstEligible kernel.krnlTcb sorted := by
    refine firstEligible_congr fun task _ => ?_
    simp only [rtEligible, (budgets task).capacityRem, suspended.states, ne_eq,
      suspendedState_blocked]
  rw [eligible] at rma pointer entries
  have sortedByPeriod : sorted.Pairwise fun first second =>
      periodOf kernel.krnlTcb first ≤ periodOf kernel.krnlTcb second := by
    refine ordered.imp fun {first second} le => ?_
    simpa only [periodOf, (suspended.same _).period] using le
  have tickBudgets : ∀ slot, SameBudget
      (if slot ∈ rt ++ kernel.expired realTime delay then
        rtTick (firstEligible kernel.krnlTcb sorted = some slot) (kernel.krnlTcb slot)
      else kernel.krnlTcb slot) (ticked.krnlTcb slot) := by
    intro slot
    rw [entries]
    split
    · exact rtTick_sameBudget _ (budgets slot) (suspended.same slot).period
    · exact budgets slot
  have tasks : 0 < kernel.suspendCurrent.krnlTasks := partition.some_task
  have selects : kernel.rmaSelects = .ok ((firstEligible kernel.krnlTcb sorted).getD 0) := by
    simp only [rmaSelects, processed, rma, bind, Except.bind]
  cases found : firstEligible kernel.krnlTcb sorted with
  | none =>
      obtain ⟨task, middle, run', picks, turned, member, unblocked, selected, kept, idle⟩ :=
        rtPlaced.bestEffort_selects rtReady around.random
      have final := halted.after_selection selected
      obtain ⟨switched, whole⟩ := switchTo_switched partition final kept idle selected.pointer
        (List.mem_append_left _ (turned.mem_iff.mpr member))
        (by rw [final.blocked, ← halted.blocked]; exact unblocked)
      refine ⟨{ middle.switchTo task with
        preemptCswitch := (middle.switchTo task).preemptCswitch + 1 }, run', sorted, ?_, turned,
        ⟨perm, sortedByPeriod, ?_, by simp [found]⟩, ?_, ?_, ?_, found ▸ selects⟩
      · rw [found, Option.getD_none] at rma
        simp only [dispatchIsr, unlocked, if_false, intact, Bool.true_eq_false, if_pos tasks,
          processed, rma, if_true, picks, bind, Except.bind]
      · intro slot
        exact ((tickBudgets slot).trans (selected.entries slot).sameBudget).trans
          (middle.switchTo_sameBudget task slot)
      · exact ⟨switched.same, switched.states, switched.unblocked, switched.alive, switched.schedBe⟩
      · exact whole.same_view rfl rfl rfl rfl rfl rfl
      · exact (selected.frame.schedule.trans rtFrame.schedule).trans schedule
  | some task =>
      have inSorted : task ∈ sorted := List.mem_of_find?_eq_some found
      have inside : task ∈ (run ++ kernel.expired background delay) ++
          (sorted ++ kernel.pending delay) :=
        List.mem_append_right _ (List.mem_append_left _ inSorted)
      have nonzero : task ≠ 0 := by
        intro zero
        exact (List.nodup_append.mp rtPlaced.distinct).2.2 0 rtPlaced.idle task
          (List.mem_append_left _ inSorted) zero.symm
      have runs := List.find?_some found
      have unblocked : ticked.blocked task = false := by
        rw [halted.blocked, blocked_eq_false]
        simp only [rtEligible, Bool.and_eq_true, decide_eq_true_eq] at runs
        exact runs.1
      obtain ⟨switched, whole⟩ := switchTo_switched partition halted rtPlaced rtReady
        (pointer task found) inside unblocked
      refine ⟨{ ticked.switchTo task with
        preemptCswitch := (ticked.switchTo task).preemptCswitch + 1 },
        run ++ kernel.expired background delay, sorted, ?_, List.Perm.refl _,
        ⟨perm, sortedByPeriod, ?_, ?_⟩, ?_, ?_, ?_, found ▸ selects⟩
      · rw [found, Option.getD_some] at rma
        simp only [dispatchIsr, unlocked, if_false, intact, Bool.true_eq_false, if_pos tasks,
          processed, rma, if_neg nonzero, bind, Except.bind]
      · intro slot
        exact (tickBudgets slot).trans (ticked.switchTo_sameBudget task slot)
      · intro other same
        rw [found] at same
        exact Option.some.inj same
      · exact ⟨switched.same, switched.states, switched.unblocked, switched.alive, switched.schedBe⟩
      · exact whole.same_view rfl rfl rfl rfl rfl rfl
      · exact rtFrame.schedule.trans schedule

end Kernel

end Hellfire

import Mathlib.Data.List.Perm.Subperm
import Hellfire.DelayQueue

/-!
The partition of the live tasks over the three task queues, and what the context
switches do to it.
-/

namespace Hellfire

open ListSwap Kernel

structure SameTask (before after : TcbEntry) : Prop where
  ptask : after.ptask = before.ptask
  period : after.period = before.period
  id : after.id = before.id
  priority : after.priority = before.priority

theorem SameTask.refl (entry : TcbEntry) : SameTask entry entry := ⟨rfl, rfl, rfl, rfl⟩

theorem SameTask.trans {first second third : TcbEntry} (before : SameTask first second)
    (after : SameTask second third) : SameTask first third :=
  ⟨after.ptask.trans before.ptask, after.period.trans before.period, after.id.trans before.id,
    after.priority.trans before.priority⟩

theorem BestEffortOnly.sameTask {before after : TcbEntry} (only : BestEffortOnly before after) :
    SameTask before after := by
  rw [only]
  exact ⟨rfl, rfl, rfl, rfl⟩

theorem BestEffortOnly.state {before after : TcbEntry} (only : BestEffortOnly before after) :
    after.state = before.state := by
  rw [only]

structure SamePlace (before after : TcbEntry) : Prop where
  ptask : after.ptask = before.ptask
  period : after.period = before.period
  id : after.id = before.id

theorem SamePlace.refl (entry : TcbEntry) : SamePlace entry entry := ⟨rfl, rfl, rfl⟩

theorem SameTask.place {before after : TcbEntry} (same : SameTask before after) :
    SamePlace before after := ⟨same.ptask, same.period, same.id⟩

structure SameBudget (before after : TcbEntry) : Prop where
  capacity : after.capacity = before.capacity
  capacityRem : after.capacityRem = before.capacityRem
  deadlineRem : after.deadlineRem = before.deadlineRem
  deadlineMisses : after.deadlineMisses = before.deadlineMisses

theorem SameBudget.refl (entry : TcbEntry) : SameBudget entry entry := ⟨rfl, rfl, rfl, rfl⟩

theorem SameBudget.trans {first second third : TcbEntry} (before : SameBudget first second)
    (after : SameBudget second third) : SameBudget first third :=
  ⟨after.capacity.trans before.capacity, after.capacityRem.trans before.capacityRem,
    after.deadlineRem.trans before.deadlineRem, after.deadlineMisses.trans before.deadlineMisses⟩

theorem BestEffortOnly.sameBudget {before after : TcbEntry} (only : BestEffortOnly before after) :
    SameBudget before after := by
  rw [only]
  exact ⟨rfl, rfl, rfl, rfl⟩

def RealTimeOnly (before after : TcbEntry) : Prop :=
  after = { before with
    rtjobs := after.rtjobs
    deadlineMisses := after.deadlineMisses
    capacityRem := after.capacityRem
    deadlineRem := after.deadlineRem }

theorem RealTimeOnly.sameTask {before after : TcbEntry} (only : RealTimeOnly before after) :
    SameTask before after := by
  rw [only]
  exact ⟨rfl, rfl, rfl, rfl⟩

theorem RealTimeOnly.state {before after : TcbEntry} (only : RealTimeOnly before after) :
    after.state = before.state := by
  rw [only]

theorem RealTimeOnly.priorityRem {before after : TcbEntry} (only : RealTimeOnly before after) :
    after.priorityRem = before.priorityRem := by
  rw [only]

theorem rtAccount_only (selected : Bool) (entry : TcbEntry) :
    RealTimeOnly entry (rtAccount selected entry) := by
  unfold RealTimeOnly Kernel.rtAccount
  cases selected
  · simp only [Bool.false_eq_true, if_false]
    split
    · rfl
    · rfl
  · simp only [if_true]
    split
    · rfl
    · rfl

theorem rtTick_only (selected : Bool) (entry : TcbEntry) :
    RealTimeOnly entry (rtTick selected entry) := by
  have account := rtAccount_only selected entry
  cases selected
  · exact account
  · unfold RealTimeOnly at account ⊢
    simp only [rtTick, if_true]
    rw [account]

namespace Kernel

variable {config : Config}

structure Placed (kernel : Kernel config) (run rt delay : List Nat) : Prop where
  queued : Queued kernel run rt delay
  distinct : (run ++ (rt ++ delay)).Nodup
  members : ∀ slot, slot ∈ run ++ (rt ++ delay) ↔ kernel.live slot = true
  runPeriods : ∀ slot ∈ run, (kernel.krnlTcb slot).period = 0
  rtPeriods : ∀ slot ∈ rt, (kernel.krnlTcb slot).period ≠ 0
  counted : kernel.krnlTasks.toNat = (run ++ (rt ++ delay)).length
  ids : ∀ slot, slot < config.maxTasks → (kernel.krnlTcb slot).id = slot ∨
    (kernel.krnlTcb slot).id = noId ∧ (kernel.krnlTcb slot).ptask = 0
  idle : 0 ∈ run

structure IdleReady (kernel : Kernel config) : Prop where
  unblocked : kernel.blocked 0 = false
  priority : (kernel.krnlTcb 0).priority = 100
  remaining : (kernel.krnlTcb 0).priorityRem ≤ (kernel.krnlTcb 0).priority

theorem IdleReady.of_entry {kernel after : Kernel config} (ready : IdleReady kernel)
    (same : after.krnlTcb 0 = kernel.krnlTcb 0) : IdleReady after := by
  refine ⟨?_, by rw [same]; exact ready.priority, by rw [same]; exact ready.remaining⟩
  rw [blocked, same]
  exact ready.unblocked

structure Partition (kernel : Kernel config) (run rt delay : List Nat) : Prop
    extends Placed kernel run rt delay, IdleReady kernel where
  running : ∀ slot, (kernel.krnlTcb slot).state = .running → slot = kernel.krnlCurrentTask
  current : kernel.krnlCurrentTask < config.maxTasks

namespace Placed

variable {kernel after : Kernel config} {run rt delay run' rt' delay' : List Nat}

theorem live_of_mem (placed : Placed kernel run rt delay) {slot : Nat}
    (member : slot ∈ run ++ (rt ++ delay)) : kernel.live slot = true :=
  (placed.members slot).mp member

theorem bound (placed : Placed kernel run rt delay) {slot : Nat}
    (member : slot ∈ run ++ (rt ++ delay)) : slot < config.maxTasks := by
  have alive := placed.live_of_mem member
  simp only [live, Bool.and_eq_true, decide_eq_true_eq] at alive
  exact alive.1

theorem ptask_ne_zero (placed : Placed kernel run rt delay) {slot : Nat}
    (member : slot ∈ run ++ (rt ++ delay)) : (kernel.krnlTcb slot).ptask ≠ 0 := by
  have alive := placed.live_of_mem member
  simp only [live, Bool.and_eq_true, decide_eq_true_eq] at alive
  exact alive.2

theorem id_eq (placed : Placed kernel run rt delay) {slot : Nat}
    (member : slot ∈ run ++ (rt ++ delay)) : (kernel.krnlTcb slot).id = slot := by
  rcases placed.ids slot (placed.bound member) with named | ⟨_, dead⟩
  · exact named
  · exact absurd dead (placed.ptask_ne_zero member)

theorem length_le (placed : Placed kernel run rt delay) :
    (run ++ (rt ++ delay)).length ≤ config.maxTasks := by
  have inside : run ++ (rt ++ delay) ⊆ List.range config.maxTasks := fun slot member =>
    List.mem_range.mpr (placed.bound member)
  simpa using (List.subperm_of_subset placed.distinct inside).length_le

theorem length_lt (placed : Placed kernel run rt delay) {slot : Nat}
    (slotBound : slot < config.maxTasks) (missing : slot ∉ run ++ (rt ++ delay)) :
    (run ++ (rt ++ delay)).length < config.maxTasks := by
  have inside : slot :: (run ++ (rt ++ delay)) ⊆ List.range config.maxTasks := by
    intro other member
    rcases List.mem_cons.mp member with same | later
    · exact List.mem_range.mpr (same ▸ slotBound)
    · exact List.mem_range.mpr (placed.bound later)
  have short := (List.subperm_of_subset (List.nodup_cons.mpr ⟨missing, placed.distinct⟩) inside).length_le
  rw [List.length_cons, List.length_range] at short
  exact short

theorem some_task (placed : Placed kernel run rt delay) : 0 < kernel.krnlTasks := by
  have positive : 0 < run.length := List.length_pos_of_mem placed.idle
  have counted := placed.counted
  rw [List.length_append] at counted
  exact UInt16.lt_iff_toNat_lt.mpr (by simp; omega)

theorem rearranged (placed : Placed kernel run rt delay)
    (same : ∀ slot, SamePlace (kernel.krnlTcb slot) (after.krnlTcb slot))
    (tasks : after.krnlTasks = kernel.krnlTasks) (queued : Queued after run' rt' delay')
    (perm : (run' ++ (rt' ++ delay')).Perm (run ++ (rt ++ delay)))
    (runPeriods : ∀ slot ∈ run', (kernel.krnlTcb slot).period = 0)
    (rtPeriods : ∀ slot ∈ rt', (kernel.krnlTcb slot).period ≠ 0) (idle : 0 ∈ run') :
    Placed after run' rt' delay' where
  queued := queued
  distinct := perm.nodup_iff.mpr placed.distinct
  members slot := by
    rw [perm.mem_iff, placed.members slot, live, live, (same slot).ptask]
  runPeriods slot member := (same slot).period.trans (runPeriods slot member)
  rtPeriods slot member := by
    rw [(same slot).period]
    exact rtPeriods slot member
  counted := by rw [tasks, placed.counted, perm.length_eq]
  ids slot bound := by
    rw [(same slot).id, (same slot).ptask]
    exact placed.ids slot bound
  idle := idle

theorem moved (placed : Placed kernel run rt delay)
    (same : ∀ slot, SameTask (kernel.krnlTcb slot) (after.krnlTcb slot))
    (tasks : after.krnlTasks = kernel.krnlTasks) (queued : Queued after run' rt' delay')
    (perm : (run' ++ (rt' ++ delay')).Perm (run ++ (rt ++ delay)))
    (runPeriods : ∀ slot ∈ run', (kernel.krnlTcb slot).period = 0)
    (rtPeriods : ∀ slot ∈ rt', (kernel.krnlTcb slot).period ≠ 0) (idle : 0 ∈ run') :
    Placed after run' rt' delay' :=
  placed.rearranged (fun slot => (same slot).place) tasks queued perm runPeriods rtPeriods idle

theorem selected {task : Nat} (placed : Placed kernel run rt delay)
    (selected : Selected kernel after task) :
    ∃ run', run'.Perm run ∧ task ∈ run ∧ Placed after run' rt delay := by
  have member : task ∈ run := by simpa [placed.queued.run] using selected.member
  have turned := selected.turned
  rw [placed.queued.run] at turned
  obtain ⟨run', stored, perm⟩ := exists_map_some turned
  refine ⟨run', perm, member, ?_⟩
  refine placed.moved (fun slot => (selected.entries slot).sameTask) selected.frame.tasks
    ⟨stored, ?_, ?_⟩ (perm.append_right _) ?_ placed.rtPeriods (perm.mem_iff.mpr placed.idle)
  · rw [selected.frame.rt, placed.queued.rt]
  · rw [selected.frame.delay, placed.queued.delay]
  · exact fun slot inside => placed.runPeriods slot (perm.mem_iff.mp inside)

end Placed

theorem Partition.same_view {kernel after : Kernel config} {run rt delay : List Nat}
    (partition : Partition kernel run rt delay) (tcb : after.krnlTcb = kernel.krnlTcb)
    (sameRun : after.krnlRunQueue = kernel.krnlRunQueue)
    (sameRt : after.krnlRtQueue = kernel.krnlRtQueue)
    (sameDelay : after.krnlDelayQueue = kernel.krnlDelayQueue)
    (tasks : after.krnlTasks = kernel.krnlTasks)
    (current : after.krnlCurrentTask = kernel.krnlCurrentTask) :
    Partition after run rt delay := by
  have queued : Queued after run rt delay :=
    ⟨by rw [sameRun, partition.queued.run], by rw [sameRt, partition.queued.rt],
      by rw [sameDelay, partition.queued.delay]⟩
  have placed : Placed after run rt delay :=
    partition.toPlaced.moved (fun slot => by rw [tcb]; exact SameTask.refl _) tasks queued
      (List.Perm.refl _) partition.runPeriods partition.rtPeriods partition.idle
  refine { placed with unblocked := ?_, priority := ?_, remaining := ?_, running := ?_, current := ?_ }
  · rw [blocked, tcb]
    exact partition.unblocked
  · rw [tcb]
    exact partition.priority
  · rw [tcb]
    exact partition.remaining
  · rw [tcb, current]
    exact partition.running
  · rw [current]
    exact partition.current

section Switching

def suspendedState (kernel : Kernel config) (slot : Nat) : TaskState :=
  if slot = kernel.krnlCurrentTask ∧ (kernel.krnlTcb slot).state = .running then .ready
  else (kernel.krnlTcb slot).state

theorem suspendCurrent_entry (kernel : Kernel config) (slot : Nat) :
    kernel.suspendCurrent.krnlTcb slot =
      { kernel.krnlTcb slot with state := kernel.suspendedState slot } := by
  by_cases current : slot = kernel.krnlCurrentTask
  · subst current
    simp [suspendCurrent, suspendedState]
  · simp [suspendCurrent, suspendedState, modify_other _ _ current, current]

theorem suspendedState_blocked (kernel : Kernel config) (slot : Nat) :
    kernel.suspendedState slot = .blocked ↔ (kernel.krnlTcb slot).state = .blocked := by
  unfold suspendedState
  split
  · rename_i suspended
    simp [suspended.2]
  · rfl

structure Suspended (before after : Kernel config) : Prop where
  same : ∀ slot, SameTask (before.krnlTcb slot) (after.krnlTcb slot)
  states : ∀ slot, (after.krnlTcb slot).state = before.suspendedState slot
  current : after.krnlCurrentTask = before.krnlCurrentTask
  schedBe : after.schedBe = before.schedBe

theorem suspendCurrent_suspended (kernel : Kernel config) :
    Suspended kernel kernel.suspendCurrent where
  same slot := by
    rw [suspendCurrent_entry]
    exact ⟨rfl, rfl, rfl, rfl⟩
  states slot := by rw [suspendCurrent_entry]
  current := rfl
  schedBe := rfl

theorem Suspended.blocked {before after : Kernel config} (suspended : Suspended before after)
    (slot : Nat) : after.blocked slot = before.blocked slot := by
  simp only [Kernel.blocked, suspended.states, suspendedState_blocked]

structure Switched (before after : Kernel config) : Prop where
  same : ∀ slot, SameTask (before.krnlTcb slot) (after.krnlTcb slot)
  states : ∀ slot, (after.krnlTcb slot).state =
    if slot = after.krnlCurrentTask then .running else before.suspendedState slot
  unblocked : before.blocked after.krnlCurrentTask = false
  alive : before.live after.krnlCurrentTask = true
  schedBe : after.schedBe = before.schedBe

theorem Switched.blocked {before after : Kernel config} (switched : Switched before after)
    (slot : Nat) : after.blocked slot = before.blocked slot := by
  by_cases chosen : slot = after.krnlCurrentTask
  · rw [Kernel.blocked, switched.states, if_pos chosen, chosen, switched.unblocked]
    rfl
  · simp only [Kernel.blocked, switched.states, if_neg chosen, suspendedState_blocked]

theorem Switched.live {before after : Kernel config} (switched : Switched before after)
    (slot : Nat) : after.live slot = before.live slot := by
  simp only [Kernel.live, (switched.same slot).ptask]

theorem Partition.not_running {kernel suspended : Kernel config} {run rt delay : List Nat}
    (partition : Partition kernel run rt delay) (halted : Suspended kernel suspended)
    (slot : Nat) : (suspended.krnlTcb slot).state ≠ .running := by
  rw [halted.states, suspendedState]
  split
  · simp
  · rename_i other
    intro running
    exact other ⟨partition.running slot running, running⟩

theorem switchTo_switched {before middle : Kernel config} {run rt delay run' rt' delay' : List Nat}
    {task : Nat} (partition : Partition before run rt delay) (suspended : Suspended before middle)
    (placed : Placed middle run' rt' delay') (ready : IdleReady middle)
    (pointer : middle.krnlTask = task) (member : task ∈ run' ++ (rt' ++ delay'))
    (unblocked : middle.blocked task = false) :
    Switched before (middle.switchTo task) ∧ Partition (middle.switchTo task) run' rt' delay' := by
  have entry : ∀ slot, (middle.switchTo task).krnlTcb slot = { middle.krnlTcb slot with
      state := if slot = task then .running else (middle.krnlTcb slot).state } := by
    intro slot
    by_cases chosen : slot = task
    · subst chosen
      simp [switchTo, pointer]
    · simp [switchTo, pointer, modify_other _ _ chosen, chosen]
  have same : ∀ slot, SameTask (middle.krnlTcb slot) ((middle.switchTo task).krnlTcb slot) := by
    intro slot
    rw [entry]
    exact ⟨rfl, rfl, rfl, rfl⟩
  have alive := placed.live_of_mem member
  have kept : Placed (middle.switchTo task) run' rt' delay' :=
    placed.moved same rfl ⟨placed.queued.run, placed.queued.rt, placed.queued.delay⟩
      (List.Perm.refl _) placed.runPeriods placed.rtPeriods placed.idle
  constructor
  · refine ⟨fun slot => (suspended.same slot).trans (same slot), ?_, ?_, ?_, suspended.schedBe⟩
    · intro slot
      rw [entry, ← suspended.states]
      rfl
    · rw [← suspended.blocked]
      exact unblocked
    · rw [live, ← (suspended.same _).ptask]
      exact alive
  · refine { kept with unblocked := ?_, priority := ?_, remaining := ?_, running := ?_, current := ?_ }
    · rw [blocked_eq_false, entry]
      by_cases chosen : 0 = task
      · simp [chosen]
      · simpa [chosen] using (blocked_eq_false middle 0).mp ready.unblocked
    · rw [entry]
      exact ready.priority
    · rw [entry]
      exact ready.remaining
    · intro slot running
      rw [entry] at running
      by_contra other
      rw [show (middle.switchTo task).krnlCurrentTask = task from rfl] at other
      exact partition.not_running suspended slot (by simpa [other] using running)
    · exact placed.bound member

theorem Placed.bestEffort_selects {kernel : Kernel config} {run rt delay : List Nat}
    (placed : Placed kernel run rt delay) (ready : IdleReady kernel) (random : Nat) :
    ∃ task after run', kernel.bestEffort random = .ok (task, after) ∧ run'.Perm run ∧
      task ∈ run ∧ kernel.blocked task = false ∧ Selected kernel after task ∧
      Placed after run' rt delay ∧ IdleReady after := by
  have distinct : run.Nodup := (List.nodup_append.mp placed.distinct).1
  have below : (kernel.krnlTcb 0).priorityRem < 255 := by
    have bound := ready.remaining
    rw [ready.priority] at bound
    exact Nat.lt_of_le_of_lt (UInt8.le_iff_toNat_le.mp bound) (by decide)
  obtain ⟨task, after, selects, selected⟩ := kernel.bestEffort_selects random run
    placed.queued.run distinct placed.some_task ⟨0, placed.idle, ready.unblocked, below⟩
  obtain ⟨run', perm, member, kept⟩ := placed.selected selected
  refine ⟨task, after, run', ?_, perm, member, selected.unblocked, selected, kept, ?_⟩
  · rw [selects, placed.id_eq (List.mem_append_left _ member)]
  · refine ⟨?_, (selected.entries 0).sameTask.priority.trans ready.priority, ?_⟩
    · rw [blocked_eq_false, (selected.entries 0).state]
      exact (blocked_eq_false kernel 0).mp ready.unblocked
    · refine selected.priorities 0 ?_ ready.unblocked ready.remaining
      simpa [placed.queued.run] using placed.idle

theorem suspendCurrent_sameBudget (kernel : Kernel config) (slot : Nat) :
    SameBudget (kernel.krnlTcb slot) (kernel.suspendCurrent.krnlTcb slot) := by
  rw [suspendCurrent_entry]
  exact ⟨rfl, rfl, rfl, rfl⟩

theorem switchTo_sameBudget (kernel : Kernel config) (task slot : Nat) :
    SameBudget (kernel.krnlTcb slot) ((kernel.switchTo task).krnlTcb slot) := by
  by_cases chosen : slot = kernel.krnlTask
  · subst chosen
    simp only [switchTo, modify_same]
    exact ⟨rfl, rfl, rfl, rfl⟩
  · simp only [switchTo]
    rw [modify_other _ _ chosen]
    exact ⟨rfl, rfl, rfl, rfl⟩

theorem Partition.suspendCurrent_placed {kernel : Kernel config} {run rt delay : List Nat}
    (partition : Partition kernel run rt delay) :
    Placed kernel.suspendCurrent run rt delay ∧ IdleReady kernel.suspendCurrent := by
  have suspended := kernel.suspendCurrent_suspended
  constructor
  · exact partition.toPlaced.moved suspended.same rfl
      ⟨partition.queued.run, partition.queued.rt, partition.queued.delay⟩ (List.Perm.refl _)
      partition.runPeriods partition.rtPeriods partition.idle
  · refine ⟨(suspended.blocked 0).trans partition.unblocked, ?_, ?_⟩
    · exact (suspended.same 0).priority.trans partition.priority
    · rw [suspendCurrent_entry]
      exact partition.remaining

theorem Partition.hfYield_switches {kernel : Kernel config} {run rt delay : List Nat}
    (partition : Partition kernel run rt delay) {around : Surroundings}
    (intact : around.stackIntact = true) :
    ∃ after run', kernel.hfYield around = .ok after ∧ run'.Perm run ∧ Switched kernel after ∧
      Partition after run' rt delay ∧ after.krnlCurrentTask ∈ run ∧
      after.krnlSchedule = kernel.krnlSchedule ∧
      ∀ slot, SameBudget (kernel.krnlTcb slot) (after.krnlTcb slot) := by
  have suspended := kernel.suspendCurrent_suspended
  obtain ⟨placed, ready⟩ := partition.suspendCurrent_placed
  obtain ⟨task, middle, run', selects, perm, member, unblocked, selected, kept, idle⟩ :=
    placed.bestEffort_selects ready around.random
  have halted : Suspended kernel middle := by
    refine ⟨fun slot => (suspended.same slot).trans (selected.entries slot).sameTask, ?_,
      selected.frame.current, selected.frame.schedBe⟩
    intro slot
    rw [(selected.entries slot).state, suspended.states]
  have free : middle.blocked task = false := by
    rw [halted.blocked, ← suspended.blocked]
    exact unblocked
  obtain ⟨switched, final⟩ := switchTo_switched partition halted kept idle selected.pointer
    (List.mem_append_left _ (perm.mem_iff.mpr member)) free
  let last := middle.switchTo task
  refine ⟨{ last with coopCswitch := last.coopCswitch + 1 }, run', ?_, perm, ?_, ?_, member,
    selected.frame.schedule, ?_⟩
  · have tasks : 0 < kernel.suspendCurrent.krnlTasks := placed.some_task
    simp only [hfYield, intact, Bool.true_eq_false, if_false, if_pos tasks, selects, bind,
      Except.bind]
    rfl
  · exact ⟨switched.same, switched.states, switched.unblocked, switched.alive, switched.schedBe⟩
  · exact final.same_view rfl rfl rfl rfl rfl rfl
  · intro slot
    exact ((kernel.suspendCurrent_sameBudget slot).trans
      (selected.entries slot).sameBudget).trans (middle.switchTo_sameBudget task slot)

theorem Placed.schedRma_sorts {kernel : Kernel config} {run rt delay : List Nat}
    (placed : Placed kernel run rt delay) :
    ∃ sorted after, kernel.schedRma =
        .ok ((firstEligible kernel.krnlTcb sorted).getD 0, after) ∧ sorted.Perm rt ∧
      sorted.Pairwise (fun first second =>
        periodOf kernel.krnlTcb first ≤ periodOf kernel.krnlTcb second) ∧
      Placed after run sorted delay ∧ RtFrame kernel after ∧
      (∀ task, firstEligible kernel.krnlTcb sorted = some task → after.krnlTask = task) ∧
      ∀ slot, after.krnlTcb slot =
        if slot ∈ rt then
          rtTick (firstEligible kernel.krnlTcb sorted = some slot) (kernel.krnlTcb slot)
        else kernel.krnlTcb slot := by
  obtain ⟨_, tail, apart⟩ := List.nodup_append.mp placed.distinct
  have distinct : rt.Nodup := (List.nodup_append.mp tail).1
  have inside : ∀ task ∈ rt, task ∈ run ++ (rt ++ delay) := fun task member =>
    List.mem_append_right _ (List.mem_append_left _ member)
  have named : ∀ task ∈ rt, (kernel.krnlTcb task).id = task ∧ task ≠ 0 := by
    intro task member
    refine ⟨placed.id_eq (inside task member), ?_⟩
    intro zero
    exact apart 0 placed.idle task (List.mem_append_left _ member) zero.symm
  obtain ⟨sorted, after, ticked, perm, ordered, stored, frame, pointer, entries⟩ :=
    kernel.schedRma_ticks rt placed.queued.rt distinct named
  have same : ∀ slot, SameTask (kernel.krnlTcb slot) (after.krnlTcb slot) := by
    intro slot
    rw [entries]
    split
    · exact (rtTick_only _ _).sameTask
    · exact SameTask.refl _
  have kept : Placed after run sorted delay := by
    refine placed.moved same frame.tasks ⟨?_, stored, ?_⟩
      ((perm.append_right _).append_left _) placed.runPeriods ?_ placed.idle
    · rw [frame.run, placed.queued.run]
    · rw [frame.delay, placed.queued.delay]
    · exact fun slot member => placed.rtPeriods slot (perm.mem_iff.mp member)
  exact ⟨sorted, after, ticked, perm, ordered, kept, frame, pointer, entries⟩

theorem Placed.idle_not_rt {kernel : Kernel config} {run rt delay : List Nat}
    (placed : Placed kernel run rt delay) : 0 ∉ rt ∧ 0 ∉ delay := by
  have apart := (List.nodup_append.mp placed.distinct).2.2 0 placed.idle
  exact ⟨fun queued => apart 0 (List.mem_append_left _ queued) rfl,
    fun delayed => apart 0 (List.mem_append_right _ delayed) rfl⟩

theorem Placed.schedRma_ticks {kernel : Kernel config} {run rt delay : List Nat}
    (placed : Placed kernel run rt delay) (ready : IdleReady kernel) :
    ∃ sorted after, kernel.schedRma =
        .ok ((firstEligible kernel.krnlTcb sorted).getD 0, after) ∧ sorted.Perm rt ∧
      sorted.Pairwise (fun first second =>
        periodOf kernel.krnlTcb first ≤ periodOf kernel.krnlTcb second) ∧
      Placed after run sorted delay ∧ IdleReady after ∧ RtFrame kernel after ∧
      (∀ task, firstEligible kernel.krnlTcb sorted = some task → after.krnlTask = task) ∧
      ∀ slot, after.krnlTcb slot =
        if slot ∈ rt then
          rtTick (firstEligible kernel.krnlTcb sorted = some slot) (kernel.krnlTcb slot)
        else kernel.krnlTcb slot := by
  obtain ⟨sorted, after, ticked, perm, ordered, kept, frame, pointer, entries⟩ :=
    placed.schedRma_sorts
  have idle : after.krnlTcb 0 = kernel.krnlTcb 0 := by
    rw [entries, if_neg placed.idle_not_rt.1]
  exact ⟨sorted, after, ticked, perm, ordered, kept, ready.of_entry idle, frame, pointer, entries⟩

def expired (kernel : Kernel config) (kind : (Nat → TcbEntry) → Nat → Bool) (delay : List Nat) :
    List Nat :=
  (delay.filter (expires kernel.krnlTcb)).filter (kind kernel.krnlTcb)

def pending (kernel : Kernel config) (delay : List Nat) : List Nat :=
  delay.filter fun slot => !expires kernel.krnlTcb slot

theorem expired_perm (kernel : Kernel config) (delay : List Nat) :
    (kernel.expired background delay ++ (kernel.expired realTime delay ++ kernel.pending delay)).Perm
      delay := by
  have kinds : (fun slot => !background kernel.krnlTcb slot) = realTime kernel.krnlTcb := by
    funext slot
    simp [background, realTime]
  have byKind := List.filter_append_perm (background kernel.krnlTcb)
    (delay.filter (expires kernel.krnlTcb))
  rw [kinds] at byKind
  have byTime := List.filter_append_perm (expires kernel.krnlTcb) delay
  rw [← List.append_assoc]
  exact (byKind.append_right _).trans byTime

theorem Placed.processDelayQueue_expires {kernel : Kernel config} {run rt delay : List Nat}
    (placed : Placed kernel run rt delay) :
    ∃ after, kernel.processDelayQueue = .ok after ∧ DelayFrame kernel after ∧
      (∀ slot, after.krnlTcb slot = if slot ∈ delay then
        { kernel.krnlTcb slot with delay := (kernel.krnlTcb slot).delay - 1 }
        else kernel.krnlTcb slot) ∧
      Placed after (run ++ kernel.expired background delay) (rt ++ kernel.expired realTime delay)
        (kernel.pending delay) := by
  have lengths := placed.length_le
  simp only [List.length_append] at lengths
  have distinct : delay.Nodup :=
    (List.nodup_append.mp (List.nodup_append.mp placed.distinct).2.1).2.1
  obtain ⟨after, processed, frame, entries, queues⟩ := kernel.processDelayQueue_queued placed.queued
    distinct (by omega) (by omega)
  have same : ∀ slot, SameTask (kernel.krnlTcb slot) (after.krnlTcb slot) := by
    intro slot
    rw [entries]
    split
    · exact ⟨rfl, rfl, rfl, rfl⟩
    · exact SameTask.refl _
  have rearranged : ((run ++ kernel.expired background delay) ++
      ((rt ++ kernel.expired realTime delay) ++ kernel.pending delay)).Perm
      (run ++ (rt ++ delay)) := by
    have moved := (kernel.expired_perm delay).append_left rt
    rw [List.append_assoc, List.append_assoc]
    refine List.Perm.append_left run (List.Perm.trans ?_ moved)
    rw [← List.append_assoc, ← List.append_assoc rt]
    exact List.perm_append_comm.append_right _
  refine ⟨after, processed, frame, entries, ?_⟩
  refine placed.moved same frame.tasks queues rearranged ?_ ?_
    (List.mem_append_left _ placed.idle)
  · intro slot member
    rcases List.mem_append.mp member with waiting | moved
    · exact placed.runPeriods slot waiting
    · simpa [background] using (List.mem_filter.mp moved).2
  · intro slot member
    rcases List.mem_append.mp member with waiting | moved
    · exact placed.rtPeriods slot waiting
    · simpa [realTime] using (List.mem_filter.mp moved).2

theorem Placed.processDelayQueue_moves {kernel : Kernel config} {run rt delay : List Nat}
    (placed : Placed kernel run rt delay) (ready : IdleReady kernel) :
    ∃ after, kernel.processDelayQueue = .ok after ∧ DelayFrame kernel after ∧
      (∀ slot, after.krnlTcb slot = if slot ∈ delay then
        { kernel.krnlTcb slot with delay := (kernel.krnlTcb slot).delay - 1 }
        else kernel.krnlTcb slot) ∧
      Placed after (run ++ kernel.expired background delay) (rt ++ kernel.expired realTime delay)
        (kernel.pending delay) ∧ IdleReady after := by
  obtain ⟨after, processed, frame, entries, kept⟩ := placed.processDelayQueue_expires
  have idle : after.krnlTcb 0 = kernel.krnlTcb 0 := by
    rw [entries, if_neg placed.idle_not_rt.2]
  exact ⟨after, processed, frame, entries, kept, ready.of_entry idle⟩

end Switching

end Kernel

end Hellfire

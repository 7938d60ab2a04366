import Hellfire.Library.RateMonotonic
import Hellfire.TaskSafety

/-!
Real time tasks that pass the time demand test meet every deadline: the ticks of
`dispatch_isr` are ticks of rate monotonic budgets, and no other call on the kernel
touches the budgets of tasks that are left alone.
-/

namespace Hellfire

open Machine RateMonotonic

def KernelOp.sparesRealTime {config : Config} : KernelOp → Kernel config → Prop
  | .block id, kernel => some id ∉ kernel.krnlRtQueue.contents
  | .kill _ id, kernel => some id ∉ kernel.krnlRtQueue.contents
  | .delay id _, kernel => some id ∉ kernel.krnlRtQueue.contents
  | _, _ => True

def KernelOp.prepares : KernelOp → Prop
  | .spawn call => call.task ≠ 0 ∧
      (call.period ≠ 0 → 0 < call.capacity ∧ call.deadline = call.period)
  | .schedlock lock => lock ≠ 0
  | _ => True

def KernelOp.runs : KernelOp → Prop
  | .spawn call => call.task ≠ 0 ∧ call.period = 0
  | _ => True

theorem KernelOp.runs.taskGiven {op : KernelOp} (runs : op.runs) : op.taskGiven := by
  cases op with
  | spawn call => exact runs.1
  | block | resume | kill | delay | yield | dispatch | schedlock => trivial

namespace Kernel

variable {config : Config}

def rtTasks (kernel : Kernel config) : List Nat := kernel.krnlRtQueue.contents.filterMap id

def taskSet (kernel : Kernel config) : TaskSet Nat where
  tasks := kernel.rtTasks.toFinset
  period task := (kernel.krnlTcb task).period.toNat
  capacity task := (kernel.krnlTcb task).capacity.toNat

def budgets (kernel : Kernel config) : Budgets Nat where
  budget task := (kernel.krnlTcb task).capacityRem.toNat
  untilReload task := (kernel.krnlTcb task).deadlineRem.toNat

theorem firstEligible_least (tcb : Nat → TcbEntry) {task : Nat} (sorted : List Nat)
    (ordered : sorted.Pairwise fun first second => periodOf tcb first ≤ periodOf tcb second)
    (member : task ∈ sorted) (eligible : rtEligible (tcb task) = true) :
    ∃ other, firstEligible tcb sorted = some other ∧ periodOf tcb other ≤ periodOf tcb task := by
  induction sorted with
  | nil => simp at member
  | cons first sorted ih =>
      obtain ⟨shorter, ordered⟩ := List.pairwise_cons.mp ordered
      by_cases runs : rtEligible (tcb first) = true
      · refine ⟨first, by simp [firstEligible, runs], ?_⟩
        rcases List.mem_cons.mp member with same | later
        · rw [same]
        · exact shorter task later
      · have later : task ∈ sorted := by
          rcases List.mem_cons.mp member with same | later
          · exact absurd (same ▸ eligible) runs
          · exact later
        obtain ⟨other, found, urgent⟩ := ih ordered later
        exact ⟨other, by simpa [firstEligible, runs] using found, urgent⟩

theorem rtTick_budgets {entry : TcbEntry} (selected : Bool) (counting : 0 < entry.deadlineRem.toNat)
    (pending : selected = true → 0 < entry.capacityRem.toNat) :
    (rtTick selected entry).deadlineRem.toNat =
        (if entry.deadlineRem.toNat = 1 then entry.period.toNat else entry.deadlineRem.toNat - 1) ∧
      (charged selected entry).toNat =
        (if selected = true then entry.capacityRem.toNat - 1 else entry.capacityRem.toNat) ∧
      (rtTick selected entry).capacityRem.toNat =
        (if entry.deadlineRem.toNat = 1 then entry.capacity.toNat
        else (charged selected entry).toNat) ∧
      (rtTick selected entry).deadlineMisses =
        (if entry.deadlineRem.toNat = 1 ∧ 0 < (charged selected entry).toNat
        then entry.deadlineMisses + 1 else entry.deadlineMisses) := by
  have one : (1 : UInt16) ≤ entry.deadlineRem := UInt16.le_iff_toNat_le.mpr counting
  have less : (entry.deadlineRem - 1).toNat = entry.deadlineRem.toNat - 1 :=
    UInt16.toNat_sub_of_le _ _ one
  have reload : entry.deadlineRem - 1 = 0 ↔ entry.deadlineRem.toNat = 1 := by
    rw [← UInt16.toNat_inj, less]
    simp
    omega
  refine ⟨?_, ?_, ?_, ?_⟩
  · simp only [rtTick_deadlineRem, reload]
    split
    · rfl
    · exact less
  · cases selected with
    | false => simp [charged]
    | true =>
        have some_left : (1 : UInt16) ≤ entry.capacityRem :=
          UInt16.le_iff_toNat_le.mpr (pending rfl)
        simp only [charged, if_true]
        exact UInt16.toNat_sub_of_le _ _ some_left
  · simp only [rtTick_capacityRem, reload]
    split
    · rfl
    · rfl
  · simp only [rtTick_deadlineMisses, reload, UInt16.lt_iff_toNat_lt]
    rfl

structure RtSame (before after : Kernel config) (slot : Nat) : Prop where
  task : SameTask (before.krnlTcb slot) (after.krnlTcb slot)
  budget : SameBudget (before.krnlTcb slot) (after.krnlTcb slot)
  free : before.blocked slot = false → after.blocked slot = false

theorem RtSame.of_eq {before after : Kernel config} {slot : Nat}
    (same : after.krnlTcb slot = before.krnlTcb slot) : RtSame before after slot := by
  refine ⟨?_, ?_, ?_⟩
  · rw [same]
    exact SameTask.refl _
  · rw [same]
    exact SameBudget.refl _
  · rw [blocked, blocked, same]
    exact id

theorem hfResume_free (kernel : Kernel config) (id : Nat) {slot : Nat}
    (free : kernel.blocked slot = false) : (kernel.hfResume id).2.blocked slot = false := by
  unfold Kernel.hfResume
  split
  · exact free
  · split
    · exact free
    · split
      · exact free
      · rw [blocked_eq_false] at free ⊢
        simp only [Kernel.pointAtCurrent]
        by_cases resumed : slot = id
        · rw [resumed, modify_same]
          simp
        · rw [modify_other _ _ resumed]
          exact free

section Quiet

variable {kernel after : Kernel config} {run rt delay : List Nat}

theorem Partition.mem_rt (partition : Partition kernel run rt delay) (slot : Nat) :
    some slot ∈ kernel.krnlRtQueue.contents ↔ slot ∈ rt := by
  simp [partition.queued.rt]

theorem Partition.rt_alive (partition : Partition kernel run rt delay) {slot : Nat}
    (member : slot ∈ rt) : kernel.live slot = true :=
  partition.live_of_mem (List.mem_append_right _ (List.mem_append_left _ member))

theorem Partition.quiet_step (partition : Partition kernel run rt delay) {op : KernelOp}
    (delays : ∀ slot ∈ delay, (kernel.krnlTcb slot).period = 0) (spares : op.sparesRealTime kernel)
    (runs : op.runs) (untimed : ∀ around, op = .dispatch around → kernel.krnlSchedule = 0)
    (stepped : kernel.perform op = .ok after) :
    ∃ run' delay', Partition after run' rt delay' ∧
      (∀ slot ∈ delay', (after.krnlTcb slot).period = 0) ∧ (∀ slot ∈ rt, RtSame kernel after slot) ∧
      ((∀ lock, op ≠ .schedlock lock) → after.krnlSchedule = kernel.krnlSchedule) := by
  have given : op.taskGiven := runs.taskGiven
  obtain ⟨run', rt', delay', kept, moved⟩ := partition.perform_inv given stepped
  have delayAlive : ∀ slot ∈ delay, kernel.live slot = true := fun slot member =>
    partition.live_of_mem (List.mem_append_right _ (List.mem_append_right _ member))
  cases moved with
  | unchanged entries _ schedule =>
      refine ⟨run, delay, kept, ?_, fun slot _ => .of_eq (by rw [entries]), schedule⟩
      rw [entries]
      exact delays
  | spawned frame queues =>
      have same : rt' = rt := queues.resolve_right fun periodic => periodic.1 runs.2
      subst same
      refine ⟨run', delay, kept, ?_, ?_, fun _ => frame.schedule⟩
      · intro slot member
        rw [frame.alive slot (delayAlive slot member)]
        exact delays slot member
      · exact fun slot member => .of_eq (frame.alive slot (partition.rt_alive member))
  | @blocked id =>
      have frame := kernel.hfBlock_frame id
      have spared : id ∉ rt := fun member => spares ((partition.mem_rt id).mpr member)
      refine ⟨run, delay, kept, ?_, ?_, fun _ => frame.schedule⟩
      · intro slot member
        rw [frame.period]
        exact delays slot member
      · exact fun slot member => .of_eq (frame.others slot fun same => spared (same ▸ member))
  | @resumed id =>
      have frame := kernel.hfResume_frame id
      refine ⟨run, delay, kept, ?_, ?_, fun _ => frame.schedule⟩
      · intro slot member
        rw [frame.period]
        exact delays slot member
      · intro slot _
        by_cases changed : slot = id
        · exact ⟨changed ▸ frame.same, changed ▸ frame.budget, kernel.hfResume_free id⟩
        · exact .of_eq (frame.others slot changed)
  | @killed around id _ nonzero queued others _ schedule =>
      have spared : id ∉ rt := fun member => spares ((partition.mem_rt id).mpr member)
      have inRun : id ∈ run := (List.mem_append.mp queued).resolve_right spared
      rw [List.erase_of_not_mem spared] at kept
      refine ⟨run.erase id, delay, kept, ?_, ?_, fun _ => schedule⟩
      · intro slot member
        have other : slot ≠ id := by
          rintro rfl
          exact (List.nodup_append.mp partition.distinct).2.2 slot inRun slot
            (List.mem_append_right _ member) rfl
        rw [others slot other (delayAlive slot member)]
        exact delays slot member
      · intro slot member
        have other : slot ≠ id := fun same => spared (same ▸ member)
        exact .of_eq (others slot other (partition.rt_alive member))
  | @delayed id ticks _ queued same others _ schedule =>
      have spared : id ∉ rt := fun member => spares ((partition.mem_rt id).mpr member)
      have inRun : id ∈ run := (List.mem_append.mp queued).resolve_right spared
      rw [List.erase_of_not_mem spared] at kept
      refine ⟨run.erase id, delay ++ [id], kept, ?_, ?_, fun _ => schedule⟩
      · intro slot member
        by_cases changed : slot = id
        · rw [changed, same.period]
          exact partition.runPeriods id inRun
        · rw [others slot changed]
          rcases List.mem_append.mp member with old | new
          · exact delays slot old
          · exact absurd (List.mem_singleton.mp new) changed
      · exact fun slot member => .of_eq (others slot fun same => spared (same ▸ member))
  | yielded switched budget schedule =>
      refine ⟨run', delay, kept, ?_, ?_, fun _ => schedule⟩
      · intro slot member
        rw [(switched.same slot).period]
        exact delays slot member
      · intro slot _
        refine ⟨switched.same slot, budget slot, ?_⟩
        rw [switched.blocked]
        exact id
  | ticked unlocked _ _ _ => exact absurd (untimed _ rfl) unlocked

end Quiet

structure Fresh (kernel : Kernel config) (slot : Nat) : Prop where
  free : kernel.blocked slot = false
  full : (kernel.krnlTcb slot).capacityRem = (kernel.krnlTcb slot).capacity
  whole : (kernel.krnlTcb slot).deadlineRem = (kernel.krnlTcb slot).period
  met : (kernel.krnlTcb slot).deadlineMisses = 0

theorem Fresh.same {before after : Kernel config} {slot : Nat} (fresh : Fresh before slot)
    (same : RtSame before after slot) : Fresh after slot := by
  refine ⟨same.free fresh.free, ?_, ?_, ?_⟩
  · rw [same.budget.capacityRem, same.budget.capacity, fresh.full]
  · rw [same.budget.deadlineRem, same.task.period, fresh.whole]
  · rw [same.budget.deadlineMisses, fresh.met]

structure Prepared (kernel : Kernel config) (run rt delay : List Nat) : Prop
    extends Partition kernel run rt delay where
  locked : kernel.krnlSchedule = 0
  delays : ∀ slot ∈ delay, (kernel.krnlTcb slot).period = 0
  fresh : ∀ slot ∈ rt, Fresh kernel slot

theorem KernelOp.prepares_cases {op : KernelOp} (prepares : op.prepares) :
    op.runs ∨ ∃ call, op = .spawn call ∧ call.task ≠ 0 ∧ call.period ≠ 0 ∧
      call.deadline = call.period := by
  cases op with
  | spawn call =>
      by_cases periodic : call.period = 0
      · exact Or.inl ⟨prepares.1, periodic⟩
      · exact Or.inr ⟨call, rfl, prepares.1, periodic, (prepares.2 periodic).2⟩
  | _ => exact Or.inl trivial

theorem Prepared.step {kernel after : Kernel config} {run rt delay : List Nat} {op : KernelOp}
    (prepared : Prepared kernel run rt delay) (spares : op.sparesRealTime kernel)
    (prepares : op.prepares) (stepped : kernel.perform op = .ok after) :
    ∃ run' rt' delay', Prepared after run' rt' delay' := by
  rcases KernelOp.prepares_cases prepares with runs | ⟨call, rfl, task, periodic, sameDeadline⟩
  · obtain ⟨run', delay', kept, delays, same, schedule⟩ := prepared.toPartition.quiet_step
      prepared.delays spares runs (fun _ _ => prepared.locked) stepped
    refine ⟨run', rt, delay', kept, ?_, delays, fun slot member =>
      (prepared.fresh slot member).same (same slot member)⟩
    by_cases locking : ∃ lock, op = .schedlock lock
    · obtain ⟨lock, rfl⟩ := locking
      simp only [Kernel.perform, Except.ok.injEq] at stepped
      have nonzero : lock ≠ 0 := prepares
      rw [← stepped, hfSchedlock]
      simp [nonzero]
    · rw [schedule fun lock same => locking ⟨lock, same⟩]
      exact prepared.locked
  · obtain ⟨code, next, run', rt', spawned, kept, frame, queues⟩ :=
      prepared.toPartition.hfSpawn call task
    simp only [Kernel.perform, spawned, Except.map, Except.ok.injEq] at stepped
    subst stepped
    have old : ∀ slot ∈ rt, Fresh next slot := fun slot member =>
      (prepared.fresh slot member).same
        (.of_eq (frame.alive slot (prepared.toPartition.rt_alive member)))
    refine ⟨run', rt', delay, kept, frame.schedule.trans prepared.locked, ?_, ?_⟩
    · intro slot member
      rw [frame.alive slot (prepared.toPartition.live_of_mem
        (List.mem_append_right _ (List.mem_append_right _ member)))]
      exact prepared.delays slot member
    · intro slot member
      rcases queues with same | ⟨_, _, longer, entries⟩
      · exact old slot (same ▸ member)
      · rw [longer] at member
        rcases List.mem_append.mp member with before | added
        · exact old slot before
        · rw [List.mem_singleton.mp added]
          refine ⟨?_, ?_, ?_, ?_⟩
          · rw [blocked_eq_false, entries, fillEntry_same]
            simp [spawnEntry]
          · rw [entries, fillEntry_same]
            rfl
          · rw [entries, fillEntry_same]
            exact sameDeadline
          · rw [entries, fillEntry_same]
            rfl

structure Timed (setup : Kernel config) (window : Nat → Nat) (kernel : Kernel config)
    (run rt delay : List Nat) : Prop extends Partition kernel run rt delay where
  sameTasks : ∀ slot, slot ∈ rt ↔ slot ∈ setup.rtTasks
  delays : ∀ slot ∈ delay, (kernel.krnlTcb slot).period = 0
  free : ∀ slot ∈ rt, kernel.blocked slot = false
  period : ∀ slot ∈ rt, (kernel.krnlTcb slot).period = (setup.krnlTcb slot).period
  capacity : ∀ slot ∈ rt, (kernel.krnlTcb slot).capacity = (setup.krnlTcb slot).capacity
  met : ∀ slot ∈ rt, (kernel.krnlTcb slot).deadlineMisses = 0
  counting : Counting setup.taskSet kernel.budgets
  bounded : ∀ slot ∈ rt, Bounded setup.taskSet slot (window slot) kernel.budgets

theorem mem_taskSet (kernel : Kernel config) (slot : Nat) :
    slot ∈ kernel.taskSet.tasks ↔ slot ∈ kernel.rtTasks := by
  simp [taskSet]

theorem Partition.rtTasks {kernel : Kernel config} {run rt delay : List Nat}
    (partition : Partition kernel run rt delay) : kernel.rtTasks = rt := by
  simp [Kernel.rtTasks, partition.queued.rt, List.filterMap_map]

theorem Prepared.timed {kernel : Kernel config} {run rt delay : List Nat} {window : Nat → Nat}
    (prepared : Prepared kernel run rt delay) (positive : ∀ slot ∈ rt, 0 < window slot) :
    Timed kernel window kernel run rt delay := by
  have tasks := prepared.toPartition.rtTasks
  have full : ∀ slot ∈ kernel.taskSet.tasks,
      kernel.budgets.budget slot = kernel.taskSet.capacity slot ∧
        kernel.budgets.untilReload slot = kernel.taskSet.period slot := by
    intro slot member
    rw [mem_taskSet, tasks] at member
    have fresh := prepared.fresh slot member
    simp only [budgets, taskSet, fresh.full, fresh.whole, and_self]
  refine { prepared.toPartition with
    sameTasks := fun slot => by rw [tasks]
    delays := prepared.delays
    free := fun slot member => (prepared.fresh slot member).free
    period := fun _ _ => rfl
    capacity := fun _ _ => rfl
    met := fun slot member => (prepared.fresh slot member).met
    counting := ?_
    bounded := ?_ }
  · intro slot member
    rw [(full slot member).2]
    rw [mem_taskSet, tasks] at member
    have nonzero := prepared.rtPeriods slot member
    have positive : (kernel.krnlTcb slot).period.toNat ≠ 0 := fun zero =>
      nonzero (UInt16.toNat_inj.mp zero)
    exact ⟨Nat.pos_of_ne_zero positive, Nat.le_refl _⟩
  · intro slot member
    have inSet : slot ∈ kernel.taskSet.tasks := by rwa [mem_taskSet, tasks]
    exact Bounded.start (positive slot member) inSet full

section Running

variable {setup kernel after : Kernel config} {window : Nat → Nat} {run rt delay : List Nat}

theorem Timed.quiet (timed : Timed setup window kernel run rt delay) {run' delay' : List Nat}
    (kept : Partition after run' rt delay')
    (delays : ∀ slot ∈ delay', (after.krnlTcb slot).period = 0)
    (same : ∀ slot ∈ rt, RtSame kernel after slot) : Timed setup window after run' rt delay' := by
  have sameBudgets : ∀ slot ∈ setup.taskSet.tasks,
      after.budgets.budget slot = kernel.budgets.budget slot ∧
        after.budgets.untilReload slot = kernel.budgets.untilReload slot := by
    intro slot member
    rw [mem_taskSet, ← timed.sameTasks] at member
    have budget := (same slot member).budget
    simp only [budgets, budget.capacityRem, budget.deadlineRem, and_self]
  refine { kept with
    sameTasks := timed.sameTasks
    delays := delays
    free := fun slot member => (same slot member).free (timed.free slot member)
    period := fun slot member => (same slot member).task.period.trans (timed.period slot member)
    capacity := fun slot member =>
      (same slot member).budget.capacity.trans (timed.capacity slot member)
    met := fun slot member =>
      (same slot member).budget.deadlineMisses.trans (timed.met slot member)
    counting := ?_
    bounded := ?_ }
  · intro slot member
    rw [(sameBudgets slot member).2]
    exact timed.counting slot member
  · intro slot member
    exact (timed.bounded slot member).congr
      (by rw [mem_taskSet, ← timed.sameTasks]; exact member) sameBudgets

theorem Timed.highest (timed : Timed setup window kernel run rt delay) {sorted : List Nat}
    (perm : sorted.Perm rt)
    (ordered : sorted.Pairwise fun first second =>
      periodOf kernel.krnlTcb first ≤ periodOf kernel.krnlTcb second) :
    Highest setup.taskSet (firstEligible kernel.krnlTcb sorted) kernel.budgets := by
  have eligible : ∀ slot, rtEligible (kernel.krnlTcb slot) = true ↔
      kernel.blocked slot = false ∧ 0 < kernel.budgets.budget slot := by
    intro slot
    simp [rtEligible, blocked, budgets, UInt16.lt_iff_toNat_lt]
  constructor
  · intro slot found
    have member : slot ∈ rt := perm.mem_iff.mp (List.mem_of_find?_eq_some found)
    have runs := List.find?_some found
    refine ⟨?_, ((eligible slot).mp runs).2⟩
    rw [mem_taskSet, ← timed.sameTasks]
    exact member
  · intro slot member waiting
    rw [mem_taskSet, ← timed.sameTasks] at member
    obtain ⟨other, found, urgent⟩ := firstEligible_least kernel.krnlTcb sorted ordered
      (perm.mem_iff.mpr member) ((eligible slot).mpr ⟨timed.free slot member, waiting⟩)
    have inside : other ∈ rt := perm.mem_iff.mp (List.mem_of_find?_eq_some found)
    refine ⟨other, found, ?_⟩
    simp only [periodOf, timed.period slot member, timed.period other inside] at urgent
    exact urgent

theorem Timed.tick_slot (timed : Timed setup window kernel run rt delay) {sorted : List Nat}
    (ticked : Ticked kernel after rt sorted) {slot : Nat} (member : slot ∈ rt) :
    after.budgets.budget slot =
        (tick setup.taskSet (firstEligible kernel.krnlTcb sorted) kernel.budgets).budget slot ∧
      after.budgets.untilReload slot =
        (tick setup.taskSet (firstEligible kernel.krnlTcb sorted) kernel.budgets).untilReload slot ∧
      (after.krnlTcb slot).capacity = (kernel.krnlTcb slot).capacity ∧
      (after.krnlTcb slot).deadlineMisses =
        if kernel.budgets.untilReload slot = 1 ∧
          0 < charge (firstEligible kernel.krnlTcb sorted) kernel.budgets slot
        then (kernel.krnlTcb slot).deadlineMisses + 1 else (kernel.krnlTcb slot).deadlineMisses := by
  have highest := timed.highest ticked.perm ticked.ordered
  have inSet : slot ∈ setup.taskSet.tasks := by rwa [mem_taskSet, ← timed.sameTasks]
  have budget := ticked.budgets slot
  rw [if_pos member] at budget
  obtain ⟨rem, spent, left, misses⟩ := rtTick_budgets
    (decide (firstEligible kernel.krnlTcb sorted = some slot)) (timed.counting slot inSet).1
    (fun selected => (highest.pending slot (by simpa using selected)).2)
  have charges : (charged (decide (firstEligible kernel.krnlTcb sorted = some slot))
      (kernel.krnlTcb slot)).toNat =
      charge (firstEligible kernel.krnlTcb sorted) kernel.budgets slot := by
    rw [spent]
    simp only [decide_eq_true_eq]
    rfl
  refine ⟨?_, ?_, ?_, ?_⟩
  · simp only [budgets, tick, budget.capacityRem, left, charges, taskSet,
      ← timed.capacity slot member]
  · simp only [budgets, tick, budget.deadlineRem, rem, taskSet, ← timed.period slot member]
  · rw [budget.capacity, rtTick_capacity]
  · rw [budget.deadlineMisses, misses, charges]
    rfl

theorem Timed.tick (timed : Timed setup window kernel run rt delay) {run' delay' sorted : List Nat}
    (fits : ∀ slot ∈ rt, window slot ≤ setup.taskSet.period slot ∧
      demand setup.taskSet slot (window slot) ≤ window slot)
    (ticked : Ticked kernel after rt sorted) (switched : Switched kernel after)
    (kept : Partition after run' sorted delay')
    (delays : ∀ slot ∈ delay', (after.krnlTcb slot).period = 0) :
    Timed setup window after run' sorted delay' := by
  have highest := timed.highest ticked.perm ticked.ordered
  have old : ∀ {slot}, slot ∈ sorted → slot ∈ rt := fun member => ticked.perm.mem_iff.mp member
  have inSet : ∀ slot, slot ∈ setup.taskSet.tasks ↔ slot ∈ rt := by
    intro slot
    rw [mem_taskSet, ← timed.sameTasks]
  have sameBudgets : ∀ slot ∈ setup.taskSet.tasks,
      after.budgets.budget slot =
          (RateMonotonic.tick setup.taskSet (firstEligible kernel.krnlTcb sorted)
            kernel.budgets).budget slot ∧
        after.budgets.untilReload slot =
          (RateMonotonic.tick setup.taskSet (firstEligible kernel.krnlTcb sorted)
            kernel.budgets).untilReload slot := by
    intro slot member
    have facts := timed.tick_slot ticked ((inSet slot).mp member)
    exact ⟨facts.1, facts.2.1⟩
  refine { kept with
    sameTasks := fun slot => by rw [ticked.perm.mem_iff, timed.sameTasks]
    delays := delays
    free := fun slot member => by
      rw [switched.blocked]
      exact timed.free slot (old member)
    period := fun slot member =>
      (switched.same slot).period.trans (timed.period slot (old member))
    capacity := fun slot member =>
      (timed.tick_slot ticked (old member)).2.2.1.trans (timed.capacity slot (old member))
    met := ?_
    counting := ?_
    bounded := ?_ }
  · intro slot member
    rw [(timed.tick_slot ticked (old member)).2.2.2, if_neg]
    · exact timed.met slot (old member)
    · rintro ⟨reload, late⟩
      have fit := fits slot (old member)
      have done := (timed.bounded slot (old member)).no_miss timed.counting highest fit.2 fit.1
        ((inSet slot).mpr (old member)) reload
      omega
  · intro slot member
    rw [(sameBudgets slot member).2]
    exact timed.counting.tick slot member
  · intro slot member
    have inside := (inSet slot).mpr (old member)
    exact ((timed.bounded slot (old member)).tick timed.counting highest
      (fits slot (old member)).2 inside).congr inside sameBudgets

theorem Timed.step (timed : Timed setup window kernel run rt delay) {op : KernelOp}
    (fits : ∀ slot ∈ rt, window slot ≤ setup.taskSet.period slot ∧
      demand setup.taskSet slot (window slot) ≤ window slot)
    (spares : op.sparesRealTime kernel) (runs : op.runs) (stepped : kernel.perform op = .ok after) :
    ∃ run' rt' delay', Timed setup window after run' rt' delay' := by
  rcases tick_or_untimed kernel op with ⟨around, rfl, unlocked⟩ | untimed
  · cases whole : around.stackIntact with
    | false => simp [Kernel.perform, dispatchIsr, unlocked, whole] at stepped
    | true =>
        obtain ⟨next, run', sorted, dispatched, _, ticked, switched, kept, _⟩ :=
          timed.toPartition.dispatchIsr_switches unlocked whole
        simp only [Kernel.perform, dispatched, Except.ok.injEq] at stepped
        subst stepped
        have none : kernel.expired realTime delay = [] := by
          apply List.filter_eq_nil_iff.mpr
          intro slot member
          simp [realTime, timed.delays slot (List.mem_filter.mp member).1]
        rw [none, List.append_nil] at ticked
        refine ⟨run', sorted, _, timed.tick fits ticked switched kept ?_⟩
        intro slot member
        rw [(switched.same slot).period]
        exact timed.delays slot (List.mem_filter.mp member).1
  · obtain ⟨run', delay', kept, delays, same, _⟩ := timed.toPartition.quiet_step timed.delays spares
      runs untimed stepped
    exact ⟨run', rt, delay', timed.quiet kept delays same⟩

end Running

/-- Real time tasks that are spawned before the scheduler is unlocked, that pass the time
demand test and that are left alone never miss a deadline. -/
theorem rate_monotonic_schedulable {start setup kernel : Kernel config} (booted : start.Booted)
    (spawned : Reaches perform (fun op state => op.sparesRealTime state ∧ op.prepares) start setup)
    (ran : Reaches perform (fun op state => op.sparesRealTime state ∧ op.runs) setup kernel)
    (fits : ∀ task ∈ setup.rtTasks, ∃ t, 1 ≤ t ∧ t ≤ setup.taskSet.period task ∧
      demand setup.taskSet task t ≤ t) :
    ∀ task ∈ setup.rtTasks, (kernel.krnlTcb task).deadlineMisses = 0 := by
  obtain ⟨run, rt, delay, prepared⟩ : ∃ run rt delay, Prepared setup run rt delay := by
    refine spawned.invariant (fun state => ∃ run rt delay, Prepared state run rt delay) ?_ ?_
    · obtain ⟨partition, _, locked⟩ := booted.partition
      exact ⟨_, _, _, partition, locked, by simp, by simp⟩
    · rintro op before after ⟨run, rt, delay, prepared⟩ ⟨spares, prepares⟩ stepped
      exact prepared.step spares prepares stepped
  have tasks := prepared.toPartition.rtTasks
  rw [tasks] at fits ⊢
  choose! window positive short enough using fits
  obtain ⟨run', rt', delay', timed⟩ :
      ∃ run' rt' delay', Timed setup window kernel run' rt' delay' := by
    refine ran.invariant (fun state => ∃ run rt delay, Timed setup window state run rt delay) ?_ ?_
    · exact ⟨_, _, _, prepared.timed positive⟩
    · rintro op before after ⟨run', rt', delay', timed⟩ ⟨spares, runs⟩ stepped
      refine timed.step ?_ spares runs stepped
      intro slot member
      rw [timed.sameTasks, tasks] at member
      exact ⟨short slot member, enough slot member⟩
  intro task member
  apply timed.met
  rw [timed.sameTasks, tasks]
  exact member

def sampler : SpawnCall := ⟨2, 4, 2, 4, [115], 256, 64⟩

def quickSampler : SpawnCall := ⟨3, 3, 1, 3, [113], 256, 64⟩

def sampling : Kernel threeTasks := outcome perform [.spawn sampler, .spawn quickSampler] threeBoot

def twelveTicks : List KernelOp := .schedlock 0 :: List.replicate 12 (.dispatch undisturbed)

/-- Two units of work in every four ticks and one in every three, the shorter period spawned last. -/
theorem rate_monotonic_schedulable_samplers :
    ∃ kernel, execute perform twelveTicks sampling = .ok kernel ∧
      (kernel.krnlTcb 1).deadlineMisses = 0 ∧ (kernel.krnlTcb 2).deadlineMisses = 0 := by
  have spawned : Reaches perform (fun op state => op.sparesRealTime state ∧ op.prepares) threeBoot
      sampling := by
    refine execute_reaches [.spawn sampler, .spawn quickSampler] _ _ .start ?_ rfl
    intro op member state
    simp only [List.mem_cons, List.not_mem_nil, or_false] at member
    rcases member with rfl | rfl
    · exact ⟨trivial, by decide, fun _ => ⟨by decide, rfl⟩⟩
    · exact ⟨trivial, by decide, fun _ => ⟨by decide, rfl⟩⟩
  have tasks : sampling.rtTasks = [1, 2] := by decide
  have finishes : (execute perform twelveTicks sampling).isOk = true := by decide +kernel
  cases done : execute perform twelveTicks sampling with
  | error halt =>
      rw [done] at finishes
      cases finishes
  | ok kernel =>
      have ran : Reaches perform (fun op state => op.sparesRealTime state ∧ op.runs) sampling kernel := by
        refine execute_reaches twelveTicks _ _ .start ?_ done
        intro op member state
        rcases List.mem_cons.mp member with rfl | tick
        · exact ⟨trivial, trivial⟩
        · rw [List.eq_of_mem_replicate tick]
          exact ⟨trivial, trivial⟩
      have met := rate_monotonic_schedulable threeBoot_booted spawned ran (by
        intro task member
        rw [tasks] at member
        rcases List.mem_pair.mp member with rfl | rfl
        · exact ⟨4, by decide, by decide, by decide⟩
        · exact ⟨1, by decide, by decide, by decide⟩)
      rw [tasks] at met
      exact ⟨kernel, rfl, met 1 (by decide), met 2 (by decide)⟩

end Kernel

end Hellfire

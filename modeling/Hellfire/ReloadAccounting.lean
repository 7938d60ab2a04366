import Hellfire.Library.ReloadWindows
import Hellfire.CapacityBudget

/-!
The accounting of `sched_rma` for one task ended a whole run: when its budget is reloaded,
how often it is selected between two reloads, and which reloads count as a missed deadline.
-/

namespace Hellfire

open Machine Metering

/-- What a tick did for a task in the real time queue: whether `sched_rma` selected it, and
its entry before and after the tick. -/
structure TaskTick where
  selected : Bool
  before : TcbEntry
  after : TcbEntry

namespace TaskTick

def reloaded (tick : TaskTick) : Bool := tick.before.deadlineRem - 1 = 0

def missed (tick : TaskTick) : Bool := tick.after.deadlineMisses ≠ tick.before.deadlineMisses

def beat (tick : TaskTick) : Beat := ⟨tick.selected, tick.reloaded, tick.missed⟩

structure Accounts (call : SpawnCall) (tick : TaskTick) : Prop where
  misses : tick.after.deadlineMisses =
    if tick.missed = true then tick.before.deadlineMisses + 1 else tick.before.deadlineMisses
  reload : tick.reloaded = true →
    tick.after.capacityRem = call.capacity ∧ tick.after.deadlineRem = call.period

end TaskTick

namespace Kernel

variable {config : Config}

theorem rtTick_beat {entry after : TcbEntry} {selected : Bool}
    (counting : 0 < entry.deadlineRem.toNat)
    (pending : selected = true → 0 < entry.capacityRem.toNat)
    (same : SameBudget (rtTick selected entry) after) :
    (TaskTick.mk selected entry after).beat = (meterOf entry).beat selected ∧
      after.deadlineMisses = if (TaskTick.mk selected entry after).missed = true
        then entry.deadlineMisses + 1 else entry.deadlineMisses := by
  obtain ⟨_, spent, _, misses⟩ := rtTick_budgets selected counting pending
  rw [← same.deadlineMisses, spent] at misses
  have last : entry.deadlineRem - 1 = 0 ↔ entry.deadlineRem.toNat = 1 := by
    have one : (1 : UInt16) ≤ entry.deadlineRem := UInt16.le_iff_toNat_le.mpr counting
    rw [← UInt16.toNat_inj, UInt16.toNat_sub_of_le _ _ one]
    simp
    omega
  have grows : entry.deadlineMisses + 1 ≠ entry.deadlineMisses := by
    intro same
    have wrapped := congrArg UInt32.toNat same
    rw [UInt32.toNat_add] at wrapped
    have small := entry.deadlineMisses.toNat_lt
    have one : (1 : UInt32).toNat = 1 := rfl
    omega
  by_cases ended : entry.deadlineRem.toNat = 1 ∧
      0 < if selected = true then entry.capacityRem.toNat - 1 else entry.capacityRem.toNat
  · rw [if_pos ended] at misses
    have missed : after.deadlineMisses ≠ entry.deadlineMisses := misses ▸ grows
    refine ⟨?_, by simp [TaskTick.missed, misses]⟩
    simp only [TaskTick.beat, TaskTick.reloaded, TaskTick.missed, Meter.beat, meterOf, last,
      missed, ended, ne_eq, not_false_eq_true, and_self, decide_true]
  · rw [if_neg ended] at misses
    refine ⟨?_, by simp [TaskTick.missed, misses]⟩
    simp only [TaskTick.beat, TaskTick.reloaded, TaskTick.missed, Meter.beat, meterOf, last,
      misses, ended, ne_eq, not_true_eq_false, decide_false]
    congr

/-- What a step adds to the ticks of a task: one tick when the scheduler is not locked and the
task is in the real time queue, be it that its delay ends in this tick. -/
def tickOf (slot : Nat) (kernel after : Kernel config) : KernelOp → List TaskTick
  | .dispatch around =>
      if kernel.krnlSchedule = 0 ∨ some slot ∉ after.krnlRtQueue.contents then []
      else [⟨decide (slot ∈ kernel.selection (.dispatch around)), kernel.krnlTcb slot,
        after.krnlTcb slot⟩]
  | _ => []

/-- A step of the kernel, with the ticks of a task kept in a log. -/
def measured (slot : Nat) (op : KernelOp) (state : Kernel config × List TaskTick) :
    Except Halt (Kernel config × List TaskTick) := do
  let next ← state.1.perform op
  .ok (next, state.2 ++ tickOf slot state.1 next op)

def sparesTask (slot : Nat) (op : KernelOp) : Prop :=
  op.taskGiven ∧ ∀ around, op ≠ .kill around slot

theorem measured_ok {slot : Nat} {op : KernelOp} {before after : Kernel config}
    {log log' : List TaskTick} (done : measured slot op (before, log) = .ok (after, log')) :
    before.perform op = .ok after ∧ log' = log ++ tickOf slot before after op :=
  ok_of_noted (fun next => log ++ tickOf slot before next op) done

section Steps

variable {kernel after : Kernel config} {run rt delay : List Nat} {op : KernelOp} {slot : Nat}

theorem Partition.hfDelay_sameRealTime (partition : Partition kernel run rt delay) {id : Nat}
    {ticks : UInt32} (done : kernel.perform (.delay id ticks) = .ok after) (slot : Nat) :
    SameRealTime (kernel.krnlTcb slot) (after.krnlTcb slot) := by
  simp only [Kernel.perform, Except.map] at done
  rcases partition.hfDelay_cases id ticks with
    ⟨code, same, refused, _, _, tcb, _⟩ | ⟨later, nonzero, queued⟩ | ⟨later, delayed⟩
  · rw [refused, Except.ok.injEq] at done
    rw [← done]
    exact .of_eq (by rw [tcb])
  · obtain ⟨moved, accepted, _, tcb, _⟩ := partition.hfDelay_present later nonzero queued
    rw [accepted, Except.ok.injEq] at done
    rw [← done, tcb]
    by_cases named : slot = id
    · rw [named, modify_same]
      exact ⟨⟨rfl, rfl, rfl, rfl⟩, rfl⟩
    · exact .of_eq (modify_other _ _ named)
  · rw [partition.hfDelay_delayed later delayed] at done
    cases done

structure Standing (kernel : Kernel config) (rt delay : List Nat) (slot : Nat) : Prop where
  queued : slot ∈ rt ++ delay
  periodic : (kernel.krnlTcb slot).period ≠ 0

theorem Standing.live (standing : Standing kernel rt delay slot)
    (partition : Partition kernel run rt delay) : kernel.live slot = true :=
  partition.toPlaced.live_of_mem (List.mem_append_right _ standing.queued)

theorem Standing.ticked (standing : Standing kernel rt delay slot) :
    slot ∈ (rt ++ kernel.expired realTime delay) ++ kernel.pending delay := by
  rcases List.mem_append.mp standing.queued with already | waits
  · exact List.mem_append_left _ (List.mem_append_left _ already)
  · by_cases last : expires kernel.krnlTcb slot = true
    · refine List.mem_append_left _ (List.mem_append_right _ ?_)
      exact List.mem_filter.mpr ⟨List.mem_filter.mpr ⟨waits, last⟩,
        by simp [realTime, standing.periodic]⟩
    · exact List.mem_append_right _ (List.mem_filter.mpr ⟨waits, by simpa using last⟩)

theorem Partition.quiet (partition : Partition kernel run rt delay)
    (standing : Standing kernel rt delay slot) (spared : sparesTask slot op)
    (untimed : tickOf slot kernel after op = [])
    (performed : kernel.perform op = .ok after) :
    ∃ run' rt' delay', Partition after run' rt' delay' ∧ Standing after rt' delay' slot ∧
      SameRealTime (kernel.krnlTcb slot) (after.krnlTcb slot) := by
  obtain ⟨given, unkilled⟩ := spared
  obtain ⟨run', rt', delay', kept, moved⟩ := partition.perform_inv given performed
  suffices rest : slot ∈ rt' ++ delay' ∧
      SameRealTime (kernel.krnlTcb slot) (after.krnlTcb slot) by
    obtain ⟨queued, same⟩ := rest
    refine ⟨run', rt', delay', kept, ⟨queued, ?_⟩, same⟩
    rw [same.period]
    exact standing.periodic
  have alive := standing.live partition
  cases moved with
  | unchanged entries _ _ => exact ⟨standing.queued, .of_eq (by rw [entries])⟩
  | spawned frame queues =>
      refine ⟨?_, .of_eq (frame.alive slot alive)⟩
      rcases queues with same | ⟨_, _, more, _⟩
      · rw [same]
        exact standing.queued
      · rw [more, List.append_assoc]
        rcases List.mem_append.mp standing.queued with already | waits
        · exact List.mem_append_left _ already
        · exact List.mem_append_right _ (List.mem_append_right _ waits)
  | @blocked id => exact ⟨standing.queued, (kernel.hfBlock_frame id).sameRealTime slot⟩
  | @resumed id => exact ⟨standing.queued, (kernel.hfResume_frame id).sameRealTime slot⟩
  | @killed around id _ _ _ others _ _ =>
      have other : slot ≠ id := by
        rintro rfl
        exact unkilled around rfl
      refine ⟨?_, .of_eq (others slot other alive)⟩
      rcases List.mem_append.mp standing.queued with already | waits
      · exact List.mem_append_left _ ((List.mem_erase_of_ne other).mpr already)
      · exact List.mem_append_right _ waits
  | @delayed id ticks _ _ _ _ _ _ =>
      refine ⟨?_, partition.hfDelay_sameRealTime performed slot⟩
      by_cases named : slot = id
      · rw [named]
        simp
      · rcases List.mem_append.mp standing.queued with already | waits
        · exact List.mem_append_left _ ((List.mem_erase_of_ne named).mpr already)
        · exact List.mem_append_right _ (List.mem_append_left _ waits)
  | yielded switched budget _ =>
      exact ⟨standing.queued, budget slot, (switched.same slot).period⟩
  | ticked unlocked ticked switched _ =>
      have member := standing.ticked
      have absent : slot ∉ rt' := by
        intro stands
        have present := (kept.mem_rt slot).mpr stands
        simp [tickOf, unlocked, present] at untimed
      have unlisted : slot ∉ rt ++ kernel.expired realTime delay := fun listed =>
        absent (ticked.perm.mem_iff.mpr listed)
      have budget := ticked.budgets slot
      rw [if_neg unlisted] at budget
      refine ⟨List.mem_append_right _ ?_, budget, (switched.same slot).period⟩
      exact (List.mem_append.mp member).resolve_left unlisted

end Steps

structure Accounting (call : SpawnCall) (slot : Nat) (kernel : Kernel config)
    (log : List TaskTick) (meter : Meter) : Prop where
  run : Beats call.capacity.toNat call.period.toNat ⟨call.capacity.toNat, call.deadline.toNat⟩
    (log.map TaskTick.beat) meter
  meter : meterOf (kernel.krnlTcb slot) = meter
  capacity : (kernel.krnlTcb slot).capacity = call.capacity
  period : (kernel.krnlTcb slot).period = call.period
  misses : (kernel.krnlTcb slot).deadlineMisses = UInt32.ofNat (log.countP TaskTick.missed)
  ticks : ∀ tick ∈ log, tick.Accounts call

theorem Accounting.start {kernel setup : Kernel config} {call : SpawnCall} {slot : Nat}
    (entries : setup.krnlTcb = (kernel.fillEntry call slot).krnlTcb) :
    Accounting call slot setup [] ⟨call.capacity.toNat, call.deadline.toNat⟩ := by
  refine ⟨.start, ?_, ?_, ?_, ?_, by simp⟩
  all_goals
    rw [entries, fillEntry_same]
    rfl

section Runs

variable {call : SpawnCall} {slot : Nat} {kernel after : Kernel config} {log log' : List TaskTick}
  {meter : Meter} {run rt delay : List Nat} {op : KernelOp}

theorem Accounting.ticked (accounting : Accounting call slot kernel log meter)
    (counting : 0 < meter.untilReload) {used : Bool}
    (eligible : used = true → rtEligible (kernel.krnlTcb slot) = true)
    (budget : SameBudget (rtTick used (kernel.krnlTcb slot)) (after.krnlTcb slot))
    (period : (after.krnlTcb slot).period = (kernel.krnlTcb slot).period) :
    ∃ meter', Accounting call slot after
      (log ++ [⟨used, kernel.krnlTcb slot, after.krnlTcb slot⟩]) meter' := by
  have same := accounting.meter
  have left : 0 < (kernel.krnlTcb slot).deadlineRem.toNat := by
    rw [← same] at counting
    exact counting
  have pending : used = true → 0 < (kernel.krnlTcb slot).capacityRem.toNat := by
    intro selected
    have runs := eligible selected
    simp only [rtEligible, Bool.and_eq_true, decide_eq_true_eq] at runs
    exact UInt16.lt_iff_toNat_lt.mp runs.2
  obtain ⟨beat, misses⟩ := rtTick_beat left pending budget
  have ticked := rtTick_meter used left pending
  rw [accounting.capacity, accounting.period, same] at ticked
  rw [same] at beat
  refine ⟨meter.tick call.capacity.toNat call.period.toNat used, ?_, ?_, ?_, ?_, ?_, ?_⟩
  · rw [List.map_append, List.map_singleton, beat]
    refine .tick used accounting.run fun selected => ?_
    rw [← same]
    exact pending selected
  · rw [← ticked, meterOf, meterOf, budget.capacityRem, budget.deadlineRem]
  · rw [budget.capacity, rtTick_capacity]
    exact accounting.capacity
  · exact period.trans accounting.period
  · rw [misses, accounting.misses, List.countP_append, List.countP_singleton]
    split
    · exact (UInt32.ofNat_add _ 1).symm
    · rfl
  · intro tick member
    rcases List.mem_append.mp member with old | new
    · exact accounting.ticks tick old
    · rw [List.mem_singleton.mp new]
      refine ⟨misses, fun reloads => ?_⟩
      have ended : (kernel.krnlTcb slot).deadlineRem - 1 = 0 := by
        simpa [TaskTick.reloaded] using reloads
      simp only
      rw [budget.capacityRem, budget.deadlineRem, rtTick_capacityRem, rtTick_deadlineRem,
        if_pos ended, if_pos ended]
      exact ⟨accounting.capacity, accounting.period⟩

theorem Accounting.step (accounting : Accounting call slot kernel log meter)
    (periodic : 0 < call.period.toNat) (timed : 0 < call.deadline.toNat)
    (partition : Partition kernel run rt delay) (standing : Standing kernel rt delay slot)
    (spared : sparesTask slot op)
    (done : measured slot op (kernel, log) = .ok (after, log')) :
    ∃ run' rt' delay' meter', Partition after run' rt' delay' ∧ Standing after rt' delay' slot ∧
      Accounting call slot after log' meter' := by
  obtain ⟨performed, rfl⟩ := measured_ok done
  by_cases untimed : tickOf slot kernel after op = []
  · obtain ⟨run', rt', delay', kept, stands, same⟩ :=
      partition.quiet standing spared untimed performed
    refine ⟨run', rt', delay', meter, kept, stands, ?_⟩
    rw [untimed, List.append_nil]
    exact ⟨accounting.run, same.meter.trans accounting.meter,
      same.capacity.trans accounting.capacity, same.period.trans accounting.period,
      same.deadlineMisses.trans accounting.misses, accounting.ticks⟩
  · cases op with
    | spawn | block | resume | kill | delay | yield | schedlock => exact absurd rfl untimed
    | dispatch around =>
        by_cases skipped : kernel.krnlSchedule = 0 ∨ some slot ∉ after.krnlRtQueue.contents
        · exact absurd (if_pos skipped) untimed
        · rw [tickOf, if_neg skipped]
          obtain ⟨unlocked, present⟩ := not_or.mp skipped
          obtain ⟨run', sorted, kept, perm, accounts⟩ := partition.tick_accounts unlocked performed
          have listed := (kept.mem_rt slot).mp (not_not.mp present)
          obtain ⟨used, recorded, eligible, budget, period⟩ :=
            accounts slot (perm.mem_iff.mp listed)
          have chosen : decide (slot ∈ kernel.selection (.dispatch around)) = used := by
            obtain ⟨id, only, same⟩ := List.map_eq_singleton_iff.mp recorded
            rw [only, ← same]
            simp [beq_eq_decide, eq_comm]
          rw [chosen]
          have counting := (accounting.run.windows periodic timed).1.counting
          obtain ⟨meter', counted⟩ := accounting.ticked counting eligible budget period
          refine ⟨run', sorted, _, meter', kept, ⟨List.mem_append_left _ listed, ?_⟩, counted⟩
          rw [period]
          exact standing.periodic

end Runs

/-- The ticks that no reload comes between: all but the last one reload nothing. -/
def withinReload (window : List TaskTick) : Prop :=
  ∀ tick ∈ window.dropLast, tick.reloaded = false

/-- A window begins with the first tick or with the one after a reload. -/
def afterReload (earlier : List TaskTick) : Prop :=
  earlier = [] ∨ ∃ last, earlier.getLast? = some last ∧ last.reloaded = true

/-- In every run that does not kill a real time task, its budget is reloaded after its deadline
and then every period, it is selected at most its capacity between two reloads, and a reload
counts a missed deadline exactly when it was selected less. -/
theorem reload_windows {start before setup after : Kernel config} {call : SpawnCall} {slot : Nat}
    {log : List TaskTick} (booted : start.Booted)
    (reached : Reaches perform (fun op _ => op.taskGiven) start before) (task : call.task ≠ 0)
    (one : 1 ≤ call.capacity) (accepted : before.hfSpawn call = .ok ((slot : Int), setup))
    (ran : Reaches (measured slot) (fun op _ => sparesTask slot op) (setup, []) (after, log)) :
    (∀ index tick, log[index]? = some tick →
      (tick.reloaded = true ↔ reloadsAt call.deadline.toNat call.period.toNat (index + 1)) ∧
      (tick.reloaded = true →
        tick.after.capacityRem = call.capacity ∧ tick.after.deadlineRem = call.period)) ∧
    (∀ earlier window later, log = earlier ++ window ++ later → withinReload window →
      window.countP TaskTick.selected ≤ call.capacity.toNat) ∧
    (∀ earlier window tick later, log = earlier ++ window ++ tick :: later →
      afterReload earlier → (∀ other ∈ window, other.reloaded = false) →
      tick.after.deadlineMisses =
        if tick.reloaded = true ∧
          (window ++ [tick]).countP TaskTick.selected < call.capacity.toNat
        then tick.before.deadlineMisses + 1 else tick.before.deadlineMisses) ∧
    (after.krnlTcb slot).deadlineMisses = UInt32.ofNat (log.countP TaskTick.missed) ∧
    (after.krnlTcb slot).capacityRem ≤ call.capacity ∧ 1 ≤ (after.krnlTcb slot).deadlineRem ∧
    (after.krnlTcb slot).deadlineRem.toNat ≤ max call.period.toNat call.deadline.toNat := by
  obtain ⟨run, rt, delay, partition⟩ := reachable_partition booted reached
  obtain ⟨⟨run', rt', kept, queued⟩, entries, fits, timely⟩ :=
    partition.hfSpawn_accepts task accepted
  have some_budget : 0 < call.capacity.toNat := UInt16.le_iff_toNat_le.mp one
  have periodic : 0 < call.period.toNat :=
    lt_of_lt_of_le some_budget (UInt16.le_iff_toNat_le.mp fits)
  have timed : 0 < call.deadline.toNat :=
    lt_of_lt_of_le some_budget (UInt16.le_iff_toNat_le.mp timely)
  have period : call.period ≠ 0 := by
    intro zero
    rw [zero] at periodic
    simp at periodic
  have stands : Standing setup rt' delay slot := by
    refine ⟨List.mem_append_left _ (queued period), ?_⟩
    rw [entries, fillEntry_same]
    exact period
  obtain ⟨_, _, _, meter, _, _, accounting⟩ := ran.invariant
    (fun state => ∃ run rt delay meter, Partition state.1 run rt delay ∧
      Standing state.1 rt delay slot ∧ Accounting call slot state.1 state.2 meter)
    ⟨run', rt', delay, _, kept, stands, .start entries⟩
    (fun op before after ⟨_, _, _, _, partition, standing, accounting⟩ spared done =>
      accounting.step periodic timed partition standing spared done)
  obtain ⟨timing, windows, _⟩ := accounting.run.windows periodic timed
  refine ⟨?_, ?_, ?_, accounting.misses, ?_, ?_, ?_⟩
  · intro index tick found
    have beat : (log.map TaskTick.beat)[index]? = some tick.beat := by
      rw [List.getElem?_map, found, Option.map_some]
    exact ⟨timing.timing index tick.beat beat,
      (accounting.ticks tick (List.mem_of_getElem? found)).reload⟩
  · intro earlier window later split within
    have bounded := windows.bounded (earlier.map TaskTick.beat) (window.map TaskTick.beat)
      (later.map TaskTick.beat) (by rw [split, List.map_append, List.map_append])
      (by
        rw [← List.map_dropLast]
        exact List.forall_mem_map.mpr within)
    rwa [List.countP_map] at bounded
  · intro earlier window tick later split fresh within
    have missed := windows.missed (earlier.map TaskTick.beat) (window.map TaskTick.beat) tick.beat
      (later.map TaskTick.beat)
      (by rw [split, List.map_append, List.map_append, List.map_cons])
      (by
        rcases fresh with none | ⟨last, found, reloads⟩
        · exact Or.inl (by rw [none, List.map_nil])
        · exact Or.inr ⟨last.beat, by rw [List.getLast?_map, found, Option.map_some], reloads⟩)
      (List.forall_mem_map.mpr within)
    rw [← List.map_singleton, ← List.map_append, List.countP_map] at missed
    rw [(accounting.ticks tick (by rw [split]; simp)).misses]
    exact if_congr missed rfl rfl
  · rw [UInt16.le_iff_toNat_le]
    have left := accounting.run.left_le periodic timed
    rw [← accounting.meter] at left
    exact left
  · rw [UInt16.le_iff_toNat_le]
    have counting := timing.counting
    rw [← accounting.meter] at counting
    exact counting
  · have bounded := timing.bounded
    rw [← accounting.meter] at bounded
    exact bounded

def sampled : Kernel twoTasks × List TaskTick :=
  outcome (measured 1) fourTicks (smallRun [.spawn sampler], [])

theorem reload_windows_sampler :
    sampled.2.length = 4 ∧ (∀ earlier window later, sampled.2 = earlier ++ window ++ later →
      withinReload window → window.countP TaskTick.selected ≤ 2) ∧
    (sampled.1.krnlTcb 1).capacityRem ≤ 2 := by
  have accepted : smallBoot.hfSpawn sampler = .ok ((1 : Nat), smallRun [.spawn sampler]) := rfl
  have spared : ∀ op ∈ fourTicks, ∀ state : Kernel twoTasks × List TaskTick, sparesTask 1 op := by
    intro op member _
    rcases List.mem_cons.mp member with rfl | tick
    · exact ⟨trivial, by simp⟩
    · rw [List.eq_of_mem_replicate tick]
      exact ⟨trivial, by simp⟩
  have done : execute (measured 1) fourTicks (smallRun [.spawn sampler], []) =
      .ok (sampled.1, sampled.2) := rfl
  obtain ⟨_, bounded, _, _, left, _⟩ := reload_windows smallBoot_booted .start (by decide)
    (by decide) accepted (execute_reaches fourTicks _ _ .start spared done)
  exact ⟨by decide +kernel, bounded, left⟩

end Kernel

end Hellfire

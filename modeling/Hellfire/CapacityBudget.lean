import Hellfire.Library.Metering
import Hellfire.Schedulability

/-!
The capacity of a real time task as a budget for each of its periods: in every run of
the kernel the ticks of a task are those of a meter, which the first reload comes out of
step with unless the deadline is a number of whole periods.
-/

namespace Hellfire

open Machine Metering

namespace Kernel

variable {config : Config}

def selection (kernel : Kernel config) : KernelOp → List Nat
  | .dispatch _ =>
      if kernel.krnlSchedule = 0 then []
      else match kernel.rmaSelects with
        | .ok id => [id]
        | .error _ => []
  | _ => []

def logged (op : KernelOp) (state : Kernel config × List Nat) :
    Except Halt (Kernel config × List Nat) := do
  let next ← state.1.perform op
  .ok (next, state.2 ++ state.1.selection op)

theorem logged_ok {op : KernelOp} {before after : Kernel config} {log log' : List Nat}
    (done : logged op (before, log) = .ok (after, log')) :
    before.perform op = .ok after ∧ log' = log ++ before.selection op :=
  ok_of_noted (fun _ => log ++ before.selection op) done

def selections (task period : Nat) (log : List Nat) (number : Nat) : Nat :=
  ((log.drop (number * period)).take period).count task

def usesOf (task : Nat) (log : List Nat) : List Bool := log.map (· == task)

theorem selections_eq (task period : Nat) (log : List Nat) (number : Nat) :
    selections task period log number = windowUse period (usesOf task log) number := by
  rw [selections, windowUse, usesOf, ← List.map_drop, ← List.map_take, List.count_eq_countP,
    List.count_eq_countP, List.countP_map]
  congr 1
  funext id
  simp

def meterOf (entry : TcbEntry) : Meter := ⟨entry.capacityRem.toNat, entry.deadlineRem.toNat⟩

theorem rtTick_meter {entry : TcbEntry} (selected : Bool) (counting : 0 < entry.deadlineRem.toNat)
    (pending : selected = true → 0 < entry.capacityRem.toNat) :
    meterOf (rtTick selected entry) =
      (meterOf entry).tick entry.capacity.toNat entry.period.toNat selected := by
  obtain ⟨rem, spent, left, _⟩ := rtTick_budgets selected counting pending
  rw [meterOf, meterOf, Meter.tick, rem, left, spent]
  by_cases last : entry.deadlineRem.toNat = 1
  · simp only [last, if_true]
  · simp only [last, if_false]

structure SameRealTime (before after : TcbEntry) : Prop extends SameBudget before after where
  period : after.period = before.period

theorem SameRealTime.of_eq {before after : TcbEntry} (same : after = before) :
    SameRealTime before after :=
  same ▸ ⟨SameBudget.refl _, rfl⟩

theorem StateFrame.sameRealTime {before after : Kernel config} {id : Nat}
    (frame : StateFrame before after id) (slot : Nat) :
    SameRealTime (before.krnlTcb slot) (after.krnlTcb slot) := by
  by_cases named : slot = id
  · exact ⟨named ▸ frame.budget, frame.period slot⟩
  · exact .of_eq (frame.others slot named)

theorem SameRealTime.meter {before after : TcbEntry} (same : SameRealTime before after) :
    meterOf after = meterOf before := by
  rw [meterOf, meterOf, same.capacityRem, same.deadlineRem]

section Steps

variable {kernel after : Kernel config} {run rt delay run' rt' delay' : List Nat} {op : KernelOp}
  {slot : Nat}

theorem Stepped.sameRealTime (partition : Partition kernel run rt delay)
    (moved : Stepped kernel run rt delay op after run' rt' delay')
    (untimed : ∀ around, op = .dispatch around → kernel.krnlSchedule = 0)
    (stands : slot ∈ rt) (stays : slot ∈ rt') :
    SameRealTime (kernel.krnlTcb slot) (after.krnlTcb slot) := by
  have erased : ∀ id, slot ∈ rt.erase id → slot ≠ id := by
    rintro id member rfl
    have distinct := (List.nodup_append.mp (List.nodup_append.mp partition.distinct).2.1).1
    exact distinct.not_mem_erase member
  cases moved with
  | unchanged entries _ _ => exact .of_eq (by rw [entries])
  | spawned frame _ => exact .of_eq (frame.alive slot (partition.rt_alive stands))
  | @blocked id => exact (kernel.hfBlock_frame id).sameRealTime slot
  | @resumed id => exact (kernel.hfResume_frame id).sameRealTime slot
  | @killed around id _ _ _ others _ _ =>
      exact .of_eq (others slot (erased id stays) (partition.rt_alive stands))
  | @delayed id ticks _ _ _ others _ _ => exact .of_eq (others slot (erased id stays))
  | yielded switched budget _ => exact ⟨budget slot, (switched.same slot).period⟩
  | ticked unlocked _ _ _ => exact absurd (untimed _ rfl) unlocked

theorem selection_quiet (untimed : ∀ around, op = .dispatch around →
    kernel.krnlSchedule = 0) : kernel.selection op = [] := by
  cases op with
  | dispatch around => rw [selection, if_pos (untimed around rfl)]
  | spawn | block | resume | kill | delay | yield | schedlock => rfl

theorem Partition.tick_accounts (partition : Partition kernel run rt delay) {around : Surroundings}
    (unlocked : kernel.krnlSchedule ≠ 0) (done : kernel.perform (.dispatch around) = .ok after) :
    ∃ run' sorted, Partition after run' sorted (kernel.pending delay) ∧
      sorted.Perm (rt ++ kernel.expired realTime delay) ∧
      ∀ slot ∈ rt ++ kernel.expired realTime delay, ∃ used : Bool,
        usesOf slot (kernel.selection (.dispatch around)) = [used] ∧
        (used = true → rtEligible (kernel.krnlTcb slot) = true) ∧
        SameBudget (rtTick used (kernel.krnlTcb slot)) (after.krnlTcb slot) ∧
        (after.krnlTcb slot).period = (kernel.krnlTcb slot).period := by
  cases whole : around.stackIntact with
  | false => simp [Kernel.perform, dispatchIsr, unlocked, whole] at done
  | true =>
      obtain ⟨next, run', sorted, dispatched, _, ticked, switched, kept, _, selects⟩ :=
        partition.dispatchIsr_switches unlocked whole
      simp only [Kernel.perform, dispatched, Except.ok.injEq] at done
      subst done
      refine ⟨run', sorted, kept, ticked.perm, fun slot stands => ?_⟩
      let used : Bool := firstEligible kernel.krnlTcb sorted = some slot
      have nonzero : slot ≠ 0 := by
        rintro rfl
        have queued : 0 ∈ rt ++ delay := by
          rcases List.mem_append.mp stands with already | expired
          · exact List.mem_append_left _ already
          · exact List.mem_append_right _ (List.mem_filter.mp (List.mem_filter.mp expired).1).1
        exact (List.nodup_append.mp partition.distinct).2.2 0 partition.idle 0 queued rfl
      have eligible : used = true → rtEligible (kernel.krnlTcb slot) = true := by
        intro selected
        have found : firstEligible kernel.krnlTcb sorted = some slot := by simpa [used] using selected
        simpa using List.find?_some found
      have budget := ticked.budgets slot
      rw [if_pos stands] at budget
      refine ⟨used, ?_, eligible, budget, (switched.same slot).period⟩
      simp only [selection, if_neg unlocked, selects, usesOf, List.map_cons, List.map_nil, used]
      cases firstEligible kernel.krnlTcb sorted with
      | none => simp [Ne.symm nonzero]
      | some other => simp [beq_eq_decide]

theorem Partition.tick_meter (partition : Partition kernel run rt delay) {around : Surroundings}
    (unlocked : kernel.krnlSchedule ≠ 0) (stands : slot ∈ rt ++ kernel.expired realTime delay)
    (counting : 0 < (kernel.krnlTcb slot).deadlineRem.toNat)
    (done : kernel.perform (.dispatch around) = .ok after) :
    ∃ run' sorted, Partition after run' sorted (kernel.pending delay) ∧
      (∃ used : Bool, usesOf slot (kernel.selection (.dispatch around)) = [used] ∧
        (used = true → rtEligible (kernel.krnlTcb slot) = true) ∧
        meterOf (after.krnlTcb slot) = (meterOf (kernel.krnlTcb slot)).tick
          (kernel.krnlTcb slot).capacity.toNat (kernel.krnlTcb slot).period.toNat used) ∧
      (after.krnlTcb slot).capacity = (kernel.krnlTcb slot).capacity ∧
      (after.krnlTcb slot).period = (kernel.krnlTcb slot).period := by
  obtain ⟨run', sorted, kept, _, accounts⟩ := partition.tick_accounts unlocked done
  obtain ⟨used, recorded, eligible, budget, period⟩ := accounts slot stands
  refine ⟨run', sorted, kept, ⟨used, recorded, eligible, ?_⟩, ?_, period⟩
  · rw [← rtTick_meter used counting fun selected => ?_]
    · rw [meterOf, meterOf, budget.capacityRem, budget.deadlineRem]
    · have runs := eligible selected
      simp only [rtEligible, Bool.and_eq_true, decide_eq_true_eq] at runs
      exact UInt16.lt_iff_toNat_lt.mp runs.2
  · rw [budget.capacity, rtTick_capacity]

end Steps

structure Budgeted (call : SpawnCall) (slot : Nat) (kernel : Kernel config) (log : List Nat)
    (meter : Meter) : Prop where
  run : Metered call.capacity.toNat call.period.toNat ⟨call.capacity.toNat, call.deadline.toNat⟩
    (usesOf slot log) meter
  entry : some slot ∈ kernel.krnlRtQueue.contents →
    meterOf (kernel.krnlTcb slot) = meter ∧ (kernel.krnlTcb slot).capacity = call.capacity ∧
      (kernel.krnlTcb slot).period = call.period

def stays (slot : Nat) (op : KernelOp) (state : Kernel config × List Nat) : Prop :=
  op.taskGiven ∧ some slot ∈ state.1.krnlRtQueue.contents

theorem Budgeted.step {call : SpawnCall} {slot : Nat} {kernel after : Kernel config}
    {log log' : List Nat} {meter : Meter} {run rt delay : List Nat} {op : KernelOp}
    (periodic : 0 < call.period.toNat) (timed : 0 < call.deadline.toNat)
    (partition : Partition kernel run rt delay) (budgeted : Budgeted call slot kernel log meter)
    (allowed : stays slot op (kernel, log)) (done : logged op (kernel, log) = .ok (after, log')) :
    ∃ run' rt' delay' meter', Partition after run' rt' delay' ∧
      Budgeted call slot after log' meter' := by
  obtain ⟨given, stands⟩ := allowed
  obtain ⟨performed, rfl⟩ := logged_ok done
  obtain ⟨same, capacity, period⟩ := budgeted.entry stands
  have counting := budgeted.run.counting periodic timed
  have queued := (partition.mem_rt slot).mp stands
  rcases tick_or_untimed kernel op with ⟨around, rfl, unlocked⟩ | untimed
  · obtain ⟨run', sorted, kept, ⟨used, recorded, runs, ticked⟩, capacity', period'⟩ :=
      partition.tick_meter unlocked (List.mem_append_left _ queued)
        (by rw [← same] at counting; exact counting) performed
    rw [same, capacity, period] at ticked
    refine ⟨run', sorted, _, _, kept, ?_, fun _ =>
      ⟨ticked, capacity'.trans capacity, period'.trans period⟩⟩
    rw [usesOf, List.map_append]
    rw [usesOf] at recorded
    rw [recorded]
    refine .tick used budgeted.run fun selected => ?_
    have eligible := runs selected
    simp only [rtEligible, Bool.and_eq_true, decide_eq_true_eq] at eligible
    rw [← same]
    exact UInt16.lt_iff_toNat_lt.mp eligible.2
  · obtain ⟨run', rt', delay', kept, moved⟩ := partition.perform_inv given performed
    refine ⟨run', rt', delay', meter, kept, ?_, fun later => ?_⟩
    · rw [selection_quiet untimed, List.append_nil]
      exact budgeted.run
    · have kept_entry := moved.sameRealTime partition untimed queued ((kept.mem_rt slot).mp later)
      exact ⟨kept_entry.meter.trans same, kept_entry.capacity.trans capacity,
        kept_entry.period.trans period⟩

theorem Partition.hfSpawn_accepts {kernel setup : Kernel config} {run rt delay : List Nat}
    (partition : Partition kernel run rt delay) {call : SpawnCall} (task : call.task ≠ 0)
    {slot : Nat} (accepted : kernel.hfSpawn call = .ok ((slot : Int), setup)) :
    (∃ run' rt', Partition setup run' rt' delay ∧ (call.period ≠ 0 → slot ∈ rt')) ∧
      setup.krnlTcb = (kernel.fillEntry call slot).krnlTcb ∧
      call.capacity ≤ call.period ∧ call.capacity ≤ call.deadline := by
  by_cases valid : call.period < call.capacity ∨ call.deadline < call.capacity
  · rw [Kernel.hfSpawn, if_pos valid] at accepted
    simp [errInvalidParameter] at accepted
  · by_cases full : kernel.freeSlot = config.maxTasks
    · simp only [Kernel.hfSpawn, if_neg valid, if_pos full] at accepted
      simp [errExceedMaxNum] at accepted
    · have inside : kernel.freeSlot < config.maxTasks :=
        Nat.lt_of_le_of_ne kernel.freeSlot_le full
      by_cases stack : call.pstack = 0
      · obtain ⟨after, spawned, _, _⟩ := partition.hfSpawn_memory call valid inside stack
        rw [spawned] at accepted
        simp [errOutOfMemory] at accepted
      · obtain ⟨after, spawned, kept, _, _, entries⟩ :=
          partition.hfSpawn_room call task valid inside stack
        rw [spawned] at accepted
        simp only [Except.ok.injEq, Prod.mk.injEq] at accepted
        obtain ⟨same, rfl⟩ := accepted
        obtain rfl := Int.ofNat_inj.mp same
        obtain ⟨fits, timely⟩ := not_or.mp valid
        refine ⟨⟨_, _, kept, fun periodic => ?_⟩, entries, UInt16.not_lt.mp fits,
          UInt16.not_lt.mp timely⟩
        rw [if_neg periodic]
        exact List.mem_append_right _ (List.mem_singleton.mpr rfl)

theorem Budgeted.start {kernel setup : Kernel config} {call : SpawnCall} {slot : Nat}
    (entries : setup.krnlTcb = (kernel.fillEntry call slot).krnlTcb) :
    Budgeted call slot setup [] ⟨call.capacity.toNat, call.deadline.toNat⟩ := by
  refine ⟨.start, fun _ => ?_⟩
  rw [entries, fillEntry_same]
  exact ⟨rfl, rfl, rfl⟩

/-- A real time task in a run: `hf_spawn` accepts it in some reached state, and from then on
`log` holds the selections of the ticks while the task stays in its queue. -/
structure TaskRun (config : Config) (call : SpawnCall) (slot : Nat) (log : List Nat) : Prop where
  task : call.task ≠ 0
  ran : ∃ start before setup after : Kernel config, start.Booted ∧
    Reaches perform (fun op _ => op.taskGiven) start before ∧
    before.hfSpawn call = .ok ((slot : Int), setup) ∧
    Reaches logged (stays slot) (setup, []) (after, log)

theorem TaskRun.budgeted {call : SpawnCall} {slot : Nat} {log : List Nat}
    (ran : TaskRun config call slot log) (periodic : 0 < call.period.toNat)
    (timed : 0 < call.deadline.toNat) :
    ∃ meter, Metered call.capacity.toNat call.period.toNat
      ⟨call.capacity.toNat, call.deadline.toNat⟩ (usesOf slot log) meter := by
  obtain ⟨task, start, before, setup, after, booted, reached, accepted, runs⟩ := ran
  obtain ⟨run, rt, delay, partition⟩ := reachable_partition booted reached
  obtain ⟨⟨run', rt', placed, _⟩, entries, _⟩ := partition.hfSpawn_accepts task accepted
  obtain ⟨_, _, _, meter, _, budgeted⟩ := runs.invariant
    (fun state => ∃ run rt delay meter, Partition state.1 run rt delay ∧
      Budgeted call slot state.1 state.2 meter)
    ⟨run', rt', delay, _, placed, .start entries⟩
    (fun op before after ⟨_, _, _, _, partition, budgeted⟩ allowed done =>
      budgeted.step periodic timed partition allowed done)
  exact ⟨meter, budgeted.run⟩

section Alone

structure Alone (ready : Bool) (kernel : Kernel twoTasks) : Prop where
  partition : Partition kernel [0] [1] []
  unlocked : kernel.krnlSchedule ≠ 0
  ready : kernel.blocked 1 = !ready

variable {ready : Bool} {kernel : Kernel twoTasks}

theorem Alone.mem_rt (alone : Alone ready kernel) : some 1 ∈ kernel.krnlRtQueue.contents :=
  (alone.partition.mem_rt 1).mpr (List.mem_singleton.mpr rfl)

theorem Alone.eligible (alone : Alone ready kernel) :
    rtEligible (kernel.krnlTcb 1) = (ready && decide (0 < (meterOf (kernel.krnlTcb 1)).left)) := by
  have state := alone.ready
  rw [blocked] at state
  have pending : (0 < (kernel.krnlTcb 1).capacityRem) ↔
      0 < (kernel.krnlTcb 1).capacityRem.toNat := UInt16.lt_iff_toNat_lt
  simp only [rtEligible, meterOf, ne_eq, decide_not, state, Bool.not_not]
  exact congrArg (ready && ·) (decide_eq_decide.mpr pending)

theorem Alone.tick (alone : Alone ready kernel) (log : List Nat)
    (counting : 0 < (kernel.krnlTcb 1).deadlineRem.toNat) :
    ∃ after used, logged (.dispatch undisturbed) (kernel, log) =
        .ok (after, log ++ [if used = true then 1 else 0]) ∧
      used = (ready && decide (0 < (meterOf (kernel.krnlTcb 1)).left)) ∧ Alone ready after ∧
      meterOf (after.krnlTcb 1) = (meterOf (kernel.krnlTcb 1)).tick
        (kernel.krnlTcb 1).capacity.toNat (kernel.krnlTcb 1).period.toNat used ∧
      (after.krnlTcb 1).capacity = (kernel.krnlTcb 1).capacity ∧
      (after.krnlTcb 1).period = (kernel.krnlTcb 1).period := by
  obtain ⟨after, run', sorted, dispatched, turned, ticked, switched, kept, schedule, selects⟩ :=
    alone.partition.dispatchIsr_switches alone.unlocked
      (show undisturbed.stackIntact = true from rfl)
  have run : run' = [0] := List.perm_singleton.mp turned
  have rt : sorted = [1] := List.perm_singleton.mp ticked.perm
  subst run rt
  have performed : kernel.perform (.dispatch undisturbed) = .ok after := dispatched
  let used : Bool := rtEligible (kernel.krnlTcb 1)
  have selected : kernel.selection (.dispatch undisturbed) = [if used = true then 1 else 0] := by
    simp only [selection, if_neg alone.unlocked, selects]
    cases runs : rtEligible (kernel.krnlTcb 1) with
    | true => simp [firstEligible, runs, used]
    | false => simp [firstEligible, runs, used]
  obtain ⟨_, _, _, ⟨recorded, uses, _, meter⟩, same⟩ := alone.partition.tick_meter alone.unlocked
    (List.mem_append_left _ (List.mem_singleton.mpr rfl)) counting performed
  have whole : recorded = used := by
    rw [selected, usesOf] at uses
    cases runs : used with
    | true => simpa [runs] using uses.symm
    | false => simpa [runs] using uses.symm
  refine ⟨after, used, ?_, alone.eligible, ⟨kept, ?_, ?_⟩, whole ▸ meter, same⟩
  · simp only [logged, performed, bind, Except.bind, selected]
  · rw [schedule]
    exact alone.unlocked
  · rw [switched.blocked]
    exact alone.ready

theorem Alone.ticks {call : SpawnCall} {setup : Kernel twoTasks} (periodic : 0 < call.period.toNat)
    (count : Nat) : ∀ (kernel : Kernel twoTasks) (log : List Nat), Alone ready kernel →
      0 < (kernel.krnlTcb 1).deadlineRem.toNat → (kernel.krnlTcb 1).capacity = call.capacity →
      (kernel.krnlTcb 1).period = call.period →
      Reaches logged (stays 1) (setup, []) (kernel, log) →
      ∃ after, Alone ready after ∧
        Reaches logged (stays 1) (setup, []) (after, log ++
          (drained call.capacity.toNat call.period.toNat ready count
            (meterOf (kernel.krnlTcb 1))).map fun used => if used = true then 1 else 0) ∧
        meterOf (after.krnlTcb 1) = leftOver call.capacity.toNat call.period.toNat ready count
          (meterOf (kernel.krnlTcb 1)) ∧
        (after.krnlTcb 1).capacity = call.capacity ∧ (after.krnlTcb 1).period = call.period := by
  induction count with
  | zero =>
      intro kernel log alone _ capacity period reached
      exact ⟨kernel, alone, by simpa [drained] using reached, rfl, capacity, period⟩
  | succ count ih =>
      intro kernel log alone counting capacity period reached
      obtain ⟨next, used, done, uses, kept, ticked, capacity', period'⟩ := alone.tick log counting
      rw [capacity, period] at ticked
      have given : (KernelOp.dispatch undisturbed).taskGiven := trivial
      have later : 0 < (next.krnlTcb 1).deadlineRem.toNat := by
        have next_reload : 0 < (meterOf (next.krnlTcb 1)).untilReload := by
          rw [ticked]
          exact Meter.tick_counting used periodic counting
        exact next_reload
      obtain ⟨after, alone', reached', meter, same⟩ := ih next _ kept later (capacity'.trans capacity)
        (period'.trans period) (.next reached ⟨given, alone.mem_rt⟩ done)
      refine ⟨after, alone', ?_, ?_, same⟩
      · rw [drained, ← uses, ← ticked]
        simpa using reached'
      · rw [leftOver, ← uses, ← ticked]
        exact meter

theorem Alone.known (alone : Alone ready kernel) : ¬kernel.noSuchTask 1 :=
  (alone.partition.live_iff 1).mpr (by simp)

theorem Alone.block (alone : Alone ready kernel) : Alone false (kernel.hfBlock 1).2 := by
  refine ⟨alone.partition.hfBlock 1, ?_, ?_⟩
  · rw [(kernel.hfBlock_frame 1).schedule]
    exact alone.unlocked
  · by_cases already : (kernel.krnlTcb 1).state = .blocked
    · simp [Kernel.hfBlock, alone.known, already, blocked, Kernel.pointAtCurrent]
    · simp [Kernel.hfBlock, alone.known, already, blocked, Kernel.pointAtCurrent]

theorem Alone.resume (alone : Alone ready kernel) : Alone true (kernel.hfResume 1).2 := by
  refine ⟨alone.partition.hfResume 1, ?_, ?_⟩
  · rw [(kernel.hfResume_frame 1).schedule]
    exact alone.unlocked
  · by_cases halted : (kernel.krnlTcb 1).state = .blocked
    · simp [Kernel.hfResume, alone.known, halted, blocked, Kernel.pointAtCurrent]
    · simp [Kernel.hfResume, alone.known, halted, blocked, Kernel.pointAtCurrent]

theorem smallBoot_spawn {call : SpawnCall} (task : call.task ≠ 0) (stack : call.pstack ≠ 0)
    (periodic : call.period ≠ 0) (valid : ¬(call.period < call.capacity ∨
      call.deadline < call.capacity)) :
    ∃ setup, smallBoot.hfSpawn call = .ok ((1 : Nat), setup) ∧ Partition setup [0] [1] [] ∧
      setup.krnlTcb = (smallBoot.fillEntry call 1).krnlTcb := by
  have slot : smallBoot.freeSlot = 1 := by decide
  obtain ⟨setup, spawned, kept, _, _, entries⟩ := smallBoot_booted.partition.1.hfSpawn_room call task
    valid (by rw [slot]; decide) stack
  rw [slot] at spawned kept entries
  exact ⟨setup, spawned, by simpa [periodic] using kept, entries⟩

theorem smallBoot_halts {call : SpawnCall} (task : call.task ≠ 0) (stack : call.pstack ≠ 0)
    (periodic : call.period ≠ 0)
    (valid : ¬(call.period < call.capacity ∨ call.deadline < call.capacity)) :
    ∃ setup halted, smallBoot.hfSpawn call = .ok ((1 : Nat), setup) ∧ Alone false halted ∧
      Reaches logged (stays 1) (setup, []) (halted, []) ∧
      meterOf (halted.krnlTcb 1) = ⟨call.capacity.toNat, call.deadline.toNat⟩ ∧
      (halted.krnlTcb 1).capacity = call.capacity ∧ (halted.krnlTcb 1).period = call.period := by
  obtain ⟨setup, accepted, partition, entries⟩ := smallBoot_spawn task stack periodic valid
  have entry : meterOf (setup.krnlTcb 1) = ⟨call.capacity.toNat, call.deadline.toNat⟩ ∧
      (setup.krnlTcb 1).capacity = call.capacity ∧ (setup.krnlTcb 1).period = call.period := by
    rw [entries, fillEntry_same]
    exact ⟨rfl, rfl, rfl⟩
  let unlocked := setup.hfSchedlock 0
  have alone : Alone (!unlocked.blocked 1) unlocked :=
    ⟨partition.same_view rfl rfl rfl rfl rfl rfl, by simp [unlocked, hfSchedlock], by simp⟩
  have frame := unlocked.hfBlock_frame 1
  refine ⟨setup, (unlocked.hfBlock 1).2, accepted, alone.block, ?_, ?_,
    frame.budget.capacity.trans entry.2.1, frame.same.period.trans entry.2.2⟩
  · have locks : (KernelOp.schedlock 0).taskGiven := trivial
    have blocks : (KernelOp.block 1).taskGiven := trivial
    have stands : some 1 ∈ setup.krnlRtQueue.contents :=
      (partition.mem_rt 1).mpr (List.mem_singleton.mpr rfl)
    have unlocks : logged (.schedlock 0) (setup, []) = .ok (unlocked, []) := rfl
    have halts : logged (.block 1) (unlocked, []) = .ok ((unlocked.hfBlock 1).2, []) := rfl
    exact .next (.next .start ⟨locks, stands⟩ unlocks) ⟨blocks, alone.mem_rt⟩ halts
  · rw [← entry.1, meterOf, frame.budget.capacityRem, frame.budget.deadlineRem]
    rfl

theorem Alone.resumes {setup : Kernel twoTasks} {log : List Nat} (alone : Alone ready kernel)
    (reached : Reaches logged (stays 1) (setup, []) (kernel, log)) :
    Reaches logged (stays 1) (setup, []) ((kernel.hfResume 1).2, log) := by
  have resumes : (KernelOp.resume 1).taskGiven := trivial
  have done : logged (.resume 1) (kernel, log) = .ok ((kernel.hfResume 1).2, log) := by
    rw [show logged (.resume 1) (kernel, log) = .ok ((kernel.hfResume 1).2, log ++ []) from rfl,
      List.append_nil]
  exact .next reached ⟨resumes, alone.mem_rt⟩ done

/-- A deadline that ends inside a period lets the task run more than its capacity in it: it
is kept off the processor up to that period. -/
theorem overrun_exists {call : SpawnCall} (task : call.task ≠ 0) (stack : call.pstack ≠ 0)
    (one : 0 < call.capacity.toNat) (below : call.capacity.toNat < call.period.toNat)
    (enough : call.capacity.toNat ≤ call.deadline.toNat)
    (apart : ¬call.period.toNat ∣ call.deadline.toNat) :
    ∃ log number, TaskRun twoTasks call 1 log ∧
      call.capacity.toNat < selections 1 call.period.toNat log number := by
  have periodic : call.period ≠ 0 := by
    intro zero
    rw [zero] at below
    simp at below
  have valid : ¬(call.period < call.capacity ∨ call.deadline < call.capacity) := by
    simp only [UInt16.lt_iff_toNat_lt]
    omega
  obtain ⟨setup, halted, accepted, halting, reachedHalted, haltedMeter, haltedCapacity,
    haltedPeriod⟩ := smallBoot_halts task stack periodic valid
  -- The whole periods before the deadline pass without the task.
  let whole := call.deadline.toNat / call.period.toNat
  have parts : call.period.toNat * whole + call.deadline.toNat % call.period.toNat =
      call.deadline.toNat := Nat.div_add_mod _ _
  have rest : 0 < call.deadline.toNat % call.period.toNat :=
    Nat.pos_of_ne_zero fun zero => apart (Nat.dvd_of_mod_eq_zero zero)
  have haltedReload : (halted.krnlTcb 1).deadlineRem.toNat = call.deadline.toNat :=
    congrArg Meter.untilReload haltedMeter
  obtain ⟨waited, waiting, reachedWaited, waitedMeter, capacity, period⟩ := Alone.ticks (by omega)
    (whole * call.period.toNat) halted [] halting (by omega) haltedCapacity haltedPeriod reachedHalted
  rw [haltedMeter, leftOver_idle _ _ (by simp only; rw [Nat.mul_comm]; omega)] at waitedMeter
  let resumed := (waited.hfResume 1).2
  have resumedFrame := waited.hfResume_frame 1
  have resumedMeter : meterOf (resumed.krnlTcb 1) =
      ⟨call.capacity.toNat, call.deadline.toNat % call.period.toNat⟩ := by
    have last : call.deadline.toNat - whole * call.period.toNat =
        call.deadline.toNat % call.period.toNat := by
      rw [Nat.mul_comm]
      omega
    rw [← last, ← waitedMeter, meterOf, resumedFrame.budget.capacityRem,
      resumedFrame.budget.deadlineRem]
    rfl
  have resumedReload : (resumed.krnlTcb 1).deadlineRem.toNat =
      call.deadline.toNat % call.period.toNat := congrArg Meter.untilReload resumedMeter
  let before := (drained call.capacity.toNat call.period.toNat false (whole * call.period.toNat)
    (meterOf (halted.krnlTcb 1))).map fun used => if used = true then 1 else 0
  obtain ⟨last, _, reachedLast, _⟩ := Alone.ticks (by omega) call.period.toNat resumed before
    waiting.resume (by omega) (resumedFrame.budget.capacity.trans capacity)
    (resumedFrame.same.period.trans period) (waiting.resumes reachedWaited)
  refine ⟨_, whole, ⟨task, smallBoot, smallBoot, setup, last, smallBoot_booted, .start, accepted,
    reachedLast⟩, ?_⟩
  have length : before.length = whole * call.period.toNat := by
    rw [List.length_map, drained_length]
  rw [selections_eq, windowUse, usesOf, List.map_append, ← length, List.drop_left' (by simp),
    resumedMeter, List.map_map, List.take_of_length_le (by simp [drained_length])]
  have same : (fun id => id == 1) ∘ (fun used : Bool => if used = true then 1 else 0) = id := by
    funext used
    cases used with
    | true => rfl
    | false => rfl
  rw [same, List.map_id]
  exact drained_overruns one below rest (Nat.mod_lt _ (by omega))

end Alone

/-- The capacity bounds the use of every period of every run exactly when it is the whole
period or the deadline is a number of whole periods. -/
theorem capacity_per_period {period capacity deadline : UInt16} (one : 1 ≤ capacity)
    (fits : capacity ≤ period) (timely : capacity ≤ deadline) :
    (∀ (config : Config) (call : SpawnCall) (slot : Nat) (log : List Nat),
        call.period = period → call.capacity = capacity → call.deadline = deadline →
        TaskRun config call slot log →
        ∀ number, selections slot period.toNat log number ≤ capacity.toNat) ↔
      capacity = period ∨ period.toNat ∣ deadline.toNat := by
  have some_budget : 0 < capacity.toNat := UInt16.le_iff_toNat_le.mp one
  have below : capacity.toNat ≤ period.toNat := UInt16.le_iff_toNat_le.mp fits
  have enough : capacity.toNat ≤ deadline.toNat := UInt16.le_iff_toNat_le.mp timely
  constructor
  · intro bounded
    by_contra neither
    obtain ⟨partial_use, apart⟩ := not_or.mp neither
    have less : capacity.toNat < period.toNat :=
      lt_of_le_of_ne below fun same => partial_use (UInt16.toNat_inj.mp same)
    let call : SpawnCall := ⟨2, period, capacity, deadline, [115], 256, 64⟩
    have task : call.task ≠ 0 := Nat.succ_ne_zero 1
    have stack : call.pstack ≠ 0 := Nat.succ_ne_zero 63
    obtain ⟨log, number, ran, overrun⟩ := overrun_exists task stack some_budget less enough apart
    exact absurd (bounded twoTasks call 1 log rfl rfl rfl ran number) (Nat.not_le.mpr overrun)
  · rintro meets config call slot log rfl rfl rfl ran number
    rw [selections_eq]
    rcases meets with all | whole
    · rw [all]
      exact windowUse_le_period _ _
    · obtain ⟨meter, metered⟩ := ran.budgeted (by omega) (by omega)
      exact metered.window_le (by omega) (by omega) whole number

instance (slot : Nat) (op : KernelOp) (state : Kernel config × List Nat) :
    Decidable (stays slot op state) :=
  inferInstanceAs (Decidable (_ ∧ _))

def fourTicks : List KernelOp := .schedlock 0 :: List.replicate 4 (.dispatch undisturbed)

theorem small_taskRun {call : SpawnCall} {log : List Nat} (task : call.task ≠ 0)
    (accepted : smallBoot.hfSpawn call = .ok ((1 : Nat), smallRun [.spawn call]))
    (allowed : admits logged (stays 1) fourTicks (smallRun [.spawn call], []) = true)
    (succeeds : (execute logged fourTicks (smallRun [.spawn call], [])).isOk = true)
    (recorded : (outcome logged fourTicks (smallRun [.spawn call], [])).2 = log) :
    TaskRun twoTasks call 1 log :=
  ⟨task, smallBoot, smallBoot, _, (outcome logged fourTicks (smallRun [.spawn call], [])).1,
    smallBoot_booted, .start, accepted, recorded ▸ outcome_reaches _ _ allowed succeeds⟩

theorem capacity_per_period_sampler :
    TaskRun twoTasks sampler 1 [1, 1, 0, 0] ∧
      ∀ number, selections 1 4 [1, 1, 0, 0] number ≤ 2 := by
  have ran : TaskRun twoTasks sampler 1 [1, 1, 0, 0] :=
    small_taskRun (by decide) rfl (by decide +kernel) (by decide +kernel) (by decide +kernel)
  exact ⟨ran, (capacity_per_period (by decide : (1 : UInt16) ≤ 2) (by decide : (2 : UInt16) ≤ 4)
    (by decide : (2 : UInt16) ≤ 4)).mpr (Or.inr (by decide)) twoTasks sampler 1 _ rfl rfl rfl ran⟩

def hastySampler : SpawnCall := ⟨2, 4, 2, 2, [115], 256, 64⟩

/-- A task with capacity 2, period 4 and deadline 2 runs in all four ticks of its first period. -/
theorem early_deadline_overruns :
    ∃ call log number, TaskRun twoTasks call 1 log ∧ 1 ≤ call.capacity ∧
      call.capacity ≤ call.period ∧ call.capacity ≤ call.deadline ∧
      call.capacity.toNat < selections 1 call.period.toNat log number := by
  have ran : TaskRun twoTasks hastySampler 1 [1, 1, 1, 1] :=
    small_taskRun (by decide) rfl (by decide +kernel) (by decide +kernel) (by decide +kernel)
  exact ⟨hastySampler, [1, 1, 1, 1], 0, ran, by decide, by decide, by decide, by decide⟩

end Kernel

end Hellfire

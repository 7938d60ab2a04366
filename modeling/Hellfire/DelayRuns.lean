import Hellfire.TaskSafety

/-!
How long `hf_delay` lasts: over every run of the kernel a delayed task is counted down once in
each tick, no scheduler selects it, and in the tick that ends its delay it is queued before a
task is selected.
-/

namespace Hellfire

open Machine

namespace Kernel

variable {config : Config}

section Parts

variable {kernel after : Kernel config} {around : Surroundings}

theorem suspendCurrent_delay (kernel : Kernel config) (slot : Nat) :
    (kernel.suspendCurrent.krnlTcb slot).delay = (kernel.krnlTcb slot).delay := by
  rw [suspendCurrent_entry]

theorem switchTo_delay (kernel : Kernel config) (id slot : Nat) :
    ((kernel.switchTo id).krnlTcb slot).delay = (kernel.krnlTcb slot).delay := by
  by_cases chosen : slot = kernel.krnlTask
  · simp [switchTo, chosen]
  · simp only [switchTo]
    rw [modify_other _ _ chosen]

theorem Selected.delay {before after : Kernel config} {task : Nat}
    (selected : Selected before after task) (slot : Nat) :
    (after.krnlTcb slot).delay = (before.krnlTcb slot).delay := by
  rw [selected.entries slot]

end Parts

section Steps

variable {kernel after : Kernel config} {run rt delay : List Nat} {around : Surroundings} {id : Nat}

theorem Partition.hfYield_delay (partition : Partition kernel run rt delay)
    (done : kernel.hfYield around = .ok after) :
    after.krnlCurrentTask ∈ run ∧
      ∀ slot, (after.krnlTcb slot).delay = (kernel.krnlTcb slot).delay := by
  obtain ⟨id, chosen, picked, rfl⟩ := hfYield_parts done
  obtain ⟨placed, ready⟩ := partition.suspendCurrent_placed
  obtain ⟨task, next, run', picks, _, member, _, selected, _⟩ :=
    placed.bestEffort_selects ready around.random
  rw [picks] at picked
  cases picked
  refine ⟨member, fun slot => ?_⟩
  exact (switchTo_delay _ _ slot).trans ((selected.delay slot).trans
    (kernel.suspendCurrent_delay slot))

/-- The kernel in a tick, between the delay queue and the schedulers: each delayed task was
counted down once, and those at zero are at the tails of their queues in the order in which they
were delayed. -/
structure CountedDown (kernel ready : Kernel config) (run rt delay : List Nat) : Prop where
  processed : kernel.suspendCurrent.processDelayQueue = .ok ready
  queued : Queued ready (run ++ kernel.expired background delay)
    (rt ++ kernel.expired realTime delay) (kernel.pending delay)
  counted : ∀ slot, (ready.krnlTcb slot).delay =
    if slot ∈ delay then (kernel.krnlTcb slot).delay - 1 else (kernel.krnlTcb slot).delay

theorem Partition.counts_down (partition : Partition kernel run rt delay) :
    ∃ ready, CountedDown kernel ready run rt delay ∧
      Placed ready (run ++ kernel.expired background delay) (rt ++ kernel.expired realTime delay)
        (kernel.pending delay) ∧ IdleReady ready := by
  obtain ⟨placed, idle⟩ := partition.suspendCurrent_placed
  obtain ⟨ready, processed, _, entries, kept, still⟩ := placed.processDelayQueue_moves idle
  obtain ⟨back, periodic, left⟩ := kernel.suspendCurrent_queues delay
  rw [back, periodic, left] at kept
  refine ⟨ready, ⟨processed, kept.queued, fun slot => ?_⟩, kept, still⟩
  rw [entries]
  split
  · simp only [suspendCurrent_delay]
  · exact kernel.suspendCurrent_delay slot

theorem Partition.dispatchIsr_delay (partition : Partition kernel run rt delay)
    (unlocked : kernel.krnlSchedule ≠ 0) (done : kernel.dispatchIsr around = .ok after) :
    after.krnlCurrentTask ∈ (run ++ kernel.expired background delay) ++
        (rt ++ kernel.expired realTime delay) ∧
      (∀ slot, (after.krnlTcb slot).delay =
        if slot ∈ delay then (kernel.krnlTcb slot).delay - 1 else (kernel.krnlTcb slot).delay) ∧
      ∃ run' rt', Partition after run' rt' (kernel.pending delay) := by
  obtain ⟨ready, counted, placed, idle⟩ := partition.counts_down
  obtain ⟨sorted, ticked, ran, perm, _, kept, still, _, _, entries⟩ := placed.schedRma_ticks idle
  have ticks : ∀ slot, (ticked.krnlTcb slot).delay = (ready.krnlTcb slot).delay := by
    intro slot
    rw [entries]
    split
    · rw [rtTick_only]
    · rfl
  obtain ⟨_, _, _, id, chosen, processed, rma, selects, rfl⟩ := dispatchIsr_parts unlocked done
  rw [counted.processed] at processed
  cases processed
  rw [ran] at rma
  cases rma
  refine ⟨?_, ?_, ?_⟩
  · rcases selects with ⟨nonzero, same, _⟩ | ⟨_, picked⟩
    · cases found : firstEligible ready.krnlTcb sorted with
      | none => simp [found] at nonzero
      | some task =>
          have inSorted : task ∈ sorted := List.mem_of_find?_eq_some found
          have current : id = task := by rw [same, found, Option.getD_some]
          exact List.mem_append_right _ (current ▸ perm.mem_iff.mp inSorted)
    · obtain ⟨task, _, _, picks, _, member, _⟩ := kept.bestEffort_selects still around.random
      rw [picks] at picked
      cases picked
      exact List.mem_append_left _ member
  · intro slot
    rw [← counted.counted slot, ← ticks slot]
    refine (switchTo_delay chosen id slot).trans ?_
    rcases selects with ⟨_, _, rfl⟩ | ⟨_, picked⟩
    · rfl
    · obtain ⟨task, _, _, picks, _, _, _, selected, _⟩ :=
        kept.bestEffort_selects still around.random
      rw [picks] at picked
      cases picked
      exact selected.delay slot
  · cases intact : around.stackIntact with
    | false => simp [Kernel.dispatchIsr, unlocked, intact] at done
    | true =>
        obtain ⟨next, run', sorted', dispatched, _, _, _, whole, _⟩ :=
          partition.dispatchIsr_switches unlocked intact
        rw [dispatched] at done
        cases done
        exact ⟨run', sorted', whole⟩

theorem Stepped.still_delayed {run' rt' delay' : List Nat} {op : KernelOp}
    (partition : Partition kernel run rt delay)
    (moved : Stepped kernel run rt delay op after run' rt' delay')
    (performed : kernel.perform op = .ok after)
    (untimed : ∀ around, op = .dispatch around → kernel.krnlSchedule = 0) (waits : id ∈ delay) :
    id ∈ delay' ∧ (after.krnlTcb id).delay = (kernel.krnlTcb id).delay := by
  have alive : kernel.live id = true :=
    partition.live_of_mem (List.mem_append_right _ (List.mem_append_right _ waits))
  have apart : ∀ other ∈ run ++ rt, id ≠ other := by
    rintro other queued rfl
    have distinct := partition.distinct
    rw [← List.append_assoc] at distinct
    exact (List.nodup_append.mp distinct).2.2 id queued id waits rfl
  cases moved with
  | unchanged entries _ _ => exact ⟨waits, by rw [entries]⟩
  | spawned frame _ => exact ⟨waits, by rw [frame.alive id alive]⟩
  | @blocked other => exact ⟨waits, by rw [(kernel.hfBlock_sets other).only id]⟩
  | @resumed other => exact ⟨waits, by rw [(kernel.hfResume_sets other).only id]⟩
  | @killed _ other _ _ queued others _ _ =>
      exact ⟨waits, by rw [others id (apart other queued) alive]⟩
  | @delayed other _ _ queued _ others _ _ =>
      exact ⟨List.mem_append_left _ waits, by rw [others id (apart other queued)]⟩
  | yielded _ _ _ => exact ⟨waits, (partition.hfYield_delay performed).2 id⟩
  | ticked unlocked _ _ _ => exact absurd (untimed _ rfl) unlocked

end Steps

def ticksIn (kernel : Kernel config) : KernelOp → Nat
  | .dispatch _ => if kernel.krnlSchedule = 0 then 0 else 1
  | _ => 0

def clocked (op : KernelOp) (state : Kernel config × Nat) :
    Except Halt (Kernel config × Nat) := do
  let next ← state.1.perform op
  .ok (next, state.2 + state.1.ticksIn op)

def selects (kernel : Kernel config) : KernelOp → Prop
  | .yield _ => True
  | .dispatch _ => kernel.krnlSchedule ≠ 0
  | _ => False

theorem clocked_ok {op : KernelOp} {before after : Kernel config} {elapsed elapsed' : Nat}
    (done : clocked op (before, elapsed) = .ok (after, elapsed')) :
    before.perform op = .ok after ∧ elapsed' = elapsed + before.ticksIn op :=
  ok_of_noted (fun _ => elapsed + before.ticksIn op) done

structure StillDelayed (id : Nat) (ticks : UInt32) (kernel : Kernel config) (elapsed : Nat)
    (delay : List Nat) : Prop where
  member : id ∈ delay
  left : (kernel.krnlTcb id).delay.toNat + elapsed = ticks.toNat

section Runs

variable {kernel after : Kernel config} {run rt delay : List Nat} {id elapsed : Nat}
  {ticks : UInt32}

theorem ticksIn_quiet {op : KernelOp}
    (untimed : ∀ around, op = .dispatch around → kernel.krnlSchedule = 0) :
    kernel.ticksIn op = 0 := by
  cases op with
  | dispatch around => rw [ticksIn, if_pos (untimed around rfl)]
  | spawn | block | resume | kill | delay | yield | schedlock => rfl

theorem StillDelayed.counted (waiting : StillDelayed id ticks kernel elapsed delay)
    (more : elapsed + 1 < ticks.toNat) : id ∈ kernel.pending delay := by
  have left := waiting.left
  refine List.mem_filter.mpr ⟨waiting.member, ?_⟩
  simp only [expires, Bool.not_eq_true', decide_eq_false_iff_not]
  intro last
  rw [last] at left
  have one : (1 : UInt32).toNat = 1 := rfl
  omega

theorem StillDelayed.step {run rt : List Nat} {op : KernelOp} {elapsed' : Nat}
    (partition : Partition kernel run rt delay)
    (waiting : elapsed < ticks.toNat → StillDelayed id ticks kernel elapsed delay)
    (given : op.taskGiven) (done : clocked op (kernel, elapsed) = .ok (after, elapsed')) :
    ∃ run' rt' delay', Partition after run' rt' delay' ∧
      (elapsed' < ticks.toNat → StillDelayed id ticks after elapsed' delay') := by
  obtain ⟨performed, rfl⟩ := clocked_ok done
  rcases tick_or_untimed kernel op with ⟨around, rfl, unlocked⟩ | untimed
  · have one : kernel.ticksIn (.dispatch around) = 1 := by rw [ticksIn, if_neg unlocked]
    obtain ⟨_, counted, run', rt', kept⟩ := partition.dispatchIsr_delay unlocked performed
    refine ⟨run', rt', _, kept, fun more => ?_⟩
    rw [one] at more ⊢
    have before := waiting (by omega)
    refine ⟨before.counted more, ?_⟩
    have left := before.left
    have positive : (1 : UInt32) ≤ (kernel.krnlTcb id).delay := by
      have unit : (1 : UInt32).toNat = 1 := rfl
      rw [UInt32.le_iff_toNat_le, unit]
      omega
    rw [counted, if_pos before.member, UInt32.toNat_sub_of_le _ _ positive]
    have unit : (1 : UInt32).toNat = 1 := rfl
    omega
  · obtain ⟨run', rt', delay', kept, moved⟩ := partition.perform_inv given performed
    refine ⟨run', rt', delay', kept, fun more => ?_⟩
    rw [ticksIn_quiet untimed, Nat.add_zero] at more ⊢
    have before := waiting more
    obtain ⟨member, same⟩ := moved.still_delayed partition performed untimed before.member
    exact ⟨member, by rw [same]; exact before.left⟩

theorem Partition.hfDelay_waits (partition : Partition kernel run rt delay)
    (accepted : kernel.hfDelay id ticks = .ok (errOk, after)) :
    ∃ run' rt' delay', Partition after run' rt' delay' ∧ StillDelayed id ticks after 0 delay' := by
  rcases partition.hfDelay_cases id ticks with
    ⟨code, next, refused, wrong, _⟩ | ⟨later, nonzero, queued⟩ | ⟨later, delayed⟩
  · rw [refused] at accepted
    cases accepted
    exact absurd rfl wrong
  · obtain ⟨next, moved, kept, entries, _⟩ := partition.hfDelay_present later nonzero queued
    rw [moved] at accepted
    cases accepted
    refine ⟨_, _, _, kept, List.mem_append_right _ (List.mem_singleton.mpr rfl), ?_⟩
    rw [entries, modify_same, Nat.add_zero]
  · rw [partition.hfDelay_delayed later delayed] at accepted
    cases accepted

end Runs

structure OnDelay (id : Nat) (ticks : UInt32) (kernel : Kernel config) (elapsed : Nat) : Prop where
  delayed : some id ∈ kernel.krnlDelayQueue.contents
  unqueued : some id ∉ kernel.krnlRunQueue.contents ∧ some id ∉ kernel.krnlRtQueue.contents
  left : (kernel.krnlTcb id).delay.toNat = ticks.toNat - elapsed
  unselected : ∀ op next, kernel.selects op → elapsed + kernel.ticksIn op < ticks.toNat →
    kernel.perform op = .ok next → next.krnlCurrentTask ≠ id
  returns : elapsed + 1 = ticks.toNat → ∃ ready,
    kernel.suspendCurrent.processDelayQueue = .ok ready ∧
      some id ∈ (if (kernel.krnlTcb id).period = 0 then ready.krnlRunQueue.contents
        else ready.krnlRtQueue.contents)

/-- A tick up to the selection: every delayed task is counted down exactly once, and those at
zero go to the tails of their queues in the order of the delay queue. -/
structure CountsOnce (kernel : Kernel config) (run rt delay : List Nat) : Prop where
  queues : Queued kernel run rt delay
  distinct : delay.Nodup
  tick : ∃ ready, CountedDown kernel ready run rt delay

theorem StillDelayed.onDelay {kernel : Kernel config} {run rt delay : List Nat} {id elapsed : Nat}
    {ticks : UInt32} (partition : Partition kernel run rt delay)
    (waiting : StillDelayed id ticks kernel elapsed delay) (short : elapsed < ticks.toNat) :
    OnDelay id ticks kernel elapsed := by
  obtain ⟨_, tail, apart⟩ := List.nodup_append.mp partition.distinct
  have notRun : id ∉ run := fun queued =>
    apart id queued id (List.mem_append_right _ waiting.member) rfl
  have notRt : id ∉ rt := fun queued =>
    (List.nodup_append.mp tail).2.2 id queued id waiting.member rfl
  have left := waiting.left
  refine ⟨?_, ⟨?_, ?_⟩, by omega, ?_, ?_⟩
  · rw [partition.queued.delay]
    exact List.mem_map_of_mem waiting.member
  · rw [partition.queued.run]
    simpa using notRun
  · rw [partition.queued.rt]
    simpa using notRt
  · intro op next selecting more performed
    cases op with
    | yield around =>
        rintro rfl
        exact notRun (partition.hfYield_delay performed).1
    | dispatch around =>
        have unlocked : kernel.krnlSchedule ≠ 0 := selecting
        rw [ticksIn, if_neg unlocked] at more
        have later := waiting.counted more
        obtain ⟨ready, _, placed, _⟩ := partition.counts_down
        have distinct := placed.distinct
        rw [← List.append_assoc] at distinct
        rintro rfl
        exact (List.nodup_append.mp distinct).2.2 _
          (partition.dispatchIsr_delay unlocked performed).1 _ later rfl
    | spawn | block | resume | kill | delay | schedlock => exact selecting.elim
  · intro last
    obtain ⟨ready, counted, _⟩ := partition.counts_down
    refine ⟨ready, counted.processed, ?_⟩
    have due : (kernel.krnlTcb id).delay = 1 := by
      apply UInt32.toNat_inj.mp
      have unit : (1 : UInt32).toNat = 1 := rfl
      omega
    have expiring : id ∈ delay.filter (expires kernel.krnlTcb) :=
      List.mem_filter.mpr ⟨waiting.member, by simp [expires, due]⟩
    by_cases periodic : (kernel.krnlTcb id).period = 0
    · rw [if_pos periodic, counted.queued.run]
      exact List.mem_map_of_mem (List.mem_append_right _
        (List.mem_filter.mpr ⟨expiring, by simp [background, periodic]⟩))
    · rw [if_neg periodic, counted.queued.rt]
      exact List.mem_map_of_mem (List.mem_append_right _
        (List.mem_filter.mpr ⟨expiring, by simp [realTime, periodic]⟩))

/-- `hf_delay` lasts exactly its ticks in every run of the kernel. -/
theorem hfDelay_lasts {start kernel setup state : Kernel config} {id elapsed : Nat} {ticks : UInt32}
    (booted : start.Booted)
    (reached : Reaches perform (fun op _ => op.taskGiven) start kernel)
    (accepted : kernel.hfDelay id ticks = .ok (errOk, setup))
    (ran : Reaches clocked (fun op _ => op.taskGiven) (setup, 0) (state, elapsed)) :
    (elapsed < ticks.toNat → OnDelay id ticks state elapsed) ∧
      ∃ run rt delay, CountsOnce state run rt delay := by
  obtain ⟨_, _, _, partition⟩ := reachable_partition booted reached
  obtain ⟨_, _, _, starts, waits⟩ := partition.hfDelay_waits accepted
  obtain ⟨run, rt, delay, kept, waiting⟩ := ran.invariant
    (fun now => ∃ run rt delay, Partition now.1 run rt delay ∧
      (now.2 < ticks.toNat → StillDelayed id ticks now.1 now.2 delay))
    ⟨_, _, _, starts, fun _ => waits⟩
    (fun op before after ⟨_, _, _, held, waiting⟩ given done =>
      StillDelayed.step held waiting given done)
  obtain ⟨ready, counted, _⟩ := kept.counts_down
  have distinct := (List.nodup_append.mp (List.nodup_append.mp kept.distinct).2.1).2.1
  exact ⟨fun short => (waiting short).onDelay kept short, run, rt, delay, kept.queued, distinct,
    ready, counted⟩

theorem hfDelay_lasts_worker :
    OnDelay 1 3 (outcome clocked [.schedlock 0, .dispatch undisturbed]
      (smallRun [.spawn worker, .delay 1 3], 0)).1 1 := by
  have spawned := smallRun_reaches [.spawn worker] (by decide) rfl
  have accepted : (smallRun [.spawn worker]).hfDelay 1 3 =
      .ok (errOk, smallRun [.spawn worker, .delay 1 3]) := rfl
  have allowed : ∀ op ∈ [KernelOp.schedlock 0, .dispatch undisturbed], op.taskGiven := by decide
  have ran : Reaches clocked (fun op _ => op.taskGiven) (smallRun [.spawn worker, .delay 1 3], 0)
      ((outcome clocked [.schedlock 0, .dispatch undisturbed]
        (smallRun [.spawn worker, .delay 1 3], 0)).1, 1) :=
    execute_reaches [.schedlock 0, .dispatch undisturbed] _ _ .start
      (fun op member _ => allowed op member) rfl
  exact (hfDelay_lasts smallBoot_booted spawned accepted ran).1 (by decide)

end Kernel

end Hellfire

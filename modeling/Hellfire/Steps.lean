import Hellfire.TaskCalls

/-!
What one step can do to a kernel whose tasks are partitioned. Every later invariant of the
system is checked against this one list of cases.
-/

namespace Hellfire

/-- A step that spawns a task passes a task function. -/
def KernelOp.taskGiven : KernelOp → Prop
  | .spawn call => call.task ≠ 0
  | _ => True

instance (op : KernelOp) : Decidable op.taskGiven :=
  match op with
  | .spawn call => inferInstanceAs (Decidable (call.task ≠ 0))
  | .block _ | .resume _ | .kill _ _ | .delay _ _ | .yield _ | .dispatch _ | .schedlock _ =>
      .isTrue trivial

namespace Kernel

variable {config : Config} {kernel : Kernel config} {run rt delay : List Nat}

theorem tick_or_untimed (kernel : Kernel config) (op : KernelOp) :
    (∃ around, op = .dispatch around ∧ kernel.krnlSchedule ≠ 0) ∨
      ∀ around, op = .dispatch around → kernel.krnlSchedule = 0 := by
  by_cases locked : kernel.krnlSchedule = 0
  · exact Or.inr fun _ _ => locked
  · by_cases ticking : ∃ around, op = .dispatch around
    · obtain ⟨around, dispatches⟩ := ticking
      exact Or.inl ⟨around, dispatches, locked⟩
    · exact Or.inr fun around dispatches => absurd ⟨around, dispatches⟩ ticking

theorem Partition.hfKill_cases (partition : Partition kernel run rt delay) (around : Surroundings)
    (id : Nat) :
    (∃ after, kernel.hfKill around id = .ok (some errInvalidId, after) ∧
        (id = 0 ∨ kernel.noSuchTask id) ∧ Partition after run rt delay ∧ after.krnlTcb = kernel.krnlTcb ∧
        after.krnlCurrentTask = kernel.krnlCurrentTask ∧ after.krnlSchedule = kernel.krnlSchedule) ∨
      (id ≠ 0 ∧ id ∈ run ++ rt) ∨ id ∈ delay := by
  by_cases zero : id = 0
  · refine Or.inl ⟨kernel, ?_, Or.inl zero, partition, rfl, rfl, rfl⟩
    simp only [hfKill, if_pos zero]
  · by_cases known : kernel.noSuchTask id
    · refine Or.inl ⟨kernel.pointAtCurrent, ?_, Or.inr known, partition.pointAtCurrent, rfl, rfl,
        rfl⟩
      simp only [hfKill, if_neg zero, if_pos known]
    · have member := (partition.live_iff id).mp known
      rw [← List.append_assoc] at member
      rcases List.mem_append.mp member with queued | delayed
      · exact Or.inr (Or.inl ⟨zero, queued⟩)
      · exact Or.inr (Or.inr delayed)

theorem Partition.hfDelay_cases (partition : Partition kernel run rt delay) (id : Nat)
    (ticks : UInt32) :
    (∃ code after, kernel.hfDelay id ticks = .ok (code, after) ∧ code ≠ errOk ∧
        Partition after run rt delay ∧ after.krnlTcb = kernel.krnlTcb ∧
        after.krnlCurrentTask = kernel.krnlCurrentTask ∧ after.krnlSchedule = kernel.krnlSchedule) ∨
      (ticks ≠ 0 ∧ id ≠ 0 ∧ id ∈ run ++ rt) ∨ (ticks ≠ 0 ∧ id ∈ delay) := by
  by_cases now : ticks = 0
  · refine Or.inl ⟨errError, kernel, ?_, by decide, partition, rfl, rfl, rfl⟩
    simp only [hfDelay, if_pos now]
  · by_cases zero : id = 0
    · refine Or.inl ⟨errInvalidId, kernel, ?_, by decide, partition, rfl, rfl, rfl⟩
      simp only [hfDelay, if_neg now, if_pos zero]
    · by_cases known : kernel.noSuchTask id
      · refine Or.inl ⟨errInvalidId, kernel.pointAtCurrent, ?_, by decide,
          partition.pointAtCurrent, rfl, rfl, rfl⟩
        simp only [hfDelay, if_neg now, if_neg zero, if_pos known]
      · have member := (partition.live_iff id).mp known
        rw [← List.append_assoc] at member
        rcases List.mem_append.mp member with queued | delayed
        · exact Or.inr (Or.inl ⟨now, zero, queued⟩)
        · exact Or.inr (Or.inr ⟨now, delayed⟩)

def stops (halt : Halt) : Prop :=
  halt = .panic .stackOverflow ∨ halt = .panic .noTasksRun ∨ halt = .panic .noTasksRt

theorem absentPanic_stops (entry : TcbEntry) : stops (.panic (absentPanic entry)) := by
  unfold absentPanic stops
  split
  · exact Or.inr (Or.inl rfl)
  · exact Or.inr (Or.inr rfl)

/-- The effect of a step on the entries of the tasks and on the queues. A call that is
refused, a tick while the scheduler is locked and `hf_schedlock` change no entry. -/
inductive Stepped (kernel : Kernel config) (run rt delay : List Nat) :
    KernelOp → Kernel config → List Nat → List Nat → List Nat → Prop
  | unchanged {op after} (entries : after.krnlTcb = kernel.krnlTcb)
      (current : after.krnlCurrentTask = kernel.krnlCurrentTask)
      (schedule : (∀ lock, op ≠ .schedlock lock) → after.krnlSchedule = kernel.krnlSchedule) :
      Stepped kernel run rt delay op after run rt delay
  | spawned {call after run' rt'} (frame : SpawnFrame kernel after)
      (queues : rt' = rt ∨ call.period ≠ 0 ∧ call.capacity ≤ call.period ∧
        rt' = rt ++ [kernel.freeSlot] ∧
        after.krnlTcb = (kernel.fillEntry call kernel.freeSlot).krnlTcb) :
      Stepped kernel run rt delay (.spawn call) after run' rt' delay
  | blocked {id} : Stepped kernel run rt delay (.block id) (kernel.hfBlock id).2 run rt delay
  | resumed {id} : Stepped kernel run rt delay (.resume id) (kernel.hfResume id).2 run rt delay
  | killed {around id after} (nonzero : id ≠ 0) (queued : id ∈ run ++ rt)
      (others : ∀ slot, slot ≠ id → kernel.live slot = true →
        after.krnlTcb slot = kernel.krnlTcb slot)
      (current : after.krnlCurrentTask = kernel.krnlCurrentTask)
      (schedule : after.krnlSchedule = kernel.krnlSchedule) :
      Stepped kernel run rt delay (.kill around id) after (run.erase id) (rt.erase id) delay
  | delayed {id ticks after} (queued : id ∈ run ++ rt)
      (same : SameTask (kernel.krnlTcb id) (after.krnlTcb id))
      (others : ∀ slot, slot ≠ id → after.krnlTcb slot = kernel.krnlTcb slot)
      (current : after.krnlCurrentTask = kernel.krnlCurrentTask)
      (schedule : after.krnlSchedule = kernel.krnlSchedule) :
      Stepped kernel run rt delay (.delay id ticks) after (run.erase id) (rt.erase id)
        (delay ++ [id])
  | yielded {around after run'} (switched : Switched kernel after)
      (budget : ∀ slot, SameBudget (kernel.krnlTcb slot) (after.krnlTcb slot))
      (schedule : after.krnlSchedule = kernel.krnlSchedule) :
      Stepped kernel run rt delay (.yield around) after run' rt delay
  | ticked {around after run' sorted} (unlocked : kernel.krnlSchedule ≠ 0)
      (ticked : Ticked kernel after (rt ++ kernel.expired realTime delay) sorted)
      (switched : Switched kernel after) (schedule : after.krnlSchedule = kernel.krnlSchedule) :
      Stepped kernel run rt delay (.dispatch around) after run' sorted (kernel.pending delay)

theorem Partition.hfKill_stepped (partition : Partition kernel run rt delay)
    (around : Surroundings) {id : Nat} (nonzero : id ≠ 0) (queued : id ∈ run ++ rt) :
    ∃ after, kernel.hfKill around id = .ok (some errOk, after) ∧
      Partition after (run.erase id) (rt.erase id) delay ∧
      Stepped kernel run rt delay (.kill around id) after (run.erase id) (rt.erase id) delay := by
  obtain ⟨after, killed, kept, tcb, current, schedule, _⟩ :=
    partition.hfKill_present around nonzero queued
  have bound : id < config.maxTasks := partition.bound (mem_queues delay queued)
  refine ⟨after, killed, kept, .killed nonzero queued ?_ current schedule⟩
  intro slot other alive
  -- A live slot is below `MAX_TASKS`, so it is not the slot `-1` whose context is cleared.
  have inside : slot ≠ noId := by
    have small := partition.bound ((partition.members slot).mpr alive)
    have representable := config.representable
    unfold noId
    omega
  rw [tcb, kernel.clearEntry_other bound other, if_neg inside, if_neg inside]

theorem Partition.hfDelay_stepped (partition : Partition kernel run rt delay) {id : Nat}
    {ticks : UInt32} (later : ticks ≠ 0) (nonzero : id ≠ 0) (queued : id ∈ run ++ rt) :
    ∃ after, kernel.hfDelay id ticks = .ok (errOk, after) ∧
      Partition after (run.erase id) (rt.erase id) (delay ++ [id]) ∧
      Stepped kernel run rt delay (.delay id ticks) after (run.erase id) (rt.erase id)
        (delay ++ [id]) := by
  obtain ⟨after, moved, kept, tcb, current, schedule, _⟩ :=
    partition.hfDelay_present later nonzero queued
  refine ⟨after, moved, kept, .delayed queued ?_ ?_ current schedule⟩
  · rw [tcb, modify_same]
    exact ⟨rfl, rfl, rfl, rfl⟩
  · intro slot other
    rw [tcb, modify_other _ _ other]

theorem Partition.perform (partition : Partition kernel run rt delay) {op : KernelOp}
    (given : op.taskGiven) :
    (∃ after run' rt' delay', kernel.perform op = .ok after ∧ Partition after run' rt' delay' ∧
        Stepped kernel run rt delay op after run' rt' delay') ∨
      ∃ halt, kernel.perform op = .error halt ∧ stops halt := by
  cases op with
  | spawn call =>
      obtain ⟨code, after, run', rt', spawned, kept, frame, queues⟩ := partition.hfSpawn call given
      refine Or.inl ⟨after, run', rt', delay, ?_, kept, .spawned frame queues⟩
      simp [Kernel.perform, spawned, Except.map]
  | block id => exact Or.inl ⟨_, run, rt, delay, rfl, partition.hfBlock id, .blocked⟩
  | resume id => exact Or.inl ⟨_, run, rt, delay, rfl, partition.hfResume id, .resumed⟩
  | kill around id =>
      rcases partition.hfKill_cases around id with
        ⟨after, refused, _, kept, tcb, current, schedule⟩ | ⟨nonzero, queued⟩ | delayed
      · refine Or.inl ⟨after, run, rt, delay, ?_, kept, .unchanged tcb current fun _ => schedule⟩
        simp [Kernel.perform, refused, Except.map]
      · obtain ⟨after, killed, kept, moved⟩ := partition.hfKill_stepped around nonzero queued
        refine Or.inl ⟨after, _, _, _, ?_, kept, moved⟩
        simp [Kernel.perform, killed, Except.map]
      · refine Or.inr ⟨_, ?_, absentPanic_stops (kernel.krnlTcb id)⟩
        simp [Kernel.perform, partition.hfKill_delayed around delayed, Except.map]
  | delay id ticks =>
      rcases partition.hfDelay_cases id ticks with
        ⟨code, after, refused, _, kept, tcb, current, schedule⟩ | ⟨later, nonzero, queued⟩ |
          ⟨later, delayed⟩
      · refine Or.inl ⟨after, run, rt, delay, ?_, kept, .unchanged tcb current fun _ => schedule⟩
        simp [Kernel.perform, refused, Except.map]
      · obtain ⟨after, done, kept, moved⟩ := partition.hfDelay_stepped later nonzero queued
        refine Or.inl ⟨after, _, _, _, ?_, kept, moved⟩
        simp [Kernel.perform, done, Except.map]
      · refine Or.inr ⟨_, ?_, absentPanic_stops (kernel.krnlTcb id)⟩
        simp [Kernel.perform, partition.hfDelay_delayed later delayed, Except.map]
  | yield around =>
      cases intact : around.stackIntact with
      | true =>
          obtain ⟨after, run', yielded, _, switched, kept, _, schedule, budget⟩ :=
            partition.hfYield_switches intact
          exact Or.inl ⟨after, run', rt, delay, yielded, kept, .yielded switched budget schedule⟩
      | false =>
          refine Or.inr ⟨.panic .stackOverflow, ?_, Or.inl rfl⟩
          simp [Kernel.perform, hfYield, intact]
  | dispatch around =>
      by_cases locked : kernel.krnlSchedule = 0
      · exact Or.inl ⟨kernel, run, rt, delay, kernel.dispatchIsr_locked around locked, partition,
          .unchanged rfl rfl fun _ => rfl⟩
      · cases intact : around.stackIntact with
        | true =>
            obtain ⟨after, run', sorted, dispatched, _, ticked, switched, kept, schedule, _⟩ :=
              partition.dispatchIsr_switches locked intact
            exact Or.inl ⟨after, run', sorted, _, dispatched, kept,
              .ticked locked ticked switched schedule⟩
        | false =>
            refine Or.inr ⟨.panic .stackOverflow, ?_, Or.inl rfl⟩
            simp [Kernel.perform, dispatchIsr, locked, intact]
  | schedlock lock =>
      refine Or.inl ⟨_, run, rt, delay, rfl, partition.same_view rfl rfl rfl rfl rfl rfl, ?_⟩
      exact .unchanged rfl rfl fun other => absurd rfl (other lock)

theorem Partition.perform_inv (partition : Partition kernel run rt delay) {op : KernelOp}
    {after : Kernel config} (given : op.taskGiven) (performed : kernel.perform op = .ok after) :
    ∃ run' rt' delay', Partition after run' rt' delay' ∧
      Stepped kernel run rt delay op after run' rt' delay' := by
  rcases partition.perform given with
    ⟨next, run', rt', delay', done, kept, moved⟩ | ⟨halt, failed, _⟩
  · rw [done, Except.ok.injEq] at performed
    subst performed
    exact ⟨run', rt', delay', kept, moved⟩
  · rw [failed] at performed
    cases performed

theorem Partition.perform_stops (partition : Partition kernel run rt delay) {op : KernelOp}
    {halt : Halt} (given : op.taskGiven) (failed : kernel.perform op = .error halt) :
    stops halt := by
  rcases partition.perform given with ⟨next, _, _, _, done, _⟩ | ⟨other, stopped, reason⟩
  · rw [done] at failed
    cases failed
  · rw [stopped, Except.error.injEq] at failed
    exact failed ▸ reason

end Kernel

end Hellfire

import Hellfire.PriorityCore
import Hellfire.PriorityShares

/-!
When `sched_priorityrr` finds a task and when its subtractions wrap, in every state that the
task management calls, `hf_priorityset` and the schedulers reach.
-/

namespace Hellfire

open Machine

namespace Kernel

variable {config : Config}

theorem map_snd_ok {α β : Type} {result : Except Halt (α × β)} {after : β}
    (done : result.map Prod.snd = .ok after) : ∃ code, result = .ok (code, after) := by
  obtain ⟨⟨code, next⟩, performed, rfl⟩ := ok_of_map done
  exact ⟨code, performed⟩

structure Awake (kernel : Kernel config) (run rt delay : List Nat) : Prop
    extends Placed kernel run rt delay where
  unblocked : kernel.blocked 0 = false

theorem Partition.awake {kernel : Kernel config} {run rt delay : List Nat}
    (partition : Partition kernel run rt delay) : Awake kernel run rt delay :=
  ⟨partition.toPlaced, partition.unblocked⟩

theorem enqueueReady_entries {kernel after : Kernel config} {task : Nat}
    (done : kernel.enqueueReady task = .ok after) : after.krnlTcb = kernel.krnlTcb := by
  unfold enqueueReady at done
  split at done
  · obtain ⟨queue, _, same⟩ := ok_of_bind done
    cases same
    rfl
  · obtain ⟨queue, _, same⟩ := ok_of_bind done
    cases same
    rfl

theorem hfSpawn_priorities {kernel after : Kernel config} {call : SpawnCall} {code : Int}
    (done : kernel.hfSpawn call = .ok (code, after)) (slot : Nat) :
    after.krnlTcb slot = kernel.krnlTcb slot ∨
      (after.krnlTcb slot).priority = 100 ∧ (after.krnlTcb slot).priorityRem = 100 := by
  by_cases valid : call.period < call.capacity ∨ call.deadline < call.capacity
  · simp only [hfSpawn, if_pos valid, Except.ok.injEq, Prod.mk.injEq] at done
    exact Or.inl (by rw [← done.2])
  · by_cases full : kernel.freeSlot = config.maxTasks
    · simp only [hfSpawn, if_neg valid, if_pos full, Except.ok.injEq, Prod.mk.injEq] at done
      exact Or.inl (by rw [← done.2])
    · by_cases stack : call.pstack = 0
      · simp only [hfSpawn, if_neg valid, if_neg full, stack, ne_eq, not_true_eq_false, if_false,
          Except.ok.injEq, Prod.mk.injEq] at done
        rw [← done.2]
        by_cases written : slot = kernel.freeSlot
        · right
          simp [pointAtCurrent, written, dropEntry, fillEntry_same, spawnEntry]
        · left
          simp [pointAtCurrent, dropEntry, modify_other _ _ written,
            kernel.fillEntry_other call written]
      · simp only [hfSpawn, if_neg valid, if_neg full, ne_eq, stack, not_false_eq_true, if_true,
          bind, Except.bind] at done
        cases queued : (kernel.fillEntry call kernel.freeSlot).enqueueReady kernel.freeSlot with
        | error halt => simp [queued] at done
        | ok next =>
            simp only [queued, Except.ok.injEq, Prod.mk.injEq] at done
            rw [← done.2]
            have entries := enqueueReady_entries queued
            by_cases written : slot = kernel.freeSlot
            · right
              simp [pointAtCurrent, entries, written, fillEntry_same, spawnEntry]
            · left
              simp [pointAtCurrent, entries, kernel.fillEntry_other call written]

theorem hfPriorityset_entries (kernel : Kernel config) (id : Nat) (priority : UInt8) :
    (kernel.hfPriorityset id priority).2 = kernel ∨
      (kernel.hfPriorityset id priority).2 = kernel.modify id fun entry =>
        { entry with priority := priority, priorityRem := priority } := by
  unfold hfPriorityset
  split
  · split
    · split
      · exact Or.inr rfl
      · exact Or.inl rfl
    · exact Or.inl rfl
  · exact Or.inl rfl

section Steps

variable {kernel after : Kernel config} {run rt delay : List Nat}

theorem Awake.distinct_run (awake : Awake kernel run rt delay) : run.Nodup :=
  (List.nodup_append.mp awake.distinct).1

theorem Awake.of_entry {run' rt' delay' : List Nat} (awake : Awake kernel run rt delay)
    (placed : Placed after run' rt' delay') (same : after.krnlTcb 0 = kernel.krnlTcb 0) :
    Awake after run' rt' delay' := by
  refine ⟨placed, ?_⟩
  rw [blocked, same]
  exact awake.unblocked

theorem Awake.setsState (awake : Awake kernel run rt delay) {id : Nat} {state : TaskState}
    (sets : SetsState kernel id state after) : Awake after run rt delay :=
  awake.of_entry (awake.toPlaced.setsState sets) sets.idle

theorem Placed.hfSpawn (placed : Placed kernel run rt delay) (call : SpawnCall)
    (task : call.task ≠ 0) :
    ∃ code after run' rt', kernel.hfSpawn call = .ok (code, after) ∧
      Placed after run' rt' delay ∧ SpawnFrame kernel after := by
  by_cases valid : call.period < call.capacity ∨ call.deadline < call.capacity
  · refine ⟨errInvalidParameter, kernel, run, rt, ?_, placed, .refl kernel⟩
    rw [Kernel.hfSpawn, if_pos valid]
  · by_cases full : kernel.freeSlot = config.maxTasks
    · refine ⟨errExceedMaxNum, kernel, run, rt, ?_, placed, .refl kernel⟩
      simp only [Kernel.hfSpawn, if_neg valid, if_pos full]
    · have inside : kernel.freeSlot < config.maxTasks :=
        Nat.lt_of_le_of_ne kernel.freeSlot_le full
      by_cases stack : call.pstack = 0
      · obtain ⟨after, spawned, kept, frame, _⟩ := placed.hfSpawn_memory call valid inside stack
        exact ⟨_, after, run, rt, spawned, kept, frame⟩
      · obtain ⟨after, spawned, kept, frame, _⟩ := placed.hfSpawn_room call task valid inside stack
        exact ⟨_, after, _, _, spawned, kept, frame⟩

theorem Awake.priorityset (awake : Awake kernel run rt delay) (id : Nat) (priority : UInt8) :
    Awake (kernel.hfPriorityset id priority).2 run rt delay := by
  rcases kernel.hfPriorityset_entries id priority with same | changed
  · rw [same]
    exact awake
  · rw [changed]
    have entry : ∀ slot, SamePlace (kernel.krnlTcb slot) ((kernel.modify id fun entry =>
          { entry with priority := priority, priorityRem := priority }).krnlTcb slot) ∧
        ((kernel.modify id fun entry =>
          { entry with priority := priority, priorityRem := priority }).krnlTcb slot).state =
            (kernel.krnlTcb slot).state := by
      intro slot
      by_cases named : slot = id
      · subst named
        rw [modify_same]
        exact ⟨⟨rfl, rfl, rfl⟩, rfl⟩
      · rw [modify_other _ _ named]
        exact ⟨SamePlace.refl _, rfl⟩
    refine ⟨awake.toPlaced.rearranged (fun slot => (entry slot).1) rfl
      ⟨awake.queued.run, awake.queued.rt, awake.queued.delay⟩ (List.Perm.refl _)
      awake.runPeriods awake.rtPeriods awake.idle, ?_⟩
    rw [blocked_eq_false, (entry 0).2]
    exact (blocked_eq_false kernel 0).mp awake.unblocked

theorem Awake.hfDelay (awake : Awake kernel run rt delay) {id : Nat} {ticks : UInt32} {code : Int}
    (done : kernel.hfDelay id ticks = .ok (code, after)) :
    ∃ run' rt' delay', Awake after run' rt' delay' := by
  by_cases now : ticks = 0
  · simp only [Kernel.hfDelay, if_pos now, Except.ok.injEq, Prod.mk.injEq] at done
    exact ⟨run, rt, delay, done.2 ▸ awake⟩
  · by_cases zero : id = 0
    · simp only [Kernel.hfDelay, if_neg now, if_pos zero, Except.ok.injEq, Prod.mk.injEq] at done
      exact ⟨run, rt, delay, done.2 ▸ awake⟩
    · by_cases unknown : kernel.noSuchTask id
      · simp only [Kernel.hfDelay, if_neg now, if_neg zero, if_pos unknown, Except.ok.injEq,
          Prod.mk.injEq] at done
        exact ⟨run, rt, delay, done.2 ▸ awake.of_entry awake.toPlaced.pointAtCurrent rfl⟩
      · have member := (awake.live_iff id).mp unknown
        rw [← List.append_assoc] at member
        rcases List.mem_append.mp member with queued | delayed
        · obtain ⟨next, moved, kept, tcb, _⟩ := awake.toPlaced.hfDelay_present now zero queued
          rw [moved] at done
          cases done
          refine ⟨_, _, _, awake.of_entry kept ?_⟩
          rw [tcb, modify_other _ _ (Ne.symm zero)]
        · rw [awake.toPlaced.hfDelay_delayed now delayed] at done
          cases done

theorem Awake.selected {task : Nat} (awake : Awake kernel run rt delay)
    (selected : Selected kernel after task) : ∃ run', Awake after run' rt delay := by
  obtain ⟨run', _, _, kept⟩ := awake.toPlaced.selected selected
  refine ⟨run', kept, ?_⟩
  rw [blocked_eq_false, (selected.entries 0).state]
  exact (blocked_eq_false kernel 0).mp awake.unblocked

theorem Awake.ready (awake : Awake kernel run rt delay) :
    ∃ slot ∈ run, kernel.unblocked slot = true :=
  ⟨0, awake.idle, (kernel.unblocked_eq_true 0).mpr awake.unblocked⟩

theorem Awake.rr (awake : Awake kernel run rt delay) {id : Nat}
    (done : kernel.schedRr = .ok (id, after)) : ∃ task, Selected kernel after task := by
  obtain ⟨task, next, ok, selected⟩ :=
    (kernel.schedRr_turns run awake.queued.run awake.ready).selects awake.queued.run
  rw [ok] at done
  cases done
  exact ⟨task, selected⟩

theorem Awake.lottery (awake : Awake kernel run rt delay) {random id : Nat}
    (done : kernel.schedLottery random = .ok (id, after)) : ∃ task, Selected kernel after task := by
  obtain ⟨task, next, ok, selected⟩ := (kernel.schedLottery_turns random run awake.queued.run
    awake.toPlaced.some_task awake.ready).selects awake.queued.run
  rw [ok] at done
  cases done
  exact ⟨task, selected⟩

theorem Awake.turns (awake : Awake kernel run rt delay) :
    (∃ task after, kernel.schedPriorityrr = .ok (task, after) ∧
        CriticalTurn kernel after run task) ∨
      (∃ task after, kernel.schedPriorityrr = .ok (task, after) ∧
        ChargedTurn kernel after run task) ∨
      (kernel.NoCandidate run ∧ kernel.schedPriorityrr = .error .nullDereference) := by
  have own : ∀ task ∈ run, (kernel.krnlTcb task).id = task :=
    fun task member => awake.id_eq (List.mem_append_left _ member)
  rcases kernel.schedPriorityrr_turns run awake.queued.run awake.distinct_run
      (List.ne_nil_of_mem awake.idle) with
    ⟨task, after, called, turn⟩ | ⟨task, after, called, turn⟩ | stuck
  · exact Or.inl ⟨task, after, by rw [called, own task turn.member], turn⟩
  · exact Or.inr (Or.inl ⟨task, after, by rw [called, own task turn.member], turn⟩)
  · exact Or.inr (Or.inr stuck)

theorem Awake.priorityrr (awake : Awake kernel run rt delay) {id : Nat}
    (done : kernel.schedPriorityrr = .ok (id, after)) : Selected kernel after id := by
  rcases awake.turns with ⟨task, next, called, turn⟩ | ⟨task, next, called, turn⟩ | ⟨_, called⟩
  · rw [called] at done
    cases done
    exact turn.selected awake.queued.run
  · rw [called] at done
    cases done
    exact turn.selected awake.queued.run
  · rw [called] at done
    cases done

theorem Awake.bestEffort (awake : Awake kernel run rt delay) {random id : Nat}
    (done : kernel.bestEffort random = .ok (id, after)) : ∃ run', Awake after run' rt delay := by
  unfold Kernel.bestEffort at done
  cases chosen : kernel.schedBe with
  | rr =>
      obtain ⟨task, selected⟩ := awake.rr (by simpa [chosen] using done)
      exact awake.selected selected
  | lottery =>
      obtain ⟨task, selected⟩ := awake.lottery (by simpa [chosen] using done)
      exact awake.selected selected
  | priorityrr => exact awake.selected (awake.priorityrr (by simpa [chosen] using done))

theorem Awake.rma (awake : Awake kernel run rt delay) {id : Nat}
    (done : kernel.schedRma = .ok (id, after)) : ∃ rt', Awake after run rt' delay := by
  obtain ⟨sorted, next, ran, _, _, kept, _, _, entries⟩ := awake.toPlaced.schedRma_sorts
  rw [ran] at done
  cases done
  exact ⟨sorted, awake.of_entry kept (by rw [entries, if_neg awake.idle_not_rt.1])⟩

theorem Awake.suspendCurrent (awake : Awake kernel run rt delay) :
    Awake kernel.suspendCurrent run rt delay := by
  have suspended := kernel.suspendCurrent_suspended
  refine ⟨awake.toPlaced.moved suspended.same rfl
    ⟨awake.queued.run, awake.queued.rt, awake.queued.delay⟩ (List.Perm.refl _)
    awake.runPeriods awake.rtPeriods awake.idle, ?_⟩
  exact (suspended.blocked 0).trans awake.unblocked

theorem Awake.switchTo (awake : Awake kernel run rt delay) (id : Nat) :
    Awake (kernel.switchTo id) run rt delay := by
  refine ⟨awake.toPlaced.moved (setState_same _ kernel.krnlTask .running) rfl
    ⟨awake.queued.run, awake.queued.rt, awake.queued.delay⟩ (List.Perm.refl _)
    awake.runPeriods awake.rtPeriods awake.idle, ?_⟩
  rw [blocked_eq_false]
  by_cases idle : 0 = kernel.krnlTask
  · simp [Kernel.switchTo, ← idle]
  · simp only [Kernel.switchTo]
    rw [modify_other _ _ idle]
    exact (blocked_eq_false kernel 0).mp awake.unblocked

theorem Awake.same_view (awake : Awake kernel run rt delay) (tcb : after.krnlTcb = kernel.krnlTcb)
    (sameRun : after.krnlRunQueue = kernel.krnlRunQueue)
    (sameRt : after.krnlRtQueue = kernel.krnlRtQueue)
    (sameDelay : after.krnlDelayQueue = kernel.krnlDelayQueue)
    (tasks : after.krnlTasks = kernel.krnlTasks) : Awake after run rt delay := by
  refine awake.of_entry (awake.toPlaced.moved (fun slot => by rw [tcb]; exact SameTask.refl _) tasks
    ⟨?_, ?_, ?_⟩ (List.Perm.refl _) awake.runPeriods awake.rtPeriods awake.idle) (by rw [tcb])
  · rw [sameRun, awake.queued.run]
  · rw [sameRt, awake.queued.rt]
  · rw [sameDelay, awake.queued.delay]

theorem Awake.hfYield (awake : Awake kernel run rt delay) {around : Surroundings}
    (done : kernel.hfYield around = .ok after) : ∃ run', Awake after run' rt delay := by
  obtain ⟨id, middle, picked, rfl⟩ := hfYield_parts done
  obtain ⟨run', kept⟩ := awake.suspendCurrent.bestEffort picked
  exact ⟨run', (kept.switchTo id).same_view rfl rfl rfl rfl rfl⟩

theorem Awake.dispatchIsr (awake : Awake kernel run rt delay) {around : Surroundings}
    (done : kernel.dispatchIsr around = .ok after) :
    ∃ run' rt' delay', Awake after run' rt' delay' := by
  by_cases locked : kernel.krnlSchedule = 0
  · rw [kernel.dispatchIsr_locked around locked] at done
    cases done
    exact ⟨run, rt, delay, awake⟩
  · obtain ⟨ready, selected, ticked, id, chosen, processed, ran, selects, rfl⟩ :=
      dispatchIsr_parts locked done
    have suspended := awake.suspendCurrent
    obtain ⟨delayed, expired, _, entries, placed⟩ := suspended.toPlaced.processDelayQueue_expires
    obtain rfl : delayed = ready := Except.ok.inj (expired.symm.trans processed)
    have counted := suspended.of_entry placed (by rw [entries, if_neg suspended.idle_not_rt.2])
    obtain ⟨rt', kept⟩ := counted.rma ran
    rcases selects with ⟨_, rfl, rfl⟩ | ⟨_, picked⟩
    · exact ⟨_, rt', _, (kept.switchTo _).same_view rfl rfl rfl rfl rfl⟩
    · obtain ⟨run', last⟩ := kept.bestEffort picked
      exact ⟨run', rt', _, (last.switchTo id).same_view rfl rfl rfl rfl rfl⟩

end Steps

end Kernel

def PriorityOp.taskGiven : PriorityOp → Prop
  | .spawn call => call.task ≠ 0
  | _ => True

namespace Kernel

variable {config : Config} {start kernel after : Kernel config} {run rt delay : List Nat}

theorem Awake.step (awake : Awake kernel run rt delay) {op : PriorityOp} (given : op.taskGiven)
    (done : prioritized op kernel = .ok after) : ∃ run' rt' delay', Awake after run' rt' delay' := by
  cases op with
  | spawn call =>
      obtain ⟨code, next, run', rt', spawned, kept, frame⟩ := awake.toPlaced.hfSpawn call given
      simp only [prioritized, spawned, Except.map, Except.ok.injEq] at done
      subst done
      exact ⟨run', rt', delay, awake.of_entry kept
        (frame.alive 0 (awake.live_of_mem (List.mem_append_left _ awake.idle)))⟩
  | priorityset id priority =>
      cases done
      exact ⟨run, rt, delay, awake.priorityset id priority⟩
  | block id =>
      cases done
      exact ⟨run, rt, delay, awake.setsState (kernel.hfBlock_sets id)⟩
  | resume id =>
      cases done
      exact ⟨run, rt, delay, awake.setsState (kernel.hfResume_sets id)⟩
  | delay id ticks =>
      obtain ⟨code, called⟩ := map_snd_ok done
      exact awake.hfDelay called
  | schedPriorityrr =>
      obtain ⟨id, called⟩ := map_snd_ok done
      obtain ⟨run', kept⟩ := awake.selected (awake.priorityrr called)
      exact ⟨run', rt, delay, kept⟩
  | schedRr =>
      obtain ⟨id, called⟩ := map_snd_ok done
      obtain ⟨task, selected⟩ := awake.rr called
      obtain ⟨run', kept⟩ := awake.selected selected
      exact ⟨run', rt, delay, kept⟩
  | schedLottery random =>
      obtain ⟨id, called⟩ := map_snd_ok done
      obtain ⟨task, selected⟩ := awake.lottery called
      obtain ⟨run', kept⟩ := awake.selected selected
      exact ⟨run', rt, delay, kept⟩
  | schedRma =>
      obtain ⟨id, called⟩ := map_snd_ok done
      obtain ⟨rt', kept⟩ := awake.rma called
      exact ⟨run, rt', delay, kept⟩
  | yield around =>
      obtain ⟨run', kept⟩ := awake.hfYield done
      exact ⟨run', rt, delay, kept⟩
  | dispatch around => exact awake.dispatchIsr done

/-- A call of `sched_priorityrr` that subtracts one charge from the remaining priority of every
other task of the run queue, without a wrap. -/
def Unwrapped (before after : Kernel config) (id : Nat) : Prop :=
  ∃ charge : Nat, ∀ slot, some slot ∈ before.krnlRunQueue.contents → slot ≠ id →
    (after.krnlTcb slot).priorityRem.toNat + charge = (before.krnlTcb slot).priorityRem.toNat

/-- A critical task waits, or no BLOCKED task of the run queue has less remaining priority than
all the others. -/
def SparesBlocked (kernel : Kernel config) : Prop :=
  kernel.criticalWaits = true ∨
    ∀ slot, some slot ∈ kernel.krnlRunQueue.contents → kernel.blocked slot = true →
      ∃ other, some other ∈ kernel.krnlRunQueue.contents ∧ kernel.blocked other = false ∧
        (kernel.krnlTcb other).priorityRem ≤ (kernel.krnlTcb slot).priorityRem

/-- Remaining priorities are within the priorities, and these below the bound of the search. -/
def Within (kernel : Kernel config) : Prop :=
  ∀ slot, (kernel.krnlTcb slot).priorityRem ≤ (kernel.krnlTcb slot).priority ∧
    (kernel.krnlTcb slot).priority ≤ 254

theorem Within.of_same (within : Within kernel)
    (same : ∀ slot, (after.krnlTcb slot).priorityRem = (kernel.krnlTcb slot).priorityRem ∧
      (after.krnlTcb slot).priority = (kernel.krnlTcb slot).priority) : Within after := by
  intro slot
  rw [(same slot).1, (same slot).2]
  exact within slot

theorem Within.spawn (within : Within kernel) {call : SpawnCall} {code : Int}
    (done : kernel.hfSpawn call = .ok (code, after)) : Within after := by
  intro slot
  rcases hfSpawn_priorities done slot with same | ⟨priority, remaining⟩
  · rw [same]
    exact within slot
  · rw [priority, remaining]
    decide

theorem Within.priorityset (within : Within kernel) (id : Nat) {priority : UInt8}
    (below : priority ≤ 254) : Within (kernel.hfPriorityset id priority).2 := by
  rcases kernel.hfPriorityset_entries id priority with same | changed
  · rw [same]
    exact within
  · rw [changed]
    intro slot
    by_cases named : slot = id
    · subst named
      rw [modify_same]
      exact ⟨UInt8.le_refl _, below⟩
    · rw [modify_other _ _ named]
      exact within slot

theorem CriticalTurn.within {tasks : List Nat} {task : Nat}
    (turn : CriticalTurn kernel after tasks task) (within : Within kernel) : Within after := by
  refine within.of_same fun slot => ?_
  rw [turn.entries]
  split
  · exact ⟨rfl, rfl⟩
  · exact ⟨rfl, rfl⟩

theorem CriticalTurn.unwrapped {task : Nat} (turn : CriticalTurn kernel after run task) :
    Unwrapped kernel after task := by
  refine ⟨0, fun slot _ other => ?_⟩
  rw [turn.entries, if_neg other, Nat.add_zero]

theorem CriticalTurn.waits {task : Nat} (turn : CriticalTurn kernel after run task)
    (stored : kernel.krnlRunQueue.contents = run.map some) : kernel.criticalWaits = true :=
  (criticalWaits_iff stored).mpr ⟨task, turn.member, turn.unblocked, turn.critical⟩

theorem ChargedTurn.within {tasks : List Nat} {task : Nat}
    (turn : ChargedTurn kernel after tasks task) (within : Within kernel)
    (lowest : ∀ slot ∈ tasks, (kernel.krnlTcb task).priorityRem ≤ (kernel.krnlTcb slot).priorityRem) :
    Within after := by
  intro slot
  obtain ⟨bounded, below⟩ := within slot
  rw [turn.entries]
  split
  · exact ⟨UInt8.le_refl _, below⟩
  · split
    · rename_i member
      refine ⟨?_, below⟩
      rw [UInt8.le_iff_toNat_le] at bounded ⊢
      simp only [UInt8.toNat_sub_of_le _ _ (lowest slot member)]
      omega
    · exact ⟨bounded, below⟩

theorem ChargedTurn.unwrapped_iff {task : Nat} (turn : ChargedTurn kernel after run task)
    (stored : kernel.krnlRunQueue.contents = run.map some) :
    Unwrapped kernel after task ↔
      ∀ slot ∈ run, (kernel.krnlTcb task).priorityRem ≤ (kernel.krnlTcb slot).priorityRem := by
  have queued : ∀ slot, some slot ∈ kernel.krnlRunQueue.contents ↔ slot ∈ run := by
    intro slot
    simp [stored]
  constructor
  · rintro ⟨charge, charged⟩ slot member
    by_cases own : slot = task
    · rw [own]
      exact UInt8.le_refl _
    · have paid := charged slot ((queued slot).mpr member) own
      rw [turn.entries, if_neg own, if_pos member] at paid
      by_contra more
      have less := UInt8.lt_iff_toNat_lt.mp (UInt8.not_le.mp more)
      have top := (kernel.krnlTcb task).priorityRem.toNat_lt
      simp only [UInt8.toNat_sub] at paid
      omega
  · intro lowest
    refine ⟨(kernel.krnlTcb task).priorityRem.toNat, fun slot inQueue own => ?_⟩
    have member := (queued slot).mp inQueue
    have least := lowest slot member
    rw [turn.entries, if_neg own, if_pos member]
    simp only [UInt8.toNat_sub_of_le _ _ least]
    exact Nat.sub_add_cancel (UInt8.le_iff_toNat_le.mp least)

theorem ChargedTurn.spares_iff {task : Nat} (turn : ChargedTurn kernel after run task)
    (stored : kernel.krnlRunQueue.contents = run.map some) :
    kernel.SparesBlocked ↔
      ∀ slot ∈ run, (kernel.krnlTcb task).priorityRem ≤ (kernel.krnlTcb slot).priorityRem := by
  have queued : ∀ slot, some slot ∈ kernel.krnlRunQueue.contents ↔ slot ∈ run := by
    intro slot
    simp [stored]
  constructor
  · rintro (waits | spared) slot member
    · obtain ⟨other, inside, ready, raised⟩ := (criticalWaits_iff stored).mp waits
      exact absurd (turn.quiet other inside ready) raised
    · cases state : kernel.blocked slot with
      | false => exact turn.least slot member state
      | true =>
          obtain ⟨other, inside, ready, bound⟩ := spared slot ((queued slot).mpr member) state
          exact UInt8.le_trans (turn.least other ((queued other).mp inside) ready) bound
  · intro lowest
    refine Or.inr fun slot member _ => ?_
    exact ⟨task, (queued task).mpr turn.member, turn.unblocked,
      lowest slot ((queued slot).mp member)⟩

end Kernel

/-- `hf_spawn`, `hf_priorityset` with the priorities 1 to 254, `hf_block`, `hf_resume` and
`sched_priorityrr`. -/
def PriorityOp.basic : PriorityOp → Prop
  | .spawn call => call.task ≠ 0
  | .priorityset _ priority => 1 ≤ priority ∧ priority ≤ 254
  | .block _ | .resume _ | .schedPriorityrr => True
  | .delay _ _ | .schedRr | .schedLottery _ | .schedRma | .yield _ | .dispatch _ => False

instance (op : PriorityOp) : Decidable op.basic :=
  match op with
  | .spawn call => inferInstanceAs (Decidable (call.task ≠ 0))
  | .priorityset _ _ => inferInstanceAs (Decidable (_ ∧ _))
  | .block _ | .resume _ | .schedPriorityrr => .isTrue trivial
  | .delay _ _ | .schedRr | .schedLottery _ | .schedRma | .yield _ | .dispatch _ => .isFalse id

def PriorityOp.sparing {config : Config} (op : PriorityOp) (kernel : Kernel config) : Prop :=
  op = .schedPriorityrr → kernel.SparesBlocked

theorem PriorityOp.basic.given {op : PriorityOp} (basic : op.basic) : op.taskGiven := by
  cases op with
  | spawn call => exact basic
  | priorityset | block | resume | delay | schedPriorityrr | schedRr | schedLottery | schedRma |
    yield | dispatch => trivial

namespace Kernel

variable {config : Config} {start kernel after : Kernel config} {run rt delay : List Nat}

theorem Within.step (within : Within kernel) (awake : Awake kernel run rt delay) {op : PriorityOp}
    (basic : op.basic) (sparing : op.sparing kernel)
    (done : prioritized op kernel = .ok after) : Within after := by
  cases op with
  | spawn call =>
      obtain ⟨code, called⟩ := map_snd_ok done
      exact within.spawn called
  | priorityset id priority =>
      cases done
      exact within.priorityset id basic.2
  | block id =>
      cases done
      refine within.of_same fun slot => ?_
      rw [(kernel.hfBlock_sets id).only slot]
      exact ⟨rfl, rfl⟩
  | resume id =>
      cases done
      refine within.of_same fun slot => ?_
      rw [(kernel.hfResume_sets id).only slot]
      exact ⟨rfl, rfl⟩
  | schedPriorityrr =>
      obtain ⟨id, called⟩ := map_snd_ok done
      rcases awake.turns with ⟨task, next, turns, turn⟩ | ⟨task, next, turns, turn⟩ | ⟨_, turns⟩
      · rw [turns] at called
        cases called
        exact turn.within within
      · rw [turns] at called
        cases called
        exact turn.within within ((turn.spares_iff awake.queued.run).mp (sparing rfl))
      · rw [turns] at called
        cases called
  | delay | schedRr | schedLottery | schedRma | yield | dispatch => exact absurd basic id

theorem Booted.within (booted : start.Booted) : Within start := by
  obtain ⟨schedBe, idletask, pstack, _, _, spawned⟩ := booted
  have blank : Within (cleared config schedBe) :=
    fun _ => ⟨UInt8.le_refl _, (by decide : (0 : UInt8) ≤ 254)⟩
  exact blank.spawn spawned

/-- No subtraction wraps as long as no BLOCKED task is below all tasks that may run. -/
theorem remaining_never_wraps (booted : start.Booted)
    (reached : Reaches prioritized (fun op state => op.basic ∧ op.sparing state) start kernel) :
    (∀ slot, (kernel.krnlTcb slot).priorityRem ≤ (kernel.krnlTcb slot).priority) ∧
      ∃ id after, kernel.schedPriorityrr = .ok (id, after) ∧
        (Unwrapped kernel after id ↔ kernel.SparesBlocked) := by
  obtain ⟨⟨run, rt, delay, awake⟩, within⟩ := reached.invariant
    (fun state => (∃ run rt delay, Awake state run rt delay) ∧ Within state)
    ⟨⟨_, _, _, booted.partition.1.awake⟩, booted.within⟩
    (by
      rintro op before after ⟨⟨run, rt, delay, awake⟩, within⟩ ⟨basic, sparing⟩ done
      exact ⟨awake.step basic.given done, within.step awake basic sparing done⟩)
  refine ⟨fun slot => (within slot).1, ?_⟩
  rcases awake.turns with ⟨task, after, called, turn⟩ | ⟨task, after, called, turn⟩ | ⟨stuck, _⟩
  · refine ⟨task, after, called, ?_⟩
    exact ⟨fun _ => Or.inl (turn.waits awake.queued.run), fun _ => turn.unwrapped⟩
  · refine ⟨task, after, called, ?_⟩
    rw [turn.unwrapped_iff awake.queued.run, turn.spares_iff awake.queued.run]
  · obtain ⟨bounded, below⟩ := within 0
    rw [(stuck 0 awake.idle awake.unblocked).2] at bounded
    exact absurd (UInt8.le_trans bounded below) (by decide)

section SmallSystem

def workerBlocked : Kernel twoTasks :=
  outcome prioritized [.spawn worker, .block 1] smallBoot

def idleSelected : Kernel twoTasks := outcome prioritized [.schedPriorityrr] workerBlocked

theorem workerBlocked_spared : workerBlocked.SparesBlocked := by
  refine Or.inr fun slot member halted => ⟨0, by decide, by decide, ?_⟩
  have cells : workerBlocked.krnlRunQueue.contents = [some 0, some 1] := by decide
  rw [cells] at member
  simp only [List.mem_cons, Option.some.injEq, List.not_mem_nil, or_false] at member
  rcases member with rfl | rfl
  · exact UInt8.le_refl _
  · decide

theorem idleSelected_reached :
    Reaches prioritized (fun op state => op.basic ∧ op.sparing state) smallBoot idleSelected := by
  have spawns : (PriorityOp.spawn worker).basic := by decide
  have blocks : (PriorityOp.block 1).basic := by decide
  have schedules : PriorityOp.schedPriorityrr.basic := by decide
  have first : Reaches prioritized (fun op state => op.basic ∧ op.sparing state) smallBoot
      (outcome prioritized [.spawn worker] smallBoot) :=
    .next .start ⟨spawns, fun same => nomatch same⟩ rfl
  have second : Reaches prioritized (fun op state => op.basic ∧ op.sparing state) smallBoot
      workerBlocked :=
    .next first ⟨blocks, fun same => nomatch same⟩ rfl
  exact .next second ⟨schedules, fun _ => workerBlocked_spared⟩ rfl

theorem remaining_never_wraps_idle :
    (idleSelected.krnlTcb 1).priorityRem ≤ (idleSelected.krnlTcb 1).priority ∧
      ∃ id after, idleSelected.schedPriorityrr = .ok (id, after) ∧
        (Unwrapped idleSelected after id ↔ idleSelected.SparesBlocked) := by
  obtain ⟨within, next⟩ := remaining_never_wraps smallBoot_booted idleSelected_reached
  exact ⟨within 1, next⟩

/-- The next call subtracts 100 from the remaining priority 0 of the BLOCKED worker. -/
theorem blocked_task_wraps :
    ∃ start kernel after : Kernel twoTasks, start.Booted ∧
      Reaches prioritized (fun op _ => op.basic) start kernel ∧
      kernel.schedPriorityrr = .ok (0, after) ∧ ¬Unwrapped kernel after 0 ∧
      (after.krnlTcb 1).priority < (after.krnlTcb 1).priorityRem := by
  have allowed : ∀ op ∈ [PriorityOp.spawn worker, .block 1, .schedPriorityrr], op.basic := by decide
  have reached : Reaches prioritized (fun op _ => op.basic) smallBoot idleSelected :=
    execute_reaches [.spawn worker, .block 1, .schedPriorityrr] _ _ .start
      (fun op member _ => allowed op member) rfl
  refine ⟨smallBoot, idleSelected, outcome prioritized [.schedPriorityrr] idleSelected,
    smallBoot_booted, reached, rfl, ?_, by decide⟩
  rintro ⟨charge, charged⟩
  have paid := charged 1 (by decide) (by decide)
  have wrapped : ((outcome prioritized [.schedPriorityrr] idleSelected).krnlTcb
    1).priorityRem.toNat = 156 := by decide
  have none : (idleSelected.krnlTcb 1).priorityRem.toNat = 0 := by decide
  omega

end SmallSystem

end Kernel

/-- The calls of the documented interface, with the priorities 1 to 255. -/
def PriorityOp.documented : PriorityOp → Prop
  | .spawn call => call.task ≠ 0
  | .priorityset _ priority => 1 ≤ priority
  | _ => True

instance (op : PriorityOp) : Decidable op.documented :=
  match op with
  | .spawn call => inferInstanceAs (Decidable (call.task ≠ 0))
  | .priorityset _ priority => inferInstanceAs (Decidable (1 ≤ priority))
  | .block _ | .resume _ | .delay _ _ | .schedPriorityrr | .schedRr | .schedLottery _ | .schedRma |
    .yield _ | .dispatch _ => .isTrue trivial

theorem PriorityOp.documented.given {op : PriorityOp} (documented : op.documented) :
    op.taskGiven := by
  cases op with
  | spawn call => exact documented
  | priorityset | block | resume | delay | schedPriorityrr | schedRr | schedLottery | schedRma |
    yield | dispatch => trivial

namespace Kernel

variable {config : Config} {start kernel after : Kernel config} {run rt delay : List Nat}

/-- `sched_priorityrr` finds a task exactly when one that is not BLOCKED has a critical event or
less remaining priority than the bound that the search starts with. -/
theorem schedPriorityrr_finds (booted : start.Booted)
    (reached : Reaches prioritized (fun op _ => op.documented) start kernel) :
    ((∃ id after, kernel.schedPriorityrr = .ok (id, after) ∧
        some id ∈ kernel.krnlRunQueue.contents ∧ kernel.blocked id = false) ↔
      ∃ slot, some slot ∈ kernel.krnlRunQueue.contents ∧ kernel.blocked slot = false ∧
        ((kernel.krnlTcb slot).critical ≠ 0 ∨ (kernel.krnlTcb slot).priorityRem < 255)) ∧
      ((∀ id after, kernel.schedPriorityrr ≠ .ok (id, after)) →
        kernel.schedPriorityrr = .error .nullDereference) := by
  obtain ⟨run, rt, delay, awake⟩ := reached.invariant
    (fun state => ∃ run rt delay, Awake state run rt delay)
    ⟨_, _, _, booted.partition.1.awake⟩
    (by
      rintro op before after ⟨run, rt, delay, awake⟩ documented done
      exact awake.step documented.given done)
  have queued : ∀ slot, some slot ∈ kernel.krnlRunQueue.contents ↔ slot ∈ run := by
    intro slot
    simp [awake.queued.run]
  rcases awake.turns with ⟨task, after, called, turn⟩ | ⟨task, after, called, turn⟩ | ⟨stuck, called⟩
  · have member := (queued task).mpr turn.member
    refine ⟨⟨fun _ => ⟨task, member, turn.unblocked, Or.inl turn.critical⟩, fun _ => ?_⟩, ?_⟩
    · exact ⟨task, after, called, member, turn.unblocked⟩
    · exact fun never => absurd called (never task after)
  · have member := (queued task).mpr turn.member
    refine ⟨⟨fun _ => ⟨task, member, turn.unblocked, Or.inr turn.bounded⟩, fun _ => ?_⟩, ?_⟩
    · exact ⟨task, after, called, member, turn.unblocked⟩
    · exact fun never => absurd called (never task after)
  · refine ⟨⟨?_, ?_⟩, fun _ => called⟩
    · rintro ⟨id, after, found, _⟩
      rw [called] at found
      cases found
    · rintro ⟨slot, member, unblocked, candidate⟩
      obtain ⟨calm, top⟩ := stuck slot ((queued slot).mp member) unblocked
      rcases candidate with raised | below
      · exact absurd calm raised
      · rw [top] at below
        exact absurd below (UInt8.lt_irrefl _)

section SmallSystem

theorem schedPriorityrr_finds_worker :
    ∃ id after, (smallRun [.spawn worker]).schedPriorityrr = .ok (id, after) ∧
      some id ∈ (smallRun [.spawn worker]).krnlRunQueue.contents ∧
      (smallRun [.spawn worker]).blocked id = false := by
  have spawns : (PriorityOp.spawn worker).documented := by decide
  have reached : Reaches prioritized (fun op _ => op.documented) smallBoot
      (smallRun [.spawn worker]) := .next .start spawns rfl
  exact (schedPriorityrr_finds smallBoot_booted reached).1.mpr ⟨1, by decide, by decide, by decide⟩

/-- With the priority 255 the idle task is never below the bound. -/
theorem lowest_priority_dereferences_null :
    ∃ start kernel : Kernel twoTasks, start.Booted ∧
      Reaches prioritized (fun op _ => op.documented) start kernel ∧
      some 0 ∈ kernel.krnlRunQueue.contents ∧ kernel.blocked 0 = false ∧
      kernel.schedPriorityrr = .error .nullDereference := by
  have sets : (PriorityOp.priorityset 0 255).documented := by decide
  exact ⟨smallBoot, (smallBoot.hfPriorityset 0 255).2, smallBoot_booted, .next .start sets rfl,
    by decide, by decide, rfl⟩

end SmallSystem

end Kernel

end Hellfire

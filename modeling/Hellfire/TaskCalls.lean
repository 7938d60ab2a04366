import Hellfire.Dispatch

/-!
What the task management calls do to the partition of the live tasks.
-/

namespace Hellfire

namespace Kernel

variable {config : Config}

theorem freeSlotFrom_spec (kernel : Kernel config) (fuel : Nat) : ∀ start,
    start + fuel = config.maxTasks →
      start ≤ kernel.freeSlotFrom fuel start ∧ kernel.freeSlotFrom fuel start ≤ config.maxTasks ∧
      (kernel.freeSlotFrom fuel start < config.maxTasks →
        (kernel.krnlTcb (kernel.freeSlotFrom fuel start)).ptask = 0) ∧
      ∀ slot, start ≤ slot → slot < kernel.freeSlotFrom fuel start →
        (kernel.krnlTcb slot).ptask ≠ 0 := by
  induction fuel with
  | zero =>
      intro start finished
      simp only [freeSlotFrom]
      refine ⟨Nat.le_refl _, by omega, fun inside => by omega, fun slot low high => by omega⟩
  | succ fuel ih =>
      intro start remaining
      simp only [freeSlotFrom]
      split
      · rename_i taken
        obtain ⟨low, high, free, before⟩ := ih (start + 1) (by omega)
        refine ⟨by omega, high, free, ?_⟩
        intro slot above below
        by_cases first : slot = start
        · exact first ▸ taken.1
        · exact before slot (by omega) below
      · rename_i untaken
        refine ⟨Nat.le_refl _, by omega, ?_, fun slot low high => by omega⟩
        intro inside
        by_contra alive
        exact untaken ⟨alive, inside⟩

theorem freeSlot_le (kernel : Kernel config) : kernel.freeSlot ≤ config.maxTasks :=
  (kernel.freeSlotFrom_spec config.maxTasks 0 (Nat.zero_add _)).2.1

theorem freeSlot_free (kernel : Kernel config) (inside : kernel.freeSlot < config.maxTasks) :
    (kernel.krnlTcb kernel.freeSlot).ptask = 0 :=
  (kernel.freeSlotFrom_spec config.maxTasks 0 (Nat.zero_add _)).2.2.1 inside

theorem unqueue_present (kernel : Kernel config) {run rt delay : List Nat} {id : Nat}
    (queued : Queued kernel run rt delay) (member : id ∈ run ++ rt)
    (runPeriods : ∀ slot ∈ run, (kernel.krnlTcb slot).period = 0)
    (rtPeriods : ∀ slot ∈ rt, (kernel.krnlTcb slot).period ≠ 0) :
    ∃ after, kernel.unqueue id = .ok (some id, after) ∧ DelayFrame kernel after ∧
      after.krnlTcb = kernel.krnlTcb ∧ Queued after (run.erase id) (rt.erase id) delay := by
  have injective : Function.Injective (some : Nat → Option Nat) := Option.some_injective Nat
  by_cases periodic : (kernel.krnlTcb id).period = 0
  · have notRt : id ∉ rt := fun inRt => rtPeriods id inRt periodic
    have inRun : id ∈ run := (List.mem_append.mp member).resolve_right notRt
    obtain ⟨queue, taken, contents⟩ := takeTask_present kernel.krnlRunQueue id .noTasksRun
      (by simpa [queued.run] using inRun)
    refine ⟨{ kernel with krnlRunQueue := queue }, ?_, ⟨rfl, rfl, rfl, rfl, rfl⟩, rfl, ?_, ?_,
      queued.delay⟩
    · simp [unqueue, periodic, taken, bind, Except.bind]
    · rw [List.map_erase injective, ← queued.run]
      exact contents
    · rw [List.erase_of_not_mem notRt]
      exact queued.rt
  · have notRun : id ∉ run := fun inRun => periodic (runPeriods id inRun)
    have inRt : id ∈ rt := (List.mem_append.mp member).resolve_left notRun
    obtain ⟨queue, taken, contents⟩ := takeTask_present kernel.krnlRtQueue id .noTasksRt
      (by simpa [queued.rt] using inRt)
    refine ⟨{ kernel with krnlRtQueue := queue }, ?_, ⟨rfl, rfl, rfl, rfl, rfl⟩, rfl, ?_, ?_,
      queued.delay⟩
    · simp [unqueue, periodic, taken, bind, Except.bind]
    · rw [List.erase_of_not_mem notRun]
      exact queued.run
    · rw [List.map_erase injective, ← queued.rt]
      exact contents

/-- The panic of a call that looks for a delayed task in the queue its period names. -/
def absentPanic (entry : TcbEntry) : Panic :=
  if entry.period = 0 then .noTasksRun else .noTasksRt

theorem unqueue_absent (kernel : Kernel config) {run rt delay : List Nat} {id : Nat}
    (queued : Queued kernel run rt delay) (missing : id ∉ run ++ rt) :
    kernel.unqueue id = .error (.panic (absentPanic (kernel.krnlTcb id))) := by
  simp only [List.mem_append, not_or] at missing
  by_cases periodic : (kernel.krnlTcb id).period = 0
  · have absent := takeTask_absent kernel.krnlRunQueue id .noTasksRun
      (by simpa [queued.run] using missing.1)
    simp [unqueue, periodic, absent, absentPanic, bind, Except.bind]
  · have absent := takeTask_absent kernel.krnlRtQueue id .noTasksRt
      (by simpa [queued.rt] using missing.2)
    simp [unqueue, periodic, absent, absentPanic, bind, Except.bind]

theorem mem_queues {run rt : List Nat} (delay : List Nat) {id : Nat} (member : id ∈ run ++ rt) :
    id ∈ run ++ (rt ++ delay) := by
  rw [← List.append_assoc]
  exact List.mem_append_left _ member

theorem erase_queues {run rt delay : List Nat} {id : Nat}
    (distinct : (run ++ (rt ++ delay)).Nodup) (member : id ∈ run ++ rt) :
    run.erase id ++ (rt.erase id ++ delay) = (run ++ (rt ++ delay)).erase id := by
  by_cases inRun : id ∈ run
  · have notRt : id ∉ rt := fun inRt =>
      (List.nodup_append.mp distinct).2.2 id inRun id (List.mem_append_left _ inRt) rfl
    rw [List.erase_append_left _ inRun, List.erase_of_not_mem notRt]
  · have inRt : id ∈ rt := (List.mem_append.mp member).resolve_left inRun
    rw [List.erase_append_right _ inRun, List.erase_append_left _ inRt, List.erase_of_not_mem inRun]

theorem delayed_unqueued {run rt delay : List Nat} {id : Nat}
    (distinct : (run ++ (rt ++ delay)).Nodup) (member : id ∈ delay) : id ∉ run ++ rt := by
  have apart := List.nodup_append.mp distinct
  intro queued
  rcases List.mem_append.mp queued with inRun | inRt
  · exact apart.2.2 id inRun id (List.mem_append_right _ member) rfl
  · exact (List.nodup_append.mp apart.2.1).2.2 id inRt id member rfl

theorem Placed.live_iff {kernel : Kernel config} {run rt delay : List Nat}
    (placed : Placed kernel run rt delay) (id : Nat) :
    ¬kernel.noSuchTask id ↔ id ∈ run ++ (rt ++ delay) := by
  rw [placed.members id]
  simp only [noSuchTask, live, Bool.and_eq_true, decide_eq_true_eq, not_or, Nat.not_le]
  exact and_comm

theorem setState_same (kernel : Kernel config) (id : Nat) (state : TaskState) (slot : Nat) :
    SameTask (kernel.krnlTcb slot)
      ((kernel.modify id fun entry => { entry with state := state }).krnlTcb slot) := by
  by_cases changed : slot = id
  · subst changed
    rw [modify_same]
    exact ⟨rfl, rfl, rfl, rfl⟩
  · rw [modify_other _ _ changed]
    exact SameTask.refl _

inductive SetsState (kernel : Kernel config) (id : Nat) (state : TaskState) : Kernel config → Prop
  | refused : SetsState kernel id state kernel
  | looked : SetsState kernel id state kernel.pointAtCurrent
  | written (nonzero : id ≠ 0) : SetsState kernel id state
      (kernel.modify id fun entry => { entry with state := state }).pointAtCurrent

theorem hfBlock_sets (kernel : Kernel config) (id : Nat) :
    SetsState kernel id .blocked (kernel.hfBlock id).2 := by
  unfold hfBlock
  split
  · exact .refused
  · rename_i nonzero
    split
    · exact .looked
    · split
      · exact .looked
      · exact .written nonzero

theorem hfResume_sets (kernel : Kernel config) (id : Nat) :
    SetsState kernel id .ready (kernel.hfResume id).2 := by
  unfold hfResume
  split
  · exact .refused
  · rename_i nonzero
    split
    · exact .looked
    · split
      · exact .looked
      · exact .written nonzero

namespace Placed

variable {kernel after : Kernel config} {run rt delay : List Nat}

theorem pointAtCurrent (placed : Placed kernel run rt delay) :
    Placed kernel.pointAtCurrent run rt delay :=
  placed.moved (fun _ => SameTask.refl _) rfl
    ⟨placed.queued.run, placed.queued.rt, placed.queued.delay⟩ (List.Perm.refl _)
    placed.runPeriods placed.rtPeriods placed.idle

theorem setState (placed : Placed kernel run rt delay) (id : Nat) (state : TaskState) :
    Placed (kernel.modify id fun entry => { entry with state := state }) run rt delay :=
  placed.moved (kernel.setState_same id state) rfl
    ⟨placed.queued.run, placed.queued.rt, placed.queued.delay⟩ (List.Perm.refl _)
    placed.runPeriods placed.rtPeriods placed.idle

theorem setsState (placed : Placed kernel run rt delay) {id : Nat} {state : TaskState}
    (sets : SetsState kernel id state after) : Placed after run rt delay := by
  cases sets with
  | refused => exact placed
  | looked => exact placed.pointAtCurrent
  | written => exact (placed.setState id state).pointAtCurrent

end Placed

namespace Partition

variable {kernel after : Kernel config} {run rt delay : List Nat}

theorem pointAtCurrent (partition : Partition kernel run rt delay) :
    Partition kernel.pointAtCurrent run rt delay :=
  partition.same_view rfl rfl rfl rfl rfl rfl

theorem setState (partition : Partition kernel run rt delay) {id : Nat} (nonzero : id ≠ 0)
    {state : TaskState} (notRunning : state ≠ .running) :
    Partition (kernel.modify id fun entry => { entry with state := state }) run rt delay := by
  have placed := partition.toPlaced.setState id state
  have idle : (kernel.modify id fun entry => { entry with state := state }).krnlTcb 0 =
      kernel.krnlTcb 0 := modify_other _ _ (Ne.symm nonzero)
  refine { placed with
    unblocked := ?_, priority := ?_, remaining := ?_, running := ?_, current := partition.current }
  · rw [blocked, idle]
    exact partition.unblocked
  · rw [idle]
    exact partition.priority
  · rw [idle]
    exact partition.remaining
  · intro slot running
    by_cases changed : slot = id
    · subst changed
      rw [modify_same] at running
      exact absurd running notRunning
    · rw [modify_other _ _ changed] at running
      exact partition.running slot running

theorem setsState (partition : Partition kernel run rt delay) {id : Nat} {state : TaskState}
    (notRunning : state ≠ .running) (sets : SetsState kernel id state after) :
    Partition after run rt delay := by
  cases sets with
  | refused => exact partition
  | looked => exact partition.pointAtCurrent
  | written nonzero => exact (partition.setState nonzero notRunning).pointAtCurrent

theorem hfBlock (partition : Partition kernel run rt delay) (id : Nat) :
    Partition (kernel.hfBlock id).2 run rt delay :=
  partition.setsState (by simp) (kernel.hfBlock_sets id)

theorem hfResume (partition : Partition kernel run rt delay) (id : Nat) :
    Partition (kernel.hfResume id).2 run rt delay :=
  partition.setsState (by simp) (kernel.hfResume_sets id)

end Partition

structure StateFrame (before after : Kernel config) (id : Nat) : Prop where
  others : ∀ slot, slot ≠ id → after.krnlTcb slot = before.krnlTcb slot
  same : SameTask (before.krnlTcb id) (after.krnlTcb id)
  budget : SameBudget (before.krnlTcb id) (after.krnlTcb id)
  current : after.krnlCurrentTask = before.krnlCurrentTask
  schedule : after.krnlSchedule = before.krnlSchedule

theorem StateFrame.live {before after : Kernel config} {id : Nat} (frame : StateFrame before after id)
    (slot : Nat) : after.live slot = before.live slot := by
  unfold Kernel.live
  by_cases changed : slot = id
  · rw [changed, frame.same.ptask]
  · rw [frame.others slot changed]

theorem StateFrame.refl (kernel : Kernel config) (id : Nat) : StateFrame kernel kernel id :=
  ⟨fun _ _ => rfl, SameTask.refl _, SameBudget.refl _, rfl, rfl⟩

theorem StateFrame.pointAtCurrent {before after : Kernel config} {id : Nat}
    (frame : StateFrame before after id) : StateFrame before after.pointAtCurrent id :=
  ⟨frame.others, frame.same, frame.budget, frame.current, frame.schedule⟩

theorem StateFrame.period {before after : Kernel config} {id : Nat}
    (frame : StateFrame before after id) (slot : Nat) :
    (after.krnlTcb slot).period = (before.krnlTcb slot).period := by
  by_cases changed : slot = id
  · rw [changed, frame.same.period]
  · rw [frame.others slot changed]

theorem setState_frame (kernel : Kernel config) (id : Nat) (state : TaskState) :
    StateFrame kernel (kernel.modify id fun entry => { entry with state := state }) id := by
  refine ⟨fun slot other => modify_other _ _ other, ?_, ?_, rfl, rfl⟩
  · rw [modify_same]
    exact ⟨rfl, rfl, rfl, rfl⟩
  · rw [modify_same]
    exact ⟨rfl, rfl, rfl, rfl⟩

theorem SetsState.frame {kernel after : Kernel config} {id : Nat} {state : TaskState}
    (sets : SetsState kernel id state after) : StateFrame kernel after id := by
  cases sets with
  | refused => exact .refl kernel id
  | looked => exact (StateFrame.refl kernel id).pointAtCurrent
  | written => exact (kernel.setState_frame id state).pointAtCurrent

theorem hfBlock_frame (kernel : Kernel config) (id : Nat) :
    StateFrame kernel (kernel.hfBlock id).2 id :=
  (kernel.hfBlock_sets id).frame

theorem hfResume_frame (kernel : Kernel config) (id : Nat) :
    StateFrame kernel (kernel.hfResume id).2 id :=
  (kernel.hfResume_sets id).frame

theorem setState_only (kernel : Kernel config) (id : Nat) (state : TaskState) (slot : Nat) :
    (kernel.modify id fun entry => { entry with state := state }).krnlTcb slot =
      { kernel.krnlTcb slot with state := ((kernel.modify id fun entry =>
        { entry with state := state }).krnlTcb slot).state } := by
  by_cases named : slot = id
  · subst named
    rw [modify_same]
  · rw [modify_other _ _ named]

theorem SetsState.only {kernel after : Kernel config} {id : Nat} {state : TaskState}
    (sets : SetsState kernel id state after) (slot : Nat) :
    after.krnlTcb slot = { kernel.krnlTcb slot with state := (after.krnlTcb slot).state } := by
  cases sets with
  | refused | looked => rfl
  | written => exact kernel.setState_only id state slot

theorem SetsState.idle {kernel after : Kernel config} {id : Nat} {state : TaskState}
    (sets : SetsState kernel id state after) : after.krnlTcb 0 = kernel.krnlTcb 0 := by
  cases sets with
  | refused | looked => rfl
  | written nonzero => exact (kernel.setState_frame id state).others 0 (Ne.symm nonzero)

section Spawning

theorem fillEntry_same (kernel : Kernel config) (call : SpawnCall) (i : Nat) :
    (kernel.fillEntry call i).krnlTcb i = { spawnEntry call i (kernel.krnlTcb i) with
      contextSp := (call.pstack + (align4 call.stackSize - 4).toNat) % 4294967296
      contextTp := call.task } := by
  simp only [fillEntry, setTaskSp, setTaskTp, modify_same]

theorem fillEntry_other (kernel : Kernel config) (call : SpawnCall) {i slot : Nat}
    (other : slot ≠ i) : (kernel.fillEntry call i).krnlTcb slot = kernel.krnlTcb slot := by
  simp only [fillEntry, setTaskSp, setTaskTp, modify_other _ _ other]

structure SpawnFrame (before after : Kernel config) : Prop where
  alive : ∀ slot, before.live slot = true → after.krnlTcb slot = before.krnlTcb slot
  dead : ∀ slot, before.live slot = false →
    after.krnlTcb slot = before.krnlTcb slot ∨ (after.krnlTcb slot).state = .idle
  current : after.krnlCurrentTask = before.krnlCurrentTask
  schedule : after.krnlSchedule = before.krnlSchedule
  schedBe : after.schedBe = before.schedBe

theorem SpawnFrame.refl (kernel : Kernel config) : SpawnFrame kernel kernel :=
  ⟨fun _ _ => rfl, fun _ _ => Or.inl rfl, rfl, rfl, rfl⟩

theorem SpawnFrame.of_slot {before after : Kernel config} {i : Nat} (dead : before.live i = false)
    (others : ∀ slot, slot ≠ i → after.krnlTcb slot = before.krnlTcb slot)
    (idle : (after.krnlTcb i).state = .idle)
    (current : after.krnlCurrentTask = before.krnlCurrentTask)
    (schedule : after.krnlSchedule = before.krnlSchedule)
    (schedBe : after.schedBe = before.schedBe) : SpawnFrame before after := by
  refine ⟨?_, ?_, current, schedule, schedBe⟩
  · intro slot alive
    apply others
    rintro rfl
    rw [dead] at alive
    cases alive
  · intro slot _
    by_cases written : slot = i
    · exact Or.inr (written ▸ idle)
    · exact Or.inl (others slot written)

variable {kernel : Kernel config} {run rt delay : List Nat}

theorem Partition.of_placed {after : Kernel config} {run' rt' delay' : List Nat} {i : Nat}
    (partition : Partition kernel run rt delay) (placed : Placed after run' rt' delay')
    (nonzero : i ≠ 0)
    (others : ∀ slot, slot ≠ i → (after.krnlTcb slot).state = (kernel.krnlTcb slot).state ∧
      (after.krnlTcb slot).priority = (kernel.krnlTcb slot).priority ∧
      (after.krnlTcb slot).priorityRem = (kernel.krnlTcb slot).priorityRem)
    (halted : (after.krnlTcb i).state ≠ .running)
    (current : after.krnlCurrentTask = kernel.krnlCurrentTask) :
    Partition after run' rt' delay' := by
  obtain ⟨state, priority, remaining⟩ := others 0 (Ne.symm nonzero)
  refine { placed with unblocked := ?_, priority := ?_, remaining := ?_, running := ?_, current := ?_ }
  · rw [blocked_eq_false, state]
    exact (blocked_eq_false kernel 0).mp partition.unblocked
  · rw [priority]
    exact partition.priority
  · rw [remaining, priority]
    exact partition.remaining
  · intro slot running
    rw [current]
    by_cases written : slot = i
    · exact absurd (written ▸ running) halted
    · rw [(others slot written).1] at running
      exact partition.running slot running
  · rw [current]
    exact partition.current

theorem Partition.spawned {after : Kernel config} {run' rt' delay' : List Nat}
    (partition : Partition kernel run rt delay) (placed : Placed after run' rt' delay')
    (frame : SpawnFrame kernel after) : Partition after run' rt' delay' := by
  have idle : after.krnlTcb 0 = kernel.krnlTcb 0 :=
    frame.alive 0 (partition.live_of_mem (List.mem_append_left _ partition.idle))
  have ready := partition.toIdleReady.of_entry idle
  refine { placed, ready with running := ?_, current := ?_ }
  · intro slot running
    rw [frame.current]
    cases alive : kernel.live slot with
    | true => exact partition.running slot (by rw [← frame.alive slot alive]; exact running)
    | false =>
        rcases frame.dead slot alive with same | fresh
        · exact partition.running slot (by rw [← same]; exact running)
        · rw [fresh] at running
          cases running
  · rw [frame.current]
    exact partition.current

theorem Placed.freeSlot_missing (placed : Placed kernel run rt delay)
    (inside : kernel.freeSlot < config.maxTasks) : kernel.freeSlot ∉ run ++ (rt ++ delay) :=
  fun member => placed.ptask_ne_zero member (kernel.freeSlot_free inside)

theorem Placed.added {after : Kernel config} {run' rt' : List Nat} {slot : Nat}
    (placed : Placed kernel run rt delay) (queued : Queued after run' rt' delay)
    (perm : (run' ++ (rt' ++ delay)).Perm (slot :: (run ++ (rt ++ delay))))
    (missing : slot ∉ run ++ (rt ++ delay)) (bound : slot < config.maxTasks)
    (others : ∀ other, other ≠ slot → after.krnlTcb other = kernel.krnlTcb other)
    (named : (after.krnlTcb slot).id = slot) (alive : (after.krnlTcb slot).ptask ≠ 0)
    (tasks : after.krnlTasks = kernel.krnlTasks + 1)
    (runPeriods : ∀ other ∈ run', (after.krnlTcb other).period = 0)
    (rtPeriods : ∀ other ∈ rt', (after.krnlTcb other).period ≠ 0) (idle : 0 ∈ run') :
    Placed after run' rt' delay where
  queued := queued
  distinct := perm.nodup_iff.mpr (List.nodup_cons.mpr ⟨missing, placed.distinct⟩)
  members other := by
    rw [perm.mem_iff, List.mem_cons, placed.members other]
    by_cases written : other = slot
    · subst written
      simp [live, bound, alive]
    · simp [written, live, others other written]
  runPeriods := runPeriods
  rtPeriods := rtPeriods
  counted := by
    have room := placed.length_lt bound missing
    have representable := config.representable
    have one : (1 : UInt16).toNat = 1 := rfl
    rw [perm.length_eq, List.length_cons, tasks, UInt16.toNat_add, placed.counted, one]
    exact Nat.mod_eq_of_lt (by omega)
  ids other inside := by
    by_cases written : other = slot
    · exact Or.inl (written ▸ named)
    · rw [others other written]
      exact placed.ids other inside
  idle := idle

theorem Placed.filled {after : Kernel config} (placed : Placed kernel run rt delay)
    (call : SpawnCall) (task : call.task ≠ 0) (inside : kernel.freeSlot < config.maxTasks)
    (missing : kernel.freeSlot ∉ run ++ (rt ++ delay))
    (queues : Queued after (run ++ if call.period = 0 then [kernel.freeSlot] else [])
      (rt ++ if call.period = 0 then [] else [kernel.freeSlot]) delay)
    (entries : after.krnlTcb = (kernel.fillEntry call kernel.freeSlot).krnlTcb)
    (tasks : after.krnlTasks = kernel.krnlTasks + 1) :
    Placed after (run ++ if call.period = 0 then [kernel.freeSlot] else [])
      (rt ++ if call.period = 0 then [] else [kernel.freeSlot]) delay := by
  have others : ∀ slot, slot ≠ kernel.freeSlot → after.krnlTcb slot = kernel.krnlTcb slot := by
    intro slot other
    rw [entries]
    exact kernel.fillEntry_other call other
  have period : (after.krnlTcb kernel.freeSlot).period = call.period := by
    simp only [entries, fillEntry_same, spawnEntry]
  refine placed.added queues ?_ missing inside others ?_ ?_ tasks ?_ ?_
    (List.mem_append_left _ placed.idle)
  · by_cases periodic : call.period = 0
    · simp only [periodic, if_true, List.append_nil, List.append_assoc]
      exact List.perm_middle
    · simp only [periodic, if_false, List.append_nil, List.append_assoc]
      rw [← List.append_assoc, ← List.append_assoc run]
      exact List.perm_middle
  · simp only [entries, fillEntry_same, spawnEntry]
  · simpa only [entries, fillEntry_same, spawnEntry] using task
  · intro slot member
    rcases List.mem_append.mp member with old | new
    · rw [others slot fun same => missing (same ▸ List.mem_append_left _ old)]
      exact placed.runPeriods slot old
    · by_cases periodic : call.period = 0
      · simp only [periodic, if_true, List.mem_singleton] at new
        rw [new, period, periodic]
      · simp [periodic] at new
  · intro slot member
    rcases List.mem_append.mp member with old | new
    · rw [others slot fun same =>
        missing (same ▸ List.mem_append_right _ (List.mem_append_left _ old))]
      exact placed.rtPeriods slot old
    · by_cases periodic : call.period = 0
      · simp [periodic] at new
      · simp only [periodic, if_false, List.mem_singleton] at new
        rw [new, period]
        exact periodic

theorem Placed.hfSpawn_room (placed : Placed kernel run rt delay) (call : SpawnCall)
    (task : call.task ≠ 0) (valid : ¬(call.period < call.capacity ∨ call.deadline < call.capacity))
    (inside : kernel.freeSlot < config.maxTasks) (stack : call.pstack ≠ 0) :
    ∃ after, kernel.hfSpawn call = .ok (kernel.freeSlot, after) ∧
      Placed after (run ++ if call.period = 0 then [kernel.freeSlot] else [])
        (rt ++ if call.period = 0 then [] else [kernel.freeSlot]) delay ∧
      SpawnFrame kernel after ∧ kernel.live kernel.freeSlot = false ∧
      after.krnlTcb = (kernel.fillEntry call kernel.freeSlot).krnlTcb := by
  have missing := placed.freeSlot_missing inside
  have room := placed.length_lt inside missing
  have dead : kernel.live kernel.freeSlot = false := by
    simp [live, kernel.freeSlot_free inside]
  let filled := kernel.fillEntry call kernel.freeSlot
  simp only [List.length_append] at room
  obtain ⟨after, queuedTask, frame, entries, queues⟩ := filled.enqueueReady_queued kernel.freeSlot
    ⟨placed.queued.run, placed.queued.rt, placed.queued.delay⟩ (by omega) (by omega)
  have period : (filled.krnlTcb kernel.freeSlot).period = call.period := by
    simp only [filled, fillEntry_same, spawnEntry]
  have queued : Queued after (run ++ if call.period = 0 then [kernel.freeSlot] else [])
      (rt ++ if call.period = 0 then [] else [kernel.freeSlot]) delay := by
    by_cases periodic : call.period = 0
    · simpa [periodic, background, realTime, period] using queues
    · simpa [periodic, background, realTime, period] using queues
  have kept := placed.filled call task inside missing queued entries frame.tasks
  have others : ∀ slot, slot ≠ kernel.freeSlot → after.krnlTcb slot = kernel.krnlTcb slot := by
    intro slot other
    rw [entries]
    exact kernel.fillEntry_other call other
  have idle : (after.krnlTcb kernel.freeSlot).state = .idle := by
    simp only [entries, filled, fillEntry_same, spawnEntry]
  refine ⟨after.pointAtCurrent, ?_, kept.pointAtCurrent, ?_, dead, entries⟩
  · simp only [hfSpawn, if_neg valid, if_neg (Nat.ne_of_lt inside), if_pos stack, bind, Except.bind]
    rw [show (kernel.fillEntry call kernel.freeSlot).enqueueReady kernel.freeSlot = .ok after from
      queuedTask]
  · exact .of_slot dead others idle frame.current frame.schedule frame.schedBe

theorem Partition.hfSpawn_room (partition : Partition kernel run rt delay) (call : SpawnCall)
    (task : call.task ≠ 0) (valid : ¬(call.period < call.capacity ∨ call.deadline < call.capacity))
    (inside : kernel.freeSlot < config.maxTasks) (stack : call.pstack ≠ 0) :
    ∃ after, kernel.hfSpawn call = .ok (kernel.freeSlot, after) ∧
      Partition after (run ++ if call.period = 0 then [kernel.freeSlot] else [])
        (rt ++ if call.period = 0 then [] else [kernel.freeSlot]) delay ∧
      SpawnFrame kernel after ∧ kernel.live kernel.freeSlot = false ∧
      after.krnlTcb = (kernel.fillEntry call kernel.freeSlot).krnlTcb := by
  obtain ⟨after, spawned, kept, frame, dead, entries⟩ :=
    partition.toPlaced.hfSpawn_room call task valid inside stack
  exact ⟨after, spawned, partition.spawned kept frame, frame, dead, entries⟩

theorem Placed.hfSpawn_memory (placed : Placed kernel run rt delay) (call : SpawnCall)
    (valid : ¬(call.period < call.capacity ∨ call.deadline < call.capacity))
    (inside : kernel.freeSlot < config.maxTasks) (noStack : call.pstack = 0) :
    ∃ after, kernel.hfSpawn call = .ok (errOutOfMemory, after) ∧ Placed after run rt delay ∧
      SpawnFrame kernel after ∧ after.krnlTcb =
        ((kernel.fillEntry call kernel.freeSlot).dropEntry kernel.freeSlot).krnlTcb := by
  have dead : kernel.live kernel.freeSlot = false := by
    simp [live, kernel.freeSlot_free inside]
  let dropped := (kernel.fillEntry call kernel.freeSlot).dropEntry kernel.freeSlot
  have others : ∀ slot, slot ≠ kernel.freeSlot → dropped.krnlTcb slot = kernel.krnlTcb slot := by
    intro slot other
    simp only [dropped, dropEntry, modify_other _ _ other, kernel.fillEntry_other call other]
  have entry : dropped.krnlTcb kernel.freeSlot =
      { (kernel.fillEntry call kernel.freeSlot).krnlTcb kernel.freeSlot with ptask := 0 } := by
    simp only [dropped, dropEntry, modify_same]
  have tasks : dropped.krnlTasks = kernel.krnlTasks := UInt16.add_sub_cancel _ _
  have ptasks : ∀ slot, (dropped.krnlTcb slot).ptask = (kernel.krnlTcb slot).ptask := by
    intro slot
    by_cases written : slot = kernel.freeSlot
    · rw [written, entry, kernel.freeSlot_free inside]
    · rw [others slot written]
  have unwritten : ∀ slot ∈ run ++ (rt ++ delay), dropped.krnlTcb slot = kernel.krnlTcb slot :=
    fun slot member => others slot fun same => placed.freeSlot_missing inside (same ▸ member)
  have kept : Placed dropped run rt delay := {
    queued := ⟨placed.queued.run, placed.queued.rt, placed.queued.delay⟩
    distinct := placed.distinct
    members := fun slot => by rw [placed.members slot, live, live, ptasks]
    runPeriods := fun slot member => by
      rw [unwritten slot (List.mem_append_left _ member)]
      exact placed.runPeriods slot member
    rtPeriods := fun slot member => by
      rw [unwritten slot (List.mem_append_right _ (List.mem_append_left _ member))]
      exact placed.rtPeriods slot member
    counted := by rw [tasks, placed.counted]
    ids := fun slot bound => by
      by_cases written : slot = kernel.freeSlot
      · left
        rw [written, entry]
        simp only [fillEntry_same, spawnEntry]
      · rw [others slot written]
        exact placed.ids slot bound
    idle := placed.idle }
  have idle : (dropped.krnlTcb kernel.freeSlot).state = .idle := by
    rw [entry]
    simp only [fillEntry_same, spawnEntry]
  refine ⟨dropped.pointAtCurrent, ?_, kept.pointAtCurrent, ?_, rfl⟩
  · simp only [hfSpawn, if_neg valid, if_neg (Nat.ne_of_lt inside), noStack, ne_eq,
      not_true_eq_false, if_false]
    rfl
  · exact .of_slot dead others idle rfl rfl rfl

theorem Partition.hfSpawn_memory (partition : Partition kernel run rt delay) (call : SpawnCall)
    (valid : ¬(call.period < call.capacity ∨ call.deadline < call.capacity))
    (inside : kernel.freeSlot < config.maxTasks) (noStack : call.pstack = 0) :
    ∃ after, kernel.hfSpawn call = .ok (errOutOfMemory, after) ∧ Partition after run rt delay ∧
      SpawnFrame kernel after := by
  obtain ⟨after, spawned, kept, frame, _⟩ :=
    partition.toPlaced.hfSpawn_memory call valid inside noStack
  exact ⟨after, spawned, partition.spawned kept frame, frame⟩

theorem Partition.hfSpawn (partition : Partition kernel run rt delay) (call : SpawnCall)
    (task : call.task ≠ 0) :
    ∃ code after run' rt', kernel.hfSpawn call = .ok (code, after) ∧
      Partition after run' rt' delay ∧ SpawnFrame kernel after ∧
      (rt' = rt ∨ call.period ≠ 0 ∧ call.capacity ≤ call.period ∧ rt' = rt ++ [kernel.freeSlot] ∧
        after.krnlTcb = (kernel.fillEntry call kernel.freeSlot).krnlTcb) := by
  by_cases valid : call.period < call.capacity ∨ call.deadline < call.capacity
  · refine ⟨errInvalidParameter, kernel, run, rt, ?_, partition, .refl kernel, Or.inl rfl⟩
    rw [Kernel.hfSpawn, if_pos valid]
  · by_cases full : kernel.freeSlot = config.maxTasks
    · refine ⟨errExceedMaxNum, kernel, run, rt, ?_, partition, .refl kernel, Or.inl rfl⟩
      simp only [Kernel.hfSpawn, if_neg valid, if_pos full]
    · have inside : kernel.freeSlot < config.maxTasks :=
        Nat.lt_of_le_of_ne kernel.freeSlot_le full
      by_cases stack : call.pstack = 0
      · obtain ⟨after, spawned, kept, frame⟩ := partition.hfSpawn_memory call valid inside stack
        exact ⟨_, after, run, rt, spawned, kept, frame, Or.inl rfl⟩
      · obtain ⟨after, spawned, kept, frame, _, entries⟩ :=
          partition.hfSpawn_room call task valid inside stack
        refine ⟨_, after, _, _, spawned, kept, frame, ?_⟩
        by_cases periodic : call.period = 0
        · exact Or.inl (by simp [periodic])
        · refine Or.inr ⟨periodic, ?_, by simp [periodic], entries⟩
          exact UInt16.not_lt.mp fun less => valid (Or.inl less)

end Spawning

section Removing

theorem noId_ne {id : Nat} (bound : id < config.maxTasks) : noId ≠ id := by
  have := config.representable
  unfold noId
  omega

theorem clearEntry_same (kernel : Kernel config) {id : Nat} (bound : id < config.maxTasks) :
    (kernel.clearEntry id).krnlTcb id =
      { kernel.krnlTcb id with id := noId, ptask := 0, state := .idle } := by
  have other := Ne.symm (noId_ne bound)
  simp [clearEntry, setTaskSp, setTaskTp, modify_other _ _ other]

theorem clearEntry_other (kernel : Kernel config) {id slot : Nat} (bound : id < config.maxTasks)
    (other : slot ≠ id) :
    (kernel.clearEntry id).krnlTcb slot = { kernel.krnlTcb slot with
      contextSp := if slot = noId then 0 else (kernel.krnlTcb slot).contextSp
      contextTp := if slot = noId then 0 else (kernel.krnlTcb slot).contextTp } := by
  have outside := noId_ne bound
  have inside := Ne.symm outside
  by_cases wild : slot = noId
  · subst wild
    simp [clearEntry, setTaskSp, setTaskTp, modify_other _ _ outside, modify_other _ _ inside]
  · simp [clearEntry, setTaskSp, setTaskTp, modify_other _ _ other, modify_other _ _ wild, wild,
      modify_other _ _ inside]

variable {kernel : Kernel config} {run rt delay : List Nat} {id : Nat}

theorem clearEntry_period (kernel : Kernel config) (bound : id < config.maxTasks) (slot : Nat) :
    ((kernel.clearEntry id).krnlTcb slot).period = (kernel.krnlTcb slot).period := by
  by_cases killed : slot = id
  · rw [killed, kernel.clearEntry_same bound]
  · rw [kernel.clearEntry_other bound killed]

theorem Placed.cleared {after : Kernel config} (placed : Placed kernel run rt delay)
    (nonzero : id ≠ 0) (member : id ∈ run ++ rt)
    (queues : Queued after (run.erase id) (rt.erase id) delay)
    (entries : after.krnlTcb = (kernel.clearEntry id).krnlTcb)
    (tasks : after.krnlTasks = kernel.krnlTasks - 1) :
    Placed after (run.erase id) (rt.erase id) delay := by
  have inside : id ∈ run ++ (rt ++ delay) := mem_queues delay member
  have bound := placed.bound inside
  have erased := erase_queues placed.distinct member
  refine ⟨queues, ?_, ?_, ?_, ?_, ?_, ?_, (List.mem_erase_of_ne (Ne.symm nonzero)).mpr placed.idle⟩
  · rw [erased]
    exact placed.distinct.erase id
  · intro slot
    rw [erased, placed.distinct.mem_erase_iff, placed.members slot, live, live, entries]
    by_cases killed : slot = id
    · rw [killed, kernel.clearEntry_same bound]
      simp
    · rw [kernel.clearEntry_other bound killed]
      simp [killed]
  · intro slot inRun
    rw [entries, kernel.clearEntry_period bound]
    exact placed.runPeriods slot (List.mem_of_mem_erase inRun)
  · intro slot inRt
    rw [entries, kernel.clearEntry_period bound]
    exact placed.rtPeriods slot (List.mem_of_mem_erase inRt)
  · have positive := List.length_pos_of_mem inside
    have one : (1 : UInt16) ≤ kernel.krnlTasks := by
      rw [UInt16.le_iff_toNat_le, placed.counted]
      exact positive
    rw [erased, List.length_erase_of_mem inside, tasks, UInt16.toNat_sub_of_le _ _ one,
      placed.counted]
    rfl
  · intro slot slotBound
    rw [entries]
    by_cases killed : slot = id
    · rw [killed, kernel.clearEntry_same bound]
      exact Or.inr ⟨rfl, rfl⟩
    · rw [kernel.clearEntry_other bound killed]
      exact placed.ids slot slotBound

theorem Partition.cleared_selfid (partition : Partition kernel run rt delay)
    (bound : id < config.maxTasks) {after : Kernel config}
    (entries : after.krnlTcb = (kernel.clearEntry id).krnlTcb)
    (current : after.krnlCurrentTask = kernel.krnlCurrentTask) :
    after.pointAtCurrent.hfSelfid ≠ id := by
  have outside := noId_ne bound
  simp only [hfSelfid, Kernel.pointAtCurrent, current, entries]
  by_cases self : kernel.krnlCurrentTask = id
  · rw [self, kernel.clearEntry_same bound]
    exact outside
  · rw [kernel.clearEntry_other bound self]
    rcases partition.ids _ partition.current with named | ⟨wild, _⟩
    · rw [named]
      exact self
    · rw [wild]
      exact outside

theorem Partition.hfKill_present (partition : Partition kernel run rt delay) (around : Surroundings)
    (nonzero : id ≠ 0) (member : id ∈ run ++ rt) :
    ∃ after, kernel.hfKill around id = .ok (some errOk, after) ∧
      Partition after (run.erase id) (rt.erase id) delay ∧
      after.krnlTcb = (kernel.clearEntry id).krnlTcb ∧
      after.krnlCurrentTask = kernel.krnlCurrentTask ∧
      after.krnlSchedule = kernel.krnlSchedule ∧ after.schedBe = kernel.schedBe := by
  have inside : id ∈ run ++ (rt ++ delay) := mem_queues delay member
  have bound := partition.bound inside
  have period := kernel.clearEntry_period bound
  obtain ⟨after, taken, frame, entries, queues⟩ := (kernel.clearEntry id).unqueue_present
    ⟨partition.queued.run, partition.queued.rt, partition.queued.delay⟩ member
    (fun slot inRun => by rw [period]; exact partition.runPeriods slot inRun)
    (fun slot inRt => by rw [period]; exact partition.rtPeriods slot inRt)
  have current : after.krnlCurrentTask = kernel.krnlCurrentTask := frame.current
  have kept := partition.toPlaced.cleared nonzero member queues entries frame.tasks
  have whole := partition.of_placed kept nonzero
    (fun slot other => by
      rw [entries, kernel.clearEntry_other bound other]
      exact ⟨rfl, rfl, rfl⟩)
    (by rw [entries, kernel.clearEntry_same bound]; simp) current
  refine ⟨after.pointAtCurrent, ?_, whole.pointAtCurrent, entries, current, frame.schedule,
    frame.schedBe⟩
  have known : ¬kernel.noSuchTask id := (partition.live_iff id).mpr inside
  have notSelf := partition.cleared_selfid bound entries current
  simp only [hfKill, if_neg nonzero, if_neg known, bind, Except.bind]
  rw [show (kernel.clearEntry id).unqueue id = .ok (some id, after) from taken]
  simp only [ne_eq, not_true_eq_false, if_false, if_neg notSelf]

theorem Partition.hfKill_delayed (partition : Partition kernel run rt delay) (around : Surroundings)
    (member : id ∈ delay) :
    kernel.hfKill around id = .error (.panic (absentPanic (kernel.krnlTcb id))) := by
  have inside : id ∈ run ++ (rt ++ delay) := List.mem_append_right _ (List.mem_append_right _ member)
  have apart := List.nodup_append.mp partition.distinct
  have bound := partition.bound inside
  have nonzero : id ≠ 0 := fun zero =>
    apart.2.2 0 partition.idle id (List.mem_append_right _ member) zero.symm
  have missing := delayed_unqueued partition.distinct member
  have known : ¬kernel.noSuchTask id := (partition.live_iff id).mpr inside
  have absent := (kernel.clearEntry id).unqueue_absent
    (show Queued (kernel.clearEntry id) run rt delay from
      ⟨partition.queued.run, partition.queued.rt, partition.queued.delay⟩) missing
  rw [kernel.clearEntry_same bound] at absent
  simp only [hfKill, if_neg nonzero, if_neg known, bind, Except.bind, absent]
  rfl

theorem delayed_perm (distinct : (run ++ (rt ++ delay)).Nodup) (member : id ∈ run ++ rt) :
    (run.erase id ++ (rt.erase id ++ (delay ++ [id]))).Perm (run ++ (rt ++ delay)) := by
  have back : (id :: (run ++ (rt ++ delay)).erase id).Perm (run ++ (rt ++ delay)) :=
    (List.perm_cons_erase (mem_queues delay member)).symm
  rw [← erase_queues distinct member] at back
  refine List.Perm.trans ?_ back
  rw [← List.append_assoc, ← List.append_assoc, ← List.append_assoc]
  exact List.perm_append_singleton _ _

theorem Placed.hfDelay_present (placed : Placed kernel run rt delay) {ticks : UInt32}
    (later : ticks ≠ 0) (nonzero : id ≠ 0) (member : id ∈ run ++ rt) :
    ∃ after, kernel.hfDelay id ticks = .ok (errOk, after) ∧
      Placed after (run.erase id) (rt.erase id) (delay ++ [id]) ∧
      after.krnlTcb = (kernel.modify id fun entry =>
        { entry with state := .delayed, delay := ticks }).krnlTcb ∧
      after.krnlCurrentTask = kernel.krnlCurrentTask ∧
      after.krnlSchedule = kernel.krnlSchedule ∧ after.schedBe = kernel.schedBe := by
  have inside : id ∈ run ++ (rt ++ delay) := mem_queues delay member
  obtain ⟨taken, took, frame, entries, queues⟩ := kernel.unqueue_present placed.queued member
    placed.runPeriods placed.rtPeriods
  have room : taken.krnlDelayQueue.contents.length < config.maxTasks := by
    have lengths := placed.length_le
    have positive := List.length_pos_of_mem member
    simp only [List.length_append] at lengths positive
    rw [queues.delay, List.length_map]
    omega
  let marked := taken.modify id fun entry => { entry with state := .delayed, delay := ticks }
  obtain ⟨queue, placedTask, contents⟩ := placeTask_room marked.krnlDelayQueue (some id)
    .cantPlaceDelay room
  let after : Kernel config := { marked with krnlDelayQueue := queue }
  have tcb : after.krnlTcb = (kernel.modify id fun entry =>
      { entry with state := .delayed, delay := ticks }).krnlTcb := by
    simp only [after, marked, modify, entries]
  have same : ∀ slot, SameTask (kernel.krnlTcb slot) (after.krnlTcb slot) := by
    intro slot
    rw [tcb]
    by_cases changed : slot = id
    · rw [changed, modify_same]
      exact ⟨rfl, rfl, rfl, rfl⟩
    · rw [modify_other _ _ changed]
      exact SameTask.refl _
  have perm := delayed_perm placed.distinct member
  have delayStored : after.krnlDelayQueue.contents = (delay ++ [id]).map some := by
    rw [List.map_append, ← queues.delay]
    exact contents
  have kept : Placed after (run.erase id) (rt.erase id) (delay ++ [id]) :=
    placed.moved same frame.tasks ⟨queues.run, queues.rt, delayStored⟩ perm
      (fun slot inRun => placed.runPeriods slot (List.mem_of_mem_erase inRun))
      (fun slot inRt => placed.rtPeriods slot (List.mem_of_mem_erase inRt))
      ((List.mem_erase_of_ne (Ne.symm nonzero)).mpr placed.idle)
  refine ⟨after.pointAtCurrent, ?_, kept.pointAtCurrent, tcb, frame.current, frame.schedule,
    frame.schedBe⟩
  have known : ¬kernel.noSuchTask id := (placed.live_iff id).mpr inside
  simp only [hfDelay, if_neg later, if_neg nonzero, if_neg known, took, bind, Except.bind]
  rw [show placeTask (taken.modify id fun entry =>
    { entry with state := .delayed, delay := ticks }).krnlDelayQueue (some id) .cantPlaceDelay =
      .ok queue from placedTask]

theorem Partition.hfDelay_present (partition : Partition kernel run rt delay) {ticks : UInt32}
    (later : ticks ≠ 0) (nonzero : id ≠ 0) (member : id ∈ run ++ rt) :
    ∃ after, kernel.hfDelay id ticks = .ok (errOk, after) ∧
      Partition after (run.erase id) (rt.erase id) (delay ++ [id]) ∧
      after.krnlTcb = (kernel.modify id fun entry =>
        { entry with state := .delayed, delay := ticks }).krnlTcb ∧
      after.krnlCurrentTask = kernel.krnlCurrentTask ∧
      after.krnlSchedule = kernel.krnlSchedule ∧ after.schedBe = kernel.schedBe := by
  obtain ⟨after, delayed, kept, tcb, current, rest⟩ :=
    partition.toPlaced.hfDelay_present later nonzero member
  have whole := partition.of_placed kept nonzero
    (fun slot other => by
      rw [tcb, modify_other _ _ other]
      exact ⟨rfl, rfl, rfl⟩)
    (by rw [tcb, modify_same]; simp) current
  exact ⟨after, delayed, whole, tcb, current, rest⟩

theorem Placed.hfDelay_delayed (placed : Placed kernel run rt delay) {ticks : UInt32}
    (later : ticks ≠ 0) (member : id ∈ delay) :
    kernel.hfDelay id ticks = .error (.panic (absentPanic (kernel.krnlTcb id))) := by
  have inside : id ∈ run ++ (rt ++ delay) := List.mem_append_right _ (List.mem_append_right _ member)
  have apart := List.nodup_append.mp placed.distinct
  have nonzero : id ≠ 0 := fun zero =>
    apart.2.2 0 placed.idle id (List.mem_append_right _ member) zero.symm
  have missing := delayed_unqueued placed.distinct member
  have known : ¬kernel.noSuchTask id := (placed.live_iff id).mpr inside
  have absent := kernel.unqueue_absent placed.queued missing
  simp only [hfDelay, if_neg later, if_neg nonzero, if_neg known, absent, bind, Except.bind]

end Removing

end Kernel

end Hellfire

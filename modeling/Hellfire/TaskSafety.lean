import Mathlib.Data.List.Nodup
import Hellfire.Steps

/-!
Safety of the task management over whole runs, from the spawn of the idle task on:
the task queues partition the live tasks, `hf_kill` and `hf_delay` succeed on a task
unless it is delayed, and `hf_kill` returns to a caller that is still alive unless the
caller named itself.
-/

namespace Hellfire

open Machine

def KernelOp.sparesCaller {config : Config} : KernelOp → Kernel config → Prop
  | .kill _ id, kernel => id ≠ kernel.krnlCurrentTask
  | _, _ => True

namespace Kernel

variable {config : Config}

theorem cleared_spawn_zero (config : Config) (schedBe : BestEffort) :
    (cleared config schedBe).freeSlot = 0 := by
  obtain ⟨fuel, positive⟩ : ∃ fuel, config.maxTasks = fuel + 1 :=
    ⟨config.maxTasks - 1, by have := config.positive; omega⟩
  simp [freeSlot, positive, freeSlotFrom, cleared]

theorem boot_partition (config : Config) (schedBe : BestEffort) {idletask pstack : Nat}
    (task : idletask ≠ 0) (stack : pstack ≠ 0) :
    ∃ kernel, boot config schedBe idletask pstack = .ok (0, kernel) ∧
      Partition kernel [0] [] [] ∧ kernel.krnlCurrentTask = 0 ∧ kernel.krnlSchedule = 0 := by
  have positive := config.positive
  let call : SpawnCall := ⟨idletask, 0, 0, 0, "idle task".toUTF8.toList, 1024, pstack⟩
  let filled := (cleared config schedBe).fillEntry call 0
  obtain ⟨after, placed, frame, entries, queues⟩ :=
    filled.enqueueReady_queued 0 (⟨rfl, rfl, rfl⟩ : Queued filled [] [] []) positive positive
  have entry : filled.krnlTcb 0 = { spawnEntry call 0 ((cleared config schedBe).krnlTcb 0) with
      contextSp := (pstack + (align4 1024 - 4).toNat) % 4294967296
      contextTp := idletask } := fillEntry_same _ _ _
  have others : ∀ slot, slot ≠ 0 → filled.krnlTcb slot = (cleared config schedBe).krnlTcb slot :=
    fun slot other => fillEntry_other _ _ other
  have period : (filled.krnlTcb 0).period = 0 := by rw [entry]; rfl
  have states : ∀ slot, (filled.krnlTcb slot).state = .idle := by
    intro slot
    by_cases first : slot = 0
    · rw [first, entry]
      rfl
    · rw [others slot first]
      rfl
  have kept : Placed after [0] [] [] := {
    queued := by simpa [background, realTime, period] using queues
    distinct := by simp
    members := fun slot => by
      rw [live, entries]
      by_cases first : slot = 0
      · rw [first, entry]
        simpa [positive, spawnEntry, call] using task
      · rw [others slot first]
        simp [first, cleared]
    runPeriods := fun slot member => by
      rw [List.mem_singleton.mp member, entries, period]
    rtPeriods := by simp
    counted := by rw [frame.tasks]; rfl
    ids := fun slot _ => by
      rw [entries]
      by_cases first : slot = 0
      · left
        rw [first, entry]
        rfl
      · right
        rw [others slot first]
        exact ⟨rfl, rfl⟩
    idle := List.mem_singleton.mpr rfl }
  have whole : Partition after [0] [] [] := { kept with
    unblocked := by rw [blocked_eq_false, entries, states]; simp
    priority := by rw [entries, entry]; rfl
    remaining := by rw [entries, entry]; exact UInt8.le_refl _
    running := fun slot running => by
      rw [entries, states] at running
      cases running
    current := by rw [frame.current]; exact positive }
  refine ⟨after.pointAtCurrent, ?_, whole.pointAtCurrent, frame.current, frame.schedule⟩
  have valid : ¬((0 : UInt16) < 0 ∨ (0 : UInt16) < 0) := by decide
  simp only [boot, hfSpawn, if_neg valid, cleared_spawn_zero, if_neg (Nat.ne_of_lt positive),
    if_pos stack, bind, Except.bind]
  rw [show (fillEntry call 0 (cleared config schedBe)).enqueueReady 0 = .ok after from placed]
  rfl

theorem Booted.partition {start : Kernel config} (booted : start.Booted) :
    Partition start [0] [] [] ∧ start.krnlCurrentTask = 0 ∧ start.krnlSchedule = 0 := by
  obtain ⟨schedBe, idletask, pstack, task, stack, booted⟩ := booted
  obtain ⟨kernel, started, facts⟩ := boot_partition config schedBe task stack
  rw [started] at booted
  cases booted
  exact facts

theorem Stepped.caller_alive {kernel after : Kernel config}
    {run rt delay run' rt' delay' : List Nat} {op : KernelOp}
    (stepped : Stepped kernel run rt delay op after run' rt' delay')
    (alive : kernel.live kernel.krnlCurrentTask = true) (spared : op.sparesCaller kernel) :
    after.live after.krnlCurrentTask = true := by
  cases stepped with
  | unchanged entries current _ =>
      rw [live, entries, current]
      exact alive
  | spawned frame _ =>
      rw [frame.current, live, frame.alive _ alive]
      exact alive
  | blocked =>
      rw [(kernel.hfBlock_frame _).current, (kernel.hfBlock_frame _).live]
      exact alive
  | resumed =>
      rw [(kernel.hfResume_frame _).current, (kernel.hfResume_frame _).live]
      exact alive
  | killed _ _ others current _ =>
      rw [current, live, others _ (Ne.symm spared) alive]
      exact alive
  | @delayed id _ _ _ same others current _ =>
      rw [current]
      by_cases self : kernel.krnlCurrentTask = id
      · rw [self, live, same.ptask, ← self]
        exact alive
      · rw [live, others _ self]
        exact alive
  | yielded switched _ _ => exact (switched.live _).trans switched.alive
  | ticked _ _ switched _ => exact (switched.live _).trans switched.alive

section Runs

variable {start kernel : Kernel config}

theorem reachable_partition (booted : start.Booted)
    (reached : Reaches perform (fun op _ => op.taskGiven) start kernel) :
    ∃ run rt delay, Partition kernel run rt delay := by
  refine reached.invariant (fun state => ∃ run rt delay, Partition state run rt delay)
    ⟨_, _, _, booted.partition.1⟩ ?_
  rintro op before after ⟨run, rt, delay, partition⟩ given stepped
  obtain ⟨run', rt', delay', kept, _⟩ := partition.perform_inv given stepped
  exact ⟨run', rt', delay', kept⟩

theorem reachable_caller_alive (booted : start.Booted)
    (reached : Reaches perform (fun op state => op.taskGiven ∧ op.sparesCaller state) start kernel) :
    ∃ run rt delay, Partition kernel run rt delay ∧ kernel.live kernel.krnlCurrentTask = true := by
  refine reached.invariant (fun state => ∃ run rt delay, Partition state run rt delay ∧
    state.live state.krnlCurrentTask = true) ?_ ?_
  · obtain ⟨partition, current, _⟩ := booted.partition
    exact ⟨_, _, _, partition, current ▸ partition.live_of_mem (by simp)⟩
  · rintro op before after ⟨run, rt, delay, partition, alive⟩ ⟨given, spared⟩ stepped
    obtain ⟨run', rt', delay', kept, moved⟩ := partition.perform_inv given stepped
    exact ⟨run', rt', delay', kept, moved.caller_alive alive spared⟩

end Runs

def queueCells (kernel : Kernel config) : List (Option Nat) :=
  kernel.krnlRunQueue.contents ++ (kernel.krnlRtQueue.contents ++ kernel.krnlDelayQueue.contents)

structure TasksPartitioned (kernel : Kernel config) : Prop where
  liveOnce : ∀ slot, kernel.live slot = true → kernel.queueCells.count (some slot) = 1
  onlyLive : ∀ cell ∈ kernel.queueCells, ∃ slot, cell = some slot ∧ kernel.live slot = true
  runPeriod : ∀ slot, some slot ∈ kernel.krnlRunQueue.contents → (kernel.krnlTcb slot).period = 0
  rtPeriod : ∀ slot, some slot ∈ kernel.krnlRtQueue.contents → (kernel.krnlTcb slot).period ≠ 0
  counted : kernel.krnlTasks.toNat = (List.range config.maxTasks).countP kernel.live
  ids : ∀ slot, kernel.live slot = true → (kernel.krnlTcb slot).id = slot
  idle : kernel.live 0 = true ∧ some 0 ∈ kernel.krnlRunQueue.contents ∧ kernel.blocked 0 = false
  running : ∀ slot, (kernel.krnlTcb slot).state = .running → slot = kernel.krnlCurrentTask

theorem Partition.queueCells {kernel : Kernel config} {run rt delay : List Nat}
    (partition : Partition kernel run rt delay) :
    kernel.queueCells = (run ++ (rt ++ delay)).map some := by
  rw [Kernel.queueCells, partition.queued.run, partition.queued.rt, partition.queued.delay,
    List.map_append, List.map_append]

theorem Partition.tasksPartitioned {kernel : Kernel config} {run rt delay : List Nat}
    (partition : Partition kernel run rt delay) : kernel.TasksPartitioned where
  liveOnce slot alive := by
    rw [partition.queueCells]
    exact List.count_eq_one_of_mem (partition.distinct.map (Option.some_injective Nat))
      (List.mem_map_of_mem ((partition.members slot).mpr alive))
  onlyLive cell member := by
    rw [partition.queueCells] at member
    obtain ⟨slot, inside, rfl⟩ := List.mem_map.mp member
    exact ⟨slot, rfl, partition.live_of_mem inside⟩
  runPeriod slot member := by
    rw [partition.queued.run] at member
    exact partition.runPeriods slot (by simpa using member)
  rtPeriod slot member := by
    rw [partition.queued.rt] at member
    exact partition.rtPeriods slot (by simpa using member)
  counted := by
    rw [partition.counted, List.countP_eq_length_filter]
    apply List.Perm.length_eq
    apply (List.perm_ext_iff_of_nodup partition.distinct (List.nodup_range.filter _)).mpr
    intro slot
    rw [partition.members slot, List.mem_filter, List.mem_range]
    constructor
    · intro alive
      exact ⟨partition.bound ((partition.members slot).mpr alive), alive⟩
    · exact fun found => found.2
  ids slot alive := partition.id_eq ((partition.members slot).mpr alive)
  idle := by
    refine ⟨partition.live_of_mem (List.mem_append_left _ partition.idle), ?_, partition.unblocked⟩
    rw [partition.queued.run]
    exact List.mem_map_of_mem partition.idle
  running := partition.running

section SmallSystem

def twoTasks : Config := ⟨2, by decide, by decide⟩

def undisturbed : Surroundings := ⟨true, 0⟩

def smallBoot : Kernel twoTasks :=
  match boot twoTasks .rr 1 1 with
  | .ok (_, kernel) => kernel
  | .error _ => cleared twoTasks .rr

def smallRun (steps : List KernelOp) : Kernel twoTasks :=
  match execute perform steps smallBoot with
  | .ok kernel => kernel
  | .error _ => smallBoot

def worker : SpawnCall := ⟨2, 0, 0, 0, [119], 256, 64⟩

theorem smallBoot_booted : smallBoot.Booted :=
  ⟨.rr, 1, 1, by decide, by decide, rfl⟩

def threeTasks : Config := ⟨3, by decide, by decide⟩

def threeBoot : Kernel threeTasks :=
  match boot threeTasks .rr 1 1 with
  | .ok (_, kernel) => kernel
  | .error _ => cleared threeTasks .rr

theorem threeBoot_booted : threeBoot.Booted :=
  ⟨.rr, 1, 1, by decide, by decide, rfl⟩

theorem smallRun_reaches (steps : List KernelOp) (given : ∀ op ∈ steps, op.taskGiven)
    (succeeds : execute perform steps smallBoot = .ok (smallRun steps)) :
    Reaches perform (fun op _ => op.taskGiven) smallBoot (smallRun steps) :=
  execute_reaches steps smallBoot _ .start (fun op member _ => given op member) succeeds

end SmallSystem

theorem tasks_partitioned {start kernel : Kernel config} (booted : start.Booted)
    (reached : Reaches perform (fun op _ => op.taskGiven) start kernel) :
    kernel.TasksPartitioned ∧ ∀ op : KernelOp, op.taskGiven →
      ∀ cause ∈ [Panic.cantPlaceRun, .cantPlaceRt, .cantPlaceDelay, .cantSwap],
        kernel.perform op ≠ .error (.panic cause) := by
  obtain ⟨run, rt, delay, partition⟩ := reachable_partition booted reached
  refine ⟨partition.tasksPartitioned, ?_⟩
  intro op given cause listed failed
  have reason := partition.perform_stops given failed
  simp only [List.mem_cons, List.not_mem_nil, or_false] at listed
  rcases reason with same | same | same <;> rcases listed with rfl | rfl | rfl | rfl <;> cases same

theorem tasks_partitioned_delayed :
    (smallRun [.spawn worker, .delay 1 3, .yield undisturbed]).TasksPartitioned :=
  (tasks_partitioned smallBoot_booted (smallRun_reaches _ (by decide) rfl)).1

/-- A NULL task function makes the slot dead while it stands in the run queue. -/
theorem null_task_breaks_partition :
    ∃ start kernel : Kernel twoTasks, start.Booted ∧
      Reaches perform (fun _ _ => True) start kernel ∧ ¬kernel.TasksPartitioned := by
  refine ⟨smallBoot, smallRun [.spawn { worker with task := 0 }], smallBoot_booted,
    execute_reaches [.spawn { worker with task := 0 }] _ _ .start (fun _ _ _ => trivial) rfl, ?_⟩
  intro partitioned
  obtain ⟨slot, same, alive⟩ := partitioned.onlyLive (some 1) (by decide)
  cases same
  exact absurd alive (by decide)

theorem hfKill_hfDelay_succeed {start kernel : Kernel config} (booted : start.Booted)
    (reached : Reaches perform (fun op _ => op.taskGiven) start kernel) (id : Nat) (ticks : UInt32)
    (alive : kernel.live id = true) (nonzero : id ≠ 0) (later : ticks ≠ 0) (around : Surroundings) :
    ((∃ after, kernel.hfKill around id = .ok (some errOk, after)) ↔
        some id ∉ kernel.krnlDelayQueue.contents) ∧
      ((∃ after, kernel.hfDelay id ticks = .ok (errOk, after)) ↔
        some id ∉ kernel.krnlDelayQueue.contents) := by
  obtain ⟨run, rt, delay, partition⟩ := reachable_partition booted reached
  have stored : some id ∈ kernel.krnlDelayQueue.contents ↔ id ∈ delay := by
    simp [partition.queued.delay]
  have member := (partition.members id).mpr alive
  rw [← List.append_assoc] at member
  rw [stored]
  by_cases delayed : id ∈ delay
  · constructor
    · constructor
      · rintro ⟨after, killed⟩
        rw [partition.hfKill_delayed around delayed] at killed
        cases killed
      · exact fun absent => absurd delayed absent
    · constructor
      · rintro ⟨after, moved⟩
        rw [partition.hfDelay_delayed later delayed] at moved
        cases moved
      · exact fun absent => absurd delayed absent
  · have queued : id ∈ run ++ rt := (List.mem_append.mp member).resolve_right delayed
    obtain ⟨killed, kill, _⟩ := partition.hfKill_present around nonzero queued
    obtain ⟨moved, move, _⟩ := partition.hfDelay_present later nonzero queued
    exact ⟨⟨fun _ => delayed, fun _ => ⟨killed, kill⟩⟩, ⟨fun _ => delayed, fun _ => ⟨moved, move⟩⟩⟩

theorem hfKill_hfDelay_succeed_worker :
    (∃ after, (smallRun [.spawn worker]).hfKill undisturbed 1 = .ok (some errOk, after)) ∧
      ∃ after, (smallRun [.spawn worker]).hfDelay 1 5 = .ok (errOk, after) := by
  have calls := hfKill_hfDelay_succeed smallBoot_booted
    (smallRun_reaches [.spawn worker] (by decide) rfl) 1 5 (by decide) (by decide) (by decide)
    undisturbed
  exact ⟨calls.1.mpr (by decide), calls.2.mpr (by decide)⟩

/-- A delayed task can neither be killed nor delayed again. -/
theorem delayed_task_panics :
    ∃ start kernel : Kernel twoTasks, start.Booted ∧
      Reaches perform (fun op _ => op.taskGiven) start kernel ∧ kernel.live 1 = true ∧
      kernel.hfKill undisturbed 1 = .error (.panic .noTasksRun) ∧
      kernel.hfDelay 1 5 = .error (.panic .noTasksRun) := by
  exact ⟨smallBoot, smallRun [.spawn worker, .delay 1 3], smallBoot_booted,
    smallRun_reaches _ (by decide) rfl, by decide, rfl, rfl⟩

theorem hfKill_returns_alive {start kernel : Kernel config} (booted : start.Booted)
    (reached : Reaches perform (fun op state => op.taskGiven ∧ op.sparesCaller state) start kernel)
    (around : Surroundings) (id : Nat) :
    (∀ after, kernel.hfKill around id = .ok (some errOk, after) →
        after.live after.krnlCurrentTask = true) ↔
      (id = kernel.krnlCurrentTask → id = 0 ∨ some id ∈ kernel.krnlDelayQueue.contents) := by
  obtain ⟨run, rt, delay, partition, alive⟩ := reachable_caller_alive booted reached
  have stored : some id ∈ kernel.krnlDelayQueue.contents ↔ id ∈ delay := by
    simp [partition.queued.delay]
  rw [stored]
  rcases partition.hfKill_cases around id with
    ⟨after, refused, unknown, _⟩ | ⟨nonzero, queued⟩ | delayed
  · constructor
    · rintro _ rfl
      rcases unknown with zero | missing
      · exact Or.inl zero
      · exact absurd missing ((partition.live_iff _).mpr ((partition.members _).mpr alive))
    · intro _ returned killed
      rw [refused] at killed
      cases killed
  · obtain ⟨killed, kill, _, tcb, current, _⟩ := partition.hfKill_present around nonzero queued
    have bound := partition.bound (mem_queues delay queued)
    constructor
    · intro returns self
      have stays := returns killed kill
      rw [current, ← self, live, tcb, kernel.clearEntry_same bound] at stays
      simp at stays
    · intro spared after returned
      rw [kill] at returned
      cases returned
      have other : kernel.krnlCurrentTask ≠ id := by
        intro self
        rcases spared self.symm with zero | delayed
        · exact nonzero zero
        · have apart := partition.distinct
          rw [← List.append_assoc] at apart
          exact (List.nodup_append.mp apart).2.2 id queued id delayed rfl
      rw [current, live, tcb, kernel.clearEntry_other bound other]
      exact alive
  · constructor
    · exact fun _ _ => Or.inr delayed
    · intro _ after returned
      rw [partition.hfKill_delayed around delayed] at returned
      cases returned

theorem hfKill_returns_alive_worker :
    (smallRun [.spawn worker]).hfKill undisturbed 1 =
        .ok (some errOk, smallRun [.spawn worker, .kill undisturbed 1]) ∧
      (smallRun [.spawn worker, .kill undisturbed 1]).live
        (smallRun [.spawn worker, .kill undisturbed 1]).krnlCurrentTask = true := by
  have reached : Reaches perform (fun op state => op.taskGiven ∧ op.sparesCaller state) smallBoot
      (smallRun [.spawn worker]) := by
    have given : (KernelOp.spawn worker).taskGiven := by decide
    have spawned : smallBoot.perform (.spawn worker) = .ok (smallRun [.spawn worker]) := rfl
    exact .next .start ⟨given, trivial⟩ spawned
  exact ⟨rfl, (hfKill_returns_alive smallBoot_booted reached undisturbed 1).mpr (by decide) _ rfl⟩

/-- A task that kills itself goes on running without a slot of its own. -/
theorem self_kill_returns :
    ∃ start kernel after : Kernel twoTasks, start.Booted ∧
      Reaches perform (fun op state => op.taskGiven ∧ op.sparesCaller state) start kernel ∧
      kernel.krnlCurrentTask = 1 ∧ kernel.hfKill undisturbed 1 = .ok (some errOk, after) ∧
      after.krnlCurrentTask = 1 ∧ after.live 1 = false := by
  refine ⟨smallBoot, smallRun [.spawn worker, .yield undisturbed, .yield undisturbed],
    smallRun [.spawn worker, .yield undisturbed, .yield undisturbed, .kill undisturbed 1],
    smallBoot_booted, ?_, by decide, rfl, by decide, by decide⟩
  refine execute_reaches [.spawn worker, .yield undisturbed, .yield undisturbed] _ _ .start ?_ rfl
  intro op member state
  simp only [List.mem_cons, List.not_mem_nil, or_false] at member
  rcases member with rfl | rfl | rfl
  · exact ⟨(by decide : worker.task ≠ 0), trivial⟩
  · exact ⟨trivial, trivial⟩
  · exact ⟨trivial, trivial⟩

end Kernel

end Hellfire

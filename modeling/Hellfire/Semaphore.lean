import Hellfire.SemaphoreCore

/-!
Semaphores over whole runs. The count and the queue stay in step with the calls made so
far as long as no call of the kernel names a queued task, and neither branch of
`semaphore.c` that panics is taken.
-/

namespace Hellfire

namespace SemWorld

open Machine Kernel

variable {config : Config} {world after : SemWorld config} {tasks : List Nat}

section Steps

theorem wait_cases (sane : world.system.Sane tasks) (ready : possible .wait world) :
    (0 ≤ int32 (world.count - 1) ∧ perform .wait world = .ok { world with
        count := int32 (world.count - 1)
        waits := world.waits + 1
        passed := world.passed + 1 }) ∨
      (int32 (world.count - 1) < 0 ∧ ∃ kernel queue, perform .wait world = .ok { world with
          system := world.system.slept kernel queue
          count := int32 (world.count - 1)
          waits := world.waits + 1 } ∧
        (world.system.slept kernel queue).Sane (tasks ++ [world.system.current])) := by
  obtain ⟨outside, alive, nonzero⟩ := ready
  by_cases negative : int32 (world.count - 1) < 0
  · obtain ⟨next, added, kept⟩ := sane.slept outside alive nonzero
    refine Or.inr ⟨negative, _, next, ?_, kept⟩
    simp only [WaitSystem.current] at added
    simp [perform, Semaphore.hfSemwait, sem, negative, added, bind, Except.bind,
      WaitSystem.current]
  · refine Or.inl ⟨by omega, ?_⟩
    simp [perform, Semaphore.hfSemwait, sem, negative, bind, Except.bind]

theorem post_cases (sane : world.system.Sane tasks) :
    (0 < int32 (world.count + 1) ∧ perform .post world = .ok { world with
        count := int32 (world.count + 1)
        posts := world.posts + 1 }) ∨
      (int32 (world.count + 1) ≤ 0 ∧ tasks = [] ∧
        perform .post world = .error (.panic .nutsSem)) ∨
      (int32 (world.count + 1) ≤ 0 ∧ ∃ task rest queue, tasks = task :: rest ∧
        perform .post world = .ok { world with
          system := world.system.woken [task] (world.system.kernel.modify task fun entry =>
            { entry with state := .ready }) queue
          count := int32 (world.count + 1)
          posts := world.posts + 1 } ∧
        (world.system.woken [task] (world.system.kernel.modify task fun entry =>
          { entry with state := .ready }) queue).Sane rest) := by
  by_cases waited : int32 (world.count + 1) ≤ 0
  · cases tasks with
    | nil =>
        refine Or.inr (Or.inl ⟨waited, rfl, ?_⟩)
        simp [perform, Semaphore.hfSempost, sem, waited, sane.waiting.dequeue_nil, bind, Except.bind]
    | cons task rest =>
        obtain ⟨next, removed, kept⟩ := sane.woken
        refine Or.inr (Or.inr ⟨waited, task, rest, next, rfl, ?_, kept⟩)
        simp [perform, Semaphore.hfSempost, sem, waited, removed, bind, Except.bind]
  · refine Or.inl ⟨by omega, ?_⟩
    simp [perform, Semaphore.hfSempost, sem, waited, bind, Except.bind]

theorem yield_cases (sane : world.system.Sane tasks) {around : Surroundings}
    (ready : possible (.yield around) world) (stepped : perform (.yield around) world = .ok after) :
    ∃ kernel, after = { world with system := world.system.rested kernel } ∧
      (world.system.rested kernel).Sane tasks := by
  obtain ⟨kernel, yielded, same⟩ := ok_of_bind stepped
  exact ⟨kernel, (Except.ok.inj same).symm, sane.rested ready yielded⟩

theorem call_cases (sane : world.system.Sane tasks) {op : KernelOp}
    (given : possible (.call op) world) (spared : spares (.call op) world)
    (stepped : perform (.call op) world = .ok after) :
    ∃ kernel, after = { world with system := world.system.called op kernel } ∧
      (world.system.called op kernel).Sane tasks := by
  obtain ⟨kernel, called, same⟩ := ok_of_bind stepped
  exact ⟨kernel, (Except.ok.inj same).symm, sane.called given spared called⟩

theorem perform_sane (sane : world.system.Sane tasks) {op : SemOp} (ready : possible op world)
    (spared : spares op world) (stepped : perform op world = .ok after) :
    ∃ tasks', after.system.Sane tasks' := by
  cases op with
  | wait =>
      rcases wait_cases sane ready with ⟨_, done⟩ | ⟨_, kernel, queue, done, kept⟩
      · rw [done, Except.ok.injEq] at stepped
        subst stepped
        exact ⟨tasks, sane⟩
      · rw [done, Except.ok.injEq] at stepped
        subst stepped
        exact ⟨_, kept⟩
  | post =>
      rcases post_cases sane with
        ⟨_, done⟩ | ⟨_, _, failed⟩ | ⟨_, task, rest, queue, _, done, kept⟩
      · rw [done, Except.ok.injEq] at stepped
        subst stepped
        exact ⟨tasks, sane⟩
      · rw [failed] at stepped
        cases stepped
      · rw [done, Except.ok.injEq] at stepped
        subst stepped
        exact ⟨rest, kept⟩
  | yield around =>
      obtain ⟨kernel, rfl, kept⟩ := yield_cases sane ready stepped
      exact ⟨tasks, kept⟩
  | leave =>
      simp only [perform, Except.ok.injEq] at stepped
      subst stepped
      exact ⟨tasks, (sane.left ready).2⟩
  | call op =>
      obtain ⟨kernel, rfl, kept⟩ := call_cases sane ready spared stepped
      exact ⟨tasks, kept⟩

structure Counted (value : Int) (world : SemWorld config) (tasks : List Nat) : Prop where
  sane : world.system.Sane tasks
  count : world.count = value + world.posts - world.waits
  range : world.count < 2147483648
  asleep : (tasks.length : Int) = max 0 (-world.count)
  passed : world.passed + world.system.pending.length + tasks.length ≤ world.waits

theorem Counted.lower {value : Int} (counted : Counted value world tasks) :
    -65535 ≤ world.count := by
  have room := counted.sane.waiting.room
  rw [counted.sane.waiting.stored, List.length_map] at room
  have tasksBound := config.representable
  have asleep := counted.asleep
  omega

theorem Counted.down {value : Int} (counted : Counted value world tasks) :
    int32 (world.count - 1) = world.count - 1 := by
  have lower := counted.lower
  have range := counted.range
  exact int32_of_range (by omega) (by omega)

theorem Counted.up {value : Int} (counted : Counted value world tasks)
    (fits : inRange value .post world) : int32 (world.count + 1) = world.count + 1 := by
  have lower := counted.lower
  have exact_ := counted.count
  simp only [inRange] at fits
  exact int32_of_range (by omega) (by omega)

theorem Counted.perform {value : Int} (counted : Counted value world tasks) {op : SemOp}
    (ready : possible op world) (spared : spares op world) (fits : inRange value op world)
    (stepped : perform op world = .ok after) : ∃ tasks', Counted value after tasks' := by
  obtain ⟨sane, count, range, asleep, passed⟩ := counted
  have counted : Counted value world tasks := ⟨sane, count, range, asleep, passed⟩
  cases op with
  | wait =>
      rcases wait_cases sane ready with ⟨through, done⟩ | ⟨negative, kernel, queue, done, kept⟩
      · rw [counted.down] at through done
        rw [done, Except.ok.injEq] at stepped
        subst stepped
        refine ⟨tasks, sane, ?_, ?_, ?_, ?_⟩
        all_goals simp only
        all_goals omega
      · rw [counted.down] at negative done
        rw [done, Except.ok.injEq] at stepped
        subst stepped
        refine ⟨_, kept, ?_, ?_, ?_, ?_⟩
        all_goals simp only [WaitSystem.slept, List.length_append, List.length_singleton]
        all_goals omega
  | post =>
      have up := counted.up fits
      rcases post_cases sane with
        ⟨positive, done⟩ | ⟨waited, empty, failed⟩ | ⟨waited, task, rest, queue, full, done, kept⟩
      · rw [up] at positive done
        rw [done, Except.ok.injEq] at stepped
        subst stepped
        simp only [inRange] at fits
        refine ⟨tasks, sane, ?_, ?_, ?_, ?_⟩
        all_goals simp only
        all_goals omega
      · rw [failed] at stepped
        cases stepped
      · rw [up] at waited done
        rw [done, Except.ok.injEq] at stepped
        subst stepped
        rw [full, List.length_cons] at asleep passed
        refine ⟨rest, kept, ?_, ?_, ?_, ?_⟩
        all_goals simp only [WaitSystem.woken, List.reverse_singleton, List.singleton_append, List.length_cons]
        all_goals omega
  | yield around =>
      obtain ⟨kernel, rfl, kept⟩ := yield_cases sane ready stepped
      exact ⟨tasks, kept, count, range, asleep, passed⟩
  | leave =>
      simp only [SemWorld.perform, Except.ok.injEq] at stepped
      subst stepped
      obtain ⟨owed, kept⟩ := sane.left ready
      have shorter := List.length_erase_add_one owed
      refine ⟨tasks, kept, count, range, asleep, ?_⟩
      simp only [WaitSystem.left]
      omega
  | call op =>
      obtain ⟨kernel, rfl, kept⟩ := call_cases sane ready spared stepped
      have fewer := world.system.pending.length_filter_le kernel.live
      refine ⟨tasks, kept, count, range, asleep, ?_⟩
      simp only [WaitSystem.called]
      omega

theorem Counted.no_nuts {value : Int} (counted : Counted value world tasks) {op : SemOp}
    (ready : possible op world) (fits : inRange value op world) :
    SemWorld.perform op world ≠ .error (.panic .nutsSem) := by
  have sane := counted.sane
  obtain ⟨run, rt, delay, partition⟩ := sane.partition
  have other : ∀ {op : KernelOp}, op.taskGiven →
      world.system.kernel.perform op ≠ .error (.panic .nutsSem) := by
    intro op given failed
    rcases partition.perform_stops given failed with same | same | same <;> cases same
  intro failed
  cases op with
  | wait =>
      rcases wait_cases sane ready with ⟨_, done⟩ | ⟨_, kernel, queue, done, _⟩ <;>
        (rw [done] at failed; cases failed)
  | post =>
      rcases post_cases sane with ⟨_, done⟩ | ⟨waited, empty, _⟩ | ⟨_, _, _, _, _, done, _⟩
      · rw [done] at failed
        cases failed
      · rw [counted.up fits] at waited
        have asleep := counted.asleep
        rw [empty, List.length_nil] at asleep
        omega
      · rw [done] at failed
        cases failed
  | yield around =>
      cases yielded : world.system.kernel.hfYield around with
      | ok kernel => simp [SemWorld.perform, yielded, bind, Except.bind] at failed
      | error halt =>
          simp only [SemWorld.perform, yielded, bind, Except.bind, Except.error.injEq] at failed
          exact @other (.yield around) trivial (failed ▸ yielded)
  | leave => simp [SemWorld.perform] at failed
  | call op =>
      cases called : world.system.kernel.perform op with
      | ok kernel => simp [SemWorld.perform, called, bind, Except.bind] at failed
      | error halt =>
          simp only [SemWorld.perform, called, bind, Except.bind, Except.error.injEq] at failed
          exact other ready (failed ▸ called)

end Steps

section Runs

variable {boot kernel : Kernel config} {semaphore : Semaphore config} {value : Int}

theorem opened_sane (booted : boot.Booted)
    (ran : Reaches Kernel.perform (fun op _ => op.taskGiven) boot kernel)
    (initialised : Semaphore.hfSeminit (some (.create config.maxTasks config.addressable)) value =
      (errOk, some semaphore)) :
    (opened kernel semaphore).system.Sane [] ∧ semaphore.count = value ∧ 0 ≤ value := by
  simp only [Semaphore.hfSeminit] at initialised
  split at initialised
  · cases initialised
  · rename_i nonnegative
    cases initialised
    exact ⟨.opened (reachable_partition booted ran) rfl, rfl, by omega⟩

structure Sound (value : Int) (world : SemWorld config) : Prop where
  counted : world.count = value + world.posts - world.waits
  queued : ∃ tasks : List Nat, world.system.queue.contents = tasks.map some ∧
    (tasks.length : Int) = max 0 (-world.count) ∧ tasks.Nodup ∧
    world.system.entered = world.system.released ++ tasks
  blocked : ∀ task, some task ∈ world.system.queue.contents ↔
    world.system.phase task ≠ .outside ∧ world.system.kernel.blocked task = true ∧
      world.system.paused task = false
  passed : world.passed + world.system.pending.length ≤ value + world.posts

theorem Counted.sound (counted : Counted value world tasks) : Sound value world where
  counted := counted.count
  queued := ⟨tasks, counted.sane.waiting.stored, counted.asleep, counted.sane.waiting.distinct,
    counted.sane.order⟩
  blocked := counted.sane.blocked_iff
  passed := by
    have count := counted.count
    have asleep := counted.asleep
    have passed := counted.passed
    omega

theorem semaphore_sound (booted : boot.Booted)
    (ran : Reaches Kernel.perform (fun op _ => op.taskGiven) boot kernel)
    (small : value < 2147483648)
    (initialised : Semaphore.hfSeminit (some (.create config.maxTasks config.addressable)) value =
      (errOk, some semaphore))
    (reached : Reaches perform
      (fun op state => possible op state ∧ spares op state ∧ inRange value op state)
      (opened kernel semaphore) world) :
    Sound value world ∧ ∀ op, possible op world → inRange value op world →
      perform op world ≠ .error (.panic .nutsSem) := by
  have invariant : ∃ tasks, Counted value world tasks := by
    refine reached.invariant (fun state => ∃ tasks, Counted value state tasks) ?_ ?_
    · obtain ⟨sane, count, nonnegative⟩ := opened_sane booted ran initialised
      have same : (opened kernel semaphore).count = value := count
      refine ⟨[], sane, ?_, ?_, ?_, ?_⟩
      · simp [opened, count]
      · omega
      · simp only [same, List.length_nil]
        omega
      · simp [opened, WaitSystem.opened]
    · rintro op before after ⟨tasks, counted⟩ ⟨ready, spared, fits⟩ stepped
      exact counted.perform ready spared fits stepped
  obtain ⟨tasks, counted⟩ := invariant
  exact ⟨counted.sound, fun op ready fits => counted.no_nuts ready fits⟩

end Runs

section TwoWorkers

def semOf (value : Int) : Semaphore threeTasks :=
  ⟨value, .create threeTasks.maxTasks threeTasks.addressable⟩

theorem semOf_initialised {value : Int} (nonnegative : 0 ≤ value) :
    Semaphore.hfSeminit (some (.create threeTasks.maxTasks threeTasks.addressable)) value =
      (errOk, some (semOf value)) := by
  simp only [Semaphore.hfSeminit, semOf, if_neg (Int.not_lt.mpr nonnegative)]

def semRun (value : Int) (steps : List SemOp) : SemWorld threeTasks :=
  outcome perform steps (opened threeBoot (semOf value))

def twoWorkers : List SemOp :=
  [.call (.spawn worker), .call (.spawn worker), .call (.yield undisturbed),
    .call (.yield undisturbed)]

def handover : List SemOp :=
  twoWorkers ++ [.wait, .yield undisturbed, .post, .call (.yield undisturbed),
    .call (.yield undisturbed), .leave]

def asleep : List SemOp := twoWorkers ++ [.wait, .yield undisturbed]

end TwoWorkers

theorem semaphore_sound_handover : Sound 0 (semRun 0 handover) := by
  have reached : Reaches perform
      (fun op state => possible op state ∧ spares op state ∧ inRange 0 op state)
      (opened threeBoot (semOf 0)) (semRun 0 handover) :=
    outcome_reaches handover _ (by decide +kernel) (by decide +kernel)
  exact (semaphore_sound threeBoot_booted .start (by decide) (semOf_initialised (by decide))
    reached).1

/-- With the largest initial value a first post overflows the count. -/
theorem first_post_panics :
    ∃ (boot : Kernel threeTasks) (value : Int) (semaphore : Semaphore threeTasks),
      boot.Booted ∧ 0 ≤ value ∧ value < 2147483648 ∧
      Semaphore.hfSeminit (some (.create threeTasks.maxTasks threeTasks.addressable)) value =
        (errOk, some semaphore) ∧
      perform .post (opened boot semaphore) = .error (.panic .nutsSem) :=
  ⟨threeBoot, 2147483647, semOf 2147483647, threeBoot_booted, by decide, by decide,
    semOf_initialised (by decide), rfl⟩

section Sleepers

variable {boot kernel : Kernel config} {semaphore : Semaphore config} {value : Int}

structure QueueSound (world : SemWorld config) : Prop where
  entries : ∀ cell ∈ world.system.queue.contents, ∃ task, cell = some task ∧
    world.system.kernel.live task = true ∧ world.system.kernel.blocked task = true ∧
      world.system.phase task ≠ .outside
  posts : ∀ after, perform .post world = .ok after → ∀ slot,
    after.system.kernel.krnlTcb slot ≠ world.system.kernel.krnlTcb slot →
      world.system.queue.contents.head? = some (some slot)
  leaves : possible .leave world → world.system.current ∈ world.system.pending

theorem queueSound_of_sane (sane : world.system.Sane tasks) : QueueSound world where
  entries cell member := by
    rw [sane.waiting.stored] at member
    obtain ⟨task, queued, rfl⟩ := List.mem_map.mp member
    exact ⟨task, rfl, sane.waiting.alive task queued, sane.waiting.blocked task queued,
      sane.inside task queued⟩
  posts after stepped slot changed := by
    rcases post_cases sane with ⟨_, done⟩ | ⟨_, _, failed⟩ | ⟨_, task, rest, queue, full, done, _⟩
    · rw [done, Except.ok.injEq] at stepped
      subst stepped
      exact absurd rfl changed
    · rw [failed] at stepped
      cases stepped
    · rw [done, Except.ok.injEq] at stepped
      subst stepped
      by_cases same : slot = task
      · rw [sane.waiting.stored, full, same]
        rfl
      · have kept := (world.system.kernel.setState_frame task .ready).others slot same
        exact absurd kept changed
  leaves ready := (sane.left ready).1

theorem semaphore_queue_sound (booted : boot.Booted)
    (ran : Reaches Kernel.perform (fun op _ => op.taskGiven) boot kernel)
    (initialised : Semaphore.hfSeminit (some (.create config.maxTasks config.addressable)) value =
      (errOk, some semaphore))
    (reached : Reaches perform (fun op state => possible op state ∧ spares op state)
      (opened kernel semaphore) world) : QueueSound world := by
  have invariant : ∃ tasks, world.system.Sane tasks := by
    refine reached.invariant (fun state => ∃ tasks, state.system.Sane tasks) ?_ ?_
    · exact ⟨[], (opened_sane booted ran initialised).1⟩
    · rintro op before after ⟨tasks, sane⟩ ⟨ready, spared⟩ stepped
      exact perform_sane sane ready spared stepped
  obtain ⟨tasks, sane⟩ := invariant
  exact queueSound_of_sane sane

end Sleepers

theorem semaphore_queue_sound_sleeper : QueueSound (semRun 0 asleep) := by
  have reached : Reaches perform (fun op state => possible op state ∧ spares op state)
      (opened threeBoot (semOf 0)) (semRun 0 asleep) :=
    outcome_reaches asleep _ (by decide +kernel) (by decide +kernel)
  exact semaphore_queue_sound threeBoot_booted .start (semOf_initialised (by decide)) reached

/-- The second worker kills or resumes the first one, which sleeps in `hf_semwait`. -/
theorem sleeper_disturbed :
    ∃ (boot : Kernel threeTasks) (semaphore : Semaphore threeTasks)
      (killed resumed : SemWorld threeTasks), boot.Booted ∧
      Semaphore.hfSeminit (some (.create threeTasks.maxTasks threeTasks.addressable)) 0 =
        (errOk, some semaphore) ∧
      Reaches perform possible (opened boot semaphore) killed ∧ ¬QueueSound killed ∧
      Reaches perform possible (opened boot semaphore) resumed ∧ ¬QueueSound resumed := by
  refine ⟨threeBoot, semOf 0,
    semRun 0 (asleep ++ [.call (.kill undisturbed 1)]), semRun 0 (asleep ++ [.call (.resume 1)]),
    threeBoot_booted, semOf_initialised (by decide),
    outcome_reaches _ _ (by decide +kernel) (by decide +kernel), ?_,
    outcome_reaches _ _ (by decide +kernel) (by decide +kernel), ?_⟩
  · intro sound
    obtain ⟨task, same, alive, _⟩ := sound.entries (some 1) (by decide)
    cases same
    exact absurd alive (by decide)
  · intro sound
    obtain ⟨task, same, _, blocked, _⟩ := sound.entries (some 1) (by decide)
    cases same
    exact absurd blocked (by decide)

end SemWorld

end Hellfire

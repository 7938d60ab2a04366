import Hellfire.CondvarCore

/-!
Condition variables over whole runs. From the moment a task releases the mutex in
`hf_condwait` it is in the queue, so no later signal can miss it, and a call returns only
by taking the mutex from nobody.
-/

namespace Hellfire

open Kernel

section Wakeups

variable {config : Config}

theorem WaitSystem.woken_nil (system : WaitSystem config) :
    system.woken [] system.kernel system.queue = system := by
  simp [WaitSystem.woken]

theorem WaitSystem.woken_woken (system : WaitSystem config) (first second : List Nat)
    (kernel kernel' : Kernel config) (queue queue' : RingQueue Nat config.maxTasks) :
    (system.woken first kernel queue).woken second kernel' queue' =
      system.woken (first ++ second) kernel' queue' := by
  simp [WaitSystem.woken]

def Readied (before after : Kernel config) (tasks : List Nat) : Prop :=
  ∀ slot, after.krnlTcb slot =
    if slot ∈ tasks then { before.krnlTcb slot with state := .ready } else before.krnlTcb slot

theorem readied_modify (kernel : Kernel config) (task : Nat) :
    Readied kernel (kernel.modify task fun entry => { entry with state := .ready }) [task] := by
  intro slot
  by_cases same : slot = task
  · subst same
    rw [modify_same, if_pos (List.mem_singleton.mpr rfl)]
  · rw [modify_other _ _ same, if_neg (by simpa using same)]

theorem Readied.trans {before middle after : Kernel config} {first second : List Nat}
    (early : Readied before middle first) (late : Readied middle after second) :
    Readied before after (first ++ second) := by
  intro slot
  rw [late slot, early slot]
  by_cases inFirst : slot ∈ first <;> by_cases inSecond : slot ∈ second <;> simp [inFirst, inSecond]

theorem hfCondsignal_wakes {system : WaitSystem config} {tasks : List Nat}
    (sane : system.Sane tasks) :
    ∃ kernel queue, Condvar.hfCondsignal system.kernel system.queue = (tasks.head?, kernel, queue) ∧
      (system.woken tasks.head?.toList kernel queue).Sane tasks.tail ∧
      Readied system.kernel kernel tasks.head?.toList := by
  cases tasks with
  | nil =>
      refine ⟨system.kernel, system.queue, ?_, ?_, ?_⟩
      · simp [Condvar.hfCondsignal, sane.waiting.dequeue_nil]
      · rw [List.head?_nil, Option.toList_none, system.woken_nil]
        exact sane
      · intro slot
        simp
  | cons task rest =>
      obtain ⟨next, removed, kept⟩ := sane.woken
      refine ⟨_, next, ?_, kept, readied_modify system.kernel task⟩
      simp [Condvar.hfCondsignal, removed]

theorem broadcastLoop_wakes (tasks : List Nat) : ∀ system : WaitSystem config, system.Sane tasks →
    ∃ kernel queue,
      Condvar.broadcastLoop tasks.length system.kernel system.queue = .ok (tasks, kernel, queue) ∧
      (system.woken tasks kernel queue).Sane [] ∧ Readied system.kernel kernel tasks := by
  induction tasks with
  | nil =>
      intro system sane
      refine ⟨system.kernel, system.queue, ?_, ?_, ?_⟩
      · simp [Condvar.broadcastLoop, sane.waiting.stored]
      · rw [system.woken_nil]
        exact sane
      · intro slot
        simp
  | cons task rest ih =>
      intro system sane
      obtain ⟨kernel, queue, signalled, kept, readied⟩ := hfCondsignal_wakes sane
      obtain ⟨kernel', queue', looped, woken, later⟩ := ih _ kept
      refine ⟨kernel', queue', ?_, ?_, readied.trans later⟩
      · have full : system.queue.contents ≠ [] := by simp [sane.waiting.stored]
        rw [List.length_cons, Condvar.broadcastLoop, if_neg (by simpa using full)]
        simp only [signalled, WaitSystem.woken] at looped ⊢
        simp [looped, bind, Except.bind]
      · rw [system.woken_woken] at woken
        exact woken

theorem hfCondbroadcast_wakes {system : WaitSystem config} {tasks : List Nat}
    (sane : system.Sane tasks) :
    ∃ kernel queue, Condvar.hfCondbroadcast system.kernel system.queue = .ok (tasks, kernel, queue) ∧
      (system.woken tasks kernel queue).Sane [] ∧ Readied system.kernel kernel tasks := by
  have count : system.queue.hfQueueCount = tasks.length := by simp [sane.waiting.stored]
  rw [Condvar.hfCondbroadcast, count]
  exact broadcastLoop_wakes tasks system sane

end Wakeups

namespace CondWorld

open Machine

variable {config : Config} {world after : CondWorld config} {tasks : List Nat}

structure Guarded (world : CondWorld config) (tasks : List Nat) : Prop where
  sane : world.system.Sane tasks
  unlocked : world.mutex.lock ≠ 1 → ∀ task, world.holding task = false
  single : ∀ first second, world.holding first = true → world.holding second = true →
    first = second

section Steps

theorem wait_sleeps (sane : world.system.Sane tasks) (ready : possible .wait world) :
    ∃ kernel queue, perform .wait world = .ok { world with
        system := world.system.slept kernel queue
        mutex := world.mutex.hfMtxunlock
        holding := fun _ => false } ∧
      (world.system.slept kernel queue).Sane (tasks ++ [world.system.current]) := by
  obtain ⟨outside, _, alive, nonzero⟩ := ready
  obtain ⟨next, added, kept⟩ := sane.slept outside alive nonzero
  refine ⟨_, next, ?_, kept⟩
  simp only [WaitSystem.current] at added
  simp [perform, Condvar.hfCondwait, added, bind, Except.bind, WaitSystem.current]

theorem signal_wakes (sane : world.system.Sane tasks) :
    ∃ kernel queue, perform .signal world = .ok { world with
        system := world.system.woken tasks.head?.toList kernel queue } ∧
      (world.system.woken tasks.head?.toList kernel queue).Sane tasks.tail ∧
      Readied world.system.kernel kernel tasks.head?.toList := by
  obtain ⟨kernel, queue, signalled, kept, readied⟩ := hfCondsignal_wakes sane
  exact ⟨kernel, queue, by simp [perform, signalled], kept, readied⟩

theorem broadcast_wakes (sane : world.system.Sane tasks) :
    ∃ kernel queue, perform .broadcast world = .ok { world with
        system := world.system.woken tasks kernel queue } ∧
      (world.system.woken tasks kernel queue).Sane [] ∧
      Readied world.system.kernel kernel tasks := by
  obtain ⟨kernel, queue, broadcast, kept, readied⟩ := hfCondbroadcast_wakes sane
  exact ⟨kernel, queue, by simp [perform, broadcast, bind, Except.bind], kept, readied⟩

theorem lock_cases (world : CondWorld config) :
    (world.mutex.lock = 1 ∧ perform .lock world = .ok world) ∨
      (world.mutex.lock ≠ 1 ∧ perform .lock world = .ok {
        system := if world.system.phase world.system.current = .yielded then world.system.left
          else world.system
        mutex := ⟨1⟩
        holding := Function.update world.holding world.system.current true }) := by
  by_cases locked : world.mutex.lock = 1
  · refine Or.inl ⟨locked, ?_⟩
    have same : (⟨1⟩ : Mutex) = world.mutex := by rw [← locked]
    simp [perform, Mutex.hfMtxlockTurn, Mutex.tsl, locked, same]
  · refine Or.inr ⟨locked, ?_⟩
    simp [perform, Mutex.hfMtxlockTurn, Mutex.tsl, locked]

theorem Guarded.locked (guarded : Guarded world tasks) (free : world.mutex.lock ≠ 1) :
    ∀ task, Function.update world.holding world.system.current true task = true →
      task = world.system.current := by
  intro task holds
  by_contra other
  rw [Function.update_of_ne other, guarded.unlocked free task] at holds
  cases holds

theorem Guarded.perform (guarded : Guarded world tasks) {op : CondOp} (ready : possible op world)
    (spared : spares op world) (stepped : perform op world = .ok after) :
    ∃ tasks', Guarded after tasks' ∧ ∀ task ∈ tasks,
      task ∈ tasks' ∨ op = .broadcast ∨ (op = .signal ∧ tasks.head? = some task) := by
  obtain ⟨sane, unlocked, single⟩ := guarded
  cases op with
  | lock =>
      rcases world.lock_cases with ⟨_, spins⟩ | ⟨free, locks⟩
      · rw [spins, Except.ok.injEq] at stepped
        subst stepped
        exact ⟨tasks, ⟨sane, unlocked, single⟩, fun _ => Or.inl⟩
      · rw [locks, Except.ok.injEq] at stepped
        subst stepped
        have owner := Guarded.locked ⟨sane, unlocked, single⟩ free
        refine ⟨tasks, ⟨?_, fun unlocked => absurd rfl unlocked, ?_⟩, fun _ => Or.inl⟩
        · split
          · rename_i yielded
            exact (sane.left yielded).2
          · exact sane
        · intro first second holdsFirst holdsSecond
          exact (owner first holdsFirst).trans (owner second holdsSecond).symm
  | unlock =>
      simp only [CondWorld.perform, Except.ok.injEq] at stepped
      subst stepped
      exact ⟨tasks, ⟨sane, fun _ _ => rfl, by simp⟩, fun _ => Or.inl⟩
  | wait =>
      obtain ⟨kernel, queue, done, kept⟩ := wait_sleeps sane ready
      rw [done, Except.ok.injEq] at stepped
      subst stepped
      exact ⟨_, ⟨kept, fun _ _ => rfl, by simp⟩, fun _ member =>
        Or.inl (List.mem_append_left _ member)⟩
  | yield around =>
      obtain ⟨kernel, yielded, same⟩ := ok_of_bind stepped
      cases same
      exact ⟨tasks, ⟨sane.rested ready yielded, unlocked, single⟩, fun _ => Or.inl⟩
  | signal =>
      obtain ⟨kernel, queue, done, kept, _⟩ := signal_wakes sane
      rw [done, Except.ok.injEq] at stepped
      subst stepped
      refine ⟨_, ⟨kept, unlocked, single⟩, fun task member => ?_⟩
      cases tasks with
      | nil => cases member
      | cons first rest =>
          rcases List.mem_cons.mp member with rfl | later
          · exact Or.inr (Or.inr ⟨rfl, rfl⟩)
          · exact Or.inl later
  | broadcast =>
      obtain ⟨kernel, queue, done, kept, _⟩ := broadcast_wakes sane
      rw [done, Except.ok.injEq] at stepped
      subst stepped
      exact ⟨[], ⟨kept, unlocked, single⟩, fun _ _ => Or.inr (Or.inl rfl)⟩
  | call op =>
      obtain ⟨kernel, called, same⟩ := ok_of_bind stepped
      cases same
      refine ⟨tasks, ⟨sane.called ready spared called, ?_, ?_⟩, fun _ => Or.inl⟩
      · intro free task
        simp [unlocked free task]
      · intro first second holdsFirst holdsSecond
        simp only [Bool.and_eq_true] at holdsFirst holdsSecond
        exact single first second holdsFirst.1 holdsSecond.1

end Steps

section Runs

structure Sound (world : CondWorld config) : Prop where
  queued : ∃ tasks : List Nat, world.system.queue.contents = tasks.map some ∧ tasks.Nodup ∧
    world.system.entered = world.system.released ++ tasks
  blocked : ∀ task, some task ∈ world.system.queue.contents ↔
    world.system.phase task ≠ .outside ∧ world.system.kernel.blocked task = true ∧
      world.system.paused task = false
  -- A task inside the call waits in the queue unless a wake-up has taken it out since.
  unmissed : ∀ task, world.system.phase task ≠ .outside →
    (some task ∈ world.system.queue.contents ↔ task ∉ world.system.pending)
  stays : ∀ op after, possible op world → spares op world → perform op world = .ok after →
    ∀ task, some task ∈ world.system.queue.contents → some task ∈ after.system.queue.contents ∨
      op = .broadcast ∨ (op = .signal ∧ world.system.queue.contents.head? = some (some task))
  signal : ∀ task rest, world.system.queue.contents = some task :: rest →
    ∃ after, perform .signal world = .ok after ∧ after.system.queue.contents = rest ∧
      after.system.released = world.system.released ++ [task] ∧
      Readied world.system.kernel after.system.kernel [task]
  broadcast : ∃ tasks after, world.system.queue.contents = tasks.map some ∧
    perform .broadcast world = .ok after ∧ after.system.queue.contents = [] ∧
    after.system.released = world.system.released ++ tasks ∧
    Readied world.system.kernel after.system.kernel tasks
  returns : ∀ after, world.system.phase world.system.current = .yielded →
    perform .lock world = .ok after → after.system.phase world.system.current = .outside →
      after.holding world.system.current = true ∧
      ∀ other, other ≠ world.system.current → after.holding other = false
  exclusive : ∀ first second, world.holding first = true → world.holding second = true →
    first = second

theorem Guarded.signals (guarded : Guarded world tasks) {task : Nat} {rest : List (Option Nat)}
    (stored : world.system.queue.contents = some task :: rest) :
    ∃ after, CondWorld.perform .signal world = .ok after ∧ after.system.queue.contents = rest ∧
      after.system.released = world.system.released ++ [task] ∧
      Readied world.system.kernel after.system.kernel [task] := by
  obtain ⟨kernel, queue, done, kept, readied⟩ := signal_wakes guarded.sane
  have same : tasks.map some = some task :: rest := guarded.sane.waiting.stored.symm.trans stored
  cases tasks with
  | nil => cases same
  | cons first others =>
      simp only [List.map_cons, List.cons.injEq, Option.some.injEq] at same
      obtain ⟨rfl, rfl⟩ := same
      exact ⟨_, done, kept.waiting.stored, rfl, readied⟩

theorem Guarded.stays (guarded : Guarded world tasks) {op : CondOp} (ready : possible op world)
    (spared : spares op world) (stepped : CondWorld.perform op world = .ok after) {task : Nat}
    (queued : some task ∈ world.system.queue.contents) :
    some task ∈ after.system.queue.contents ∨ op = .broadcast ∨
      (op = .signal ∧ world.system.queue.contents.head? = some (some task)) := by
  obtain ⟨tasks', kept, leaves⟩ := guarded.perform ready spared stepped
  rw [kept.sane.queued_iff, guarded.sane.waiting.stored, List.head?_map]
  rcases leaves task ((guarded.sane.queued_iff task).mp queued) with stays | broadcast | ⟨rfl, first⟩
  · exact Or.inl stays
  · exact Or.inr (Or.inl broadcast)
  · rw [first]
    exact Or.inr (Or.inr ⟨rfl, rfl⟩)

theorem Guarded.returns (guarded : Guarded world tasks)
    (yielded : world.system.phase world.system.current = .yielded)
    (stepped : CondWorld.perform .lock world = .ok after)
    (outside : after.system.phase world.system.current = .outside) :
    after.holding world.system.current = true ∧
      ∀ other, other ≠ world.system.current → after.holding other = false := by
  rcases world.lock_cases with ⟨_, spins⟩ | ⟨free, locks⟩
  · rw [spins, Except.ok.injEq] at stepped
    subst stepped
    rw [yielded] at outside
    cases outside
  · rw [locks, Except.ok.injEq] at stepped
    subst stepped
    refine ⟨Function.update_self _ _ _, fun other different => ?_⟩
    exact (Function.update_of_ne different _ _).trans (guarded.unlocked free other)

theorem Guarded.sound (guarded : Guarded world tasks) : Sound world := by
  have sane := guarded.sane
  refine ⟨⟨tasks, sane.waiting.stored, sane.waiting.distinct, sane.order⟩, sane.blocked_iff, ?_,
    fun op after ready spared stepped task queued => guarded.stays ready spared stepped queued,
    fun task rest stored => guarded.signals stored, ?_,
    fun after yielded stepped outside => guarded.returns yielded stepped outside, guarded.single⟩
  · intro task inside
    rw [sane.queued_iff]
    constructor
    · intro queued pending
      exact (List.nodup_append.mp sane.apart).2.2 task pending task queued rfl
    · exact fun absent => (sane.owed task inside).resolve_right absent
  · obtain ⟨kernel, queue, done, kept, readied⟩ := broadcast_wakes sane
    exact ⟨tasks, _, sane.waiting.stored, done, kept.waiting.stored, rfl, readied⟩

theorem condvar_sound {boot kernel : Kernel config} (booted : boot.Booted)
    (ran : Reaches Kernel.perform (fun op _ => op.taskGiven) boot kernel)
    (reached : Reaches perform (fun op state => possible op state ∧ spares op state)
      (opened kernel) world) : Sound world := by
  have invariant : ∃ tasks, Guarded world tasks := by
    refine reached.invariant (fun state => ∃ tasks, Guarded state tasks) ?_ ?_
    · exact ⟨[], .opened (reachable_partition booted ran) rfl, fun _ _ => rfl, by simp [opened]⟩
    · rintro op before after ⟨tasks, guarded⟩ ⟨ready, spared⟩ stepped
      obtain ⟨tasks', kept, _⟩ := guarded.perform ready spared stepped
      exact ⟨tasks', kept⟩
  obtain ⟨tasks, guarded⟩ := invariant
  exact guarded.sound

end Runs

def signalled : List CondOp :=
  [.call (.spawn worker), .call (.spawn worker), .call (.yield undisturbed),
    .call (.yield undisturbed), .lock, .wait, .yield undisturbed, .lock, .signal, .unlock,
    .call (.yield undisturbed), .call (.yield undisturbed), .lock]

theorem condvar_sound_signalled : Sound (outcome perform signalled (opened threeBoot)) := by
  have reached : Reaches perform (fun op state => possible op state ∧ spares op state)
      (opened threeBoot) (outcome perform signalled (opened threeBoot)) :=
    outcome_reaches signalled _ (by decide +kernel) (by decide +kernel)
  exact condvar_sound threeBoot_booted .start reached

end CondWorld

end Hellfire

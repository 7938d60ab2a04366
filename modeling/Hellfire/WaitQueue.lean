import Mathlib.Data.List.Perm.Subperm
import Hellfire.TaskSafety

/-!
Tasks that block themselves into a queue of their own: the part that semaphores and
condition variables share. A waiting task is queued and BLOCKED, and only a call that
names it or the wake-up from the queue changes that.
-/

namespace Hellfire

def KernelOp.target : KernelOp → Option Nat
  | .block id => some id
  | .resume id => some id
  | .kill _ id => some id
  | .delay id _ => some id
  | _ => none

namespace Kernel

variable {config : Config} {kernel after : Kernel config} {run rt delay : List Nat}

structure StepFrame (before after : Kernel config) (op : KernelOp) : Prop where
  current : after.krnlCurrentTask = before.krnlCurrentTask ∨
    after.blocked after.krnlCurrentTask = false
  others : ∀ slot, before.live slot = true → op.target ≠ some slot →
    after.live slot = true ∧ after.blocked slot = before.blocked slot

theorem StepFrame.of_entries {op : KernelOp}
    (current : after.krnlCurrentTask = kernel.krnlCurrentTask)
    (others : ∀ slot, kernel.live slot = true → op.target ≠ some slot →
      after.krnlTcb slot = kernel.krnlTcb slot) : StepFrame kernel after op := by
  refine ⟨Or.inl current, ?_⟩
  intro slot alive untouched
  rw [live, Kernel.blocked, Kernel.blocked, others slot alive untouched]
  exact ⟨alive, rfl⟩

theorem StepFrame.of_switch {op : KernelOp} (switched : Switched kernel after) :
    StepFrame kernel after op := by
  refine ⟨Or.inr ((switched.blocked _).trans switched.unblocked), ?_⟩
  intro slot alive _
  exact ⟨(switched.live slot).trans alive, switched.blocked slot⟩

theorem Stepped.stepFrame {run' rt' delay' : List Nat} {op : KernelOp}
    (stepped : Stepped kernel run rt delay op after run' rt' delay') :
    StepFrame kernel after op := by
  cases stepped with
  | unchanged entries current _ => exact .of_entries current fun slot _ _ => by rw [entries]
  | spawned frame _ => exact .of_entries frame.current fun slot alive _ => frame.alive slot alive
  | @blocked id =>
      have frame := kernel.hfBlock_frame id
      exact .of_entries frame.current fun slot _ untouched =>
        frame.others slot fun same => untouched (congrArg some same.symm)
  | @resumed id =>
      have frame := kernel.hfResume_frame id
      exact .of_entries frame.current fun slot _ untouched =>
        frame.others slot fun same => untouched (congrArg some same.symm)
  | killed _ _ others current _ =>
      exact .of_entries current fun slot alive untouched =>
        others slot (fun same => untouched (congrArg some same.symm)) alive
  | delayed _ _ others current _ =>
      exact .of_entries current fun slot _ untouched =>
        others slot fun same => untouched (congrArg some same.symm)
  | yielded switched _ _ => exact .of_switch switched
  | ticked _ _ switched _ => exact .of_switch switched

structure Waiting (kernel : Kernel config) (queue : RingQueue Nat config.maxTasks)
    (tasks : List Nat) : Prop where
  stored : queue.contents = tasks.map some
  distinct : tasks.Nodup
  alive : ∀ task ∈ tasks, kernel.live task = true
  nonzero : ∀ task ∈ tasks, task ≠ 0
  blocked : ∀ task ∈ tasks, kernel.blocked task = true

section Waits

variable {queue : RingQueue Nat config.maxTasks} {tasks : List Nat}

theorem Waiting.room (waiting : Waiting kernel queue tasks) :
    queue.contents.length < config.maxTasks := by
  have inside : 0 :: tasks ⊆ List.range config.maxTasks := by
    intro task member
    rcases List.mem_cons.mp member with rfl | later
    · exact List.mem_range.mpr config.positive
    · have alive := waiting.alive task later
      simp only [live, Bool.and_eq_true, decide_eq_true_eq] at alive
      exact List.mem_range.mpr alive.1
  have distinct : (0 :: tasks).Nodup :=
    List.nodup_cons.mpr ⟨fun zero => waiting.nonzero 0 zero rfl, waiting.distinct⟩
  have short := (List.subperm_of_subset distinct inside).length_le
  rw [List.length_cons, List.length_range] at short
  rw [waiting.stored, List.length_map]
  exact short

theorem Waiting.enqueue (waiting : Waiting kernel queue tasks) {task : Nat}
    (absent : task ∉ tasks) (alive : kernel.live task = true) (nonzero : task ≠ 0) :
    ∃ next, queue.hfQueueAddtail (some task) = (0, next) ∧
      Waiting (kernel.modify task fun entry => { entry with state := .blocked }) next
        (tasks ++ [task]) := by
  obtain ⟨next, added, contents⟩ := queue.hfQueueAddtail_room (some task) waiting.room
  have frame := kernel.setState_frame task .blocked
  refine ⟨next, added, ?_, ?_, ?_, ?_, ?_⟩
  · rw [contents, waiting.stored, List.map_append]
    rfl
  · exact List.nodup_append.mpr ⟨waiting.distinct, List.nodup_singleton _, by
      intro first member second last same
      rw [List.mem_singleton] at last
      subst last
      subst same
      exact absent member⟩
  · intro other member
    rw [frame.live]
    rcases List.mem_append.mp member with old | new
    · exact waiting.alive other old
    · exact List.mem_singleton.mp new ▸ alive
  · intro other member
    rcases List.mem_append.mp member with old | new
    · exact waiting.nonzero other old
    · exact List.mem_singleton.mp new ▸ nonzero
  · intro other member
    by_cases same : other = task
    · rw [same, blocked_eq_true, modify_same]
    · rw [Kernel.blocked, modify_other _ _ same]
      rcases List.mem_append.mp member with old | new
      · exact waiting.blocked other old
      · exact absurd (List.mem_singleton.mp new) same

theorem Waiting.dequeue {task : Nat} (waiting : Waiting kernel queue (task :: tasks)) :
    ∃ next, queue.hfQueueRemhead = (some task, next) ∧
      Waiting (kernel.modify task fun entry => { entry with state := .ready }) next tasks := by
  obtain ⟨next, removed, contents⟩ := queue.hfQueueRemhead_cons waiting.stored
  obtain ⟨absent, distinct⟩ := List.nodup_cons.mp waiting.distinct
  have frame := kernel.setState_frame task .ready
  refine ⟨next, removed, contents, distinct, ?_, ?_, ?_⟩
  · intro other member
    rw [frame.live]
    exact waiting.alive other (List.mem_cons_of_mem _ member)
  · exact fun other member => waiting.nonzero other (List.mem_cons_of_mem _ member)
  · intro other member
    have different : other ≠ task := fun same => absent (same ▸ member)
    rw [Kernel.blocked, modify_other _ _ different]
    exact waiting.blocked other (List.mem_cons_of_mem _ member)

theorem Waiting.dequeue_nil (waiting : Waiting kernel queue []) :
    queue.hfQueueRemhead = (none, queue) :=
  queue.hfQueueRemhead_nil (by rw [waiting.stored]; rfl)

theorem Waiting.step (waiting : Waiting kernel queue tasks) {op : KernelOp}
    (frame : StepFrame kernel after op) (spared : ∀ task ∈ tasks, op.target ≠ some task) :
    Waiting after queue tasks := by
  refine ⟨waiting.stored, waiting.distinct, ?_, waiting.nonzero, ?_⟩
  · intro task member
    exact (frame.others task (waiting.alive task member) (spared task member)).1
  · intro task member
    rw [(frame.others task (waiting.alive task member) (spared task member)).2]
    exact waiting.blocked task member

end Waits

end Kernel

/-- Where a task is in a call that may put it to sleep: it has blocked itself and is about
to call `hf_yield`, or `hf_yield` has switched away from it. -/
inductive WaitPhase
  | outside
  | entered
  | yielded
deriving DecidableEq, Repr

structure WaitSystem (config : Config) where
  kernel : Kernel config
  queue : RingQueue Nat config.maxTasks
  phase : Nat → WaitPhase
  -- Tasks that are BLOCKED by a call of `hf_block`.
  paused : Nat → Bool
  entered : List Nat
  released : List Nat
  -- Tasks that were woken and have not left the call yet.
  pending : List Nat

namespace WaitSystem

open Kernel

variable {config : Config}

def opened (kernel : Kernel config) (queue : RingQueue Nat config.maxTasks) :
    WaitSystem config where
  kernel
  queue
  phase := fun _ => .outside
  paused := fun _ => false
  entered := []
  released := []
  pending := []

def current (system : WaitSystem config) : Nat := system.kernel.krnlCurrentTask

def slept (kernel : Kernel config) (queue : RingQueue Nat config.maxTasks)
    (system : WaitSystem config) : WaitSystem config :=
  { system with
    kernel
    queue
    phase := Function.update system.phase system.current .entered
    paused := Function.update system.paused system.current false
    entered := system.entered ++ [system.current] }

def woken (tasks : List Nat) (kernel : Kernel config) (queue : RingQueue Nat config.maxTasks)
    (system : WaitSystem config) : WaitSystem config :=
  { system with
    kernel
    queue
    released := system.released ++ tasks
    pending := tasks.reverse ++ system.pending }

def rested (kernel : Kernel config) (system : WaitSystem config) : WaitSystem config :=
  { system with kernel, phase := Function.update system.phase system.current .yielded }

def left (system : WaitSystem config) : WaitSystem config :=
  { system with
    phase := Function.update system.phase system.current .outside
    pending := system.pending.erase system.current }

/-- A killed task is no longer inside its call. A task that a call turns BLOCKED is paused. -/
def called (op : KernelOp) (kernel : Kernel config) (system : WaitSystem config) :
    WaitSystem config :=
  { system with
    kernel
    phase := fun task => if kernel.live task then system.phase task else .outside
    paused := fun task =>
      if op.target = some task then
        kernel.blocked task && (system.paused task || !system.kernel.blocked task)
      else system.paused task
    pending := system.pending.filter kernel.live }

def spares (op : KernelOp) (system : WaitSystem config) : Prop :=
  ∀ task ∈ op.target, some task ∉ system.queue.contents

instance (op : KernelOp) (system : WaitSystem config) : Decidable (system.spares op) :=
  inferInstanceAs (Decidable (∀ task ∈ op.target, some task ∉ system.queue.contents))

structure Sane (system : WaitSystem config) (tasks : List Nat) : Prop where
  partition : ∃ run rt delay, Partition system.kernel run rt delay
  waiting : Waiting system.kernel system.queue tasks
  inside : ∀ task ∈ tasks, system.phase task ≠ .outside
  unpaused : ∀ task ∈ tasks, system.paused task = false
  alive : ∀ task, system.phase task ≠ .outside → system.kernel.live task = true
  held : ∀ task, system.phase task ≠ .outside → system.kernel.blocked task = true →
    system.paused task = false → task ∈ tasks
  resumed : system.phase system.current = .yielded → system.current ∉ tasks
  order : system.entered = system.released ++ tasks
  owed : ∀ task, system.phase task ≠ .outside → task ∈ tasks ∨ task ∈ system.pending
  apart : (system.pending ++ tasks).Nodup
  waking : ∀ task ∈ system.pending, system.phase task ≠ .outside

section Steps

variable {system : WaitSystem config} {tasks : List Nat}

theorem Sane.opened {kernel : Kernel config} {queue : RingQueue Nat config.maxTasks}
    (partition : ∃ run rt delay, Partition kernel run rt delay) (empty : queue.contents = []) :
    Sane (opened kernel queue) [] where
  partition
  waiting := ⟨empty, List.nodup_nil, by simp, by simp, by simp⟩
  inside := by simp
  unpaused := by simp
  alive task inside := absurd rfl inside
  held task inside := absurd rfl inside
  resumed := by simp
  order := rfl
  owed task inside := absurd rfl inside
  apart := by simp [WaitSystem.opened]
  waking := by simp [WaitSystem.opened]

theorem Sane.queued_iff (sane : Sane system tasks) (task : Nat) :
    some task ∈ system.queue.contents ↔ task ∈ tasks := by
  rw [sane.waiting.stored, List.mem_map_of_injective (Option.some_injective Nat)]

theorem Sane.blocked_iff (sane : Sane system tasks) (task : Nat) :
    some task ∈ system.queue.contents ↔ system.phase task ≠ .outside ∧
      system.kernel.blocked task = true ∧ system.paused task = false := by
  rw [sane.queued_iff]
  constructor
  · exact fun queued => ⟨sane.inside task queued, sane.waiting.blocked task queued,
      sane.unpaused task queued⟩
  · rintro ⟨inside, blocked, unpaused⟩
    exact sane.held task inside blocked unpaused

theorem Sane.outside_absent (sane : Sane system tasks) {task : Nat}
    (outside : system.phase task = .outside) : task ∉ tasks :=
  fun member => sane.inside task member outside

theorem Sane.partition_setState (sane : Sane system tasks) {task : Nat} (nonzero : task ≠ 0)
    {state : TaskState} (notRunning : state ≠ .running) :
    ∃ run rt delay, Partition (system.kernel.modify task fun entry =>
      { entry with state := state }) run rt delay := by
  obtain ⟨run, rt, delay, partition⟩ := sane.partition
  exact ⟨run, rt, delay, partition.setState nonzero notRunning⟩

theorem Sane.slept (sane : Sane system tasks) (outside : system.phase system.current = .outside)
    (alive : system.kernel.live system.current = true) (nonzero : system.current ≠ 0) :
    ∃ next, system.queue.hfQueueAddtail (some system.current) = (0, next) ∧
      Sane (system.slept (system.kernel.modify system.current fun entry =>
        { entry with state := .blocked }) next) (tasks ++ [system.current]) := by
  obtain ⟨next, added, waiting⟩ :=
    sane.waiting.enqueue (sane.outside_absent outside) alive nonzero
  have frame := system.kernel.setState_frame system.current .blocked
  have appended : ∀ task, task ≠ system.current → task ∈ tasks → task ∈ tasks ++ [system.current] :=
    fun task _ member => List.mem_append_left _ member
  refine ⟨next, added,
    ⟨sane.partition_setState nonzero (by simp), waiting, ?_, ?_, ?_, ?_, ?_, ?_, ?_, ?_, ?_⟩⟩
  · intro task member
    by_cases self : task = system.current
    · simp [WaitSystem.slept, self]
    · have old : task ∈ tasks := by simpa [self] using member
      simpa [WaitSystem.slept, self] using sane.inside task old
  · intro task member
    by_cases self : task = system.current
    · simp [WaitSystem.slept, self]
    · have old : task ∈ tasks := by simpa [self] using member
      simpa [WaitSystem.slept, self] using sane.unpaused task old
  · intro task inside
    by_cases self : task = system.current
    · rw [self]
      exact (frame.live _).trans alive
    · refine (frame.live task).trans (sane.alive task ?_)
      simpa [WaitSystem.slept, self] using inside
  · intro task inside blocked unpaused
    by_cases self : task = system.current
    · simp [self]
    · simp only [WaitSystem.slept, Function.update_of_ne self] at inside unpaused
      rw [Kernel.blocked, WaitSystem.slept, frame.others task self] at blocked
      exact appended task self (sane.held task inside blocked unpaused)
  · intro yielded
    change Function.update system.phase system.current .entered system.current = .yielded at yielded
    simp at yielded
  · simp [WaitSystem.slept, sane.order]
  · intro task inside
    by_cases self : task = system.current
    · simp [self]
    · simp only [WaitSystem.slept, Function.update_of_ne self] at inside
      rcases sane.owed task inside with queued | pending
      · exact Or.inl (appended task self queued)
      · exact Or.inr pending
  · have fresh : system.current ∉ system.pending ++ tasks := by
      intro member
      rcases List.mem_append.mp member with pending | queued
      · exact sane.waking _ pending outside
      · exact sane.inside _ queued outside
    change (system.pending ++ (tasks ++ [system.current])).Nodup
    rw [← List.append_assoc]
    exact List.nodup_append.mpr ⟨sane.apart, List.nodup_singleton _, by
      intro first member second last same
      rw [List.mem_singleton] at last
      subst last
      subst same
      exact fresh member⟩
  · intro task member
    by_cases self : task = system.current
    · simp [WaitSystem.slept, self]
    · simpa [WaitSystem.slept, self] using sane.waking task member

theorem Sane.woken {task : Nat} (sane : Sane system (task :: tasks)) :
    ∃ next, system.queue.hfQueueRemhead = (some task, next) ∧
      Sane (system.woken [task] (system.kernel.modify task fun entry =>
        { entry with state := .ready }) next) tasks := by
  obtain ⟨next, removed, waiting⟩ := sane.waiting.dequeue
  have frame := system.kernel.setState_frame task .ready
  have nonzero := sane.waiting.nonzero task List.mem_cons_self
  refine ⟨next, removed,
    ⟨sane.partition_setState nonzero (by simp), waiting, ?_, ?_, ?_, ?_, ?_, ?_, ?_, ?_, ?_⟩⟩
  · exact fun other member => sane.inside other (List.mem_cons_of_mem _ member)
  · exact fun other member => sane.unpaused other (List.mem_cons_of_mem _ member)
  · exact fun other inside => (frame.live other).trans (sane.alive other inside)
  · intro other inside blocked unpaused
    by_cases self : other = task
    · rw [self, Kernel.blocked, WaitSystem.woken, modify_same] at blocked
      simp at blocked
    · rw [Kernel.blocked, WaitSystem.woken, frame.others other self] at blocked
      exact (List.mem_cons.mp (sane.held other inside blocked unpaused)).resolve_left self
  · intro yielded member
    exact sane.resumed yielded (List.mem_cons_of_mem _ member)
  · simp [WaitSystem.woken, sane.order]
  · intro other inside
    rcases sane.owed other inside with queued | pending
    · rcases List.mem_cons.mp queued with rfl | later
      · exact Or.inr List.mem_cons_self
      · exact Or.inl later
    · exact Or.inr (List.mem_cons_of_mem _ pending)
  · exact List.nodup_middle.mp sane.apart
  · intro other member
    rcases List.mem_cons.mp member with rfl | pending
    · exact sane.inside other List.mem_cons_self
    · exact sane.waking other pending

theorem Sane.rested (sane : Sane system tasks) {around : Surroundings} {after : Kernel config}
    (entered : system.phase system.current = .entered)
    (stepped : system.kernel.hfYield around = .ok after) : Sane (system.rested after) tasks := by
  obtain ⟨run, rt, delay, partition⟩ := sane.partition
  cases whole : around.stackIntact with
  | false => simp [hfYield, whole] at stepped
  | true =>
      obtain ⟨next, run', yielded, _, switched, kept, _⟩ := partition.hfYield_switches whole
      rw [yielded, Except.ok.injEq] at stepped
      subst stepped
      have phases : ∀ task, (system.rested next).phase task ≠ .outside →
          system.phase task ≠ .outside := by
        intro task inside
        by_cases self : task = system.current
        · rw [self, entered]
          simp
        · simpa [WaitSystem.rested, self] using inside
      have stays : ∀ task, system.phase task ≠ .outside →
          (system.rested next).phase task ≠ .outside := by
        intro task inside
        by_cases self : task = system.current
        · simp [WaitSystem.rested, self]
        · simpa [WaitSystem.rested, self] using inside
      refine ⟨⟨run', rt, delay, kept⟩, ?_, ?_, sane.unpaused, ?_, ?_, ?_, sane.order, ?_,
        sane.apart, ?_⟩
      · have frame : StepFrame system.kernel next (.yield around) := .of_switch switched
        exact sane.waiting.step frame (by simp [KernelOp.target])
      · exact fun task member => stays task (sane.inside task member)
      · exact fun task inside => (switched.live task).trans (sane.alive task (phases task inside))
      · intro task inside blocked unpaused
        exact sane.held task (phases task inside) ((switched.blocked task).symm.trans blocked) unpaused
      · intro _ member
        exact absurd (sane.waiting.blocked _ member) (by simp [WaitSystem.current,
          WaitSystem.rested, switched.unblocked])
      · exact fun task inside => sane.owed task (phases task inside)
      · exact fun task member => stays task (sane.waking task member)

theorem Sane.left (sane : Sane system tasks) (yielded : system.phase system.current = .yielded) :
    system.current ∈ system.pending ∧ Sane system.left tasks := by
  have absent := sane.resumed yielded
  have phases : ∀ task, system.left.phase task ≠ .outside →
      task ≠ system.current ∧ system.phase task ≠ .outside := by
    intro task inside
    by_cases self : task = system.current
    · simp [WaitSystem.left, self] at inside
    · exact ⟨self, by simpa [WaitSystem.left, self] using inside⟩
  refine ⟨(sane.owed _ (by simp [yielded])).resolve_left absent,
    ⟨sane.partition, sane.waiting, ?_, sane.unpaused, ?_, ?_, ?_, sane.order, ?_, ?_, ?_⟩⟩
  · intro task member
    have other : task ≠ system.current := fun self => absent (self ▸ member)
    simpa [WaitSystem.left, other] using sane.inside task member
  · exact fun task inside => sane.alive task (phases task inside).2
  · exact fun task inside => sane.held task (phases task inside).2
  · intro _ member
    exact absent member
  · intro task inside
    obtain ⟨other, before⟩ := phases task inside
    rcases sane.owed task before with queued | pending
    · exact Or.inl queued
    · exact Or.inr ((List.mem_erase_of_ne other).mpr pending)
  · exact sane.apart.sublist (List.erase_sublist.append_right tasks)
  · intro task member
    obtain ⟨distinct, _⟩ := List.nodup_append.mp sane.apart
    obtain ⟨other, pending⟩ := distinct.mem_erase_iff.mp member
    simpa [WaitSystem.left, other] using sane.waking task pending

theorem Sane.called (sane : Sane system tasks) {op : KernelOp} {after : Kernel config}
    (given : op.taskGiven) (spared : system.spares op)
    (stepped : system.kernel.perform op = .ok after) : Sane (system.called op after) tasks := by
  obtain ⟨run, rt, delay, partition⟩ := sane.partition
  obtain ⟨run', rt', delay', kept, moved⟩ := partition.perform_inv given stepped
  have frame := moved.stepFrame
  have unnamed : ∀ task ∈ tasks, op.target ≠ some task :=
    fun task member named => spared task named ((sane.queued_iff task).mpr member)
  have phases : ∀ task, (system.called op after).phase task ≠ .outside →
      after.live task = true ∧ system.phase task ≠ .outside := by
    intro task inside
    simpa [WaitSystem.called] using inside
  have waiting := sane.waiting.step frame unnamed
  refine ⟨⟨run', rt', delay', kept⟩, waiting, ?_, ?_,
    fun task inside => (phases task inside).1, ?_, ?_, sane.order, ?_, ?_, ?_⟩
  · intro task member
    simpa [WaitSystem.called, waiting.alive task member] using sane.inside task member
  · intro task member
    simpa [WaitSystem.called, unnamed task member] using sane.unpaused task member
  · intro task inside blocked unpaused
    have before := (phases task inside).2
    by_cases named : op.target = some task
    · simp only [WaitSystem.called, if_pos named] at blocked unpaused
      simp only [blocked, Bool.true_and, Bool.or_eq_false_iff, Bool.not_eq_false'] at unpaused
      exact sane.held task before unpaused.2 unpaused.1
    · simp only [WaitSystem.called, if_neg named] at blocked unpaused
      rw [(frame.others task (sane.alive task before) named).2] at blocked
      exact sane.held task before blocked unpaused
  · intro yielded member
    rcases frame.current with same | awake
    · have unmoved : (system.called op after).current = system.current := same
      rw [unmoved] at yielded member
      have before : system.phase system.current = .yielded := by
        simp only [WaitSystem.called] at yielded
        split at yielded
        · exact yielded
        · cases yielded
      exact sane.resumed before member
    · have asleep := waiting.blocked _ member
      rw [show (system.called op after).current = after.krnlCurrentTask from rfl, awake] at asleep
      cases asleep
  · intro task inside
    obtain ⟨alive, before⟩ := phases task inside
    rcases sane.owed task before with queued | pending
    · exact Or.inl queued
    · exact Or.inr (List.mem_filter.mpr ⟨pending, alive⟩)
  · exact sane.apart.sublist (List.filter_sublist.append_right tasks)
  · intro task member
    obtain ⟨pending, alive⟩ := List.mem_filter.mp member
    simpa [WaitSystem.called, alive] using sane.waking task pending

end Steps

end WaitSystem

end Hellfire

import Hellfire.HeapLockCore

/-!
The lock of the allocator over whole runs. A call that disables interrupts before it takes
the lock can wait for a task that is never going to run; it cannot when it finds the lock
free at the moment interrupts are disabled, since then nobody else can take it.
-/

namespace Hellfire

open Machine

def KernelOp.usesHeap : KernelOp → Prop
  | .spawn call => call.task ≠ 0
  | .kill _ _ => True
  | _ => False

theorem KernelOp.usesHeap.taskGiven {op : KernelOp} (uses : op.usesHeap) : op.taskGiven := by
  cases op with
  | spawn call => exact uses
  | kill around id => exact trivial
  | block id | resume id | delay id ticks | yield around | dispatch around | schedlock lock =>
      exact trivial

namespace Kernel

variable {config : Config} {kernel after : Kernel config} {run rt delay : List Nat}

theorem Stepped.usesHeap_current {run' rt' delay' : List Nat} {op : KernelOp}
    (stepped : Stepped kernel run rt delay op after run' rt' delay') (uses : op.usesHeap) :
    after.krnlCurrentTask = kernel.krnlCurrentTask := by
  cases stepped with
  | unchanged _ current _ => exact current
  | spawned frame _ => exact frame.current
  | killed _ _ _ current _ => exact current
  | blocked => cases uses
  | resumed => cases uses
  | delayed => cases uses
  | yielded => cases uses
  | ticked => cases uses

end Kernel

def Instr.inside : Instr → Prop
  | .lock | .unlock | .work => True
  | .kernel op => op.usesHeap
  | .enter _ | .ei => False

def Instr.outside : Instr → Prop
  | .lock | .unlock | .work => True
  | .enter call => (HeapCall.guarded call).taskGiven
  | .kernel _ | .ei => False

namespace HeapLock

variable {config : Config}

theorem hfMalloc_plain (turns : Nat) :
    ∀ instruction ∈ hfMalloc turns, instruction.inside ∧ instruction.outside := by
  intro instruction member
  simp only [hfMalloc, List.mem_cons, List.mem_append, List.mem_replicate, List.not_mem_nil,
    or_false] at member
  rcases member with rfl | ⟨_, rfl⟩ | rfl <;> exact ⟨trivial, trivial⟩

theorem hfFree_plain : ∀ instruction ∈ hfFree, instruction.inside ∧ instruction.outside := by
  intro instruction member
  simp only [hfFree, List.mem_cons, List.not_mem_nil, or_false] at member
  rcases member with rfl | rfl | rfl <;> exact ⟨trivial, trivial⟩

theorem hfQueueCreate_inside (outcome : QueueOutcome) :
    ∀ instruction ∈ hfQueueCreate outcome, instruction.inside := by
  intro instruction member
  cases outcome with
  | noStruct turns => exact (hfMalloc_plain turns _ member).1
  | noData turns more =>
      simp only [hfQueueCreate, List.mem_append] at member
      rcases member with (first | second) | freed
      · exact (hfMalloc_plain turns _ first).1
      · exact (hfMalloc_plain more _ second).1
      · exact (hfFree_plain _ freed).1
  | created turns more =>
      rcases List.mem_append.mp member with first | second
      · exact (hfMalloc_plain turns _ first).1
      · exact (hfMalloc_plain more _ second).1

theorem begin_outside (call : HeapCall) (given : call.taskGiven) :
    ∀ instruction ∈ begin call, instruction.outside := by
  intro instruction member
  cases call with
  | malloc turns => exact (hfMalloc_plain turns _ member).2
  | free => exact (hfFree_plain _ member).2
  | guarded call =>
      cases call with
      | spawn call turns =>
          simp only [begin] at member
          split at member
          · cases member
          · rw [List.mem_singleton.mp member]
            exact given
      | kill around id =>
          rw [List.mem_singleton.mp member]
          exact given
      | seminit outcome =>
          rw [List.mem_singleton.mp member]
          exact given

theorem body_inside (kernel : Kernel config) (call : GuardedCall)
    (given : (HeapCall.guarded call).taskGiven) :
    ∀ instruction ∈ body kernel call, instruction.inside := by
  intro instruction member
  cases call with
  | spawn call turns =>
      simp only [body] at member
      split at member
      · rw [List.mem_singleton.mp member]
        exact trivial
      · rcases List.mem_cons.mp member with rfl | later
        · exact trivial
        · rcases List.mem_append.mp later with allocates | last
          · exact (hfMalloc_plain turns _ allocates).1
          · rw [List.mem_singleton.mp last]
            exact given
  | kill around id =>
      simp only [body] at member
      split at member
      · rw [List.mem_singleton.mp member]
        exact trivial
      · rcases List.mem_append.mp member with frees | last
        · exact (hfFree_plain _ frees).1
        · rw [List.mem_singleton.mp last]
          exact trivial
  | seminit outcome =>
      rcases List.mem_append.mp member with creates | last
      · exact hfQueueCreate_inside outcome _ creates
      · rw [List.mem_singleton.mp last]
        exact trivial

end HeapLock

namespace LockWorld

variable {config : Config} {world after : LockWorld config}

/-- What the running task has still to do before it enables interrupts. While it may still
take the lock, no other task holds it. -/
structure Closing (world : LockWorld config) (body rest : List Instr) : Prop where
  status : world.status world.running = true
  code : world.code world.running = body ++ .ei :: rest
  inside : ∀ instruction ∈ body, instruction.inside
  outside : ∀ instruction ∈ rest, instruction.outside
  guarded : .lock ∈ body → world.krnlMalloc.lock = 1 → world.holder = some world.running

structure Safe (world : LockWorld config) : Prop where
  partition : ∃ run rt delay, Kernel.Partition world.kernel run rt delay
  others : ∀ task, task ≠ world.running → ∀ instruction ∈ world.code task, instruction.outside
  enabled : world.interrupts = true →
    ∀ instruction ∈ world.code world.running, instruction.outside
  disabled : world.interrupts = false → ∃ body rest, Closing world body rest

section Steps

variable {instruction : Instr} {rest : List Instr}

theorem Closing.next_cases {body tail : List Instr} (closing : Closing world body tail)
    (next : world.code world.running = instruction :: rest) :
    (instruction = .ei ∧ rest = tail) ∨
      ∃ later, body = instruction :: later ∧ rest = later ++ .ei :: tail := by
  have shape := closing.code
  rw [next] at shape
  cases body with
  | nil =>
      rw [List.nil_append, List.cons.injEq] at shape
      exact Or.inl shape
  | cons first later =>
      rw [List.cons_append, List.cons.injEq] at shape
      obtain ⟨rfl, rfl⟩ := shape
      exact Or.inr ⟨later, rfl, rfl⟩

theorem Safe.not_deadlocked (safe : Safe world) : ¬world.Deadlocked := by
  rintro ⟨disabled, ⟨later, next⟩, locked, other, different, holds⟩
  obtain ⟨body, tail, closing⟩ := safe.disabled disabled
  rcases closing.next_cases next with ⟨same, _⟩ | ⟨inner, rfl, _⟩
  · cases same
  · rw [closing.guarded List.mem_cons_self locked, Option.some.injEq] at holds
    exact different holds.symm

theorem goOn_self (world : LockWorld config) (rest : List Instr) :
    (world.goOn rest).code (world.goOn rest).running = rest :=
  Function.update_self _ _ _

theorem Safe.goOn_others (safe : Safe world) {moved : LockWorld config}
    (code : moved.code = world.code) (running : moved.running = world.running)
    (rest : List Instr) : ∀ task, task ≠ (moved.goOn rest).running →
      ∀ instruction ∈ (moved.goOn rest).code task, instruction.outside := by
  intro task other instruction member
  have apart : task ≠ moved.running := other
  have old : (moved.goOn rest).code task = moved.code task := Function.update_of_ne apart _ _
  rw [old, code] at member
  exact safe.others task (running ▸ apart) instruction member

theorem Safe.advance (safe : Safe world) (next : world.code world.running = instruction :: rest)
    (notEi : instruction ≠ .ei) {krnlMalloc : Mutex} {holder : Option Nat}
    (keeps : krnlMalloc.lock = 1 → holder = some world.running ∨
      (krnlMalloc = world.krnlMalloc ∧ holder = world.holder)) :
    Safe (goOn rest { world with krnlMalloc, holder }) := by
  refine ⟨safe.partition, safe.goOn_others rfl rfl rest, ?_, ?_⟩
  · intro enabled later member
    rw [goOn_self] at member
    exact safe.enabled enabled later (by rw [next]; exact List.mem_cons_of_mem _ member)
  · intro disabled
    obtain ⟨body, tail, closing⟩ := safe.disabled disabled
    rcases closing.next_cases next with ⟨same, _⟩ | ⟨later, rfl, rfl⟩
    · exact absurd same notEi
    · refine ⟨later, tail, closing.status, goOn_self _ _,
        fun inner member => closing.inside inner (List.mem_cons_of_mem _ member),
        closing.outside, ?_⟩
      intro takes locked
      rcases keeps locked with owner | ⟨rfl, rfl⟩
      · exact owner
      · exact closing.guarded (List.mem_cons_of_mem _ takes) locked

theorem Safe.enter (safe : Safe world) {call : GuardedCall}
    (next : world.code world.running = .enter call :: rest)
    (free : .lock ∈ HeapLock.body world.kernel call → world.krnlMalloc.lock ≠ 1)
    (done : world.execute (.enter call) rest = .ok after) : Safe after := by
  have enabled : world.interrupts = true := by
    cases off : world.interrupts with
    | true => rfl
    | false =>
        obtain ⟨body, tail, closing⟩ := safe.disabled off
        rcases closing.next_cases next with ⟨same, _⟩ | ⟨later, rfl, _⟩
        · cases same
        · exact absurd (closing.inside _ List.mem_cons_self) id
  have outside := safe.enabled enabled
  rw [next] at outside
  simp only [execute, Except.ok.injEq] at done
  subst done
  refine ⟨safe.partition, safe.goOn_others rfl rfl _, fun on => ?_, fun _ => ?_⟩
  · cases on
  · refine ⟨HeapLock.body world.kernel call, rest, ?_, goOn_self _ _,
      HeapLock.body_inside world.kernel call (outside _ List.mem_cons_self),
      fun later member => outside later (List.mem_cons_of_mem _ member), ?_⟩
    · exact (Function.update_self _ _ _).trans enabled
    · exact fun takes locked => absurd locked (free takes)

theorem Safe.inner_disabled (safe : Safe world) {instruction : Instr}
    (next : world.code world.running = instruction :: rest) (inner : ¬instruction.outside) :
    world.interrupts = false := by
  cases on : world.interrupts with
  | false => rfl
  | true =>
      have outside := safe.enabled on
      rw [next] at outside
      exact absurd (outside _ List.mem_cons_self) inner

theorem Safe.ei (safe : Safe world) (next : world.code world.running = .ei :: rest)
    (done : world.execute .ei rest = .ok after) : Safe after := by
  have disabled := safe.inner_disabled next id
  obtain ⟨body, tail, closing⟩ := safe.disabled disabled
  have outside : ∀ later ∈ rest, later.outside := by
    rcases closing.next_cases next with ⟨_, rfl⟩ | ⟨inner, rfl, _⟩
    · exact closing.outside
    · exact absurd (closing.inside _ List.mem_cons_self) id
  simp only [execute, Except.ok.injEq] at done
  subst done
  refine ⟨safe.partition, safe.goOn_others rfl rfl rest, fun _ later member => ?_, fun off => ?_⟩
  · rw [goOn_self] at member
    exact outside later member
  · have still : world.status world.running = false := off
    rw [closing.status] at still
    cases still

theorem Safe.kernel (safe : Safe world) {op : KernelOp}
    (next : world.code world.running = .kernel op :: rest)
    (done : world.execute (.kernel op) rest = .ok after) : Safe after := by
  have disabled := safe.inner_disabled next id
  obtain ⟨run, rt, delay, partition⟩ := safe.partition
  obtain ⟨body, tail, closing⟩ := safe.disabled disabled
  rcases closing.next_cases next with ⟨same, _⟩ | ⟨later, rfl, rfl⟩
  · cases same
  · have uses : op.usesHeap := closing.inside _ List.mem_cons_self
    obtain ⟨kernel, performed, same⟩ := ok_of_bind done
    obtain ⟨run', rt', delay', kept, moved⟩ := partition.perform_inv uses.taskGiven performed
    have current := moved.usesHeap_current uses
    cases same
    refine ⟨⟨run', rt', delay', kept⟩, ?_, ?_, fun _ => ?_⟩
    · intro task other instruction member
      have apart : task ≠ world.running := fun same => other (same.trans current.symm)
      dsimp only at member
      rw [Function.update_of_ne apart] at member
      split at member
      · exact safe.others task apart instruction member
      · cases member
    · intro on
      rw [disabled] at on
      cases on
    · have here : ({ world with kernel } : LockWorld config).running = world.running := current
      refine ⟨later, tail, ?_, ?_, fun inner member =>
        closing.inside inner (List.mem_cons_of_mem _ member), closing.outside, ?_⟩
      · exact (congrArg world.status here).trans closing.status
      · simp only [running, current, Function.update_self]
      · intro takes locked
        exact (closing.guarded (List.mem_cons_of_mem _ takes) locked).trans
          (congrArg some here.symm)

theorem Safe.lock (safe : Safe world) (next : world.code world.running = .lock :: rest)
    (done : world.execute .lock rest = .ok after) : Safe after := by
  by_cases locked : world.krnlMalloc.lock = 1
  · have same : (⟨1⟩ : Mutex) = world.krnlMalloc := by rw [← locked]
    simp only [execute, Mutex.hfMtxlockTurn, Mutex.tsl, locked, same] at done
    simp only [ne_eq, not_true_eq_false, decide_false, Bool.false_eq_true, if_false,
      Except.ok.injEq] at done
    exact done ▸ safe
  · simp only [execute, Mutex.hfMtxlockTurn, Mutex.tsl, ne_eq, locked, not_false_eq_true,
      decide_true, if_true, Except.ok.injEq] at done
    subst done
    exact safe.advance next (by simp) fun _ => Or.inl rfl

theorem Safe.execute (safe : Safe world) (next : world.code world.running = instruction :: rest)
    (found : disciplined .run world) (done : world.execute instruction rest = .ok after) :
    Safe after := by
  cases instruction with
  | enter call =>
      refine safe.enter next (found call ?_) done
      simp [entering, next]
  | ei => exact safe.ei next done
  | lock => exact safe.lock next done
  | unlock =>
      simp only [LockWorld.execute, Except.ok.injEq] at done
      subst done
      exact safe.advance next (by simp) fun locked => by simp [Mutex.hfMtxunlock] at locked
  | work =>
      simp only [LockWorld.execute, Except.ok.injEq] at done
      subst done
      exact safe.advance next (by simp) fun _ => Or.inr ⟨rfl, rfl⟩
  | kernel op => exact safe.kernel next done

theorem Safe.perform (safe : Safe world) {op : LockOp} (ready : possible op world)
    (found : disciplined op world) (stepped : perform op world = .ok after) : Safe after := by
  cases op with
  | call call =>
      obtain ⟨idle, given⟩ := ready
      simp only [LockWorld.perform, Except.ok.injEq] at stepped
      subst stepped
      refine ⟨safe.partition, safe.goOn_others rfl rfl _, fun _ later member => ?_, fun off => ?_⟩
      · rw [goOn_self] at member
        exact HeapLock.begin_outside call given later member
      · obtain ⟨body, tail, closing⟩ := safe.disabled off
        have shape := closing.code
        rw [idle] at shape
        simp at shape
  | run =>
      simp only [LockWorld.perform] at stepped
      split at stepped
      · rw [Except.ok.injEq] at stepped
        exact stepped ▸ safe
      · rename_i next
        exact safe.execute next found stepped
  | dispatch around =>
      obtain ⟨run, rt, delay, partition⟩ := safe.partition
      obtain ⟨kernel, dispatched, same⟩ := ok_of_bind stepped
      cases same
      have outside : ∀ task, ∀ instruction ∈ world.code task, instruction.outside := by
        intro task
        by_cases self : task = world.running
        · exact self ▸ safe.enabled ready
        · exact safe.others task self
      have given : (KernelOp.dispatch around).taskGiven := trivial
      obtain ⟨run', rt', delay', kept, _⟩ := partition.perform_inv given dispatched
      refine ⟨⟨run', rt', delay', kept⟩, fun task _ => outside task,
        fun _ => outside _, fun off => ?_⟩
      have on : world.interrupts = true := ready
      rw [show world.interrupts = false from off] at on
      cases on

end Steps

section Runs

theorem opened_safe {boot kernel : Kernel config} (booted : boot.Booted)
    (ran : Reaches Kernel.perform (fun op _ => op.taskGiven) boot kernel) :
    Safe (opened kernel) where
  partition := Kernel.reachable_partition booted ran
  others := by simp [opened]
  enabled := by simp [opened]
  disabled := by simp [opened]

theorem body_lock {kernel : Kernel config} {call : GuardedCall}
    (takes : .lock ∈ HeapLock.body kernel call) :
    ∃ later, HeapLock.body kernel call = .lock :: later ∨
      HeapLock.body kernel call = .work :: .lock :: later := by
  cases call with
  | spawn call turns =>
      simp only [HeapLock.body] at takes ⊢
      split
      · rename_i full
        rw [if_pos full] at takes
        simp at takes
      · exact ⟨_, Or.inr rfl⟩
  | kill around id =>
      simp only [HeapLock.body] at takes ⊢
      split
      · rename_i unknown
        rw [if_pos unknown] at takes
        simp at takes
      · exact ⟨_, Or.inl rfl⟩
  | seminit outcome =>
      cases outcome with
      | noStruct turns => exact ⟨_, Or.inl rfl⟩
      | noData turns more => exact ⟨_, Or.inl rfl⟩
      | created turns more => exact ⟨_, Or.inl rfl⟩

theorem reaches_execute {start : LockWorld config} {instruction : Instr} {rest : List Instr}
    (reached : Reaches perform possible start world)
    (next : world.code world.running = instruction :: rest)
    (done : world.execute instruction rest = .ok after) : Reaches perform possible start after := by
  have ready : possible .run world := trivial
  have stepped : perform .run world = .ok after := by simp only [perform, next, done]
  exact .next reached ready stepped

/-- A call that disables interrupts while another task holds the lock ends in a deadlock. -/
theorem enter_deadlocks {call : GuardedCall} {rest : List Instr} {other : Nat}
    (next : world.code world.running = .enter call :: rest)
    (takes : .lock ∈ HeapLock.body world.kernel call) (locked : world.krnlMalloc.lock = 1)
    (holds : world.holder = some other) (different : other ≠ world.running) :
    ∃ later, Reaches perform possible world later ∧ later.Deadlocked := by
  let entered := goOn (HeapLock.body world.kernel call ++ .ei :: rest) { world with
    interrupts := false
    status := Function.update world.status world.running world.interrupts }
  have reached : Reaches perform possible world entered := reaches_execute .start next rfl
  have code : entered.code entered.running = HeapLock.body world.kernel call ++ .ei :: rest :=
    goOn_self _ _
  obtain ⟨later, first | second⟩ := body_lock takes
  · rw [first] at code
    exact ⟨entered, reached, rfl, ⟨_, code⟩, locked, other, different, holds⟩
  · rw [second] at code
    have worked : Reaches perform possible world (goOn (.lock :: later ++ .ei :: rest) entered) :=
      reaches_execute reached code rfl
    exact ⟨_, worked, rfl, ⟨_, goOn_self _ _⟩, locked, other, different, holds⟩

theorem heap_lock_deadlock_free {boot kernel : Kernel config} (booted : boot.Booted)
    (ran : Reaches Kernel.perform (fun op _ => op.taskGiven) boot kernel)
    (reached : Reaches perform (fun op state => possible op state ∧ disciplined op state)
      (opened kernel) world) :
    ¬world.Deadlocked ∧ ∀ call rest other, world.code world.running = .enter call :: rest →
      .lock ∈ HeapLock.body world.kernel call → world.krnlMalloc.lock = 1 →
      world.holder = some other → other ≠ world.running →
        ∃ later, Reaches perform possible world later ∧ later.Deadlocked := by
  have safe : Safe world := by
    refine reached.invariant Safe (opened_safe booted ran) ?_
    rintro op before after safe ⟨ready, found⟩ stepped
    exact safe.perform ready found stepped
  exact ⟨safe.not_deadlocked, fun call rest other next takes locked holds different =>
    enter_deadlocks next takes locked holds different⟩

end Runs

section Preempted

open Kernel

def scheduled : List KernelOp :=
  [.spawn worker, .spawn worker, .schedlock 0, .dispatch undisturbed, .dispatch undisturbed]

def firstRuns : Kernel threeTasks := outcome Kernel.perform scheduled threeBoot

theorem firstRuns_reached :
    Reaches Kernel.perform (fun op _ => op.taskGiven) threeBoot firstRuns :=
  outcome_reaches scheduled threeBoot (by decide) (by decide +kernel)

def seminit : HeapCall := .guarded (.seminit (.created 1 1))

def allocated : List LockOp :=
  [.call (.malloc 1), .run, .run, .run, .dispatch undisturbed, .call seminit, .run, .run]

def preempted : List LockOp :=
  [.call (.malloc 1), .run, .dispatch undisturbed, .call seminit, .run]

theorem heap_lock_deadlock_free_allocated :
    ¬(outcome perform allocated (opened firstRuns)).Deadlocked := by
  have reached : Reaches perform (fun op state => possible op state ∧ disciplined op state)
      (opened firstRuns) (outcome perform allocated (opened firstRuns)) :=
    outcome_reaches allocated _ (by decide +kernel) (by decide +kernel)
  exact (heap_lock_deadlock_free threeBoot_booted firstRuns_reached reached).1

theorem preempted_holder_deadlocks :
    ∃ boot kernel : Kernel threeTasks, boot.Booted ∧
      Reaches Kernel.perform (fun op _ => op.taskGiven) boot kernel ∧
      ∃ world, Reaches perform possible (opened kernel) world ∧ world.Deadlocked := by
  refine ⟨threeBoot, firstRuns, threeBoot_booted, firstRuns_reached,
    outcome perform preempted (opened firstRuns),
    outcome_reaches preempted _ (by decide +kernel) (by decide +kernel), ?_⟩
  have next : (outcome perform preempted (opened firstRuns)).code
      (outcome perform preempted (opened firstRuns)).running =
        .lock :: [.work, .unlock, .lock, .work, .unlock, .work, .ei] := by decide +kernel
  exact ⟨by decide +kernel, ⟨_, next⟩, by decide +kernel, 1, by decide +kernel, by decide +kernel⟩

end Preempted

end LockWorld

end Hellfire

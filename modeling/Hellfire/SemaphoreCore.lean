import Hellfire.WaitQueue

/-!
Executable model of `sys/sync/semaphore.c`, and of the tasks that use one semaphore.
`hf_semwait` has three parts: the part with interrupts disabled, the call of `hf_yield`
when the task has to wait, and the return to the caller. Anything may happen between them.
-/

namespace Hellfire

structure Semaphore (config : Config) where
  count : Int
  semQueue : RingQueue Nat config.maxTasks

namespace Semaphore

variable {config : Config}

/-- `created` is the result of `hf_queue_create(MAX_TASKS)`. -/
def hfSeminit (created : Option (RingQueue Nat config.maxTasks)) (value : Int) :
    Int × Option (Semaphore config) :=
  match created with
  | none => (errError, none)
  | some queue => if value < 0 then (errError, none) else (errOk, some ⟨value, queue⟩)

/-- The part of `hf_semwait` up to `_ei`. The flag says whether `hf_yield` follows. -/
def hfSemwait (kernel : Kernel config) (sem : Semaphore config) :
    Except Halt (Bool × Kernel config × Semaphore config) :=
  let count := int32 (sem.count - 1)
  if count < 0 then
    let task2 := kernel.krnlCurrentTask
    match sem.semQueue.hfQueueAddtail (some task2) with
    | (code, queue) =>
        if code ≠ 0 then .error (.panic .nutsSem)
        else .ok (true, kernel.modify task2 fun entry => { entry with state := .blocked },
          ⟨count, queue⟩)
  else .ok (false, kernel, ⟨count, sem.semQueue⟩)

/-- Hands out the task that is unblocked, if there is one. -/
def hfSempost (kernel : Kernel config) (sem : Semaphore config) :
    Except Halt (Option Nat × Kernel config × Semaphore config) :=
  let count := int32 (sem.count + 1)
  if count ≤ 0 then
    match sem.semQueue.hfQueueRemhead with
    | (none, _) => .error (.panic .nutsSem)
    | (some task2, queue) =>
        .ok (some task2, kernel.modify task2 fun entry => { entry with state := .ready },
          ⟨count, queue⟩)
  else .ok (none, kernel, ⟨count, sem.semQueue⟩)

end Semaphore

/-- A system in which tasks use one semaphore, with the numbers of calls so far: `passed`
counts the calls of `hf_semwait` that have returned. -/
structure SemWorld (config : Config) where
  system : WaitSystem config
  count : Int
  posts : Nat
  waits : Nat
  passed : Nat

/-- `yield` is the end of a call of `hf_semwait` that has to wait, and `leave` its return. -/
inductive SemOp
  | wait
  | post
  | yield (around : Surroundings)
  | leave
  | call (op : KernelOp)
deriving DecidableEq, Repr

namespace SemWorld

variable {config : Config}

def sem (world : SemWorld config) : Semaphore config := ⟨world.count, world.system.queue⟩

def opened (kernel : Kernel config) (sem : Semaphore config) : SemWorld config where
  system := .opened kernel sem.semQueue
  count := sem.count
  posts := 0
  waits := 0
  passed := 0

def perform : SemOp → SemWorld config → Except Halt (SemWorld config)
  | .wait, world => do
      let (blocks, kernel, sem) ← world.sem.hfSemwait world.system.kernel
      if blocks then
        .ok { world with
          system := world.system.slept kernel sem.semQueue
          count := sem.count
          waits := world.waits + 1 }
      else
        .ok { world with
          count := sem.count
          waits := world.waits + 1
          passed := world.passed + 1 }
  | .post, world => do
      let (task, kernel, sem) ← world.sem.hfSempost world.system.kernel
      .ok { world with
        system := match task with
          | none => world.system
          | some task => world.system.woken [task] kernel sem.semQueue
        count := sem.count
        posts := world.posts + 1 }
  | .yield around, world => do
      let kernel ← world.system.kernel.hfYield around
      .ok { world with system := world.system.rested kernel }
  | .leave, world => .ok { world with system := world.system.left, passed := world.passed + 1 }
  | .call op, world => do
      let kernel ← world.system.kernel.perform op
      .ok { world with system := world.system.called op kernel }

/-- What the running task can do next. The idle task makes no calls that could block it. -/
def possible : SemOp → SemWorld config → Prop
  | .wait, world => world.system.phase world.system.current = .outside ∧
      world.system.kernel.live world.system.current = true ∧ world.system.current ≠ 0
  | .yield _, world => world.system.phase world.system.current = .entered
  | .leave, world => world.system.phase world.system.current = .yielded
  | .call op, _ => op.taskGiven
  | .post, _ => True

def spares : SemOp → SemWorld config → Prop
  | .call op, world => world.system.spares op
  | _, _ => True

def inRange (value : Int) : SemOp → SemWorld config → Prop
  | .post, world => value + world.posts + 1 - world.waits < 2147483648
  | _, _ => True

instance (op : SemOp) (world : SemWorld config) : Decidable (possible op world) :=
  match op with
  | .wait => inferInstanceAs (Decidable (_ ∧ _ ∧ _))
  | .yield _ => inferInstanceAs (Decidable (_ = _))
  | .leave => inferInstanceAs (Decidable (_ = _))
  | .call op => inferInstanceAs (Decidable op.taskGiven)
  | .post => .isTrue trivial

instance (op : SemOp) (world : SemWorld config) : Decidable (spares op world) :=
  match op with
  | .call op => inferInstanceAs (Decidable (world.system.spares op))
  | .wait | .post | .yield _ | .leave => .isTrue trivial

instance (value : Int) (op : SemOp) (world : SemWorld config) :
    Decidable (inRange value op world) :=
  match op with
  | .post => inferInstanceAs (Decidable (_ < _))
  | .wait | .yield _ | .leave | .call _ => .isTrue trivial

end SemWorld

end Hellfire

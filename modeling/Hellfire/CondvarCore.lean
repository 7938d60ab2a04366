import Mathlib.Data.Int.Order.Basic
import Hellfire.WaitQueue

/-!
Executable model of `sys/sync/condvar.c`, of `sys/sync/mutex.c` with `MUTEX_TYPE` 0, a spinlock,
and of the tasks that use one condition variable and one mutex. `hf_mtxlock` is a loop around
`tsl`; every turn of the loop is one step, which ends the call when `tsl` did not return 1. After
the part of `hf_condwait` with interrupts disabled come the call of `hf_yield` and the turns of
`hf_mtxlock`. Anything may happen between them.
-/

namespace Hellfire

structure Mutex where
  lock : Int
deriving DecidableEq, Repr

namespace Mutex

def hfMtxinit : Mutex := ⟨0⟩

def tsl (mutex : Mutex) : Int × Mutex := (mutex.lock, ⟨1⟩)

/-- One turn of `while (tsl(m) == 1);`, with the flag that says whether the loop ends. -/
def hfMtxlockTurn (mutex : Mutex) : Bool × Mutex :=
  let (init, next) := mutex.tsl
  (init ≠ 1, next)

def hfMtxunlock (_mutex : Mutex) : Mutex := ⟨0⟩

end Mutex

namespace Condvar

variable {config : Config}

/-- The part of `hf_condwait` up to `_ei`. -/
def hfCondwait (kernel : Kernel config) (mutex : Mutex)
    (condQueue : RingQueue Nat config.maxTasks) :
    Except Halt (Kernel config × Mutex × RingQueue Nat config.maxTasks) :=
  let task2 := kernel.krnlCurrentTask
  match condQueue.hfQueueAddtail (some task2) with
  | (code, queue) =>
      if code ≠ 0 then .error (.panic .nutsSem)
      else .ok (kernel.modify task2 fun entry => { entry with state := .blocked },
        mutex.hfMtxunlock, queue)

/-- Hands out the task that is unblocked, if there is one. -/
def hfCondsignal (kernel : Kernel config) (condQueue : RingQueue Nat config.maxTasks) :
    Option Nat × Kernel config × RingQueue Nat config.maxTasks :=
  match condQueue.hfQueueRemhead with
  | (none, queue) => (none, kernel, queue)
  | (some task2, queue) =>
      (some task2, kernel.modify task2 fun entry => { entry with state := .ready }, queue)

-- One turn of the loop is a signal. The fuel is the count before the loop, and every turn
-- lowers the count.
def broadcastLoop : Nat → Kernel config → RingQueue Nat config.maxTasks →
    Except Halt (List Nat × Kernel config × RingQueue Nat config.maxTasks)
  | fuel, kernel, condQueue =>
      if condQueue.hfQueueCount = 0 then .ok ([], kernel, condQueue)
      else
        match fuel with
        | 0 => .error .spin
        | fuel + 1 => do
            let (task, kernel, condQueue) := hfCondsignal kernel condQueue
            let (tasks, kernel, condQueue) ← broadcastLoop fuel kernel condQueue
            .ok (task.toList ++ tasks, kernel, condQueue)

def hfCondbroadcast (kernel : Kernel config) (condQueue : RingQueue Nat config.maxTasks) :
    Except Halt (List Nat × Kernel config × RingQueue Nat config.maxTasks) :=
  broadcastLoop condQueue.hfQueueCount kernel condQueue

end Condvar

structure CondWorld (config : Config) where
  system : WaitSystem config
  mutex : Mutex
  holding : Nat → Bool

inductive CondOp
  | lock
  | unlock
  | wait
  | yield (around : Surroundings)
  | signal
  | broadcast
  | call (op : KernelOp)
deriving DecidableEq, Repr

namespace CondWorld

variable {config : Config}

def opened (kernel : Kernel config) : CondWorld config where
  system := .opened kernel (.create config.maxTasks config.addressable)
  mutex := .hfMtxinit
  holding := fun _ => false

def perform : CondOp → CondWorld config → Except Halt (CondWorld config)
  | .lock, world =>
      let (locked, mutex) := world.mutex.hfMtxlockTurn
      if locked then
        .ok { world with
          mutex
          holding := Function.update world.holding world.system.current true
          system := if world.system.phase world.system.current = .yielded then world.system.left
            else world.system }
      else .ok { world with mutex }
  | .unlock, world =>
      .ok { world with mutex := world.mutex.hfMtxunlock, holding := fun _ => false }
  | .wait, world => do
      let (kernel, mutex, queue) ←
        Condvar.hfCondwait world.system.kernel world.mutex world.system.queue
      .ok { world with
        system := world.system.slept kernel queue
        mutex
        holding := fun _ => false }
  | .yield around, world => do
      let kernel ← world.system.kernel.hfYield around
      .ok { world with system := world.system.rested kernel }
  | .signal, world =>
      match Condvar.hfCondsignal world.system.kernel world.system.queue with
      | (task, kernel, queue) =>
          .ok { world with system := world.system.woken task.toList kernel queue }
  | .broadcast, world => do
      let (tasks, kernel, queue) ←
        Condvar.hfCondbroadcast world.system.kernel world.system.queue
      .ok { world with system := world.system.woken tasks kernel queue }
  | .call op, world => do
      let kernel ← world.system.kernel.perform op
      .ok { world with
        system := world.system.called op kernel
        holding := fun task => world.holding task && kernel.live task }

/-- What the running task can do next. `hf_condwait` is called with the mutex held, and never
by the idle task. -/
def possible : CondOp → CondWorld config → Prop
  | .lock, world => world.system.phase world.system.current ≠ .entered
  | .wait, world => world.system.phase world.system.current = .outside ∧
      world.holding world.system.current = true ∧
      world.system.kernel.live world.system.current = true ∧ world.system.current ≠ 0
  | .yield _, world => world.system.phase world.system.current = .entered
  | .call op, _ => op.taskGiven
  | .unlock, _ | .signal, _ | .broadcast, _ => True

def spares : CondOp → CondWorld config → Prop
  | .call op, world => world.system.spares op
  | _, _ => True

instance (op : CondOp) (world : CondWorld config) : Decidable (possible op world) :=
  match op with
  | .lock => inferInstanceAs (Decidable (_ ≠ _))
  | .wait => inferInstanceAs (Decidable (_ ∧ _ ∧ _ ∧ _))
  | .yield _ => inferInstanceAs (Decidable (_ = _))
  | .call op => inferInstanceAs (Decidable op.taskGiven)
  | .unlock | .signal | .broadcast => .isTrue trivial

instance (op : CondOp) (world : CondWorld config) : Decidable (spares op world) :=
  match op with
  | .call op => inferInstanceAs (Decidable (world.system.spares op))
  | .lock | .unlock | .wait | .yield _ | .signal | .broadcast => .isTrue trivial

end CondWorld

end Hellfire

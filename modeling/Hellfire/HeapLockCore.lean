import Hellfire.CondvarCore

/-!
The lock `krnl_malloc` of the allocator in `sys/lib/malloc.c` and the calls that take it, as
sequences of instructions. A task can lose the processor between any two instructions
while interrupts are enabled. `tsl` restores the interrupt status that it found, so a
turn of `hf_mtxlock` is one instruction.
-/

namespace Hellfire

inductive QueueOutcome
  | noStruct (turns : Nat)
  | noData (turns : Nat) (more : Nat)
  | created (turns : Nat) (more : Nat)
deriving DecidableEq, Repr

inductive GuardedCall
  | spawn (call : SpawnCall) (turns : Nat)
  | kill (around : Surroundings) (id : Nat)
  | seminit (outcome : QueueOutcome)
deriving DecidableEq, Repr

/-- `enter` is `status = _di()` with the tests that follow it. `work` is code that touches
neither the lock nor the interrupts. -/
inductive Instr
  | enter (call : GuardedCall)
  | ei
  | lock
  | unlock
  | work
  | kernel (op : KernelOp)
deriving DecidableEq, Repr

inductive HeapCall
  | malloc (turns : Nat)
  | free
  | guarded (call : GuardedCall)
deriving DecidableEq, Repr

def HeapCall.taskGiven : HeapCall → Prop
  | .guarded (.spawn call _) => call.task ≠ 0
  | _ => True

instance (call : HeapCall) : Decidable call.taskGiven :=
  match call with
  | .guarded (.spawn call _) => inferInstanceAs (Decidable (call.task ≠ 0))
  | .malloc _ | .free | .guarded (.kill _ _) | .guarded (.seminit _) => .isTrue trivial

namespace HeapLock

variable {config : Config}

def hfMalloc (turns : Nat) : List Instr := .lock :: (List.replicate turns .work ++ [.unlock])

def hfFree : List Instr := [.lock, .work, .unlock]

def hfQueueCreate : QueueOutcome → List Instr
  | .noStruct turns => hfMalloc turns
  | .noData turns more => hfMalloc turns ++ hfMalloc more ++ hfFree
  | .created turns more => hfMalloc turns ++ hfMalloc more

/-- The instructions of a call up to the return or to its `_di`. -/
def begin : HeapCall → List Instr
  | .malloc turns => hfMalloc turns
  | .free => hfFree
  | .guarded (.spawn call turns) =>
      if call.period < call.capacity ∨ call.deadline < call.capacity then []
      else [.enter (.spawn call turns)]
  | .guarded call => [.enter call]

def body (kernel : Kernel config) : GuardedCall → List Instr
  | .spawn call turns =>
      if kernel.freeSlot = config.maxTasks then [.work]
      else .work :: (hfMalloc turns ++ [.kernel (.spawn call)])
  | .kill around id =>
      if id = 0 ∨ kernel.noSuchTask id then [.work]
      else hfFree ++ [.kernel (.kill around id)]
  | .seminit outcome => hfQueueCreate outcome ++ [.work]

end HeapLock

/-- The running system as the allocator's lock sees it. `code` is what each task has still
to execute of its call, `status` its saved interrupt status. -/
structure LockWorld (config : Config) where
  kernel : Kernel config
  krnlMalloc : Mutex
  interrupts : Bool
  code : Nat → List Instr
  status : Nat → Bool
  holder : Option Nat

inductive LockOp
  | call (call : HeapCall)
  | run
  | dispatch (around : Surroundings)
deriving DecidableEq, Repr

namespace LockWorld

variable {config : Config}

def opened (kernel : Kernel config) : LockWorld config where
  kernel
  krnlMalloc := .hfMtxinit
  interrupts := true
  code := fun _ => []
  status := fun _ => true
  holder := none

def running (world : LockWorld config) : Nat := world.kernel.krnlCurrentTask

def goOn (rest : List Instr) (world : LockWorld config) : LockWorld config :=
  { world with code := Function.update world.code world.running rest }

def execute (instruction : Instr) (rest : List Instr) (world : LockWorld config) :
    Except Halt (LockWorld config) :=
  match instruction with
  | .enter call =>
      .ok (goOn (HeapLock.body world.kernel call ++ .ei :: rest) { world with
        interrupts := false
        status := Function.update world.status world.running world.interrupts })
  | .ei => .ok (goOn rest { world with interrupts := world.status world.running })
  | .lock =>
      let (locked, krnlMalloc) := world.krnlMalloc.hfMtxlockTurn
      if locked then .ok (goOn rest { world with krnlMalloc, holder := some world.running })
      else .ok { world with krnlMalloc }
  | .unlock =>
      .ok (goOn rest { world with krnlMalloc := world.krnlMalloc.hfMtxunlock, holder := none })
  | .work => .ok (goOn rest world)
  | .kernel op => do
      let kernel ← world.kernel.perform op
      -- A killed task executes nothing more.
      let code := fun task => if kernel.live task then world.code task else []
      .ok { world with kernel, code := Function.update code world.running rest }

def perform : LockOp → LockWorld config → Except Halt (LockWorld config)
  | .call call, world => .ok (world.goOn (HeapLock.begin call))
  | .run, world =>
      match world.code world.running with
      | [] => .ok world
      | instruction :: rest => world.execute instruction rest
  | .dispatch around, world => do
      let kernel ← world.kernel.dispatchIsr around
      .ok { world with kernel }

/-- A task starts a call when it is in no other, and interrupts that are enabled may come at
any time. -/
def possible : LockOp → LockWorld config → Prop
  | .call call, world => world.code world.running = [] ∧ call.taskGiven
  | .run, _ => True
  | .dispatch _, world => world.interrupts = true

def entering (world : LockWorld config) : Option GuardedCall :=
  match world.code world.running with
  | .enter call :: _ => some call
  | _ => none

def disciplined : LockOp → LockWorld config → Prop
  | .run, world => ∀ call ∈ world.entering,
      .lock ∈ HeapLock.body world.kernel call → world.krnlMalloc.lock ≠ 1
  | _, _ => True

instance (op : LockOp) (world : LockWorld config) : Decidable (possible op world) :=
  match op with
  | .call _ => inferInstanceAs (Decidable (_ ∧ _))
  | .run => .isTrue trivial
  | .dispatch _ => inferInstanceAs (Decidable (_ = _))

instance (op : LockOp) (world : LockWorld config) : Decidable (disciplined op world) :=
  match op with
  | .run => inferInstanceAs (Decidable (∀ call ∈ world.entering,
      .lock ∈ HeapLock.body world.kernel call → world.krnlMalloc.lock ≠ 1))
  | .call _ | .dispatch _ => .isTrue trivial

/-- The running task spins with interrupts disabled on a lock that another task holds. -/
def Deadlocked (world : LockWorld config) : Prop :=
  world.interrupts = false ∧ (∃ rest, world.code world.running = .lock :: rest) ∧
    world.krnlMalloc.lock = 1 ∧ ∃ other, other ≠ world.running ∧ world.holder = some other

end LockWorld

end Hellfire

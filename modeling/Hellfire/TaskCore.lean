import Hellfire.SchedulerCore

/-!
Executable model of the task management calls of `sys/kernel/task.c`. Every call
runs with interrupts disabled, so each is one step of the kernel.
-/

namespace Hellfire

structure SpawnCall where
  task : Nat
  period : UInt16
  capacity : UInt16
  deadline : UInt16
  name : List UInt8
  stackSize : UInt32
  pstack : Nat
deriving DecidableEq, Repr

def strncpy (source : List UInt8) (size : Nat) : List UInt8 :=
  let string := source.takeWhile (· ≠ 0)
  (string ++ List.replicate size 0).take size

namespace Kernel

variable {config : Config}

def setTaskSp (kernel : Kernel config) (task stack : Nat) : Kernel config :=
  kernel.modify task fun entry => { entry with contextSp := stack }

def setTaskTp (kernel : Kernel config) (task address : Nat) : Kernel config :=
  kernel.modify task fun entry => { entry with contextTp := address }

def hfSelfid (kernel : Kernel config) : Nat := (kernel.krnlTcb kernel.krnlTask).id

-- `while ((krnl_tcb[i].ptask != 0) && (i < MAX_TASKS)) i++`
def freeSlotFrom (kernel : Kernel config) : Nat → Nat → Nat
  | 0, i => i
  | fuel + 1, i =>
      if (kernel.krnlTcb i).ptask ≠ 0 ∧ i < config.maxTasks then freeSlotFrom kernel fuel (i + 1)
      else i

def freeSlot (kernel : Kernel config) : Nat := kernel.freeSlotFrom config.maxTasks 0

def pointAtCurrent (kernel : Kernel config) : Kernel config :=
  { kernel with krnlTask := kernel.krnlCurrentTask }

def align4 (size : UInt32) : UInt32 := (size + 3) >>> 2 <<< 2

def spawnEntry (call : SpawnCall) (slot : Nat) (old : TcbEntry) : TcbEntry :=
  { old with
    id := slot
    name := strncpy call.name 20
    state := .idle
    priority := 100
    priorityRem := 100
    delay := 0
    period := call.period
    capacity := call.capacity
    deadline := call.deadline
    capacityRem := call.capacity
    deadlineRem := call.deadline
    rtjobs := 0
    bgjobs := 0
    deadlineMisses := 0
    ptask := call.task
    stackSize := align4 call.stackSize
    pstack := call.pstack }

-- The stack pointer starts at the last word of the stack.
def fillEntry (call : SpawnCall) (i : Nat) (kernel : Kernel config) : Kernel config :=
  let kernel := ({ kernel with krnlTasks := kernel.krnlTasks + 1, krnlTask := i }).modify i
    (spawnEntry call i)
  let top := (call.pstack + (align4 call.stackSize - 4).toNat) % 4294967296
  (kernel.setTaskSp i top).setTaskTp i call.task

def dropEntry (i : Nat) (kernel : Kernel config) : Kernel config :=
  { kernel.modify i fun entry => { entry with ptask := 0 } with
    krnlTasks := kernel.krnlTasks - 1 }

def hfSpawn (call : SpawnCall) (kernel : Kernel config) : Except Halt (Int × Kernel config) :=
  if call.period < call.capacity ∨ call.deadline < call.capacity then
    .ok (errInvalidParameter, kernel)
  else
    let i := kernel.freeSlot
    if i = config.maxTasks then .ok (errExceedMaxNum, kernel)
    else do
      let kernel := kernel.fillEntry call i
      if call.pstack ≠ 0 then
        let kernel ← kernel.enqueueReady i
        .ok (i, kernel.pointAtCurrent)
      else .ok (errOutOfMemory, (kernel.dropEntry i).pointAtCurrent)

def hfYield (around : Surroundings) (kernel : Kernel config) : Except Halt (Kernel config) :=
  let kernel := kernel.suspendCurrent
  if around.stackIntact = false then .error (.panic .stackOverflow)
  else if 0 < kernel.krnlTasks then do
    let (id, kernel) ← kernel.bestEffort around.random
    let kernel := kernel.switchTo id
    .ok { kernel with coopCswitch := kernel.coopCswitch + 1 }
  else .error (.panic .noTasksLeft)

def noSuchTask (kernel : Kernel config) (id : Nat) : Prop :=
  (kernel.krnlTcb id).ptask = 0 ∨ config.maxTasks ≤ id

instance (kernel : Kernel config) (id : Nat) : Decidable (kernel.noSuchTask id) :=
  inferInstanceAs (Decidable (_ ∨ _))

def hfBlock (id : Nat) (kernel : Kernel config) : Int × Kernel config :=
  if id = 0 then (errInvalidId, kernel)
  else if kernel.noSuchTask id then (errInvalidId, kernel.pointAtCurrent)
  else if (kernel.krnlTcb id).state = .blocked then (errError, kernel.pointAtCurrent)
  else (errOk, (kernel.modify id fun entry => { entry with state := .blocked }).pointAtCurrent)

def hfResume (id : Nat) (kernel : Kernel config) : Int × Kernel config :=
  if id = 0 then (errInvalidId, kernel)
  else if kernel.noSuchTask id then (errInvalidId, kernel.pointAtCurrent)
  else if (kernel.krnlTcb id).state ≠ .blocked then (errError, kernel.pointAtCurrent)
  else (errOk, (kernel.modify id fun entry => { entry with state := .ready }).pointAtCurrent)

def unqueue (id : Nat) (kernel : Kernel config) : Except Halt (Option Nat × Kernel config) :=
  if (kernel.krnlTcb id).period ≠ 0 then do
    let (task2, queue) ← takeTask kernel.krnlRtQueue id .noTasksRt
    .ok (task2, { kernel with krnlRtQueue := queue })
  else do
    let (task2, queue) ← takeTask kernel.krnlRunQueue id .noTasksRun
    .ok (task2, { kernel with krnlRunQueue := queue })

/-- The part of `hf_kill` that clears the entry. The context of the killed task is cleared
through `krnl_task->id`, which is already `-1` by then. -/
def clearEntry (id : Nat) (kernel : Kernel config) : Kernel config :=
  let kernel := ({ kernel with krnlTask := id }).modify id fun entry =>
    { entry with id := noId, ptask := 0 }
  let kernel := (kernel.setTaskSp (kernel.krnlTcb id).id 0)
  let kernel := (kernel.setTaskTp (kernel.krnlTcb id).id 0)
  let kernel := kernel.modify id fun entry => { entry with state := .idle }
  { kernel with krnlTasks := kernel.krnlTasks - 1 }

/-- The code is `none` when the call gave up the processor in `hf_yield` instead of
returning to its caller. -/
def hfKill (around : Surroundings) (id : Nat) (kernel : Kernel config) :
    Except Halt (Option Int × Kernel config) :=
  if id = 0 then .ok (some errInvalidId, kernel)
  else if kernel.noSuchTask id then .ok (some errInvalidId, kernel.pointAtCurrent)
  else do
    let (task2, kernel) ← unqueue id (kernel.clearEntry id)
    if task2 ≠ some id then .error (.panic .unknownTaskState)
    else
      let kernel := kernel.pointAtCurrent
      if kernel.hfSelfid = id then do
        let kernel ← kernel.hfYield around
        .ok (none, kernel)
      else .ok (some errOk, kernel)

def hfDelay (id : Nat) (delay : UInt32) (kernel : Kernel config) :
    Except Halt (Int × Kernel config) :=
  if delay = 0 then .ok (errError, kernel)
  else if id = 0 then .ok (errInvalidId, kernel)
  else if kernel.noSuchTask id then .ok (errInvalidId, kernel.pointAtCurrent)
  else do
    let (task2, kernel) ← unqueue id kernel
    let kernel := kernel.modify id fun entry => { entry with state := .delayed, delay := delay }
    let queue ← placeTask kernel.krnlDelayQueue task2 .cantPlaceDelay
    .ok (errOk, ({ kernel with krnlDelayQueue := queue }).pointAtCurrent)

def hfSchedlock (lock : Int) (kernel : Kernel config) : Kernel config :=
  { kernel with krnlSchedule := if lock ≠ 0 then 0 else 1 }

end Kernel

inductive KernelOp
  | spawn (call : SpawnCall)
  | block (id : Nat)
  | resume (id : Nat)
  | kill (around : Surroundings) (id : Nat)
  | delay (id : Nat) (ticks : UInt32)
  | yield (around : Surroundings)
  | dispatch (around : Surroundings)
  | schedlock (lock : Int)
deriving DecidableEq, Repr

namespace Kernel

variable {config : Config}

def perform : KernelOp → Kernel config → Except Halt (Kernel config)
  | .spawn call, kernel => (kernel.hfSpawn call).map Prod.snd
  | .block id, kernel => .ok (kernel.hfBlock id).2
  | .resume id, kernel => .ok (kernel.hfResume id).2
  | .kill around id, kernel => (kernel.hfKill around id).map Prod.snd
  | .delay id ticks, kernel => (kernel.hfDelay id ticks).map Prod.snd
  | .yield around, kernel => kernel.hfYield around
  | .dispatch around, kernel => kernel.dispatchIsr around
  | .schedlock lock, kernel => .ok (kernel.hfSchedlock lock)

/-- The spawn of the idle task that ends the initialization in `main`. -/
def boot (config : Config) (schedBe : BestEffort) (idletask pstack : Nat) :
    Except Halt (Int × Kernel config) :=
  (cleared config schedBe).hfSpawn {
    task := idletask
    period := 0
    capacity := 0
    deadline := 0
    name := "idle task".toUTF8.toList
    stackSize := 1024
    pstack := pstack
  }

def Booted (kernel : Kernel config) : Prop :=
  ∃ schedBe idletask pstack, idletask ≠ 0 ∧ pstack ≠ 0 ∧
    boot config schedBe idletask pstack = .ok (0, kernel)

end Kernel

end Hellfire

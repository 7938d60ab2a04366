import Hellfire.KernelCore

/-!
Executable model of `sys/kernel/scheduler.c`: the delay queue, the best effort and
real time schedulers and the dispatcher. A scheduler returns the id it selected and
leaves `krnl_task` at the selected slot.
-/

namespace Hellfire

namespace Kernel

variable {config : Config}

def runQueueNext (kernel : Kernel config) : Except Halt (Kernel config) := do
  let (task, queue) ← rotateTask kernel.krnlRunQueue .noTasksRun .cantPlaceRun
  .ok { kernel with krnlTask := task, krnlRunQueue := queue }

def rtQueueNext (kernel : Kernel config) : Except Halt (Kernel config) := do
  let (task, queue) ← rotateTask kernel.krnlRtQueue .noTasksRt .cantPlaceRt
  .ok { kernel with krnlTask := task, krnlRtQueue := queue }

def enqueueReady (task : Nat) (kernel : Kernel config) : Except Halt (Kernel config) :=
  if (kernel.krnlTcb task).period ≠ 0 then do
    let queue ← placeTask kernel.krnlRtQueue (some task) .cantPlaceRt
    .ok { kernel with krnlRtQueue := queue }
  else do
    let queue ← placeTask kernel.krnlRunQueue (some task) .cantPlaceRun
    .ok { kernel with krnlRunQueue := queue }

def countDown (task : Nat) (kernel : Kernel config) : Kernel config :=
  kernel.modify task fun entry => { entry with delay := entry.delay - 1 }

-- One turn of the loop in `process_delay_queue`.
def delayStep (kernel : Kernel config) : Except Halt (Kernel config) :=
  match kernel.krnlDelayQueue.hfQueueRemhead with
  | (none, _) => .error (.panic .noTasksDelay)
  | (some task, rest) => do
      let kernel := countDown task { kernel with krnlDelayQueue := rest }
      if (kernel.krnlTcb task).delay = 0 then kernel.enqueueReady task
      else
        let queue ← placeTask kernel.krnlDelayQueue (some task) .cantPlaceDelay
        .ok { kernel with krnlDelayQueue := queue }

def delaySteps : Nat → Kernel config → Except Halt (Kernel config)
  | 0, kernel => .ok kernel
  | turns + 1, kernel => do
      let kernel ← kernel.delayStep
      delaySteps turns kernel

def processDelayQueue (kernel : Kernel config) : Except Halt (Kernel config) :=
  delaySteps kernel.krnlDelayQueue.hfQueueCount kernel

def blocked (kernel : Kernel config) (slot : Nat) : Bool :=
  (kernel.krnlTcb slot).state = .blocked

/-- Every best effort scheduler ends with `krnl_task->bgjobs++; return krnl_task->id`. -/
def countJob (kernel : Kernel config) : Nat × Kernel config :=
  ((kernel.krnlTcb kernel.krnlTask).id, kernel.modify kernel.krnlTask fun entry =>
    { entry with bgjobs := entry.bgjobs + 1 })

-- One turn of the run queue visits every task, so a second turn would change nothing.
def rrLoop : Nat → Kernel config → Except Halt (Kernel config)
  | 0, _ => .error .spin
  | fuel + 1, kernel => do
      let kernel ← kernel.runQueueNext
      if kernel.blocked kernel.krnlTask then rrLoop fuel kernel else .ok kernel

def schedRr (kernel : Kernel config) : Except Halt (Nat × Kernel config) :=
  if kernel.krnlRunQueue.hfQueueCount = 0 then .error (.panic .noTasksRun)
  else do
    let kernel ← rrLoop kernel.krnlRunQueue.hfQueueCount kernel
    .ok kernel.countJob

-- The counter `i` of the loop only counts tasks that are not blocked.
def lotteryLoop (ticket : Nat) : Nat → Nat → Kernel config → Except Halt (Kernel config)
  | 0, _, _ => .error .spin
  | fuel + 1, i, kernel => do
      let kernel ← kernel.runQueueNext
      if kernel.blocked kernel.krnlTask then lotteryLoop ticket fuel i kernel
      else if i % kernel.krnlTasks.toNat ≠ ticket then lotteryLoop ticket fuel (i + 1) kernel
      else .ok kernel

def schedLottery (random : Nat) (kernel : Kernel config) : Except Halt (Nat × Kernel config) :=
  let r := random % kernel.krnlTasks.toNat
  if kernel.krnlRunQueue.hfQueueCount = 0 then .error (.panic .noTasksRun)
  else do
    let kernel ← lotteryLoop r (kernel.krnlRunQueue.hfQueueCount * kernel.krnlTasks.toNat) 0 kernel
    .ok kernel.countJob

/-- The outcome of the first loop of `sched_priorityrr`: a critical task, found at
`krnl_task`, or the candidate `krnl_task2`. -/
inductive PrioritySearch
  | critical
  | candidate (task : Option Nat)
deriving DecidableEq, Repr

def priorityLoop : Nat → UInt8 → Option Nat → Kernel config →
    Except Halt (PrioritySearch × Kernel config)
  | 0, _, task2, kernel => .ok (.candidate task2, kernel)
  | fuel + 1, highestp, task2, kernel => do
      let kernel ← kernel.runQueueNext
      let entry := kernel.krnlTcb kernel.krnlTask
      if entry.critical ≠ 0 ∧ entry.state ≠ .blocked then
        .ok (.critical, kernel.modify kernel.krnlTask fun entry => { entry with critical := 0 })
      else if entry.priorityRem < highestp ∧ entry.state ≠ .blocked then
        priorityLoop fuel entry.priorityRem (some kernel.krnlTask) kernel
      else priorityLoop fuel highestp task2 kernel

def chargeLoop (task2 : Nat) : Nat → Kernel config → Except Halt (Kernel config)
  | 0, kernel => .ok kernel
  | fuel + 1, kernel => do
      let kernel ← kernel.runQueueNext
      if kernel.krnlTask ≠ task2 then
        chargeLoop task2 fuel (kernel.modify kernel.krnlTask fun entry =>
          { entry with priorityRem := entry.priorityRem - (kernel.krnlTcb task2).priorityRem })
      else chargeLoop task2 fuel kernel

def schedPriorityrr (kernel : Kernel config) : Except Halt (Nat × Kernel config) :=
  let k := kernel.krnlRunQueue.hfQueueCount
  if k = 0 then .error (.panic .noTasksRun)
  else do
    let kernel ← kernel.runQueueNext
    let (found, kernel) ← priorityLoop k 255 none kernel
    match found with
    | .critical => .ok kernel.countJob
    | .candidate none => .error .nullDereference
    | .candidate (some task2) =>
        let kernel ← chargeLoop task2 k kernel
        let kernel := ({ kernel with krnlTask := task2 }).modify task2 fun entry =>
          { entry with priorityRem := entry.priority }
        .ok kernel.countJob

def sortPair (tcb : Nat → TcbEntry) (i j : Nat) (queue : RingQueue Nat config.maxTasks) :
    Except Halt (RingQueue Nat config.maxTasks) :=
  match queue.hfQueueGet i, queue.hfQueueGet j with
  | some e1, some e2 =>
      if (tcb e2).period < (tcb e1).period then
        match queue.hfQueueSwap i j with
        | (code, next) => if code ≠ 0 then .error (.panic .cantSwap) else .ok next
      else .ok queue
  | _, _ => .error .nullDereference

def sortInner (tcb : Nat → TcbEntry) (i : Nat) : Nat → Nat → RingQueue Nat config.maxTasks →
    Except Halt (RingQueue Nat config.maxTasks)
  | 0, _, queue => .ok queue
  | fuel + 1, j, queue => do
      let queue ← sortPair tcb i j queue
      sortInner tcb i fuel (j + 1) queue

-- `rows` is the number of values of `i` still to come, each with `rows` values of `j`.
def sortOuter (tcb : Nat → TcbEntry) : Nat → Nat → RingQueue Nat config.maxTasks →
    Except Halt (RingQueue Nat config.maxTasks)
  | 0, _, queue => .ok queue
  | rows + 1, i, queue => do
      let queue ← sortInner tcb i (rows + 1) (i + 1) queue
      sortOuter tcb rows (i + 1) queue

def rtAccount (selected : Bool) (entry : TcbEntry) : TcbEntry :=
  let charged := if selected then { entry with capacityRem := entry.capacityRem - 1 } else entry
  let ticked := { charged with deadlineRem := charged.deadlineRem - 1 }
  if ticked.deadlineRem = 0 then
    { ticked with
      deadlineRem := ticked.period
      deadlineMisses :=
        if 0 < ticked.capacityRem then ticked.deadlineMisses + 1 else ticked.deadlineMisses
      capacityRem := ticked.capacity }
  else ticked

def rtEligible (entry : TcbEntry) : Bool :=
  entry.state ≠ .blocked && 0 < entry.capacityRem

def rmaLoop : Nat → Nat → Kernel config → Except Halt (Nat × Kernel config)
  | 0, id, kernel => .ok (id, kernel)
  | fuel + 1, id, kernel => do
      let kernel ← kernel.rtQueueNext
      let entry := kernel.krnlTcb kernel.krnlTask
      let selected := rtEligible entry && id = 0
      let id := if selected then entry.id else id
      rmaLoop fuel id (kernel.modify kernel.krnlTask (rtAccount selected))

def schedRma (kernel : Kernel config) : Except Halt (Nat × Kernel config) :=
  let k := kernel.krnlRtQueue.hfQueueCount
  if k = 0 then .ok (0, kernel)
  else do
    let queue ← sortOuter kernel.krnlTcb (k - 1) 0 kernel.krnlRtQueue
    let (id, kernel) ← rmaLoop k 0 { kernel with krnlRtQueue := queue }
    if id ≠ 0 then
      .ok (id, ({ kernel with krnlTask := id }).modify id fun entry =>
        { entry with rtjobs := entry.rtjobs + 1 })
    else .ok (0, { kernel with krnlTask := 0 })

def bestEffort (random : Nat) (kernel : Kernel config) : Except Halt (Nat × Kernel config) :=
  match kernel.schedBe with
  | .rr => kernel.schedRr
  | .lottery => kernel.schedLottery random
  | .priorityrr => kernel.schedPriorityrr

def suspendCurrent (kernel : Kernel config) : Kernel config :=
  ({ kernel with krnlTask := kernel.krnlCurrentTask }).modify kernel.krnlCurrentTask fun entry =>
    { entry with state := if entry.state = TaskState.running then .ready else entry.state }

def switchTo (id : Nat) (kernel : Kernel config) : Kernel config :=
  ({ kernel with krnlCurrentTask := id }).modify kernel.krnlTask fun entry =>
    { entry with state := .running }

def dispatchIsr (around : Surroundings) (kernel : Kernel config) : Except Halt (Kernel config) :=
  if kernel.krnlSchedule = 0 then .ok kernel
  else
    let kernel := kernel.suspendCurrent
    if around.stackIntact = false then .error (.panic .stackOverflow)
    else if 0 < kernel.krnlTasks then do
      let kernel ← kernel.processDelayQueue
      let (id, kernel) ← kernel.schedRma
      let (id, kernel) ← if id = 0 then kernel.bestEffort around.random else .ok (id, kernel)
      let kernel := kernel.switchTo id
      .ok { kernel with preemptCswitch := kernel.preemptCswitch + 1 }
    else .error (.panic .noTasksLeft)

end Kernel

end Hellfire

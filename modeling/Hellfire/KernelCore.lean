import Mathlib.Logic.Function.Basic
import Hellfire.RingQueue

/-!
The kernel data of `sys/include/kernel.h`: task control blocks, the kernel
variables and the three task queues, with the ways in which the kernel can stop.
A pointer into `krnl_tcb` is the index of its slot.
-/

namespace Hellfire

inductive TaskState
  | idle
  | ready
  | running
  | blocked
  | delayed
  | waiting
deriving DecidableEq, Repr

inductive Panic
  | aborted
  | gpf
  | stackOverflow
  | stackCorrupt
  | noTasksLeft
  | oom
  | noTasksRun
  | noTasksRt
  | noTasksDelay
  | unknownTaskState
  | cantPlaceRun
  | cantPlaceDelay
  | cantPlaceRt
  | cantSwap
  | nutsSem
  | unknown
deriving DecidableEq, Repr

-- Besides a call of panic(), control is lost by using a NULL pointer or in an endless loop.
inductive Halt
  | panic (cause : Panic)
  | nullDereference
  | spin
deriving DecidableEq, Repr

def errOk : Int := 0
def errError : Int := -1
def errInvalidId : Int := -100
def errInvalidParameter : Int := -101
def errExceedMaxNum : Int := -103
def errOutOfMemory : Int := -104

/-- The build's `MAX_TASKS`. Task ids are `uint16_t`, with `-1` for no task. -/
structure Config where
  maxTasks : Nat
  positive : 0 < maxTasks
  representable : maxTasks ≤ 65535

def noId : Nat := 65535

structure TcbEntry where
  id : Nat
  name : List UInt8
  state : TaskState
  priority : UInt8
  priorityRem : UInt8
  critical : UInt8
  delay : UInt32
  rtjobs : UInt32
  bgjobs : UInt32
  deadlineMisses : UInt32
  period : UInt16
  capacity : UInt16
  deadline : UInt16
  capacityRem : UInt16
  deadlineRem : UInt16
  contextSp : Nat
  contextTp : Nat
  ptask : Nat
  pstack : Nat
  stackSize : UInt32
deriving DecidableEq, Repr

inductive BestEffort
  | rr
  | lottery
  | priorityrr
deriving DecidableEq, Repr

structure Kernel (config : Config) where
  krnlTcb : Nat → TcbEntry
  krnlTask : Nat
  krnlTasks : UInt16
  krnlCurrentTask : Nat
  krnlSchedule : UInt16
  krnlRunQueue : RingQueue Nat config.maxTasks
  krnlDelayQueue : RingQueue Nat config.maxTasks
  krnlRtQueue : RingQueue Nat config.maxTasks
  schedBe : BestEffort
  coopCswitch : UInt32
  preemptCswitch : UInt32

/-- What a context switch takes from outside the kernel data: whether the stack of the
interrupted task still carries its magic word, and the value of `random()`. -/
structure Surroundings where
  stackIntact : Bool
  random : Nat
deriving DecidableEq, Repr

theorem Config.addressable (config : Config) : config.maxTasks + 1 < 1073741824 := by
  have := config.representable
  omega

namespace Kernel

variable {config : Config}

def modify (kernel : Kernel config) (slot : Nat) (change : TcbEntry → TcbEntry) : Kernel config :=
  { kernel with krnlTcb := Function.update kernel.krnlTcb slot (change (kernel.krnlTcb slot)) }

def live (kernel : Kernel config) (slot : Nat) : Bool :=
  slot < config.maxTasks && (kernel.krnlTcb slot).ptask ≠ 0

@[simp] theorem modify_same (kernel : Kernel config) (slot : Nat) (change : TcbEntry → TcbEntry) :
    (kernel.modify slot change).krnlTcb slot = change (kernel.krnlTcb slot) := by
  simp [modify]

theorem modify_other (kernel : Kernel config) {slot other : Nat} (change : TcbEntry → TcbEntry)
    (different : other ≠ slot) :
    (kernel.modify slot change).krnlTcb other = kernel.krnlTcb other := by
  simp [modify, different]

@[simp] theorem modify_krnlTasks (kernel : Kernel config) (slot : Nat) (change : TcbEntry → TcbEntry) :
    (kernel.modify slot change).krnlTasks = kernel.krnlTasks := rfl

@[simp] theorem modify_krnlTask (kernel : Kernel config) (slot : Nat) (change : TcbEntry → TcbEntry) :
    (kernel.modify slot change).krnlTask = kernel.krnlTask := rfl

@[simp] theorem modify_current (kernel : Kernel config) (slot : Nat) (change : TcbEntry → TcbEntry) :
    (kernel.modify slot change).krnlCurrentTask = kernel.krnlCurrentTask := rfl

@[simp] theorem modify_run (kernel : Kernel config) (slot : Nat) (change : TcbEntry → TcbEntry) :
    (kernel.modify slot change).krnlRunQueue = kernel.krnlRunQueue := rfl

@[simp] theorem modify_rt (kernel : Kernel config) (slot : Nat) (change : TcbEntry → TcbEntry) :
    (kernel.modify slot change).krnlRtQueue = kernel.krnlRtQueue := rfl

@[simp] theorem modify_delay (kernel : Kernel config) (slot : Nat) (change : TcbEntry → TcbEntry) :
    (kernel.modify slot change).krnlDelayQueue = kernel.krnlDelayQueue := rfl

/-- `clear_tcb` and `init_queues` of `main.c`, every allocation of the queues succeeding. -/
def cleared (config : Config) (schedBe : BestEffort) : Kernel config where
  krnlTcb := fun _ => {
    id := noId
    name := List.replicate 20 0
    state := .idle
    priority := 0
    priorityRem := 0
    critical := 0
    delay := 0
    rtjobs := 0
    bgjobs := 0
    deadlineMisses := 0
    period := 0
    capacity := 0
    deadline := 0
    capacityRem := 0
    deadlineRem := 0
    contextSp := 0
    contextTp := 0
    ptask := 0
    pstack := 0
    stackSize := 0
  }
  krnlTask := config.maxTasks - 1
  krnlTasks := 0
  krnlCurrentTask := 0
  krnlSchedule := 0
  krnlRunQueue := .create config.maxTasks config.addressable
  krnlDelayQueue := .create config.maxTasks config.addressable
  krnlRtQueue := .create config.maxTasks config.addressable
  schedBe
  coopCswitch := 0
  preemptCswitch := 0

end Kernel

/-- Takes `task` out of a queue as `hf_kill` and `hf_delay` do: search, swap down to the
head, remove the head. -/
def takeTask {capacity : Nat} (ring : RingQueue Nat capacity) (task : Nat) (absent : Panic) :
    Except Halt (Option Nat × RingQueue Nat capacity) :=
  let k := ring.hfQueueCount
  let i := ring.search task
  if k = 0 ∨ i = k then .error (.panic absent)
  else
    match ring.walkToHead i with
    | none => .error (.panic .cantSwap)
    | some next => .ok next.hfQueueRemhead

def placeTask {capacity : Nat} (ring : RingQueue Nat capacity) (task : Option Nat)
    (cantPlace : Panic) : Except Halt (RingQueue Nat capacity) :=
  match ring.hfQueueAddtail task with
  | (code, next) => if code ≠ 0 then .error (.panic cantPlace) else .ok next

def rotateTask {capacity : Nat} (ring : RingQueue Nat capacity) (absent cantPlace : Panic) :
    Except Halt (Nat × RingQueue Nat capacity) :=
  match ring.hfQueueRemhead with
  | (none, _) => .error (.panic absent)
  | (some task, rest) => do
      let next ← placeTask rest (some task) cantPlace
      .ok (task, next)

section QueuePrograms

variable {capacity : Nat} (ring : RingQueue Nat capacity)

theorem takeTask_absent (task : Nat) (absent : Panic) (missing : some task ∉ ring.contents) :
    takeTask ring task absent = .error (.panic absent) := by
  have last : ring.contents.idxOf (some task) = ring.contents.length :=
    List.idxOf_eq_length missing
  simp [takeTask, RingQueue.search_eq, last]

theorem takeTask_present (task : Nat) (absent : Panic) (present : some task ∈ ring.contents) :
    ∃ next, takeTask ring task absent = .ok (some task, next) ∧
      next.contents = ring.contents.erase (some task) := by
  have bound : ring.contents.idxOf (some task) < ring.contents.length :=
    List.idxOf_lt_length_of_mem present
  obtain ⟨walked, walk, front⟩ := RingQueue.walkToHead_eq _ ring bound
  rw [ListSwap.walkToFront_eq _ _ _ bound, List.getD_eq_getElem _ _ bound,
    List.getElem_idxOf, List.eraseIdx_idxOf_eq_erase] at front
  obtain ⟨next, removed, rest⟩ := walked.hfQueueRemhead_cons front
  refine ⟨next, ?_, rest⟩
  have nonempty : ring.contents ≠ [] := List.ne_nil_of_mem present
  simp only [takeTask, RingQueue.search_eq, RingQueue.hfQueueCount_eq, walk, removed]
  rw [if_neg]
  rintro (empty | last)
  · exact nonempty (List.length_eq_zero_iff.mp empty)
  · omega

theorem placeTask_room (task : Option Nat) (cantPlace : Panic)
    (room : ring.contents.length < capacity) :
    ∃ next, placeTask ring task cantPlace = .ok next ∧ next.contents = ring.contents ++ [task] := by
  obtain ⟨next, added, contents⟩ := ring.hfQueueAddtail_room task room
  exact ⟨next, by simp [placeTask, added], contents⟩

theorem rotateTask_cons (absent cantPlace : Panic) {task : Nat} {rest : List (Option Nat)}
    (stored : ring.contents = some task :: rest) :
    ∃ next, rotateTask ring absent cantPlace = .ok (task, next) ∧
      next.contents = rest ++ [some task] := by
  obtain ⟨shorter, removed, remaining⟩ := ring.hfQueueRemhead_cons stored
  have bounded := ring.contents_length_le
  rw [stored, List.length_cons] at bounded
  obtain ⟨next, placed, contents⟩ := placeTask_room shorter (some task) cantPlace
    (by rw [remaining]; omega)
  refine ⟨next, ?_, by rw [contents, remaining]⟩
  simp [rotateTask, removed, placed, bind, Except.bind]

end QueuePrograms

end Hellfire

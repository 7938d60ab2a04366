import Hellfire.KernelCore
import Hellfire.Library.Machine

/-!
Executable model of `sys/sync/mutex.c` with `MUTEX_TYPE` 1, Peterson's algorithm. The lock is
taken to have an entry of `waiting` for every level that the code uses. A task runs
from one access of the lock's memory to the next.
-/

namespace Hellfire

structure FilterMutex where
  level : Nat → UInt8
  waiting : Nat → UInt8

namespace FilterMutex

def setLevel (mutex : FilterMutex) (i l : Nat) : FilterMutex :=
  { mutex with level := Function.update mutex.level i (UInt8.ofNat l) }

def setWaiting (mutex : FilterMutex) (l i : Nat) : FilterMutex :=
  { mutex with waiting := Function.update mutex.waiting l (UInt8.ofNat i) }

/-- The two loops of `hf_mtxinit`; the second leaves the last level's entry as it was. -/
def hfMtxinit (maxTasks : Nat) (mutex : FilterMutex) : FilterMutex :=
  let cleared := (List.range maxTasks).foldl (fun m i => m.setLevel i 0) mutex
  (List.range (maxTasks - 1)).foldl (fun m i => m.setWaiting i 0) cleared

end FilterMutex

/-- Where a task is in its calls. `testLevel` and `testWaiting` are the two memory accesses in
the condition of the `while` loop of `hf_mtxlock`. -/
inductive FilterPc
  | outside
  | setLevel (l : Nat)
  | setWaiting (l : Nat)
  | testLevel (l k : Nat)
  | testWaiting (l k : Nat)
  | inside
  | clearLevel
deriving DecidableEq, Repr

structure FilterWorld (config : Config) where
  mutex : FilterMutex
  pc : Nat → FilterPc

namespace FilterWorld

variable {config : Config}

def levelLoop (config : Config) (l : Nat) : FilterPc :=
  if l < config.maxTasks then .setLevel l else .inside

def moveTo (world : FilterWorld config) (i : Nat) (pc : FilterPc) : FilterWorld config :=
  { world with pc := Function.update world.pc i pc }

/-- One step of the task whose `hf_selfid()` is `i`: it calls `hf_mtxlock`, goes on in it, or
leaves through `hf_mtxunlock`. -/
def step (i : Nat) (world : FilterWorld config) : FilterWorld config :=
  match world.pc i with
  | .outside => world.moveTo i (levelLoop config 1)
  | .setLevel l => ({ world with mutex := world.mutex.setLevel i l }).moveTo i (.setWaiting l)
  | .setWaiting l => ({ world with mutex := world.mutex.setWaiting l i }).moveTo i (.testLevel l 0)
  | .testLevel l k =>
      if k < config.maxTasks then
        if k ≠ i ∧ l ≤ (world.mutex.level k).toNat then world.moveTo i (.testWaiting l k)
        else world.moveTo i (.testLevel l (k + 1))
      else world.moveTo i (levelLoop config (l + 1))
  | .testWaiting l k =>
      if (world.mutex.waiting l).toNat = i then world.moveTo i (.testLevel l k)
      else world.moveTo i (.testLevel l (k + 1))
  | .inside => world.moveTo i .clearLevel
  | .clearLevel => ({ world with mutex := world.mutex.setLevel i 0 }).moveTo i .outside

def start (config : Config) (memory : FilterMutex) : FilterWorld config where
  mutex := memory.hfMtxinit config.maxTasks
  pc := fun _ => .outside

def turn (i : Nat) (world : FilterWorld config) : Except Halt (FilterWorld config) :=
  .ok (world.step i)

def Reached (memory : FilterMutex) (world : FilterWorld config) : Prop :=
  Machine.Reaches turn (fun i _ => i < config.maxTasks) (start config memory) world

def holds (world : FilterWorld config) (i : Nat) : Prop :=
  world.pc i = .inside ∨ world.pc i = .clearLevel

end FilterWorld

end Hellfire

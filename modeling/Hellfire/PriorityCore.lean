import Hellfire.TaskCore

/-!
Executable model of `hf_priorityset` in `sys/kernel/task.c`, and the steps of a system whose
tasks are scheduled by priority.
-/

namespace Hellfire

namespace Kernel

variable {config : Config}

def hfPriorityset (id : Nat) (priority : UInt8) (kernel : Kernel config) : Int × Kernel config :=
  if id < config.maxTasks then
    if (kernel.krnlTcb id).ptask ≠ 0 then
      if (kernel.krnlTcb id).period = 0 then
        (errOk, kernel.modify id fun entry =>
          { entry with priority := priority, priorityRem := priority })
      else (errInvalidId, kernel)
    else (errInvalidId, kernel)
  else (errInvalidId, kernel)

end Kernel

inductive PriorityOp
  | spawn (call : SpawnCall)
  | priorityset (id : Nat) (priority : UInt8)
  | block (id : Nat)
  | resume (id : Nat)
  | delay (id : Nat) (ticks : UInt32)
  | schedPriorityrr
  | schedRr
  | schedLottery (random : Nat)
  | schedRma
  | yield (around : Surroundings)
  | dispatch (around : Surroundings)
deriving DecidableEq, Repr

namespace Kernel

variable {config : Config}

def prioritized : PriorityOp → Kernel config → Except Halt (Kernel config)
  | .spawn call, kernel => (kernel.hfSpawn call).map Prod.snd
  | .priorityset id priority, kernel => .ok (kernel.hfPriorityset id priority).2
  | .block id, kernel => .ok (kernel.hfBlock id).2
  | .resume id, kernel => .ok (kernel.hfResume id).2
  | .delay id ticks, kernel => (kernel.hfDelay id ticks).map Prod.snd
  | .schedPriorityrr, kernel => kernel.schedPriorityrr.map Prod.snd
  | .schedRr, kernel => kernel.schedRr.map Prod.snd
  | .schedLottery random, kernel => (kernel.schedLottery random).map Prod.snd
  | .schedRma, kernel => kernel.schedRma.map Prod.snd
  | .yield around, kernel => kernel.hfYield around
  | .dispatch around, kernel => kernel.dispatchIsr around

end Kernel

end Hellfire

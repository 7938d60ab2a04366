import Hellfire.NocCore
import Hellfire.TaskCore

/-!
Executable model of the receiving side of `drivers/noc/noc.c` on one core: `ni_init`, the
interrupt handler and the calls of the tasks, each as the steps that other tasks and the
interrupt can fall between. A queue that was destroyed is no longer there, and its address
may be given out again.
-/

namespace Hellfire

structure Making where
  owner : Nat
  port : UInt16
  life : Nat
deriving DecidableEq, Repr

structure CommQueue where
  capacity : Nat
  ring : RingQueue Buffer capacity
  making : Making

inductive CommCall
  | idle
  | recv (call : RecvCall)
  | createQueue (making : Making) (packets : UInt16)
  | createPort (making : Making)
  | destroyDrain (id : Nat)
  | destroyTest (id : Nat)
  | destroyFree (id : Nat) (address : Nat)
  | destroyPort (id : Nat)
  | returned (code : Int)
deriving DecidableEq, Repr

/-- One core. `pktdrv_tqueue` holds addresses and `queues` the queues that are there; `lives`
counts the tasks that a slot has had, and `made` is what `hf_comm_create` last stored for a slot,
until that queue is destroyed. -/
structure Noc (noc : NocConfig) where
  kernel : Kernel noc.toConfig
  pktdrvPorts : Nat → UInt16
  pktdrvTqueue : Nat → Nat
  pktdrvQueue : RingQueue Buffer noc.nocPacketSlots
  queues : Nat → Option CommQueue
  isr : Option Buffer
  calls : Nat → CommCall
  lives : Nat → Nat
  made : Nat → Option Making

inductive NocOp
  | arrive (packet : Packet)
  | deliver
  | recv (task : Nat) (channel : UInt16)
  | create (task : Nat) (id port packets : UInt16)
  | destroy (task : Nat) (id : UInt16)
  | advance (task : Nat) (address : Nat)
  | kernel (op : KernelOp)
deriving DecidableEq, Repr

theorem NocConfig.queueAddressable (noc : NocConfig) : noc.nocPacketSlots + 1 < 1073741824 := by
  have := noc.slots
  omega

namespace Noc

variable {noc : NocConfig}

def fillPool : Nat → Nat → RingQueue Buffer noc.nocPacketSlots →
    RingQueue Buffer noc.nocPacketSlots
  | 0, _, pool => pool
  | more + 1, i, pool =>
      fillPool more (i + 1) (pool.hfQueueAddtail (some ⟨i, ⟨[], ⟨0, 0, 0⟩⟩⟩)).2

def niInit (kernel : Kernel noc.toConfig) : Noc noc where
  kernel := kernel
  pktdrvPorts := fun _ => 0
  pktdrvTqueue := fun _ => 0
  pktdrvQueue := fillPool noc.nocPacketSlots 0 (.create noc.nocPacketSlots noc.queueAddressable)
  queues := fun _ => none
  isr := none
  calls := fun _ => .idle
  lives := fun _ => 0
  made := fun _ => none

def setCall (core : Noc noc) (task : Nat) (call : CommCall) : Noc noc :=
  { core with calls := Function.update core.calls task call }

def setRing (core : Noc noc) (address : Nat) (queue : CommQueue)
    (ring : RingQueue Buffer queue.capacity) : Noc noc :=
  { core with queues := Function.update core.queues address (some { queue with ring }) }

def queueAt (core : Noc noc) (address : Nat) : Except CommFault CommQueue :=
  if address = 0 then .error .nullQueue
  else
    match core.queues address with
    | none => .error .destroyedQueue
    | some queue => .ok queue

/-- `for (k = 0; k < MAX_TASKS; k++) if (pktdrv_ports[k] == port) break;`. -/
def portSlotFrom (pktdrvPorts : Nat → UInt16) (port : UInt16) : Nat → Nat → Nat
  | 0, k => k
  | fuel + 1, k => if pktdrvPorts k = port then k else portSlotFrom pktdrvPorts port fuel (k + 1)

def portSlot (core : Noc noc) (port : UInt16) : Nat :=
  portSlotFrom core.pktdrvPorts port noc.maxTasks 0

def alive (core : Noc noc) (id : Nat) : Bool := (core.kernel.krnlTcb id).ptask ≠ 0

/-- The interrupt up to `ni_read_packet`. Without a buffer the packet is flushed. -/
def niFetch (packet : Packet) (core : Noc noc) : Noc noc :=
  match core.pktdrvQueue.hfQueueRemhead with
  | (none, pool) => { core with pktdrvQueue := pool }
  | (some bufPtr, pool) =>
      { core with pktdrvQueue := pool, isr := some { bufPtr with packet } }

def niDrop (bufPtr : Buffer) (core : Noc noc) : List Int × Noc noc :=
  match core.pktdrvQueue.hfQueueAddtail (some bufPtr) with
  | (code, pool) => ([code], { core with pktdrvQueue := pool, isr := none })

def niDeliver (bufPtr : Buffer) (core : Noc noc) : Except CommFault (List Int × Noc noc) :=
  if bufPtr.flit pktPayload ≠ UInt16.ofNat (noc.nocPacketSize - 2) then .ok (core.niDrop bufPtr)
  else
    let k := core.portSlot (bufPtr.flit pktTargetPort)
    if k < noc.maxTasks ∧ core.alive k = true then do
      let queue ← core.queueAt (core.pktdrvTqueue k)
      match queue.ring.hfQueueAddtail (some bufPtr) with
      | (code, ring) =>
          if code ≠ 0 then .ok (core.niDrop bufPtr)
          else .ok ([], { core.setRing (core.pktdrvTqueue k) queue ring with isr := none })
    else .ok (core.niDrop bufPtr)

def niIsr (packet : Packet) (core : Noc noc) : Except CommFault (List Int × Noc noc) :=
  let core := core.niFetch packet
  match core.isr with
  | none => .ok ([], core)
  | some bufPtr => core.niDeliver bufPtr

def hfRecv (task : Nat) (channel : UInt16) (core : Noc noc) : Noc noc :=
  if core.pktdrvTqueue task = 0 then core.setCall task (.returned errCommUnfeasible)
  else core.setCall task (.recv (.start channel))

def hfRecvprobe (task : Nat) (core : Noc noc) : Except CommFault Int :=
  if core.pktdrvTqueue task = 0 then .ok errCommUnfeasible
  else do
    let queue ← core.queueAt (core.pktdrvTqueue task)
    if queue.ring.hfQueueCount = 0 then .ok errCommEmpty
    else
      match queue.ring.hfQueueGet 0 with
      | none => .ok errCommEmpty
      | some bufPtr =>
          if bufPtr.flit pktChannel = 0xffff then .ok errCommEmpty
          else .ok (bufPtr.flit pktChannel).toNat

def hfSend (task : Nat) (call : SendCall) (core : Noc noc) : Int × List (List UInt16) :=
  if core.pktdrvTqueue task = 0 then (errCommUnfeasible, [])
  else (errOk, SendCall.hfSend noc
    { call with sourceCpu := noc.cpuId, sourcePort := core.pktdrvPorts task })

def hfCommCreate (task : Nat) (id port packets : UInt16) (core : Noc noc) : Noc noc :=
  let id := id.toNat
  if noc.maxTasks ≤ id ∨ core.alive id = false then core.setCall task (.returned errInvalidId)
  else if core.pktdrvTqueue id ≠ 0 then core.setCall task (.returned errCommUnfeasible)
  else if core.portSlot port = 0 ∨ core.portSlot port < noc.maxTasks then
    core.setCall task (.returned errCommError)
  else
    let slots := UInt16.ofNat noc.nocPacketSlots
    let packets := if slots < packets ∨ packets = 0 then slots else packets
    core.setCall task (.createQueue ⟨id, port, core.lives id⟩ packets)

def hfCommDestroy (task : Nat) (id : UInt16) (core : Noc noc) : Noc noc :=
  let id := id.toNat
  if noc.maxTasks ≤ id ∨ core.alive id = false then core.setCall task (.returned errInvalidId)
  else core.setCall task (.destroyDrain id)

/-- `while (hf_queue_count(q)) hf_queue_addtail(pktdrv_queue, hf_queue_remhead(q))`. -/
def drain {capacity : Nat} : Nat → RingQueue Buffer noc.nocPacketSlots →
    RingQueue Buffer capacity →
    List Int × RingQueue Buffer noc.nocPacketSlots × RingQueue Buffer capacity
  | 0, pool, ring => ([], pool, ring)
  | fuel + 1, pool, ring =>
      if ring.hfQueueCount = 0 then ([], pool, ring)
      else
        let (bufPtr, ring) := ring.hfQueueRemhead
        let (code, pool) := pool.hfQueueAddtail bufPtr
        let (codes, pool, ring) := drain fuel pool ring
        (code :: codes, pool, ring)

def emptyQueue (packets : UInt16) (making : Making) : CommQueue where
  capacity := packets.toNat
  ring := .create packets.toNat (by have := packets.toNat_lt; omega)
  making := making

/-- The next step of the call that a task is executing, with the address that `hf_malloc`
returns for a new queue, or 0. -/
def advance (task address : Nat) (core : Noc noc) : Except CommFault (List Int × Noc noc) :=
  match core.calls task with
  | .idle | .returned _ => .ok ([], core)
  | .recv call => do
      let queue ← core.queueAt (core.pktdrvTqueue task)
      let turn ← call.step noc core.pktdrvQueue queue.ring
      let core := { core.setRing (core.pktdrvTqueue task) queue turn.queue with
        pktdrvQueue := turn.pktdrvQueue }
      .ok (turn.codes, core.setCall task (.recv turn.call))
  | .createQueue making packets =>
      let core := { core with
        pktdrvTqueue := Function.update core.pktdrvTqueue making.owner address }
      if address = 0 then
        let core := { core with made := Function.update core.made making.owner none }
        .ok ([], core.setCall task (.returned errOutOfMemory))
      else
        let core := { core with
          queues := Function.update core.queues address (some (emptyQueue packets making))
          made := Function.update core.made making.owner (some making) }
        .ok ([], core.setCall task (.createPort making))
  | .createPort making =>
      let core := { core with
        pktdrvPorts := Function.update core.pktdrvPorts making.owner making.port }
      .ok ([], core.setCall task (.returned errOk))
  | .destroyDrain id => do
      let queue ← core.queueAt (core.pktdrvTqueue id)
      let (codes, pool, ring) := drain queue.ring.hfQueueCount core.pktdrvQueue queue.ring
      let core := { core.setRing (core.pktdrvTqueue id) queue ring with pktdrvQueue := pool }
      .ok (codes, core.setCall task (.destroyTest id))
  | .destroyTest id => do
      let queue ← core.queueAt (core.pktdrvTqueue id)
      if queue.ring.queue.hfQueueDestroy ≠ 0 then
        .ok ([], core.setCall task (.returned errCommError))
      else .ok ([], core.setCall task (.destroyFree id (core.pktdrvTqueue id)))
  | .destroyFree id address => do
      let queue ← core.queueAt address
      let core := { core with
        queues := Function.update core.queues address none
        made := if core.pktdrvTqueue queue.making.owner = address then
            Function.update core.made queue.making.owner none
          else core.made }
      .ok ([], core.setCall task (.destroyPort id))
  | .destroyPort id =>
      let core := { core with pktdrvPorts := Function.update core.pktdrvPorts id 0 }
      .ok ([], core.setCall task (.returned errOk))

/-- A kernel call. A slot that gets a task starts a new life, and what the task of a slot that
loses it was executing is over. -/
def kernelStep (op : KernelOp) (core : Noc noc) : Except CommFault (Noc noc) :=
  match core.kernel.perform op with
  | .error halt => .error (.halted halt)
  | .ok kernel => .ok { core with
      kernel
      calls := fun id => if (kernel.krnlTcb id).ptask = 0 then .idle else core.calls id
      lives := fun id =>
        if (core.kernel.krnlTcb id).ptask = 0 ∧ (kernel.krnlTcb id).ptask ≠ 0 then
          core.lives id + 1
        else core.lives id }

/-- One step, with the codes of the calls of `hf_queue_addtail` whose result is ignored. -/
def turn : NocOp → Noc noc → Except CommFault (List Int × Noc noc)
  | .arrive packet, core => .ok ([], core.niFetch packet)
  | .deliver, core =>
      match core.isr with
      | none => .ok ([], core)
      | some bufPtr => core.niDeliver bufPtr
  | .recv task channel, core => .ok ([], core.hfRecv task channel)
  | .create task id port packets, core => .ok ([], core.hfCommCreate task id port packets)
  | .destroy task id, core => .ok ([], core.hfCommDestroy task id)
  | .advance task address, core => core.advance task address
  | .kernel op, core => (core.kernelStep op).map fun core => ([], core)

def step (op : NocOp) (core : Noc noc) : Except CommFault (Noc noc) :=
  (core.turn op).map Prod.snd

end Noc

end Hellfire

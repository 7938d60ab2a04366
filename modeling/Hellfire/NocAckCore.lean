import Hellfire.NocTraffic

/-!
Executable model of `hf_sendack` and `hf_recvack` of `drivers/noc/noc.c` on any number of cores
with a network between them, which delivers packets late and in any order.
-/

namespace Hellfire

structure SentMessage where
  call : SendCall
  answers : Option Nat

/-- What a task is executing besides the calls of its core: the number of its message with the count of
receptions when it started, and the packets that are not yet written. Without a packet left, `hf_send`
is in the pause at its end. -/
inductive AckPhase
  | idle
  | sending (call : SendCall) (number mark : Nat) (packets : List Packet)
  | waiting (call : SendCall) (number mark : Nat)
  | acknowledged (call : SendCall) (number mark : Nat)
  | receiving
  | answering (received : RecvCall) (target : UInt16) (number : Nat) (packets : List Packet)
  | returned (code : Int)

def AckPhase.starts : AckPhase → Bool
  | .idle | .returned _ => true
  | _ => false

def AckPhase.answers : AckPhase → Bool
  | .answering _ _ _ _ => true
  | _ => false

/-- What a call of `hf_recvack` received without an error: an entry when its `hf_recv` returned and
one when the call itself did. -/
structure Reception where
  cpu : UInt16
  port : UInt16
  received : RecvCall
  completed : Bool

/-- A call of `hf_sendack` that returned `ERR_OK`, with the counts of receptions when it started
and when it returned, and whether a task of the target port was in the `hf_send` of `hf_recvack`. -/
structure Acknowledged where
  call : SendCall
  mark : Nat
  upto : Nat
  pausing : Bool

/-- The cores, what their tasks are executing and the packets on the network, with the messages
that were sent and what the calls received and returned. -/
structure AckNet (noc : NocConfig) where
  cores : UInt16 → Noc noc
  phases : UInt16 → Nat → AckPhase
  flying : List (UInt16 × Packet)
  sent : List SentMessage
  receptions : List Reception
  log : List Acknowledged

inductive AckOp
  | core (cpu : UInt16) (op : NocOp)
  | arrive (place : Nat)
  | sendAck (cpu : UInt16) (task : Nat) (targetCpu targetPort : UInt16) (buf : Nat → UInt8)
      (size channel : UInt16)
  | write (cpu : UInt16) (task : Nat)
  | look (cpu : UInt16) (task : Nat)
  | giveUp (cpu : UInt16) (task : Nat)
  | recvAck (cpu : UInt16) (task : Nat) (channel : UInt16)

namespace AckNet

variable {noc : NocConfig}

def ackChannel : UInt16 := 0xffff
def ackSize : UInt16 := 3

def ackText : Nat → UInt8
  | 0 => 111
  | 1 => 107
  | _ => 0

def setPhase (net : AckNet noc) (cpu : UInt16) (task : Nat) (phase : AckPhase) : AckNet noc :=
  { net with phases := Function.update net.phases cpu (Function.update (net.phases cpu) task phase) }

def setCore (net : AckNet noc) (cpu : UInt16) (core : Noc noc) : AckNet noc :=
  { net with cores := Function.update net.cores cpu core }

def nextPackets (net : AckNet noc) (cpu : UInt16) (call : SendCall) : List Packet :=
  call.packets noc cpu.toNat net.sent.length

def ackCall (net : AckNet noc) (cpu : UInt16) (task : Nat) (received : RecvCall) : SendCall where
  sourceCpu := cpu
  sourcePort := (net.cores cpu).pktdrvPorts task
  targetCpu := received.sourceCpu
  targetPort := received.sourcePort
  buf := ackText
  size := ackSize
  channel := ackChannel

def pausing (net : AckNet noc) (cpu port : UInt16) : Bool :=
  (List.range noc.maxTasks).any fun task =>
    (net.cores cpu).pktdrvPorts task = port && (net.phases cpu task).answers

/-- What follows the return of `hf_recv`. The result of `hf_sendack` is that of its `hf_send`. -/
def settle (net : AckNet noc) (cpu : UInt16) (task : Nat) : AckNet noc :=
  match (net.cores cpu).receiving task with
  | none => net
  | some received =>
      if received.point ≠ .returned then net
      else
        match net.phases cpu task with
        | .acknowledged call _ mark =>
            let pausing := net.pausing call.targetCpu call.targetPort
            let entry : Acknowledged := ⟨call, mark, net.receptions.length, pausing⟩
            let net := { net with log := net.log ++ [entry] }
            net.setPhase cpu task (.returned errOk)
        | .receiving =>
            if received.error = errOk then
              let call := net.ackCall cpu task received
              let packets := net.nextPackets cpu call
              let number := net.sent.length
              let message : SentMessage := ⟨call, received.number⟩
              let reception : Reception := ⟨cpu, (net.cores cpu).pktdrvPorts task, received, false⟩
              let net := { net with
                sent := net.sent ++ [message]
                receptions := net.receptions ++ [reception] }
              net.setPhase cpu task (.answering received received.sourceCpu number packets)
            else net.setPhase cpu task (.returned received.error)
        | _ => net

def hfSendack (net : AckNet noc) (cpu : UInt16) (task : Nat) (targetCpu targetPort : UInt16)
    (buf : Nat → UInt8) (size channel : UInt16) : AckNet noc :=
  let core := net.cores cpu
  if core.pktdrvTqueue task = 0 then net.setPhase cpu task (.returned errCommUnfeasible)
  else
    let call : SendCall := ⟨cpu, core.pktdrvPorts task, targetCpu, targetPort, buf, size, channel⟩
    let packets := net.nextPackets cpu call
    let number := net.sent.length
    let message : SentMessage := ⟨call, none⟩
    let net := { net with sent := net.sent ++ [message] }
    net.setPhase cpu task (.sending call number net.receptions.length packets)

def hfSendWrite (net : AckNet noc) (cpu : UInt16) (task : Nat) : AckNet noc :=
  match net.phases cpu task with
  | .sending call number mark (packet :: rest) =>
      let net := { net with flying := net.flying ++ [(call.targetCpu, packet)] }
      net.setPhase cpu task (.sending call number mark rest)
  | .sending call number mark [] => net.setPhase cpu task (.waiting call number mark)
  | .answering received target number (packet :: rest) =>
      let net := { net with flying := net.flying ++ [(target, packet)] }
      net.setPhase cpu task (.answering received target number rest)
  | .answering received _ _ [] =>
      let reception : Reception := ⟨cpu, (net.cores cpu).pktdrvPorts task, received, true⟩
      let net := { net with receptions := net.receptions ++ [reception] }
      net.setPhase cpu task (.returned errOk)
  | _ => net

def lookForAck (net : AckNet noc) (cpu : UInt16) (task : Nat) : Except CommFault (AckNet noc) :=
  let core := net.cores cpu
  match net.phases cpu task with
  | .waiting call number mark => do
      let queue ← core.queueAt (core.pktdrvTqueue task)
      if queue.ring.hfQueueCount = 0 then .ok net
      else
        match queue.ring.hfQueueGet 0 with
        | none => .ok net
        | some bufPtr =>
            if bufPtr.flit pktChannel = ackChannel ∧ bufPtr.flit pktMsgSize = ackSize then
              .ok ((net.setCore cpu (core.hfRecv task ackChannel)).setPhase cpu task
                (.acknowledged call number mark))
            else .ok net
  | _ => .ok net

def step : AckOp → AckNet noc → Except CommFault (AckNet noc)
  | .core cpu op, net => ((net.cores cpu).step op).map fun core =>
      match op with
      | .advance task _ => (net.setCore cpu core).settle cpu task
      | _ => net.setCore cpu core
  | .arrive place, net =>
      match net.flying[place]? with
      | none => .ok net
      | some (cpu, packet) => ((net.cores cpu).step (.arrive packet)).map fun core =>
          { net with flying := net.flying.eraseIdx place }.setCore cpu core
  | .sendAck cpu task targetCpu targetPort buf size channel, net =>
      .ok (net.hfSendack cpu task targetCpu targetPort buf size channel)
  | .write cpu task, net => .ok (net.hfSendWrite cpu task)
  | .look cpu task, net => net.lookForAck cpu task
  | .giveUp cpu task, net =>
      match net.phases cpu task with
      | .waiting _ _ _ => .ok (net.setPhase cpu task (.returned errCommTimeout))
      | _ => .ok net
  | .recvAck cpu task channel, net =>
      let core := net.cores cpu
      if core.pktdrvTqueue task = 0 then
        .ok (net.setPhase cpu task (.returned errCommUnfeasible))
      else .ok ((net.setCore cpu (core.hfRecv task channel)).setPhase cpu task .receiving)

end AckNet

end Hellfire

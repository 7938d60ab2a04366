import Hellfire.KernelCore

/-!
Packets of the network-on-chip driver `drivers/noc/noc.c`: how `hf_send` splits a message
and how `hf_recv` searches the queue of its task for the packets of one. A section between
`_di` and `_ei` is one step, and so is every look at the head of the queue. A pointer to a
packet buffer is the buffer itself, which only its holder writes.
-/

namespace Hellfire

def errCommTimeout : Int := -203
def errSeqError : Int := -204
def errCommUnfeasible : Int := -206
def errCommError : Int := -207
def errCommEmpty : Int := -208

def pktHeaderSize : Nat := 8
def pktPayload : Nat := 1
def pktSourceCpu : Nat := 2
def pktSourcePort : Nat := 3
def pktTargetPort : Nat := 4
def pktMsgSize : Nat := 5
def pktSeq : Nat := 6
def pktChannel : Nat := 7

/-- The build's `CPU_ID`, `NOC_WIDTH`, `NOC_PACKET_SIZE` (in flits) and `NOC_PACKET_SLOTS`.
The payload of a packet and the number of slots are kept in `uint16_t` variables. -/
structure NocConfig extends Config where
  cpuId : UInt16
  nocWidth : Nat
  nocPacketSize : Nat
  nocPacketSlots : Nat
  header : 8 < nocPacketSize
  payload : (nocPacketSize - 8) * 2 ≤ 65535
  slots : nocPacketSlots ≤ 65535

structure Origin where
  sender : Nat
  message : Nat
  index : Nat
deriving DecidableEq, Repr

structure Packet where
  flits : List UInt16
  origin : Origin
deriving DecidableEq, Repr

def Packet.flit (packet : Packet) (index : Nat) : UInt16 := packet.flits.getD index 0

structure Buffer where
  slot : Nat
  packet : Packet
deriving DecidableEq, Repr

def Buffer.flit (bufPtr : Buffer) (index : Nat) : UInt16 := bufPtr.packet.flit index

def Buffer.words (bufPtr : Buffer) : List UInt16 := bufPtr.packet.flits.drop pktHeaderSize

-- `buf[p++] = (uint8_t)(buf_ptr[i] >> 8); buf[p++] = (uint8_t)(buf_ptr[i] & 0xff)`
def wordBytes (word : UInt16) : List UInt8 := [(word >>> 8).toUInt8, (word &&& 0xff).toUInt8]

-- `((uint8_t)buf[p] << 8) | (uint8_t)buf[p+1]`
def byteWord (buf : Nat → UInt8) (p : Nat) : UInt16 :=
  (buf p).toUInt16 <<< 8 ||| (buf (p + 1)).toUInt16

namespace NocConfig

variable (noc : NocConfig)

def payloadBytes : Nat := (noc.nocPacketSize - pktHeaderSize) * 2

def packetsOf (size : UInt16) : Nat :=
  if size.toNat % noc.payloadBytes = 0 then size.toNat / noc.payloadBytes
  else size.toNat / noc.payloadBytes + 1

end NocConfig

structure SendCall where
  sourceCpu : UInt16
  sourcePort : UInt16
  targetCpu : UInt16
  targetPort : UInt16
  buf : Nat → UInt8
  size : UInt16
  channel : UInt16

namespace SendCall

variable (noc : NocConfig) (call : SendCall)

def header (packet : Nat) : List UInt16 :=
  [UInt16.ofNat ((call.targetCpu.toNat % noc.nocWidth) <<< 4 ||| call.targetCpu.toNat / noc.nocWidth),
    UInt16.ofNat (noc.nocPacketSize - 2), call.sourceCpu, call.sourcePort, call.targetPort,
    call.size, UInt16.ofNat packet, call.channel]

def fullWords : Nat → Nat → List UInt16
  | 0, _ => []
  | count + 1, p => byteWord call.buf p :: fullWords count (p + 2)

def lastWords : Nat → Nat → List UInt16
  | 0, _ => []
  | count + 1, p =>
      if p < call.size.toNat then byteWord call.buf p :: lastWords count (p + 2)
      else List.replicate (count + 1) 0xdead

/-- The loop of `hf_send` with the packet behind it. -/
def sendFrom : Nat → Nat → Nat → List (List UInt16)
  | 0, packet, p =>
      [call.header noc packet ++ call.lastWords (noc.nocPacketSize - pktHeaderSize) p]
  | more + 1, packet, p =>
      (call.header noc packet ++ call.fullWords (noc.nocPacketSize - pktHeaderSize) p) ::
        sendFrom more (packet + 1) (p + noc.payloadBytes)

def hfSend : List (List UInt16) := call.sendFrom noc (noc.packetsOf call.size - 1) 1 0

end SendCall

inductive CommFault
  | nullQueue
  | destroyedQueue
  | nullPacket
  | halted (halt : Halt)
deriving DecidableEq, Repr

/-- Where a call of `hf_recv` stands. Between `takeFirst` or `takeNext` and the return of the
buffer to the pool the call holds it. -/
inductive RecvPoint
  | searchFirst
  | turnFirst
  | takeFirst
  | store (bufPtr : Buffer)
  | searchNext
  | turnNext
  | takeNext
  | finish (bufPtr : Buffer)
  | returned
deriving DecidableEq, Repr

def RecvPoint.held : RecvPoint → List Buffer
  | .store bufPtr | .finish bufPtr => [bufPtr]
  | _ => []

structure RecvCall where
  channel : UInt16
  point : RecvPoint
  seq : UInt16
  packet : Nat
  packets : Nat
  sourceCpu : UInt16
  sourcePort : UInt16
  size : UInt16
  buf : List UInt8
  i : Nat
  error : Int
  taken : List Origin
deriving DecidableEq, Repr

structure RecvTurn (noc : NocConfig) (capacity : Nat) where
  codes : List Int
  pktdrvQueue : RingQueue Buffer noc.nocPacketSlots
  queue : RingQueue Buffer capacity
  call : RecvCall

-- The head of a queue goes to its tail, whatever `hf_queue_addtail` returns.
def turnQueue {capacity : Nat} (queue : RingQueue Buffer capacity) :
    Int × RingQueue Buffer capacity :=
  match queue.hfQueueRemhead with
  | (bufPtr, queue) => queue.hfQueueAddtail bufPtr

namespace RecvCall

variable (noc : NocConfig) {capacity : Nat}

def start (channel : UInt16) : RecvCall where
  channel := channel
  point := .searchFirst
  seq := 0
  packet := 0
  packets := 0
  sourceCpu := 0
  sourcePort := 0
  size := 0
  buf := []
  i := 0
  error := errOk
  taken := []

def awaits (call : RecvCall) (seq : Nat) : Option Buffer → Bool
  | none => false
  | some bufPtr => bufPtr.flit pktChannel = call.channel && (bufPtr.flit pktSeq).toNat = seq

/-- The test `++packet < packets` with the packet that was just taken. -/
def proceed (call : RecvCall) (bufPtr : Buffer) : RecvCall :=
  { call with
    packet := call.packet + 1
    point := if call.packet + 1 < call.packets then .store bufPtr else .finish bufPtr
    taken := call.taken ++ [bufPtr.packet.origin] }

/-- `if (buf_ptr[PKT_SEQ] != seq++) error = ERR_SEQ_ERROR`. -/
def checkSeq (call : RecvCall) (bufPtr : Buffer) : RecvCall :=
  { call with
    error := if bufPtr.flit pktSeq ≠ call.seq then errSeqError else call.error
    seq := call.seq + 1 }

def copyLast (size : Nat) : List UInt16 → List UInt8 → List UInt8
  | [], buf => buf
  | word :: words, buf =>
      if buf.length < size then copyLast size words (buf ++ wordBytes word) else buf

def step (pktdrvQueue : RingQueue Buffer noc.nocPacketSlots) (queue : RingQueue Buffer capacity)
    (call : RecvCall) : Except CommFault (RecvTurn noc capacity) :=
  match call.point with
  | .searchFirst =>
      .ok ⟨[], pktdrvQueue, queue,
        if queue.hfQueueCount = 0 then call
        else if call.awaits (call.seq.toNat + 1) (queue.hfQueueGet 0) then
          { call with point := .takeFirst }
        else { call with point := .turnFirst }⟩
  | .turnFirst =>
      let (code, queue) := turnQueue queue
      .ok ⟨[code], pktdrvQueue, queue, { call with point := .searchFirst }⟩
  | .takeFirst =>
      match queue.hfQueueRemhead with
      | (none, _) => .error .nullPacket
      | (some bufPtr, queue) =>
          let call := { call with
            sourceCpu := bufPtr.flit pktSourceCpu
            sourcePort := bufPtr.flit pktSourcePort
            size := bufPtr.flit pktMsgSize
            seq := bufPtr.flit pktSeq
            packets := noc.packetsOf (bufPtr.flit pktMsgSize) }
          .ok ⟨[], pktdrvQueue, queue, call.proceed bufPtr⟩
  | .store bufPtr =>
      let (code, pktdrvQueue) := pktdrvQueue.hfQueueAddtail (some bufPtr)
      .ok ⟨[code], pktdrvQueue, queue, { call.checkSeq bufPtr with
        buf := call.buf ++ bufPtr.words.flatMap wordBytes
        i := 0
        point := .searchNext }⟩
  | .searchNext =>
      .ok ⟨[], pktdrvQueue, queue,
        if queue.hfQueueCount = 0 then call
        else if call.awaits call.seq.toNat (queue.hfQueueGet 0) then { call with point := .takeNext }
        else { call with point := .turnNext }⟩
  | .turnNext =>
      let (code, queue) := turnQueue queue
      .ok ⟨[code], pktdrvQueue, queue, { call with
        i := call.i + 1
        point := if noc.nocPacketSlots <<< 3 < call.i then .takeNext else .searchNext }⟩
  | .takeNext =>
      match queue.hfQueueRemhead with
      | (none, _) => .error .nullPacket
      | (some bufPtr, queue) => .ok ⟨[], pktdrvQueue, queue, call.proceed bufPtr⟩
  | .finish bufPtr =>
      let (code, pktdrvQueue) := pktdrvQueue.hfQueueAddtail (some bufPtr)
      .ok ⟨[code], pktdrvQueue, queue, { call.checkSeq bufPtr with
        buf := copyLast call.size.toNat bufPtr.words call.buf
        point := .returned }⟩
  | .returned => .ok ⟨[], pktdrvQueue, queue, call⟩

end RecvCall

end Hellfire

import Hellfire.KernelCore
import Hellfire.NetIpCore
import Hellfire.QueueCore

/-!
Executable model of `net/uudp/uudp.c`: endpoints with a pool of packet buffers. A buffer is
named by its address. What leaves the memory of a buffer, or uses a NULL queue, has no result.
-/

namespace Hellfire

structure Uudp where
  listenPort : Nat
  freeBuffers : Option (Queue Nat)
  pktQueue : Option (Queue Nat)

/-- The list of the endpoints, once `udp_callback` is registered, and the content of the
buffers. A buffer holds a packet from its IP header on. -/
structure Uudps where
  commList : Option (List Uudp)
  buffers : Nat → Frame

structure Datagram where
  srcIp : Ip
  srcPort : Nat
  data : List UInt8
deriving DecidableEq, Repr

structure CreateBlocks where
  commList : Bool
  node : Bool
  freeQueue : Bool
  freeData : Nat → Option (Nat → Option Nat)
  pktQueue : Bool
  pktData : Nat → Option (Nat → Option Nat)
  buffers : Nat → Option Nat

namespace Uudps

@[simp] def uudpLimit : Nat := packetSize - ethHeaderSize - udpHeaderSize

def comm (uudps : Uudps) (i : Nat) : Option Uudp := uudps.commList.bind (·[i]?)

def setComm (uudps : Uudps) (i : Nat) (comm : Uudp) : Uudps :=
  { uudps with commList := uudps.commList.map (·.set i comm) }

/-- `memcpy(buff, packet, len)`. -/
def copyTo (uudps : Uudps) (buff : Nat) (packet : Frame) (len : Nat) : Uudps :=
  { uudps with
    buffers := Function.update uudps.buffers buff fun i =>
      if i < len then packet i else uudps.buffers buff i }

def udpCallback (uudps : Uudps) (packet : Frame) : Option Uudps :=
  let port := packet.wordAt udpHdrDestport1
  match (uudps.commList.getD []).findIdx? fun comm => comm.listenPort = port with
  | none => some uudps
  | some i => do
      let comm ← uudps.comm i
      let free ← comm.freeBuffers
      match free.hfQueueRemhead with
      | (none, free) => some (uudps.setComm i { comm with freeBuffers := some free })
      | (some buff, free) =>
          let len := packet.wordAt ipHdrLen1
          if packetSize < len then none
          else do
            let pkt ← comm.pktQueue
            some ((uudps.copyTo buff packet len).setComm i
              { comm with
                freeBuffers := some free
                pktQueue := some (pkt.hfQueueAddtail (some buff)).2 })

/-- The pool of `count` more buffers from the `i`-th one on, or NULL when memory ran out. -/
def fillPool (buffers : Nat → Option Nat) : Nat → Nat → Queue Nat → Option (Queue Nat)
  | 0, _, free => some free
  | count + 1, i, free =>
      match buffers i with
      | none => none
      | some ptr => fillPool buffers count (i + 1) (free.hfQueueAddtail (some ptr)).2

def listenPortFor (random listenPort : Nat) : Nat :=
  if listenPort = 0 then (random % 16383 + 49152) % 65536 else listenPort

/-- An endpoint stays in the list when one of its queues cannot be created. -/
def hfUudpCreate (uudps : Uudps) (blocks : CreateBlocks) (random listenPort qsize : Nat) :
    Int × Uudps :=
  match uudps.commList.or (if blocks.commList then some [] else none) with
  | none => (errOutOfMemory, uudps)
  | some list =>
      let port := listenPortFor random listenPort
      let started := fun comms => { uudps with commList := some comms }
      if list.any fun comm => comm.listenPort = port then (errError, started list)
      else if blocks.node = false then (errOutOfMemory, started list)
      else
        match Queue.hfQueueCreate blocks.freeQueue blocks.freeData (int32 qsize) with
        | none => (errOutOfMemory, started (list ++ [⟨port, none, none⟩]))
        | some free =>
            match Queue.hfQueueCreate blocks.pktQueue blocks.pktData (int32 qsize) with
            | none => (errOutOfMemory, started (list ++ [⟨port, some free, none⟩]))
            | some pkt =>
                match fillPool blocks.buffers qsize 0 free with
                | none => (errOutOfMemory, started list)
                | some free => (errOk, started (list ++ [⟨port, some free, some pkt⟩]))

/-- A length below `UDP_HEADER_SIZE` makes the size of the copy negative. -/
def hfUudpRecv (uudps : Uudps) (i : Nat) : Option (Int × Option Datagram × Uudps) := do
  let comm ← uudps.comm i
  let pkt ← comm.pktQueue
  if pkt.hfQueueCount = 0 then some (0, none, uudps)
  else
    match pkt.hfQueueRemhead with
    | (none, _) => none
    | (some ptr, pkt) =>
        let packet := uudps.buffers ptr
        let len := packet.wordAt udpHdrLen1
        let taken := uudps.setComm i { comm with pktQueue := some pkt }
        if uudpLimit < len then some (errError, none, taken)
        else if len < udpHeaderSize then none
        else do
          let free ← comm.freeBuffers
          let received := ⟨packet.ipAt ipHdrSrcaddr1, packet.wordAt udpHdrSrcport1,
            packet.bytesAt udpDataOfs (len - udpHeaderSize)⟩
          some (((len - udpHeaderSize : Nat) : Int), some received, uudps.setComm i
            { comm with
              freeBuffers := some (free.hfQueueAddtail (some ptr)).2
              pktQueue := some pkt })

end Uudps

namespace Net

def uudpRetries : Nat := 5

/-- The loop of `hf_uudp_send` after `tries` rounds. -/
def sendTries (srcPort : Nat) (dstIp : Ip) (dstPort len : Nat) : Nat → Net Nat
  | 0 => udpOut dstIp srcPort dstPort len
  | more + 1 => do
      let val ← udpOut dstIp srcPort dstPort len
      if val = 0 then sendTries srcPort dstIp dstPort len more else pure val

/-- `hf_uudp_send` of an endpoint with the port `srcPort`, with `frame_out` in use. -/
def hfUudpSend (srcPort : Nat) (dstIp : Ip) (dstPort : Nat) (buf : List UInt8) : Net Int :=
  if Uudps.uudpLimit < buf.length then pure errError
  else do
    wrPacket (ipHeaderSize + udpHeaderSize) buf
    let val ← sendTries srcPort dstIp dstPort ((buf.length + udpHeaderSize) % 65536) uudpRetries
    pure val

end Net

end Hellfire

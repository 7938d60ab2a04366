import Hellfire.Library.Ledger
import Hellfire.UudpCore

/-!
Executable model of `hf_uudp_create` with the heap that it allocates from: the list of the endpoints with
its nodes, the blocks of the queues and the buffers. A `comm` is named by its address, as the list points
to it. A run that writes outside of a block, or never ends, has no result.
-/

namespace Hellfire

open Ledgers

structure UudpQueue where
  place : Nat
  cells : Nat
  ring : Queue Nat

structure Endpoint where
  listenPort : Nat
  freeBuffers : Option UudpQueue
  pktQueue : Option UudpQueue

structure CommList where
  head : Nat
  nodes : List (Nat × Nat)
deriving DecidableEq, Repr

/-- The heap with what a fresh block holds, `comm_list` (NULL until `udp_callback` is registered) and the
`struct uudp`s of the tasks. -/
structure UudpHeap where
  heap : Ledger Nat
  stale : Nat → Nat → Option Nat
  commList : Option CommList
  comms : Nat → Endpoint

namespace UudpQueue

def hfQueueAddtail (queue : UudpQueue) (ptr : Nat) : Option UudpQueue :=
  let (value, ring) := queue.ring.hfQueueAddtail (some ptr)
  if value = 0 ∧ (queue.ring.data.length : Int) ≤ queue.ring.tail then none
  else some { queue with ring := ring }

/-- `while (hf_queue_count(q)) hf_free(hf_queue_remhead(q))`, with a bound on the turns. -/
def freeAll : Nat → UudpQueue → Ledger Nat → Option (UudpQueue × Ledger Nat)
  | turns, queue, heap =>
      if queue.ring.hfQueueCount = 0 then some (queue, heap)
      else
        match turns, queue.ring.hfQueueRemhead with
        | turns + 1, (some ptr, ring) => freeAll turns { queue with ring := ring } (heap.free ptr)
        | _, _ => none

def hfQueueDestroy (queue : UudpQueue) (heap : Ledger Nat) : Ledger Nat :=
  if queue.ring.hfQueueDestroy = 0 then (heap.free queue.cells).free queue.place else heap

def release (queue : UudpQueue) (heap : Ledger Nat) : Option (Ledger Nat) :=
  (freeAll queue.ring.elem.toNat queue heap).map fun (queue, heap) => queue.hfQueueDestroy heap

end UudpQueue

namespace UudpHeap

def nodes (state : UudpHeap) : List (Nat × Nat) :=
  match state.commList with
  | none => []
  | some list => list.nodes

def hfQueueCreate (stale : Nat → Nat → Option Nat) (size : Int) (heap : Ledger Nat) :
    Option UudpQueue × Ledger Nat :=
  match heap.malloc with
  | (none, heap) => (none, heap)
  | (some place, heap) =>
      match heap.malloc with
      | (none, heap) => (none, heap.free place)
      | (some cells, heap) =>
          ((Queue.hfQueueCreate true (fun _ => some (stale cells)) size).map fun ring =>
            ⟨place, cells, ring⟩, heap)

/-- The loop over the buffers; the flag says whether all of them were obtained. -/
def fillPool : Nat → UudpQueue → Ledger Nat → Option (Bool × UudpQueue × Ledger Nat)
  | 0, free, heap => some (true, free, heap)
  | count + 1, free, heap =>
      match heap.malloc with
      | (none, heap) => some (false, free, heap)
      | (some ptr, heap) => do
          let free ← free.hfQueueAddtail ptr
          fillPool count free heap

def startList (state : UudpHeap) : Option CommList × Ledger Nat :=
  match state.commList with
  | some list => (some list, state.heap)
  | none =>
      match state.heap.malloc with
      | (none, heap) => (none, heap)
      | (some head, heap) => (some ⟨head, []⟩, heap)

def setComm (state : UudpHeap) (comm : Nat) (endpoint : Endpoint) : UudpHeap :=
  { state with comms := Function.update state.comms comm endpoint }

/-- `hf_uudp_create` from `hf_queue_create` on: the endpoint is in the list, in the node `t1`. -/
def provide (state : UudpHeap) (list : CommList) (comm t1 qsize : Nat) : Option (Int × UudpHeap) :=
  let published := { state with commList := some list }
  let endpoint := state.comms comm
  match hfQueueCreate state.stale (int32 qsize) state.heap with
  | (none, heap) =>
      some (errOutOfMemory, { published with heap }.setComm comm { endpoint with freeBuffers := none })
  | (some free, heap) =>
      match hfQueueCreate state.stale (int32 qsize) heap with
      | (none, heap) =>
          some (errOutOfMemory, { published with heap }.setComm comm
            { endpoint with freeBuffers := some free, pktQueue := none })
      | (some pkt, heap) => do
          let (all, free, heap) ← fillPool qsize free heap
          let created := published.setComm comm
            { endpoint with freeBuffers := some free, pktQueue := some pkt }
          if all then some (errOk, { created with heap })
          else do
            let heap ← free.release heap
            let heap ← pkt.release heap
            some (errOutOfMemory, { created with
              heap := heap.free t1
              commList := some { list with nodes := list.nodes.dropLast } })

/-- The port is stored in `comm` before the list is searched for it. -/
def hfUudpCreate (state : UudpHeap) (comm random listenPort qsize : Nat) : Option (Int × UudpHeap) :=
  match state.startList with
  | (none, heap) => some (errOutOfMemory, { state with heap })
  | (some list, heap) =>
      let port := Uudps.listenPortFor random listenPort
      let state := { state with heap, commList := some list }.setComm comm
        { state.comms comm with listenPort := port }
      if list.nodes.any fun node => (state.comms node.2).listenPort = port then some (errError, state)
      else
        match state.heap.malloc with
        | (none, heap) => some (errOutOfMemory, { state with heap })
        | (some t1, heap) =>
            { state with heap }.provide { list with nodes := list.nodes ++ [(t1, comm)] } comm t1 qsize

end UudpHeap

end Hellfire

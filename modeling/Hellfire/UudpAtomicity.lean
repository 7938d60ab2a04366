import Hellfire.UudpCreatePools

/-!
What `hf_uudp_create` leaves behind when it fails. The endpoint is in the list before it has its queues, and
only the failure of a buffer takes it out again.
-/

namespace Hellfire

open Ledgers

section Creation

open Ledger UudpHeap

def ringSize (qsize : Nat) : Int := int32 (int32 qsize + 1)

def ringWords (qsize : Nat) : Nat := (ringSize qsize * 4 % 4294967296).toNat / 4

/-- The items that a ring takes; its block has `ringWords`. -/
def ringRoom (qsize : Nat) : Nat := (ringSize qsize).natAbs - 1

theorem hfQueueCreate_missing (stale : Nat → Nat → Option Nat) (heap : Ledger Nat) (size : Int)
    (missing : heap.answers 0 = none ∨ heap.answers 1 = none) :
    ∃ rest, hfQueueCreate stale size heap = (none, ⟨heap.live, rest⟩) := by
  cases place : heap.answers 0 with
  | none =>
      refine ⟨fun n => heap.answers (n + 1), ?_⟩
      rw [hfQueueCreate, malloc_none place]
  | some address =>
      have failed : heap.answers 1 = none :=
        missing.resolve_left (by rw [place]; exact Option.some_ne_none _)
      refine ⟨fun n => heap.answers (n + 2), ?_⟩
      rw [hfQueueCreate, malloc_some place]
      simp only
      rw [malloc_none failed]
      simp only [free_cons]

theorem hfQueueCreate_made (stale : Nat → Nat → Option Nat) (heap : Ledger Nat) (qsize : Nat)
    {place cells : Nat} (given : heap.answers 0 = some place) (data : heap.answers 1 = some cells) :
    ∃ queue, hfQueueCreate stale (int32 qsize) heap =
        (some queue, ⟨cells :: place :: heap.live, fun n => heap.answers (n + 2)⟩) ∧
      queue.place = place ∧ queue.cells = cells ∧
      Rings (ringSize qsize) (ringWords qsize) queue.ring 0 [] := by
  refine ⟨⟨place, cells, ⟨ringSize qsize, 0, 0, 0, (List.range (ringWords qsize)).map (stale cells)⟩⟩, ?_,
    rfl, rfl, rfl, rfl, rfl, rfl, ?_, ?_, ?_, ?_⟩
  · rw [hfQueueCreate, malloc_some given]
    simp only
    rw [malloc_some data]
    rfl
  · rw [List.length_map, List.length_range]
  · intro k below
    exact absurd below (Nat.not_lt_zero k)
  · exact Nat.zero_le _
  · unfold ringSize int32
    omega

theorem both_given {first second : Option Nat} (there : ¬(first = none ∨ second = none)) :
    ∃ place cells, first = some place ∧ second = some cells := by
  cases first with
  | none => exact absurd (Or.inl rfl) there
  | some place =>
      cases second with
      | none => exact absurd (Or.inr rfl) there
      | some cells => exact ⟨place, cells, rfl, rfl⟩

variable {state : UudpHeap}

theorem provide_unqueued (list : CommList) (comm t1 qsize : Nat)
    (missing : ¬∀ k, k < 4 → (state.heap.answers k).isSome) :
    ∃ after, state.provide list comm t1 qsize = some (errOutOfMemory, after) ∧ after.nodes = list.nodes := by
  by_cases first : state.heap.answers 0 = none ∨ state.heap.answers 1 = none
  · obtain ⟨rest, failed⟩ := hfQueueCreate_missing state.stale state.heap (int32 qsize) first
    rw [provide, failed]
    exact ⟨_, rfl, rfl⟩
  · obtain ⟨place, cells, given, data⟩ := both_given first
    obtain ⟨free, made, -⟩ := hfQueueCreate_made state.stale state.heap qsize given data
    have second : state.heap.answers 2 = none ∨ state.heap.answers 3 = none := by
      by_contra both
      obtain ⟨pktPlace, pktCells, pktGiven, pktData⟩ := both_given both
      apply missing
      intro k below
      match k, below with
      | 0, _ => rw [given, Option.isSome_some]
      | 1, _ => rw [data, Option.isSome_some]
      | 2, _ => rw [pktGiven, Option.isSome_some]
      | 3, _ => rw [pktData, Option.isSome_some]
    obtain ⟨rest, failed⟩ := hfQueueCreate_missing state.stale
      ⟨cells :: place :: state.heap.live, fun n => state.heap.answers (n + 2)⟩ (int32 qsize) second
    rw [provide, made]
    simp only
    rw [failed]
    exact ⟨_, rfl, rfl⟩

theorem provide_queued (list : CommList) (comm t1 qsize : Nat)
    (queues : ∀ k, k < 4 → (state.heap.answers k).isSome) :
    ∃ (free pkt : UudpQueue) (live : List Nat),
      Rings (ringSize qsize) (ringWords qsize) free.ring 0 [] ∧
      Rings (ringSize qsize) (ringWords qsize) pkt.ring 0 [] ∧
      live = pkt.cells :: pkt.place :: free.cells :: free.place :: state.heap.live ∧
      state.provide list comm t1 qsize = (do
        let (all, free, heap) ← fillPool qsize free ⟨live, fun n => state.heap.answers (n + 4)⟩
        let created := { state with commList := some list }.setComm comm
          { state.comms comm with freeBuffers := some free, pktQueue := some pkt }
        if all then some (errOk, { created with heap })
        else do
          let heap ← free.release heap
          let heap ← pkt.release heap
          some (errOutOfMemory, { created with
            heap := heap.free t1
            commList := some { list with nodes := list.nodes.dropLast } })) := by
  obtain ⟨place, given⟩ := Option.isSome_iff_exists.mp (queues 0 (by omega))
  obtain ⟨cells, data⟩ := Option.isSome_iff_exists.mp (queues 1 (by omega))
  obtain ⟨pktPlace, pktGiven⟩ := Option.isSome_iff_exists.mp (queues 2 (by omega))
  obtain ⟨pktCells, pktData⟩ := Option.isSome_iff_exists.mp (queues 3 (by omega))
  obtain ⟨free, made, freePlace, freeCells, rings⟩ :=
    hfQueueCreate_made state.stale state.heap qsize given data
  obtain ⟨pkt, pktMade, samePlace, sameCells, pktRings⟩ := hfQueueCreate_made state.stale
    ⟨cells :: place :: state.heap.live, fun n => state.heap.answers (n + 2)⟩ qsize pktGiven pktData
  refine ⟨free, pkt, _, rings, pktRings, rfl, ?_⟩
  rw [provide, made, freePlace, freeCells, samePlace, sameCells]
  simp only
  rw [pktMade]

def buffersFor (heap : Ledger Nat) (qsize : Nat) : Nat := obtained (fun n => heap.answers (n + 4)) qsize

theorem provide_escapes (list : CommList) (comm t1 : Nat) {qsize : Nat}
    (queues : ∀ k, k < 4 → (state.heap.answers k).isSome)
    (outside : ringWords qsize < buffersFor state.heap qsize ∧ ringWords qsize < ringRoom qsize) :
    state.provide list comm t1 qsize = none := by
  obtain ⟨free, pkt, live, rings, -, -, provided⟩ := provide_queued list comm t1 qsize queues
  have escaped := fillPool_escapes qsize free live (fun n => state.heap.answers (n + 4)) [] rings outside.2
    (Nat.zero_le _) (by rw [List.length_nil, Nat.zero_add]; exact outside.1)
  rw [provided, escaped]
  rfl

theorem provide_complete (list : CommList) (comm t1 : Nat) {qsize : Nat}
    (queues : ∀ k, k < 4 → (state.heap.answers k).isSome)
    (inside : buffersFor state.heap qsize ≤ ringWords qsize ∨ ringRoom qsize ≤ ringWords qsize)
    (all : buffersFor state.heap qsize = qsize) :
    ∃ after, state.provide list comm t1 qsize = some (errOk, after) := by
  obtain ⟨free, pkt, live, rings, -, -, provided⟩ := provide_queued list comm t1 qsize queues
  obtain ⟨filled, heap, -, -, ran, -⟩ := fillPool_stays qsize free live
    (fun n => state.heap.answers (n + 4)) [] [] live rings (List.Perm.refl live)
    (by rw [List.length_nil, Nat.zero_add]; exact inside)
  have complete : decide (obtained (fun n => state.heap.answers (n + 4)) qsize = qsize) = true :=
    decide_eq_true all
  rw [provided, ran, complete]
  exact ⟨_, rfl⟩

theorem provide_incomplete (list : CommList) (comm : Nat) {t1 qsize : Nat} {base : List Nat}
    (queues : ∀ k, k < 4 → (state.heap.answers k).isSome) (node : state.heap.live = t1 :: base)
    (inside : buffersFor state.heap qsize ≤ ringWords qsize ∨ ringRoom qsize ≤ ringWords qsize)
    (short : buffersFor state.heap qsize ≠ qsize) :
    ∃ after lost, state.provide list comm t1 qsize = some (errOutOfMemory, after) ∧
      after.commList = some { list with nodes := list.nodes.dropLast } ∧
      (∀ other, other ≠ comm → after.comms other = state.comms other) ∧
      after.heap.live.Perm (lost ++ base) ∧ (lost = [] ↔ buffersFor state.heap qsize ≤ ringRoom qsize) := by
  obtain ⟨free, pkt, live, rings, pktRings, held, provided⟩ := provide_queued list comm t1 qsize queues
  obtain ⟨filled, heap, items, lost, ran, place, cells, full, left, total, fits⟩ :=
    fillPool_stays qsize free live (fun n => state.heap.answers (n + 4)) [] [] live rings
      (List.Perm.refl live) (by rw [List.length_nil, Nat.zero_add]; exact inside)
  have incomplete : decide (obtained (fun n => state.heap.answers (n + 4)) qsize = qsize) = false :=
    decide_eq_false short
  have poolHeld : heap.live.Perm (items ++ filled.cells :: filled.place ::
      (pkt.cells :: pkt.place :: t1 :: (lost ++ base))) := by
    rw [held, node] at left
    rw [place, cells]
    refine left.trans (List.Perm.append_left items ?_)
    have moved := List.perm_append_comm_assoc lost
      [pkt.cells, pkt.place, free.cells, free.place, t1] base
    exact moved.trans (List.perm_append_comm_assoc [pkt.cells, pkt.place] [free.cells, free.place]
      (t1 :: (lost ++ base)))
  obtain ⟨poolFreed, poolReleased, kept⟩ := release_spec full poolHeld
  obtain ⟨pktFreed, pktReleased, rest⟩ := release_spec pktRings kept
  rw [provided, ran, incomplete]
  simp only [Option.bind_eq_bind, Option.bind_some, Bool.false_eq_true, if_false, poolReleased, pktReleased]
  refine ⟨_, lost, rfl, rfl, ?_, free_perm rest, ?_⟩
  · intro other apart
    exact Function.update_of_ne apart _ _
  · have room := full.room
    simp only [List.length_nil, Nat.zero_add] at total fits
    rw [Nat.zero_add] at room
    constructor
    · intro none
      rw [none, List.length_nil, Nat.add_zero] at total
      rw [buffersFor, ← total]
      exact room
    · intro small
      exact List.length_eq_zero_iff.mp (fits small)

end Creation

namespace UudpHeap

open Ledger

section Atomicity

variable {before after state : UudpHeap} {comm random listenPort qsize : Nat}

def HasQueue (state : UudpHeap) (queue : Option UudpQueue) : Prop :=
  ∃ made, queue = some made ∧ made.place ∈ state.heap.live ∧ made.cells ∈ state.heap.live

def Queued (state : UudpHeap) : Prop :=
  ∀ node ∈ state.nodes, state.HasQueue (state.comms node.2).freeBuffers ∧
    state.HasQueue (state.comms node.2).pktQueue

/-- The list head, when the call made it. -/
def oneTime (before after : UudpHeap) : List Nat :=
  match before.commList, after.commList with
  | none, some list => [list.head]
  | _, _ => []

structure Restored (before after : UudpHeap) : Prop where
  nodes : after.nodes = before.nodes
  comms : ∀ node ∈ before.nodes, after.comms node.2 = before.comms node.2
  blocks : after.heap.live.Perm (before.oneTime after ++ before.heap.live)

theorem Restored.queued (restored : Restored before after) (queued : before.Queued) : after.Queued := by
  have kept : ∀ queue, before.HasQueue queue → after.HasQueue queue := by
    rintro queue ⟨made, there, place, cells⟩
    exact ⟨made, there, restored.blocks.mem_iff.mpr (List.mem_append_right _ place),
      restored.blocks.mem_iff.mpr (List.mem_append_right _ cells)⟩
  intro node member
  rw [restored.nodes] at member
  rw [restored.comms node member]
  exact ⟨kept _ (queued node member).1, kept _ (queued node member).2⟩

def Atomic (before after : UudpHeap) : Prop :=
  Restored before after ∧ (before.Queued → after.Queued)

theorem atomic_iff : Atomic before after ↔ Restored before after :=
  ⟨fun atomic => atomic.1, fun restored => ⟨restored, restored.queued⟩⟩

def given (state : UudpHeap) (k : Nat) : Option Nat :=
  match state.commList with
  | some _ => state.heap.answers k
  | none => state.heap.answers (k + 1)

structure Published (state : UudpHeap) (comm random listenPort : Nat) : Prop where
  list : state.commList = none → (state.heap.answers 0).isSome
  node : (state.given 0).isSome
  port : ∀ node ∈ state.nodes, node.2 ≠ comm ∧
    (state.comms node.2).listenPort ≠ Uudps.listenPortFor random listenPort

structure Fits (qsize buffers : Nat) : Prop where
  taken : buffers = qsize ∨ buffers ≤ ringRoom qsize
  inside : buffers ≤ ringWords qsize ∨ ringRoom qsize ≤ ringWords qsize

/-- An endpoint in the list is not created again with another port, and an endpoint that gets into the list
gets its queues. -/
structure Survivable (state : UudpHeap) (comm random listenPort qsize : Nat) : Prop where
  port : ∀ node ∈ state.nodes, node.2 = comm →
    (state.comms comm).listenPort = Uudps.listenPortFor random listenPort
  queues : state.Published comm random listenPort → ∀ k, k < 4 → (state.given (k + 1)).isSome
  buffers : state.Published comm random listenPort → (∀ k, k < 4 → (state.given (k + 1)).isSome) →
    Fits qsize (obtained (fun n => state.given (n + 5)) qsize)

theorem fits_small (small : qsize + 1 < 1073741824) (answers : Nat → Option Nat) :
    Fits qsize (obtained answers qsize) := by
  have value : int32 qsize = qsize := int32_of_range (by omega) (by omega)
  have size : ringSize qsize = qsize + 1 := by
    rw [ringSize, value, int32_of_range (by omega) (by omega)]
  have room : ringRoom qsize = qsize := by
    rw [ringRoom, size]
    omega
  have words : ringWords qsize = qsize + 1 := by
    rw [ringWords, size]
    omega
  have most := obtained_le qsize answers
  refine ⟨Or.inr ?_, Or.inl ?_⟩
  · rw [room]
    exact most
  · rw [words]
    omega

theorem startList_none (missing : state.commList = none) (failed : state.heap.answers 0 = none) :
    state.startList = (none, ⟨state.heap.live, fun n => state.heap.answers (n + 1)⟩) := by
  rw [startList, missing]
  simp only
  rw [malloc_none failed]

theorem startList_some (memory : state.commList = none → (state.heap.answers 0).isSome) :
    ∃ list ahead, state.startList = (some list, ⟨ahead ++ state.heap.live, state.given⟩) ∧
      list.nodes = state.nodes ∧
      ∀ after : UudpHeap, ∀ nodes, after.commList = some { list with nodes } →
        state.oneTime after = ahead := by
  cases known : state.commList with
  | some list =>
      refine ⟨list, [], ?_, ?_, ?_⟩
      · have answers : state.given = state.heap.answers := by
          funext k
          rw [given, known]
        rw [startList, known, answers]
        rfl
      · rw [nodes, known]
      · intro after nodes _
        rw [oneTime, known]
  | none =>
      obtain ⟨head, first⟩ := Option.isSome_iff_exists.mp (memory known)
      have answers : state.given = fun n => state.heap.answers (n + 1) := by
        funext k
        rw [given, known]
      refine ⟨⟨head, []⟩, [head], ?_, ?_, ?_⟩
      · rw [startList, known, answers]
        simp only
        rw [malloc_some first]
        rfl
      · rw [nodes, known]
      · intro after nodes listed
        rw [oneTime, known, listed]

theorem create_listless (comm random listenPort qsize : Nat) (missing : state.commList = none)
    (failed : state.heap.answers 0 = none) :
    ∃ after, state.hfUudpCreate comm random listenPort qsize = some (errOutOfMemory, after) ∧
      Restored state after := by
  rw [hfUudpCreate, startList_none missing failed]
  refine ⟨_, rfl, rfl, fun _ _ => rfl, ?_⟩
  rw [oneTime, missing]
  exact List.Perm.refl _

theorem hfUudpCreate_listed {list : CommList} {heap : Ledger Nat}
    (listed : state.startList = (some list, heap)) (comm random listenPort qsize : Nat) :
    ∃ started : UudpHeap, started.heap = heap ∧ started.stale = state.stale ∧
      started.commList = some list ∧ started.comms = Function.update state.comms comm
        { state.comms comm with listenPort := Uudps.listenPortFor random listenPort } ∧
      state.hfUudpCreate comm random listenPort qsize =
        if list.nodes.any fun node => (started.comms node.2).listenPort =
          Uudps.listenPortFor random listenPort then some (errError, started)
        else
          match started.heap.malloc with
          | (none, heap) => some (errOutOfMemory, { started with heap })
          | (some t1, heap) => { started with heap }.provide
              { list with nodes := list.nodes ++ [(t1, comm)] } comm t1 qsize := by
  rw [hfUudpCreate, listed]
  exact ⟨{ state with heap, commList := some list }.setComm comm
    { state.comms comm with listenPort := Uudps.listenPortFor random listenPort }, rfl, rfl, rfl, rfl, rfl⟩

theorem create_busy (qsize : Nat) (memory : state.commList = none → (state.heap.answers 0).isSome)
    (busy : ∃ node ∈ state.nodes, node.2 = comm ∨
      (state.comms node.2).listenPort = Uudps.listenPortFor random listenPort) :
    ∃ after, state.hfUudpCreate comm random listenPort qsize = some (errError, after) ∧
      (Restored state after ↔ ∀ node ∈ state.nodes, node.2 = comm →
        (state.comms comm).listenPort = Uudps.listenPortFor random listenPort) := by
  obtain ⟨list, ahead, listed, same, once⟩ := startList_some memory
  obtain ⟨started, heap, -, head, comms, created⟩ := hfUudpCreate_listed listed comm random listenPort qsize
  have found : (list.nodes.any fun node =>
      (started.comms node.2).listenPort = Uudps.listenPortFor random listenPort) = true := by
    obtain ⟨node, member, taken⟩ := busy
    rw [List.any_eq_true]
    refine ⟨node, same ▸ member, decide_eq_true ?_⟩
    by_cases self : node.2 = comm
    · rw [comms, self, Function.update_self]
    · rw [comms, Function.update_of_ne self]
      exact taken.resolve_left self
  rw [if_pos found] at created
  refine ⟨started, created, ?_, ?_⟩
  · intro restored node member self
    have kept := restored.comms node member
    rw [self, comms, Function.update_self] at kept
    exact (congrArg Endpoint.listenPort kept).symm
  · intro kept
    refine ⟨?_, ?_, ?_⟩
    · rw [nodes, head]
      exact same
    · intro node member
      rw [comms]
      by_cases self : node.2 = comm
      · rw [self, Function.update_self, ← kept node member self]
      · exact Function.update_of_ne self _ _
    · rw [once started list.nodes head, heap]

theorem create_free (qsize : Nat) (memory : state.commList = none → (state.heap.answers 0).isSome)
    (port : ∀ node ∈ state.nodes, node.2 ≠ comm ∧
      (state.comms node.2).listenPort ≠ Uudps.listenPortFor random listenPort) :
    ∃ (started : UudpHeap) (list : CommList) (ahead : List Nat),
      state.hfUudpCreate comm random listenPort qsize =
        (match started.heap.malloc with
        | (none, heap) => some (errOutOfMemory, { started with heap })
        | (some t1, heap) => { started with heap }.provide
            { list with nodes := list.nodes ++ [(t1, comm)] } comm t1 qsize) ∧
      started.heap = ⟨ahead ++ state.heap.live, state.given⟩ ∧ started.commList = some list ∧
      list.nodes = state.nodes ∧ (∀ node ∈ state.nodes, started.comms node.2 = state.comms node.2) ∧
      (started.comms comm).listenPort = Uudps.listenPortFor random listenPort ∧
      ∀ after : UudpHeap, ∀ nodes, after.commList = some { list with nodes } →
        state.oneTime after = ahead := by
  obtain ⟨list, ahead, listed, same, once⟩ := startList_some memory
  obtain ⟨started, heap, -, head, comms, created⟩ := hfUudpCreate_listed listed comm random listenPort qsize
  have kept : ∀ node ∈ state.nodes, started.comms node.2 = state.comms node.2 := by
    intro node member
    rw [comms]
    exact Function.update_of_ne (port node member).1 _ _
  have named : (started.comms comm).listenPort = Uudps.listenPortFor random listenPort := by
    rw [comms, Function.update_self]
  refine ⟨started, list, ahead, ?_, heap, head, same, kept, named, once⟩
  rw [created, if_neg]
  rw [Bool.not_eq_true, List.any_eq_false]
  intro node member found
  rw [same] at member
  have taken := of_decide_eq_true found
  rw [kept node member] at taken
  exact (port node member).2 taken

theorem create_nodeless (qsize : Nat) (memory : state.commList = none → (state.heap.answers 0).isSome)
    (port : ∀ node ∈ state.nodes, node.2 ≠ comm ∧
      (state.comms node.2).listenPort ≠ Uudps.listenPortFor random listenPort)
    (failed : state.given 0 = none) :
    ∃ after, state.hfUudpCreate comm random listenPort qsize = some (errOutOfMemory, after) ∧
      Restored state after := by
  obtain ⟨started, list, ahead, created, heap, head, same, comms, -, once⟩ := create_free qsize memory port
  rw [heap, malloc_none failed] at created
  let after : UudpHeap := { started with heap := ⟨ahead ++ state.heap.live, fun n => state.given (n + 1)⟩ }
  have listed : after.commList = some list := head
  refine ⟨after, created, ?_, comms, ?_⟩
  · rw [nodes, listed]
    exact same
  · rw [once after list.nodes listed]

theorem create_published (qsize : Nat) (published : state.Published comm random listenPort) :
    ∃ (ready : UudpHeap) (list : CommList) (t1 : Nat) (ahead : List Nat),
      state.hfUudpCreate comm random listenPort qsize =
        ready.provide { list with nodes := state.nodes ++ [(t1, comm)] } comm t1 qsize ∧
      ready.heap = ⟨t1 :: (ahead ++ state.heap.live), fun n => state.given (n + 1)⟩ ∧
      (∀ node ∈ state.nodes, ready.comms node.2 = state.comms node.2) ∧
      (ready.comms comm).listenPort = Uudps.listenPortFor random listenPort ∧
      ∀ after : UudpHeap, ∀ nodes, after.commList = some { list with nodes } →
        state.oneTime after = ahead := by
  obtain ⟨started, list, ahead, created, heap, head, same, comms, named, once⟩ :=
    create_free qsize published.list published.port
  obtain ⟨t1, node⟩ := Option.isSome_iff_exists.mp published.node
  rw [heap, malloc_some node, same] at created
  exact ⟨_, list, t1, ahead, created, rfl, comms, named, once⟩

/-- The call returns, and has changed nothing if it fails. -/
def FailsAtomically (state : UudpHeap) (comm random listenPort qsize : Nat) : Prop :=
  ∃ value after, state.hfUudpCreate comm random listenPort qsize = some (value, after) ∧
    (value ≠ errOk → Atomic state after)

theorem failsAtomically_of_returns {value : Int}
    (created : state.hfUudpCreate comm random listenPort qsize = some (value, after))
    (failed : value ≠ errOk) :
    FailsAtomically state comm random listenPort qsize ↔ Restored state after := by
  constructor
  · rintro ⟨other, result, again, atomic⟩
    obtain ⟨rfl, rfl⟩ := Prod.mk.inj (Option.some.inj (created.symm.trans again))
    exact atomic_iff.mp (atomic failed)
  · intro restored
    exact ⟨value, after, created, fun _ => atomic_iff.mpr restored⟩

theorem failsAtomically_published (published : state.Published comm random listenPort) :
    FailsAtomically state comm random listenPort qsize ↔ (∀ k, k < 4 → (state.given (k + 1)).isSome) ∧
      Fits qsize (obtained (fun n => state.given (n + 5)) qsize) := by
  obtain ⟨ready, list, t1, ahead, created, heap, comms, -, once⟩ := create_published qsize published
  have answers : ∀ k, ready.heap.answers k = state.given (k + 1) := by
    intro k
    rw [heap]
  have buffers : buffersFor ready.heap qsize = obtained (fun n => state.given (n + 5)) qsize := by
    rw [buffersFor, heap]
  have live : ready.heap.live = t1 :: (ahead ++ state.heap.live) := by rw [heap]
  rw [← buffers]
  simp only [← answers]
  by_cases queues : ∀ k, k < 4 → (ready.heap.answers k).isSome
  · by_cases inside : buffersFor ready.heap qsize ≤ ringWords qsize ∨ ringRoom qsize ≤ ringWords qsize
    · by_cases all : buffersFor ready.heap qsize = qsize
      · obtain ⟨after, provided⟩ := provide_complete _ comm t1 queues inside all
        constructor
        · intro _
          exact ⟨queues, Or.inl all, inside⟩
        · intro _
          exact ⟨errOk, after, created.trans provided, fun failed => absurd rfl failed⟩
      · obtain ⟨after, lost, provided, listed, kept, blocks, none⟩ :=
          provide_incomplete { list with nodes := state.nodes ++ [(t1, comm)] } comm queues live inside all
        rw [List.dropLast_concat] at listed
        rw [failsAtomically_of_returns (created.trans provided) (by decide)]
        constructor
        · intro restored
          have perm := blocks.symm.trans restored.blocks
          rw [once after state.nodes listed] at perm
          have length := perm.length_eq
          rw [List.length_append] at length
          exact ⟨queues, Or.inr (none.mp (List.length_eq_zero_iff.mp (by omega))), inside⟩
        · rintro ⟨-, fits⟩
          rw [none.mpr (fits.taken.resolve_left all)] at blocks
          refine ⟨?_, ?_, ?_⟩
          · rw [nodes, listed]
          · intro node member
            rw [kept _ (published.port node member).1]
            exact comms node member
          · rw [once after state.nodes listed]
            exact blocks
    · constructor
      · rintro ⟨value, after, done, -⟩
        rw [created, provide_escapes _ comm t1 queues (by omega)] at done
        cases done
      · rintro ⟨-, fits⟩
        exact absurd fits.inside inside
  · obtain ⟨after, provided, longer⟩ :=
      provide_unqueued { list with nodes := state.nodes ++ [(t1, comm)] } comm t1 qsize queues
    rw [failsAtomically_of_returns (created.trans provided) (by decide)]
    constructor
    · intro restored
      have length := congrArg List.length (longer.symm.trans restored.nodes)
      rw [List.length_append, List.length_singleton] at length
      omega
    · rintro ⟨all, -⟩
      exact absurd all queues

end Atomicity

section Views

variable {state after : UudpHeap} {comm random listenPort qsize : Nat}

def view (state : UudpHeap) (comm : Nat) : Uudp :=
  ⟨(state.comms comm).listenPort, (state.comms comm).freeBuffers.map UudpQueue.ring,
    (state.comms comm).pktQueue.map UudpQueue.ring⟩

def uudps (state : UudpHeap) (buffers : Nat → Frame) : Uudps :=
  ⟨state.commList.map fun list => list.nodes.map fun node => state.view node.2, buffers⟩

def blocks (state : UudpHeap) : CreateBlocks where
  commList := (state.heap.answers 0).isSome
  node := (state.given 0).isSome
  freeQueue := (state.given 1).isSome
  freeData _ := (state.given 2).map state.stale
  pktQueue := (state.given 3).isSome
  pktData _ := (state.given 4).map state.stale
  buffers k := state.given (k + 5)

theorem ring_of_addtail {queue next : UudpQueue} {ptr : Nat} (added : queue.hfQueueAddtail ptr = some next) :
    next.ring = (queue.ring.hfQueueAddtail (some ptr)).2 := by
  simp only [UudpQueue.hfQueueAddtail] at added
  split at added
  · cases added
  · exact (congrArg UudpQueue.ring (Option.some.inj added)).symm

theorem fillPool_ring (buffers : Nat → Option Nat) (count : Nat) : ∀ (i : Nat) (free filled : UudpQueue)
    (live : List Nat) (answers : Nat → Option Nat) (all : Bool) (heap : Ledger Nat),
    (∀ k, answers k = buffers (i + k)) → fillPool count free ⟨live, answers⟩ = some (all, filled, heap) →
    Uudps.fillPool buffers count i free.ring = if all then some filled.ring else none := by
  induction count with
  | zero =>
      intro i free filled live answers all heap _ ran
      obtain ⟨rfl, rest⟩ := Prod.mk.inj (Option.some.inj ran)
      obtain ⟨rfl, -⟩ := Prod.mk.inj rest
      rfl
  | succ count ih =>
      intro i free filled live answers all heap same ran
      have first := same 0
      rw [Nat.add_zero] at first
      cases given : answers 0 with
      | none =>
          rw [fillPool_failed given] at ran
          have failed : false = all := congrArg Prod.fst (Option.some.inj ran)
          rw [Uudps.fillPool, ← first, given, ← failed]
          rfl
      | some ptr =>
          rw [fillPool_given given] at ran
          obtain ⟨next, added, later⟩ := Option.bind_eq_some_iff.mp ran
          rw [Uudps.fillPool, ← first, given]
          simp only
          rw [← ring_of_addtail added]
          refine ih (i + 1) next filled _ _ all heap ?_ later
          intro k
          rw [same (k + 1), Nat.add_assoc, Nat.add_comm 1 k]

theorem hfQueueCreate_ring (stale : Nat → Nat → Option Nat) (heap : Ledger Nat) (size : Int) :
    Queue.hfQueueCreate (heap.answers 0).isSome (fun _ => (heap.answers 1).map stale) size =
      (hfQueueCreate stale size heap).1.map UudpQueue.ring := by
  cases given : heap.answers 0 with
  | none =>
      rw [hfQueueCreate, malloc_none given]
      rfl
  | some place =>
      rw [hfQueueCreate, malloc_some given]
      simp only
      cases data : heap.answers 1 with
      | none =>
          rw [malloc_none data]
          rfl
      | some cells =>
          rw [malloc_some data]
          rfl

theorem hfQueueCreate_answers {stale : Nat → Nat → Option Nat} {heap rest : Ledger Nat} {size : Int}
    {queue : UudpQueue} (made : hfQueueCreate stale size heap = (some queue, rest)) :
    rest.answers = fun n => heap.answers (n + 2) := by
  rw [hfQueueCreate] at made
  cases given : heap.answers 0 with
  | none =>
      rw [malloc_none given] at made
      cases made
  | some place =>
      rw [malloc_some given] at made
      simp only at made
      cases data : heap.answers 1 with
      | none =>
          rw [malloc_none data] at made
          cases made
      | some cells =>
          rw [malloc_some data] at made
          exact congrArg Ledger.answers (Prod.mk.inj made).2.symm

theorem views_kept {others : List (Nat × Nat)} {endpoint : Endpoint} (state : UudpHeap)
    (comms : after.comms = Function.update state.comms comm endpoint)
    (apart : ∀ node ∈ others, node.2 ≠ comm) :
    (others.map fun node => after.view node.2) = others.map fun node => state.view node.2 := by
  apply List.map_congr_left
  intro node member
  rw [view, view, comms, Function.update_of_ne (apart node member)]

theorem uudps_restored {list : CommList} {others : List (Nat × Nat)} {endpoint : Endpoint} (state : UudpHeap)
    (listed : after.commList = some list) (nodes : list.nodes = others)
    (comms : after.comms = Function.update state.comms comm endpoint)
    (apart : ∀ node ∈ others, node.2 ≠ comm) (buffers : Nat → Frame) :
    after.uudps buffers = ⟨some (others.map fun node => state.view node.2), buffers⟩ := by
  rw [uudps, listed, Option.map_some, nodes, views_kept state comms apart]

theorem uudps_published {list : CommList} {others : List (Nat × Nat)} {t1 : Nat} {endpoint : Endpoint}
    (state : UudpHeap) (listed : after.commList = some list) (nodes : list.nodes = others ++ [(t1, comm)])
    (comms : after.comms = Function.update state.comms comm endpoint)
    (apart : ∀ node ∈ others, node.2 ≠ comm) (buffers : Nat → Frame) :
    after.uudps buffers = ⟨some ((others.map fun node => state.view node.2) ++
      [⟨endpoint.listenPort, endpoint.freeBuffers.map UudpQueue.ring,
        endpoint.pktQueue.map UudpQueue.ring⟩]), buffers⟩ := by
  rw [uudps, listed, Option.map_some, nodes, List.map_append, views_kept state comms apart,
    List.map_singleton, view, comms, Function.update_self]

theorem provide_uudps {value : Int} {list : CommList} {others : List (Nat × Nat)} {t1 : Nat}
    (done : state.provide list comm t1 qsize = some (value, after))
    (nodes : list.nodes = others ++ [(t1, comm)]) (apart : ∀ node ∈ others, node.2 ≠ comm)
    (unmade : (state.comms comm).pktQueue = none) (buffers : Nat → Frame) :
    (match Queue.hfQueueCreate (state.heap.answers 0).isSome
        (fun _ => (state.heap.answers 1).map state.stale) (int32 qsize) with
    | none => (errOutOfMemory, Uudps.mk (some ((others.map fun node => state.view node.2) ++
        [⟨(state.comms comm).listenPort, none, none⟩])) buffers)
    | some free =>
        match Queue.hfQueueCreate (state.heap.answers 2).isSome
            (fun _ => (state.heap.answers 3).map state.stale) (int32 qsize) with
        | none => (errOutOfMemory, ⟨some ((others.map fun node => state.view node.2) ++
            [⟨(state.comms comm).listenPort, some free, none⟩]), buffers⟩)
        | some pkt =>
            match Uudps.fillPool (fun k => state.heap.answers (k + 4)) qsize 0 free with
            | none => (errOutOfMemory, ⟨some (others.map fun node => state.view node.2), buffers⟩)
            | some free => (errOk, ⟨some ((others.map fun node => state.view node.2) ++
                [⟨(state.comms comm).listenPort, some free, some pkt⟩]), buffers⟩)) =
      (value, after.uudps buffers) := by
  rw [hfQueueCreate_ring]
  rw [provide] at done
  rcases first : hfQueueCreate state.stale (int32 qsize) state.heap with ⟨made, heap⟩
  rw [first] at done
  cases made with
  | none =>
      obtain ⟨rfl, rfl⟩ := Prod.mk.inj (Option.some.inj done)
      rw [uudps_published state rfl nodes rfl apart, unmade]
      rfl
  | some free =>
      have answers := hfQueueCreate_answers first
      have second := hfQueueCreate_ring state.stale heap (int32 qsize)
      rw [answers] at second
      simp only [Option.map_some]
      rw [second]
      simp only at done
      rcases made : hfQueueCreate state.stale (int32 qsize) heap with ⟨pkt, rest⟩
      rw [made] at done
      cases pkt with
      | none =>
          obtain ⟨rfl, rfl⟩ := Prod.mk.inj (Option.some.inj done)
          rw [uudps_published state rfl nodes rfl apart]
          rfl
      | some pkt =>
          have later := hfQueueCreate_answers made
          rw [answers] at later
          simp only [Option.map_some] at done ⊢
          obtain ⟨⟨all, filled, used⟩, ran, ended⟩ := Option.bind_eq_some_iff.mp done
          have pool := fillPool_ring (fun k => state.heap.answers (k + 4)) qsize 0 free filled rest.live
            rest.answers all used (by
              intro k
              rw [later, Nat.zero_add]) ran
          rw [pool]
          cases all with
          | true =>
              obtain ⟨rfl, rfl⟩ := Prod.mk.inj (Option.some.inj ended)
              rw [uudps_published state rfl nodes rfl apart]
              rfl
          | false =>
              obtain ⟨poolFreed, -, last⟩ := Option.bind_eq_some_iff.mp ended
              obtain ⟨pktFreed, -, returned⟩ := Option.bind_eq_some_iff.mp last
              obtain ⟨rfl, rfl⟩ := Prod.mk.inj (Option.some.inj returned)
              rw [uudps_restored state rfl (by rw [nodes, List.dropLast_concat]) rfl apart]
              rfl

theorem hfUudpCreate_uudps {value : Int}
    (created : state.hfUudpCreate comm random listenPort qsize = some (value, after))
    (fresh : ∀ node ∈ state.nodes, node.2 ≠ comm) (unmade : (state.comms comm).pktQueue = none)
    (buffers : Nat → Frame) :
    Uudps.hfUudpCreate (state.uudps buffers) state.blocks random listenPort qsize =
      (value, after.uudps buffers) := by
  by_cases memory : state.commList = none → (state.heap.answers 0).isSome
  · obtain ⟨list, ahead, listed, same, -⟩ := startList_some memory
    obtain ⟨started, heap, stale, head, comms, ready⟩ :=
      hfUudpCreate_listed listed comm random listenPort qsize
    have known : (state.uudps buffers).commList.or (if state.blocks.commList then some [] else none) =
        some (state.nodes.map fun node => state.view node.2) := by
      cases there : state.commList with
      | some list =>
          rw [uudps, nodes, there]
          rfl
      | none =>
          have given := memory there
          simp only [uudps, nodes, blocks, there, given, Option.map_none, Option.none_or, if_true,
            List.map_nil]
    have busy : (list.nodes.any fun node => (started.comms node.2).listenPort =
        Uudps.listenPortFor random listenPort) = (state.nodes.map fun node => state.view node.2).any
          fun comm => comm.listenPort = Uudps.listenPortFor random listenPort := by
      rw [← views_kept state comms fresh, List.any_map, same]
      rfl
    rw [created, busy] at ready
    simp only [Uudps.hfUudpCreate]
    rw [known]
    simp only
    by_cases taken : ((state.nodes.map fun node => state.view node.2).any
        fun comm => comm.listenPort = Uudps.listenPortFor random listenPort) = true
    · rw [if_pos taken] at ready ⊢
      obtain ⟨rfl, rfl⟩ := Prod.mk.inj (Option.some.inj ready)
      rw [uudps_restored state head same comms fresh]
      rfl
    · rw [if_neg taken] at ready ⊢
      rw [heap] at ready
      cases node : state.given 0 with
      | none =>
          rw [malloc_none node] at ready
          obtain ⟨rfl, rfl⟩ := Prod.mk.inj (Option.some.inj ready)
          have missing : state.blocks.node = false := by
            rw [blocks, node, Option.isSome_none]
          rw [if_pos missing]
          exact congrArg (Prod.mk errOutOfMemory) (uudps_restored state head same comms fresh buffers).symm
      | some t1 =>
          rw [malloc_some node] at ready
          have there : ¬state.blocks.node = false := by
            rw [blocks, node, Option.isSome_some]
            exact Bool.noConfusion
          rw [if_neg there]
          have provided := provide_uudps ready.symm (by rw [same]) fresh
            (by simp only [comms, Function.update_self, unmade]) buffers
          have kept := views_kept state comms fresh
          simp only [view, comms, stale, Function.update_self] at provided kept
          rw [kept] at provided
          exact provided
  · push Not at memory
    have failed := Option.not_isSome_iff_eq_none.mp memory.2
    rw [hfUudpCreate, startList_none memory.1 failed] at created
    obtain ⟨rfl, rfl⟩ := Prod.mk.inj (Option.some.inj created)
    simp only [Uudps.hfUudpCreate, uudps, blocks, memory.1, failed, Option.map_none, Option.none_or,
      Option.isSome_none, Bool.false_eq_true, if_false]

end Views

/-- A creation that fails is undone exactly if the endpoint had its queues and lost none of the buffers. -/
theorem hfUudpCreate_atomic_iff (state : UudpHeap) (comm random listenPort qsize : Nat) :
    FailsAtomically state comm random listenPort qsize ↔ Survivable state comm random listenPort qsize := by
  by_cases published : state.Published comm random listenPort
  · rw [failsAtomically_published published]
    constructor
    · rintro ⟨queues, fits⟩
      exact ⟨fun node member self => absurd self (published.port node member).1, fun _ => queues,
        fun _ _ => fits⟩
    · intro survivable
      have queues := survivable.queues published
      exact ⟨queues, survivable.buffers published queues⟩
  · have vacuous : Survivable state comm random listenPort qsize ↔ ∀ node ∈ state.nodes, node.2 = comm →
        (state.comms comm).listenPort = Uudps.listenPortFor random listenPort :=
      ⟨fun survivable => survivable.port, fun port => ⟨port, fun there => absurd there published,
        fun there => absurd there published⟩⟩
    rw [vacuous]
    by_cases memory : state.commList = none → (state.heap.answers 0).isSome
    · by_cases port : ∀ node ∈ state.nodes, node.2 ≠ comm ∧
          (state.comms node.2).listenPort ≠ Uudps.listenPortFor random listenPort
      · have failed : state.given 0 = none := by
          rw [← Option.not_isSome_iff_eq_none]
          exact fun node => published ⟨memory, node, port⟩
        obtain ⟨after, created, restored⟩ := create_nodeless qsize memory port failed
        rw [failsAtomically_of_returns created (by decide)]
        exact ⟨fun _ node member self => absurd self (port node member).1, fun _ => restored⟩
      · push Not at port
        obtain ⟨node, member, taken⟩ := port
        obtain ⟨after, created, restored⟩ := create_busy qsize memory
          ⟨node, member, or_iff_not_imp_left.mpr taken⟩
        rw [failsAtomically_of_returns created (by decide)]
        exact restored
    · push Not at memory
      obtain ⟨after, created, restored⟩ := create_listless comm random listenPort qsize memory.1
        (Option.not_isSome_iff_eq_none.mp memory.2)
      rw [failsAtomically_of_returns created (by decide)]
      refine ⟨fun _ node member => ?_, fun _ => restored⟩
      rw [nodes, memory.1] at member
      cases member

/-- There is memory for the node of the list, and none for the pool. -/
theorem hfUudpCreate_leaves_endpoint :
    let state : UudpHeap := ⟨⟨[100], fun n => if n = 0 then some 200 else none⟩, fun _ _ => none,
      some ⟨100, []⟩, fun _ => ⟨0, none, none⟩⟩
    ∃ after, state.hfUudpCreate 300 0 30000 8 = some (errOutOfMemory, after) ∧ after.nodes = [(200, 300)] ∧
      state.Queued ∧ ¬after.Queued ∧ ¬state.FailsAtomically 300 0 30000 8 := by
  intro state
  have created : ∃ after, state.hfUudpCreate 300 0 30000 8 = some (errOutOfMemory, after) ∧
      after.nodes = [(200, 300)] ∧ (after.comms 300).freeBuffers = none := ⟨_, rfl, rfl, rfl⟩
  obtain ⟨after, returned, nodes, pool⟩ := created
  refine ⟨after, returned, nodes, fun node member => ?_, ?_, ?_⟩
  · cases member
  · intro queued
    have member : (200, 300) ∈ after.nodes := by
      rw [nodes]
      exact List.mem_singleton_self _
    obtain ⟨made, there, -⟩ := (queued _ member).1
    rw [pool] at there
    cases there
  · rw [failsAtomically_of_returns returned (by decide)]
    intro restored
    have same := nodes.symm.trans restored.nodes
    cases same

theorem survivable_small {state : UudpHeap} {comm random listenPort qsize : Nat}
    (small : qsize + 1 < 1073741824) :
    Survivable state comm random listenPort qsize ↔
      (∀ node ∈ state.nodes, node.2 = comm →
        (state.comms comm).listenPort = Uudps.listenPortFor random listenPort) ∧
      (state.Published comm random listenPort → ∀ k, k < 4 → (state.given (k + 1)).isSome) :=
  ⟨fun survivable => ⟨survivable.port, survivable.queues⟩, fun both =>
    ⟨both.1, both.2, fun _ _ => fits_small small _⟩⟩

theorem findIdx?_last {known : List Uudp} {endpoint : Uudp} {port : Nat}
    (others : ∀ other ∈ known, other.listenPort ≠ port) (named : endpoint.listenPort = port) :
    (known ++ [endpoint]).findIdx? (fun comm => comm.listenPort = port) = some known.length := by
  have none : known.findIdx? (fun comm => comm.listenPort = port) = none := by
    rw [List.findIdx?_eq_none_iff]
    exact fun other member => decide_eq_false (others other member)
  rw [List.findIdx?_append, none, Option.none_or, List.findIdx?_singleton, if_pos (decide_eq_true named),
    Option.map_some, Nat.zero_add]

/-- The next datagram for an endpoint without its pool makes `udp_callback` use a NULL queue. -/
theorem udpCallback_unqueued {state : UudpHeap} {comm random listenPort : Nat} (qsize : Nat)
    (published : state.Published comm random listenPort)
    (missing : state.given 1 = none ∨ state.given 2 = none) :
    ∃ after, state.hfUudpCreate comm random listenPort qsize = some (errOutOfMemory, after) ∧
      ∀ buffers packet, packet.wordAt udpHdrDestport1 = Uudps.listenPortFor random listenPort →
        (after.uudps buffers).udpCallback packet = none := by
  obtain ⟨ready, list, t1, ahead, created, heap, comms, named, -⟩ := create_published qsize published
  have short : ready.heap.answers 0 = none ∨ ready.heap.answers 1 = none := by
    rw [heap]
    exact missing
  obtain ⟨rest, failed⟩ := hfQueueCreate_missing ready.stale ready.heap (int32 qsize) short
  rw [provide, failed] at created
  refine ⟨_, created, ?_⟩
  intro buffers packet addressed
  rw [uudps_published ready rfl rfl rfl fun node member => (published.port node member).1]
  have others : ∀ endpoint ∈ state.nodes.map fun node => ready.view node.2,
      endpoint.listenPort ≠ Uudps.listenPortFor random listenPort := by
    intro endpoint member
    obtain ⟨node, there, rfl⟩ := List.mem_map.mp member
    rw [view, comms node there]
    exact (published.port node there).2
  simp only [Uudps.udpCallback, addressed, Option.getD_some, Option.map_none]
  rw [findIdx?_last others named]
  simp only [Uudps.comm, Option.bind_some, List.getElem?_concat_length, Option.bind_eq_bind, Option.bind_none]

end UudpHeap

end Hellfire

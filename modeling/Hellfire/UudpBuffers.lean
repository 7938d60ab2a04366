import Hellfire.Queue
import Hellfire.UudpCore
import Mathlib.Algebra.BigOperators.Group.Finset.Basic
import Mathlib.Order.Interval.Finset.Nat

/-!
The buffers of an endpoint wander between its pool and its packet queue. They are all there
after every operation, unless `hf_uudp_recv` meets a datagram that is longer than its limit.
-/

namespace Hellfire

namespace Uudps

section Pools

structure Pooled (qsize lost : Nat) (comm : Uudp) (free pkt : Queue Nat) (idle pending : List Nat) :
    Prop where
  freeBuffers : comm.freeBuffers = some free
  pktQueue : comm.pktQueue = some pkt
  freeValid : free.WellFormed qsize
  pktValid : pkt.WellFormed qsize
  freeContents : free.contents = idle.map some
  pktContents : pkt.contents = pending.map some
  distinct : (idle ++ pending).Nodup
  total : idle.length + pending.length + lost = qsize

def Conserved (qsize : Nat) (comm : Uudp) : Prop :=
  ∃ free pkt, comm.freeBuffers = some free ∧ comm.pktQueue = some pkt ∧
    free.hfQueueCount + pkt.hfQueueCount = (qsize : Int) ∧ ∀ ptr ∈ free.contents, ptr ∉ pkt.contents

theorem Pooled.conserved_iff {qsize lost : Nat} {comm : Uudp} {free pkt : Queue Nat}
    {idle pending : List Nat} (pooled : Pooled qsize lost comm free pkt idle pending) :
    Conserved qsize comm ↔ lost = 0 := by
  have idleCount := pooled.freeValid.elem_eq_length
  have pendingCount := pooled.pktValid.elem_eq_length
  have total := pooled.total
  rw [pooled.freeContents, List.length_map] at idleCount
  rw [pooled.pktContents, List.length_map] at pendingCount
  constructor
  · rintro ⟨freeSame, pktSame, freeFound, pktFound, count, -⟩
    obtain rfl := Option.some.inj (pooled.freeBuffers.symm.trans freeFound)
    obtain rfl := Option.some.inj (pooled.pktQueue.symm.trans pktFound)
    unfold Queue.hfQueueCount at count
    omega
  · intro none
    refine ⟨free, pkt, pooled.freeBuffers, pooled.pktQueue, ?_, ?_⟩
    · unfold Queue.hfQueueCount
      omega
    · rw [pooled.freeContents, pooled.pktContents]
      intro ptr there other
      obtain ⟨buff, member, rfl⟩ := List.mem_map.mp there
      obtain ⟨same, again, equal⟩ := List.mem_map.mp other
      rw [Option.some.inj equal] at again
      exact (List.nodup_append.mp pooled.distinct).2.2 buff member buff again rfl

end Pools

section Creation

/-- What `hf_malloc` promises of the buffers: blocks of `PACKET_SIZE` bytes in a memory of
32 bit addresses, and no two of them overlap. -/
structure Separate (buffers : Nat → Option Nat) (count : Nat) : Prop where
  inside : ∀ i, i < count → ∀ ptr, buffers i = some ptr → ptr + packetSize ≤ 4294967296
  apart : ∀ i j, i < j → j < count → ∀ ptr other, buffers i = some ptr → buffers j = some other →
    ptr + packetSize ≤ other ∨ other + packetSize ≤ ptr

theorem Separate.bounded {buffers : Nat → Option Nat} {count : Nat} (separate : Separate buffers count)
    (all : ∀ i, i < count → (buffers i).isSome) : count * packetSize ≤ 4294967296 := by
  let block := fun i => Finset.Ico ((buffers i).getD 0) ((buffers i).getD 0 + packetSize)
  have held : ∀ i, i < count → ∃ ptr, buffers i = some ptr := fun i below =>
    Option.isSome_iff_exists.mp (all i below)
  have apart : ∀ i j, i < j → j < count → Disjoint (block i) (block j) := by
    intro i j order below
    obtain ⟨ptr, first⟩ := held i (by omega)
    obtain ⟨other, second⟩ := held j below
    have gap := separate.apart i j order below ptr other first second
    rw [Finset.disjoint_left]
    intro address low high
    simp only [block, first, second, Option.getD_some, Finset.mem_Ico] at low high
    omega
  have disjoint : Set.PairwiseDisjoint (Finset.range count : Set Nat) block := by
    intro i low j high different
    simp only [Finset.coe_range, Set.mem_Iio] at low high
    rcases Nat.lt_or_gt_of_ne different with order | order
    · exact apart i j order high
    · exact (apart j i order low).symm
  have covered : (Finset.range count).biUnion block ⊆ Finset.range 4294967296 := by
    intro address member
    obtain ⟨i, below, inside⟩ := Finset.mem_biUnion.mp member
    obtain ⟨ptr, first⟩ := held i (Finset.mem_range.mp below)
    have bound := separate.inside i (Finset.mem_range.mp below) ptr first
    simp only [block, first, Option.getD_some, Finset.mem_Ico] at inside
    exact Finset.mem_range.mpr (by omega)
  have room := Finset.card_le_card covered
  rw [Finset.card_biUnion disjoint, Finset.card_range] at room
  simpa [block] using room

theorem fillPool_spec {buffers : Nat → Option Nat} {qsize : Nat} (count : Nat) :
    ∀ (i : Nat) (free filled : Queue Nat) (idle : List Nat), free.WellFormed qsize →
      free.contents = idle.map some → idle.length + count ≤ qsize →
      fillPool buffers count i free = some filled →
      ∃ more : List Nat, filled.WellFormed qsize ∧ filled.contents = (idle ++ more).map some ∧
        more.length = count ∧ ∀ k (below : k < more.length), buffers (i + k) = some more[k] := by
  induction count with
  | zero =>
      intro i free filled idle valid stored _ done
      obtain rfl := Option.some.inj done
      exact ⟨[], valid, by rw [List.append_nil]; exact stored, rfl, fun k below => absurd below (by simp)⟩
  | succ count ih =>
      intro i free filled idle valid stored room done
      rw [fillPool] at done
      cases given : buffers i with
      | none =>
          rw [given] at done
          cases done
      | some ptr =>
          rw [given] at done
          obtain ⟨_, validNext, storedNext⟩ := Queue.hfQueueAddtail_room valid (some ptr)
            (by rw [stored, List.length_map]; omega)
          obtain ⟨more, validAll, storedAll, length, order⟩ := ih (i + 1) _ filled (idle ++ [ptr])
            validNext (by rw [storedNext, stored, List.map_append]; rfl)
            (by rw [List.length_append]; simp only [List.length_cons, List.length_nil]; omega) done
          refine ⟨ptr :: more, validAll, ?_, by rw [List.length_cons, length], ?_⟩
          · rw [storedAll, List.append_assoc]
            rfl
          · intro k below
            cases k with
            | zero => exact given
            | succ k =>
                have later := order k (by simpa using below)
                rw [List.getElem_cons_succ, ← later, Nat.add_assoc, Nat.add_comm 1 k]

theorem hfQueueCreate_empty {structBlock : Bool} {hfMalloc : Nat → Option (Nat → Option Nat)}
    {qsize : Nat} {queue : Queue Nat} (small : qsize + 1 < 1073741824)
    (created : Queue.hfQueueCreate structBlock hfMalloc (int32 qsize) = some queue) :
    queue.WellFormed qsize ∧ queue.contents = [] := by
  rw [int32_of_range (by omega) (by omega)] at created
  have cells : int32 ((qsize : Int) + 1) = qsize + 1 := int32_of_range (by omega) (by omega)
  refine Queue.hfQueueCreate_wellFormed (by omega) created ?_
  simp only [Queue.hfQueueCreate, cells] at created
  split at created
  · split at created
    · cases created
    · obtain rfl := Option.some.inj created
      simp only [List.length_map, List.length_range]
      omega
  · cases created

theorem fillPool_all {buffers : Nat → Option Nat} (count : Nat) :
    ∀ (i : Nat) (free filled : Queue Nat), fillPool buffers count i free = some filled →
      ∀ k, k < count → (buffers (i + k)).isSome := by
  induction count with
  | zero => exact fun _ _ _ _ k below => absurd below (Nat.not_lt_zero k)
  | succ count ih =>
      intro i free filled done k below
      rw [fillPool] at done
      cases given : buffers i with
      | none =>
          rw [given] at done
          cases done
      | some ptr =>
          rw [given] at done
          cases k with
          | zero => simp [given]
          | succ k =>
              have later := ih (i + 1) _ filled done k (by omega)
              rwa [Nat.add_assoc, Nat.add_comm 1 k] at later

theorem hfUudpCreate_ok {uudps after : Uudps} {blocks : CreateBlocks} {random listenPort qsize : Nat}
    (separate : Separate blocks.buffers qsize)
    (created : hfUudpCreate uudps blocks random listenPort qsize = (errOk, after)) :
    ∃ comm free pkt idle, after.commList = some (uudps.commList.getD [] ++ [comm]) ∧
      Pooled qsize 0 comm free pkt idle [] ∧
      ∀ ptr ∈ idle, ∃ k, k < qsize ∧ blocks.buffers k = some ptr := by
  unfold hfUudpCreate at created
  split at created
  · simp [errOutOfMemory, errOk] at created
  rename_i list listed
  have same : list = uudps.commList.getD [] := by
    cases known : uudps.commList with
    | none =>
        rw [known, Option.none_or] at listed
        split at listed
        · exact (Option.some.inj listed).symm
        · cases listed
    | some comms =>
        rw [known, Option.some_or] at listed
        exact (Option.some.inj listed).symm
  simp only at created
  split at created
  · simp [errError, errOk] at created
  split at created
  · simp [errOutOfMemory, errOk] at created
  split at created
  · simp [errOutOfMemory, errOk] at created
  rename_i free freeCreated
  split at created
  · simp [errOutOfMemory, errOk] at created
  rename_i pkt pktCreated
  split at created
  · simp [errOutOfMemory, errOk] at created
  rename_i filled poolFilled
  have all := fillPool_all qsize 0 free filled poolFilled
  have small : qsize + 1 < 1073741824 := by
    have room := separate.bounded fun k below => by simpa using all k below
    simp only [packetSize] at room
    omega
  obtain ⟨freeValid, freeEmpty⟩ := hfQueueCreate_empty small freeCreated
  obtain ⟨pktValid, pktEmpty⟩ := hfQueueCreate_empty small pktCreated
  obtain ⟨idle, filledValid, stored, length, order⟩ := fillPool_spec qsize 0 free filled [] freeValid
    (by rw [freeEmpty]; rfl) (by simp) poolFilled
  have distinct : idle.Nodup := by
    rw [List.nodup_iff_pairwise_ne, List.pairwise_iff_getElem]
    intro k l kBelow lBelow before equal
    have gap := separate.apart k l before (by omega) idle[k] idle[l]
      (by simpa using order k kBelow) (by simpa using order l lBelow)
    rw [equal] at gap
    simp only [packetSize] at gap
    omega
  obtain rfl := (Prod.mk.inj created).2
  refine ⟨⟨listenPortFor random listenPort, some filled, some pkt⟩, filled, pkt, idle, by rw [same],
    ⟨rfl, rfl, filledValid, pktValid, stored, pktEmpty, ?_, ?_⟩, ?_⟩
  · rwa [List.append_nil]
  · rw [List.length_nil, length, Nat.add_zero]
  · intro ptr member
    obtain ⟨k, below, rfl⟩ := List.getElem_of_mem member
    exact ⟨k, by omega, by simpa using order k below⟩

end Creation

section Steps

variable {uudps after : Uudps} {i : Nat} {comm : Uudp} {sizes losts : Nat → Nat}

inductive UudpEvent
  | datagram (packet : Frame)
  | recv (i : Nat)

/-- One operation after the other: the network service hands over a datagram that passed
`udp_in`, or a task calls `hf_uudp_recv` for its endpoint. -/
def step (uudps : Uudps) : UudpEvent → Option Uudps
  | .datagram packet => uudps.udpCallback packet
  | .recv i =>
      if (uudps.comm i).isSome then (uudps.hfUudpRecv i).map fun result => result.2.2 else some uudps

inductive Started (sizes : Nat → Nat) : Uudps → Prop
  | boot (buffers : Nat → Frame) : Started sizes ⟨none, buffers⟩
  | create {uudps after : Uudps} {blocks : CreateBlocks} {random listenPort qsize : Nat} :
      Started sizes uudps → Separate blocks.buffers qsize →
      hfUudpCreate uudps blocks random listenPort qsize = (errOk, after) →
      sizes (uudps.commList.getD []).length = qsize → Started sizes after

def listenerAt (uudps : Uudps) (port : Nat) : Option Nat :=
  (uudps.commList.getD []).findIdx? fun comm => comm.listenPort = port

def listener (uudps : Uudps) (packet : Frame) : Option Nat :=
  uudps.listenerAt (packet.wordAt udpHdrDestport1)

/-- The step stays within the buffers and takes no datagram that is longer than the limit. -/
def Meets (uudps : Uudps) : UudpEvent → Prop
  | .datagram packet => ∀ i comm free, uudps.listener packet = some i → uudps.comm i = some comm →
      comm.freeBuffers = some free → free.contents ≠ [] → packet.wordAt ipHdrLen1 ≤ packetSize
  | .recv i => ∀ comm pkt ptr rest, uudps.comm i = some comm → comm.pktQueue = some pkt →
      pkt.contents = some ptr :: rest →
      udpHeaderSize ≤ (uudps.buffers ptr).wordAt udpHdrLen1 ∧
        (uudps.buffers ptr).wordAt udpHdrLen1 ≤ uudpLimit

def AllPooled (sizes losts : Nat → Nat) (uudps : Uudps) : Prop :=
  ∀ i comm, uudps.comm i = some comm → ∃ free pkt idle pending,
    Pooled (sizes i) (losts i) comm free pkt idle pending

def AllConserved (sizes : Nat → Nat) (uudps : Uudps) : Prop :=
  ∀ i comm, uudps.comm i = some comm → Conserved (sizes i) comm

theorem AllPooled.conserved (pooled : AllPooled sizes (fun _ => 0) uudps) :
    AllConserved sizes uudps := by
  intro i comm found
  obtain ⟨_, _, _, _, inside⟩ := pooled i comm found
  exact inside.conserved_iff.mpr rfl

theorem comm_eq (uudps : Uudps) (i : Nat) : uudps.comm i = (uudps.commList.getD [])[i]? := by
  unfold Uudps.comm
  cases uudps.commList with
  | none => rfl
  | some list => rfl

theorem comm_setComm (found : uudps.comm i = some comm) (changed : Uudp) (j : Nat) :
    (uudps.setComm i changed).comm j = if i = j then some changed else uudps.comm j := by
  obtain ⟨list, listed⟩ : ∃ list, uudps.commList = some list := by
    cases listed : uudps.commList with
    | none => simp [Uudps.comm, listed] at found
    | some list => exact ⟨list, rfl⟩
  have below : i < list.length := by
    simp only [Uudps.comm, listed, Option.bind_some] at found
    exact (List.getElem?_eq_some_iff.mp found).1
  simp only [Uudps.comm, setComm, listed, Option.map_some, Option.bind_some, List.getElem?_set, below,
    if_true]

theorem copyTo_self (uudps : Uudps) (buff : Nat) (packet : Frame) {len i : Nat} (below : i < len) :
    (uudps.copyTo buff packet len).buffers buff i = packet i := by
  simp only [copyTo, Function.update_self, below, if_true]

theorem copyTo_other (uudps : Uudps) {buff other : Nat} (apart : other ≠ buff) (packet : Frame)
    (len : Nat) : (uudps.copyTo buff packet len).buffers other = uudps.buffers other := by
  simp only [copyTo, Function.update_of_ne apart]

theorem AllPooled.replace (pooled : AllPooled sizes losts uudps) (found : uudps.comm i = some comm)
    {changed : Uudp} {free pkt : Queue Nat} {idle pending : List Nat} {lost : Nat}
    (kept : Pooled (sizes i) lost changed free pkt idle pending) :
    AllPooled sizes (Function.update losts i lost) (uudps.setComm i changed) := by
  intro j other present
  rw [comm_setComm found] at present
  split at present
  · rename_i same
    subst same
    obtain rfl := Option.some.inj present
    rw [Function.update_self]
    exact ⟨_, _, _, _, kept⟩
  · rename_i apart
    rw [Function.update_of_ne (Ne.symm apart)]
    exact pooled j other present

theorem AllPooled.setComm (pooled : AllPooled sizes losts uudps) (found : uudps.comm i = some comm)
    {changed : Uudp} {free pkt : Queue Nat} {idle pending : List Nat}
    (kept : Pooled (sizes i) (losts i) changed free pkt idle pending) :
    AllPooled sizes losts (uudps.setComm i changed) := by
  have replaced := pooled.replace found kept
  rwa [Function.update_eq_self] at replaced

theorem AllPooled.copyTo (pooled : AllPooled sizes losts uudps) (buff : Nat) (packet : Frame)
    (len : Nat) : AllPooled sizes losts (uudps.copyTo buff packet len) := pooled

theorem Started.pooled (started : Started sizes uudps) : AllPooled sizes (fun _ => 0) uudps := by
  induction started with
  | boot buffers =>
      intro i comm found
      cases found
  | @create uudps after blocks random listenPort qsize before separate created size ih =>
      intro i comm found
      obtain ⟨last, free, pkt, idle, listed, inside, -⟩ := hfUudpCreate_ok separate created
      rw [comm_eq, listed, Option.getD_some, List.getElem?_append] at found
      split at found
      · exact ih i comm ((comm_eq uudps i).trans found)
      · rename_i past
        obtain ⟨below, there⟩ := List.getElem?_eq_some_iff.mp found
        simp only [List.length_cons, List.length_nil] at below
        obtain rfl : i = (uudps.commList.getD []).length := by omega
        simp only [Nat.sub_self, List.getElem_cons_zero] at there
        rw [size, ← there]
        exact ⟨free, pkt, idle, [], inside⟩

theorem Pooled.fill {qsize lost buff : Nat} {free pkt : Queue Nat} {idle pending : List Nat}
    (pooled : Pooled qsize lost comm free pkt (buff :: idle) pending) :
    free.hfQueueRemhead.1 = some buff ∧
      Pooled qsize lost { comm with
        freeBuffers := some free.hfQueueRemhead.2
        pktQueue := some (pkt.hfQueueAddtail (some buff)).2 }
        free.hfQueueRemhead.2 (pkt.hfQueueAddtail (some buff)).2 idle (pending ++ [buff]) := by
  have total := pooled.total
  rw [List.length_cons] at total
  obtain ⟨head, freeValid, freeContents⟩ :=
    Queue.hfQueueRemhead_cons pooled.freeValid (by rw [pooled.freeContents, List.map_cons])
  obtain ⟨_, pktValid, pktContents⟩ := Queue.hfQueueAddtail_room pooled.pktValid (some buff)
    (by rw [pooled.pktContents, List.length_map]; omega)
  refine ⟨head, rfl, rfl, freeValid, pktValid, freeContents, ?_, ?_, ?_⟩
  · rw [pktContents, pooled.pktContents, List.map_append]
    rfl
  · have moved : (buff :: idle ++ pending).Perm (idle ++ (pending ++ [buff])) := by
      rw [← List.append_assoc]
      exact (List.perm_append_singleton buff (idle ++ pending)).symm
    exact moved.nodup_iff.mp pooled.distinct
  · rw [List.length_append, List.length_singleton]
    omega

theorem Pooled.drain {qsize lost buff : Nat} {free pkt : Queue Nat} {idle pending : List Nat}
    (pooled : Pooled qsize lost comm free pkt idle (buff :: pending)) :
    pkt.hfQueueRemhead.1 = some buff ∧
      Pooled qsize lost { comm with
        freeBuffers := some (free.hfQueueAddtail (some buff)).2
        pktQueue := some pkt.hfQueueRemhead.2 }
        (free.hfQueueAddtail (some buff)).2 pkt.hfQueueRemhead.2 (idle ++ [buff]) pending := by
  have total := pooled.total
  rw [List.length_cons] at total
  obtain ⟨head, pktValid, pktContents⟩ :=
    Queue.hfQueueRemhead_cons pooled.pktValid (by rw [pooled.pktContents, List.map_cons])
  obtain ⟨_, freeValid, freeContents⟩ := Queue.hfQueueAddtail_room pooled.freeValid (some buff)
    (by rw [pooled.freeContents, List.length_map]; omega)
  refine ⟨head, rfl, rfl, freeValid, pktValid, ?_, pktContents, ?_, ?_⟩
  · rw [freeContents, pooled.freeContents, List.map_append]
    rfl
  · have moved : (idle ++ buff :: pending).Perm (idle ++ [buff] ++ pending) := by
      rw [List.append_assoc]
      rfl
    exact moved.nodup_iff.mp pooled.distinct
  · rw [List.length_append, List.length_singleton]
    omega

theorem listener_comm {packet : Frame} (found : uudps.listener packet = some i) :
    ∃ comm, uudps.comm i = some comm := by
  obtain ⟨below, _⟩ := List.findIdx?_eq_some_iff_getElem.mp found
  exact ⟨_, (comm_eq uudps i).trans (List.getElem?_eq_getElem below)⟩

theorem Pooled.lose {qsize lost buff : Nat} {free pkt : Queue Nat} {idle pending : List Nat}
    (pooled : Pooled qsize lost comm free pkt idle (buff :: pending)) :
    Pooled qsize (lost + 1) { comm with pktQueue := some pkt.hfQueueRemhead.2 } free
      pkt.hfQueueRemhead.2 idle pending := by
  obtain ⟨-, pktValid, pktContents⟩ :=
    Queue.hfQueueRemhead_cons pooled.pktValid (by rw [pooled.pktContents, List.map_cons])
  have total := pooled.total
  rw [List.length_cons] at total
  refine ⟨pooled.freeBuffers, rfl, pooled.freeValid, pktValid, pooled.freeContents, pktContents, ?_,
    by omega⟩
  exact pooled.distinct.sublist ((List.sublist_cons_self buff pending).append_left idle)

section Operations

variable {packet : Frame} {qsize lost buff : Nat} {free pkt : Queue Nat} {idle pending : List Nat}

theorem udpCallback_unheard (unheard : uudps.listener packet = none) :
    uudps.udpCallback packet = some uudps := by
  unfold listener listenerAt at unheard
  simp only [udpCallback, unheard]

theorem udpCallback_full (found : uudps.listener packet = some i) (listed : uudps.comm i = some comm)
    (pooled : Pooled qsize lost comm free pkt [] pending) :
    uudps.udpCallback packet = some (uudps.setComm i comm) := by
  have same : { comm with freeBuffers := some free } = comm := by
    rw [← pooled.freeBuffers]
  unfold listener listenerAt at found
  simp only [udpCallback, found, listed, pooled.freeBuffers, Option.bind_eq_bind, Option.bind_some,
    Queue.hfQueueRemhead_empty pooled.freeValid pooled.freeContents, same]

theorem udpCallback_fill (found : uudps.listener packet = some i) (listed : uudps.comm i = some comm)
    (pooled : Pooled qsize lost comm free pkt (buff :: idle) pending) : uudps.udpCallback packet =
      if packetSize < packet.wordAt ipHdrLen1 then none
      else some ((uudps.copyTo buff packet (packet.wordAt ipHdrLen1)).setComm i { comm with
        freeBuffers := some free.hfQueueRemhead.2
        pktQueue := some (pkt.hfQueueAddtail (some buff)).2 }) := by
  have taken : free.hfQueueRemhead = (some buff, free.hfQueueRemhead.2) := by
    rw [← pooled.fill.1]
  unfold listener listenerAt at found
  simp only [udpCallback, found, listed, pooled.freeBuffers, pooled.pktQueue, Option.bind_eq_bind,
    Option.bind_some]
  rw [taken]

theorem udpCallback_queues (found : uudps.listener packet = some i) (listed : uudps.comm i = some comm)
    (pooled : Pooled qsize lost comm free pkt (buff :: idle) pending)
    (fits : packet.wordAt ipHdrLen1 ≤ packetSize) : ∃ after changed freeLeft pktNow,
      uudps.udpCallback packet = some after ∧ after.comm i = some changed ∧
      Pooled qsize lost changed freeLeft pktNow idle (pending ++ [buff]) ∧
      after.buffers = (uudps.copyTo buff packet (packet.wordAt ipHdrLen1)).buffers := by
  have ran := udpCallback_fill found listed pooled
  rw [if_neg (Nat.not_lt.mpr fits)] at ran
  refine ⟨_, _, _, _, ran, ?_, pooled.fill.2, rfl⟩
  rw [comm_setComm (show (uudps.copyTo buff packet _).comm i = some comm from listed), if_pos rfl]

theorem hfUudpRecv_empty (listed : uudps.comm i = some comm)
    (pooled : Pooled qsize lost comm free pkt idle []) : uudps.hfUudpRecv i = some (0, none, uudps) := by
  have count := pooled.pktValid.elem_eq_length
  rw [pooled.pktContents] at count
  have none : pkt.hfQueueCount = 0 := count
  simp only [hfUudpRecv, listed, pooled.pktQueue, Option.bind_eq_bind, Option.bind_some, none, if_true]

/-- What a caller of `hf_uudp_recv` gets of a packet. -/
def datagramOf (packet : Frame) : Datagram :=
  ⟨packet.ipAt ipHdrSrcaddr1, packet.wordAt udpHdrSrcport1,
    packet.bytesAt udpDataOfs (packet.wordAt udpHdrLen1 - udpHeaderSize)⟩

theorem hfUudpRecv_drain (listed : uudps.comm i = some comm)
    (pooled : Pooled qsize lost comm free pkt idle (buff :: pending)) : uudps.hfUudpRecv i =
      if uudpLimit < (uudps.buffers buff).wordAt udpHdrLen1 then
        some (errError, none, uudps.setComm i { comm with pktQueue := some pkt.hfQueueRemhead.2 })
      else if (uudps.buffers buff).wordAt udpHdrLen1 < udpHeaderSize then none
      else some ((((uudps.buffers buff).wordAt udpHdrLen1 - udpHeaderSize : Nat) : Int),
        some (datagramOf (uudps.buffers buff)), uudps.setComm i { comm with
          freeBuffers := some (free.hfQueueAddtail (some buff)).2
          pktQueue := some pkt.hfQueueRemhead.2 }) := by
  have count := pooled.pktValid.elem_eq_length
  rw [pooled.pktContents] at count
  have waiting : pkt.hfQueueCount ≠ 0 := by
    unfold Queue.hfQueueCount
    rw [count, List.length_map, List.length_cons]
    omega
  have taken : pkt.hfQueueRemhead = (some buff, pkt.hfQueueRemhead.2) := by
    rw [← pooled.drain.1]
  simp only [hfUudpRecv, listed, pooled.pktQueue, pooled.freeBuffers, Option.bind_eq_bind,
    Option.bind_some, waiting, if_false]
  rw [taken]
  rfl

end Operations

theorem udpCallback_step (pooled : AllPooled sizes losts uudps) (packet : Frame) :
    (Meets uudps (.datagram packet) → ∃ after, uudps.udpCallback packet = some after ∧
      AllPooled sizes losts after) ∧
    (¬Meets uudps (.datagram packet) → uudps.udpCallback packet = none) := by
  cases found : uudps.listener packet with
  | none =>
      refine ⟨fun _ => ⟨uudps, udpCallback_unheard found, pooled⟩, fun fails => (fails ?_).elim⟩
      intro i comm free first
      rw [found] at first
      cases first
  | some i =>
      obtain ⟨comm, listed⟩ := listener_comm found
      obtain ⟨free, pkt, idle, pending, inside⟩ := pooled i comm listed
      cases idle with
      | nil =>
          refine ⟨fun _ => ⟨_, udpCallback_full found listed inside, pooled.setComm listed inside⟩,
            fun fails => (fails ?_).elim⟩
          intro j other queue first present stored nonempty
          obtain rfl := Option.some.inj (found.symm.trans first)
          obtain rfl := Option.some.inj (listed.symm.trans present)
          obtain rfl := Option.some.inj (inside.freeBuffers.symm.trans stored)
          exact (nonempty inside.freeContents).elim
      | cons buff idle =>
          have filled := inside.fill.2
          have nonempty : free.contents ≠ [] := by
            rw [inside.freeContents]
            exact List.cons_ne_nil _ _
          rw [udpCallback_fill found listed inside]
          constructor
          · intro meets
            have fits := meets i comm free found listed inside.freeBuffers nonempty
            rw [if_neg (Nat.not_lt.mpr fits)]
            exact ⟨_, rfl, (pooled.copyTo _ _ _).setComm listed filled⟩
          · intro fails
            rw [if_pos]
            by_contra fits
            refine fails fun j other queue first present stored _ => ?_
            exact Nat.not_lt.mp fits

theorem recv_step (pooled : AllPooled sizes losts uudps) (i : Nat) :
    (Meets uudps (.recv i) → ∃ after, step uudps (.recv i) = some after ∧
      AllPooled sizes losts after) ∧
    (¬Meets uudps (.recv i) → ∀ after, step uudps (.recv i) = some after →
      (∃ comm, after.comm i = some comm) ∧
      AllPooled sizes (Function.update losts i (losts i + 1)) after) := by
  cases listed : uudps.comm i with
  | none =>
      refine ⟨fun _ => ⟨uudps, by simp [step, listed], pooled⟩, fun fails => (fails ?_).elim⟩
      intro comm pkt ptr rest found
      rw [listed] at found
      cases found
  | some comm =>
      obtain ⟨free, pkt, idle, pending, inside⟩ := pooled i comm listed
      simp only [step, listed, Option.isSome_some, if_true]
      cases pending with
      | nil =>
          refine ⟨fun _ => ⟨uudps, by rw [hfUudpRecv_empty listed inside]; rfl, pooled⟩,
            fun fails => (fails ?_).elim⟩
          intro other queue ptr rest found stored head
          obtain rfl := Option.some.inj (listed.symm.trans found)
          obtain rfl := Option.some.inj (inside.pktQueue.symm.trans stored)
          rw [inside.pktContents] at head
          cases head
      | cons buff pending =>
          have drained := inside.drain.2
          have first : pkt.contents = some buff :: pending.map some := inside.pktContents
          rw [hfUudpRecv_drain listed inside]
          constructor
          · intro meets
            obtain ⟨least, most⟩ := meets comm pkt buff _ listed inside.pktQueue first
            rw [if_neg (Nat.not_lt.mpr most), if_neg (Nat.not_lt.mpr least)]
            exact ⟨_, rfl, pooled.setComm listed drained⟩
          · intro fails after stepped
            split at stepped
            · obtain rfl := Option.some.inj stepped
              exact ⟨⟨_, by rw [comm_setComm listed, if_pos rfl]⟩, pooled.replace listed inside.lose⟩
            · rename_i most
              split at stepped
              · cases stepped
              · rename_i least
                refine (fails ?_).elim
                intro other queue ptr rest found stored head
                obtain rfl := Option.some.inj (listed.symm.trans found)
                obtain rfl := Option.some.inj (inside.pktQueue.symm.trans stored)
                rw [first] at head
                obtain rfl := Option.some.inj (List.cons.inj head).1
                exact ⟨Nat.not_lt.mp least, Nat.not_lt.mp most⟩

theorem step_meets (pooled : AllPooled sizes losts uudps) {event : UudpEvent}
    (meets : Meets uudps event) : ∃ after, step uudps event = some after ∧
      AllPooled sizes losts after := by
  cases event with
  | datagram packet => exact (udpCallback_step pooled packet).1 meets
  | recv i => exact (recv_step pooled i).1 meets

theorem step_fails (pooled : AllPooled sizes losts uudps) {event : UudpEvent}
    (fails : ¬Meets uudps event) (stepped : step uudps event = some after) :
    ∃ i, (∃ comm, after.comm i = some comm) ∧
      AllPooled sizes (Function.update losts i (losts i + 1)) after := by
  cases event with
  | datagram packet =>
      have none := (udpCallback_step pooled packet).2 fails
      rw [step, none] at stepped
      cases stepped
  | recv i => exact ⟨i, (recv_step pooled i).2 fails after stepped⟩

theorem step_leaks (pooled : AllPooled sizes losts uudps) {event : UudpEvent}
    (fails : ¬Meets uudps event) (stepped : step uudps event = some after) :
    ¬AllConserved sizes after := by
  obtain ⟨i, ⟨comm, present⟩, leaked⟩ := step_fails pooled fails stepped
  obtain ⟨_, _, _, _, inside⟩ := leaked i comm present
  rw [Function.update_self] at inside
  intro conserved
  exact Nat.succ_ne_zero _ (inside.conserved_iff.mp (conserved i comm present))

def Throughout (holds : Uudps → Prop) : Uudps → List UudpEvent → Prop
  | uudps, [] => holds uudps
  | uudps, event :: events =>
      holds uudps ∧ ∃ after, step uudps event = some after ∧ Throughout holds after events

def AllMeet : Uudps → List UudpEvent → Prop
  | _, [] => True
  | uudps, event :: events =>
      Meets uudps event ∧ ∀ after, step uudps event = some after → AllMeet after events

theorem AllPooled.throughout_iff (events : List UudpEvent) : ∀ {uudps : Uudps},
    AllPooled sizes (fun _ => 0) uudps → (Throughout (AllConserved sizes) uudps events ↔ AllMeet uudps events) := by
  induction events with
  | nil => exact fun pooled => iff_of_true pooled.conserved trivial
  | cons event events ih =>
      intro uudps pooled
      constructor
      · rintro ⟨-, after, stepped, rest⟩
        have meets : Meets uudps event := by
          by_contra fails
          refine step_leaks pooled fails stepped ?_
          cases events with
          | nil => exact rest
          | cons next events => exact rest.1
        obtain ⟨final, again, kept⟩ := step_meets pooled meets
        obtain rfl := Option.some.inj (stepped.symm.trans again)
        refine ⟨meets, fun other same => ?_⟩
        obtain rfl := Option.some.inj (stepped.symm.trans same)
        exact (ih kept).mp rest
      · rintro ⟨meets, rest⟩
        obtain ⟨after, stepped, kept⟩ := step_meets pooled meets
        exact ⟨pooled.conserved, after, stepped, (ih kept).mpr (rest after stepped)⟩

inductive Reached (sizes : Nat → Nat) : Uudps → Prop
  | started {uudps : Uudps} : Started sizes uudps → Reached sizes uudps
  | step {uudps after : Uudps} {event : UudpEvent} : Reached sizes uudps →
      step uudps event = some after → Reached sizes after

theorem Reached.pooled (reached : Reached sizes uudps) : ∃ losts, AllPooled sizes losts uudps := by
  induction reached with
  | started start => exact ⟨_, start.pooled⟩
  | @step uudps after event _ stepped ih =>
      obtain ⟨losts, pooled⟩ := ih
      by_cases meets : Meets uudps event
      · obtain ⟨same, again, kept⟩ := step_meets pooled meets
        obtain rfl := Option.some.inj (stepped.symm.trans again)
        exact ⟨losts, kept⟩
      · obtain ⟨i, -, leaked⟩ := step_fails pooled meets stepped
        exact ⟨_, leaked⟩

/-- The buffers of all endpoints stay conserved through a run exactly if every operation stays
within the buffers and no call of `hf_uudp_recv` meets a datagram that is longer than the limit. -/
theorem pool_conserved (started : Started sizes uudps) (events : List UudpEvent) :
    Throughout (AllConserved sizes) uudps events ↔ AllMeet uudps events :=
  started.pooled.throughout_iff events

/-- One endpoint with the port 666 and two buffers. -/
def twoBuffers : CreateBlocks where
  commList := true
  node := true
  freeQueue := true
  freeData := fun _ => some fun _ => none
  pktQueue := true
  pktData := fun _ => some fun _ => none
  buffers := fun i => some (4096 * (i + 1))

def endpoint : Uudps := (hfUudpCreate ⟨none, fun _ _ => 0⟩ twoBuffers 0 666 2).2

theorem twoBuffers_separate : Separate twoBuffers.buffers 2 := by
  constructor
  · intro i below ptr given
    obtain rfl := Option.some.inj given
    simp only [packetSize]
    omega
  · intro i j order below ptr other first second
    obtain rfl := Option.some.inj first
    obtain rfl := Option.some.inj second
    simp only [packetSize]
    omega

theorem endpoint_started : Started (fun _ => 2) endpoint :=
  .create (.boot fun _ _ => 0) twoBuffers_separate (Prod.ext (by decide) rfl) rfl

def packetOf (len : Nat) : Frame :=
  ((Frame.store (fun _ => 0) 2 (bytesOf 60)).store 22 (bytesOf 666)).store 24 (bytesOf len)

theorem endpoint_pooled : ∃ comm free pkt, endpoint.comm 0 = some comm ∧
    Pooled 2 0 comm free pkt [4096, 8192] [] := by
  obtain ⟨comm, listed⟩ : ∃ comm, endpoint.comm 0 = some comm :=
    Option.isSome_iff_exists.mp (by decide)
  obtain ⟨free, pkt, idle, pending, pooled⟩ := endpoint_started.pooled 0 comm listed
  have contents : (endpoint.comm 0).bind (fun comm => comm.freeBuffers.map Queue.contents) =
      some [some 4096, some 8192] := by
    decide
  rw [listed, Option.bind_some, pooled.freeBuffers, Option.map_some, pooled.freeContents] at contents
  obtain rfl : idle = [4096, 8192] :=
    List.map_injective_iff.mpr (Option.some_injective Nat) (Option.some.inj contents)
  obtain rfl : pending = [] := by
    have total : [4096, 8192].length + pending.length + 0 = 2 := pooled.total
    rw [List.length_cons, List.length_cons, List.length_nil] at total
    exact List.length_eq_zero_iff.mp (by omega)
  exact ⟨comm, free, pkt, listed, pooled⟩

theorem endpoint_queues {packet : Frame} (found : endpoint.listener packet = some 0)
    (whole : packet.wordAt ipHdrLen1 = 60) : ∃ after comm free pkt,
      step endpoint (.datagram packet) = some after ∧ after.comm 0 = some comm ∧
      Pooled 2 0 comm free pkt [8192] [4096] ∧ after.buffers 4096 24 = packet 24 ∧
      after.buffers 4096 25 = packet 25 := by
  obtain ⟨comm, free, pkt, listed, pooled⟩ := endpoint_pooled
  obtain ⟨after, changed, freeLeft, pktNow, ran, present, kept, buffers⟩ :=
    udpCallback_queues found listed pooled (by rw [whole]; decide)
  refine ⟨after, changed, freeLeft, pktNow, ran, present, kept, ?_, ?_⟩
  · rw [buffers, whole]
    rfl
  · rw [buffers, whole]
    rfl

theorem pool_conserved_endpoint : Throughout (AllConserved fun _ => 2) endpoint
    [.datagram (packetOf 40), .recv 0] := by
  have whole : (packetOf 40).wordAt ipHdrLen1 = 60 := by decide +kernel
  have length : (packetOf 40).wordAt udpHdrLen1 = 40 := by decide +kernel
  obtain ⟨after, comm, free, pkt, queued, listed, pooled, high, low⟩ :=
    endpoint_queues (show endpoint.listener (packetOf 40) = some 0 by decide +kernel) whole
  refine (pool_conserved endpoint_started _).mpr ⟨fun _ _ _ _ _ _ _ => ?_, ?_⟩
  · rw [whole]
    decide
  · intro same stepped
    obtain rfl := Option.some.inj (queued.symm.trans stepped)
    refine ⟨?_, fun _ _ => trivial⟩
    intro other queue ptr rest found stored head
    obtain rfl := Option.some.inj (listed.symm.trans found)
    obtain rfl := Option.some.inj (pooled.pktQueue.symm.trans stored)
    rw [pooled.pktContents] at head
    obtain rfl := Option.some.inj (List.cons.inj head).1
    have taken : (after.buffers 4096).wordAt udpHdrLen1 = 40 := by
      rw [← length, Frame.wordAt, Frame.wordAt]
      simp only [udpHdrLen1]
      rw [high, low]
    rw [taken]
    decide

/-- A datagram with the UDP length 1497 takes its buffer along. -/
theorem long_datagram_leaks : ¬Throughout (AllConserved fun _ => 2) endpoint
    [.datagram (packetOf 1497), .recv 0] := by
  rintro ⟨-, after, stepped, -, final, received, conserved⟩
  have whole : (packetOf 1497).wordAt ipHdrLen1 = 60 := by decide +kernel
  have length : (packetOf 1497).wordAt udpHdrLen1 = 1497 := by decide +kernel
  obtain ⟨same, comm, free, pkt, queued, listed, pooled, high, low⟩ :=
    endpoint_queues (show endpoint.listener (packetOf 1497) = some 0 by decide +kernel) whole
  obtain rfl := Option.some.inj (queued.symm.trans stepped)
  have taken : (same.buffers 4096).wordAt udpHdrLen1 = 1497 := by
    rw [← length, Frame.wordAt, Frame.wordAt]
    simp only [udpHdrLen1]
    rw [high, low]
  rw [step, listed, hfUudpRecv_drain listed pooled, taken] at received
  obtain rfl := Option.some.inj received
  have left := conserved 0 _ (by rw [comm_setComm listed, if_pos rfl])
  exact Nat.one_ne_zero (pooled.lose.conserved_iff.mp left)

end Steps

end Uudps

end Hellfire

import Hellfire.UdpUpcalls
import Hellfire.UudpDelivery

/-!
What becomes of a received datagram between `udp_callback` and `hf_uudp_recv`. The size of the copy is the
IP length and the size of the delivery is the UDP length of the copy; nothing compares the two.
-/

namespace Hellfire

def Uudp.Owns (comm : Uudp) (ptr : Nat) : Prop :=
  (∃ free, comm.freeBuffers = some free ∧ some ptr ∈ free.contents) ∨
    ∃ pkt, comm.pktQueue = some pkt ∧ some ptr ∈ pkt.contents

namespace Uudps

section Boots

variable {uudps after : Uudps} {sizes losts : Nat → Nat}

def Apart (uudps : Uudps) : Prop :=
  ∀ i j comm other ptr, uudps.comm i = some comm → uudps.comm j = some other → comm.Owns ptr →
    other.Owns ptr → i = j

inductive Booted (sizes : Nat → Nat) : Uudps → Prop
  | boot (buffers : Nat → Frame) : Booted sizes ⟨none, buffers⟩
  | create {uudps after : Uudps} {blocks : CreateBlocks} {random listenPort qsize : Nat} :
      Booted sizes uudps → Separate blocks.buffers qsize →
      (∀ k ptr, k < qsize → blocks.buffers k = some ptr →
        ∀ i comm, uudps.comm i = some comm → ¬comm.Owns ptr) →
      hfUudpCreate uudps blocks random listenPort qsize = (errOk, after) →
      sizes (uudps.commList.getD []).length = qsize → Booted sizes after

inductive Running (sizes : Nat → Nat) : Uudps → Prop
  | booted {uudps : Uudps} : Booted sizes uudps → Running sizes uudps
  | step {uudps after : Uudps} {event : UudpEvent} : Running sizes uudps →
      step uudps event = some after → Running sizes after

theorem Booted.started (booted : Booted sizes uudps) : Started sizes uudps := by
  induction booted with
  | boot buffers => exact .boot buffers
  | create _ separate _ created size ih => exact .create ih separate created size

theorem Pooled.owns {qsize lost ptr : Nat} {comm : Uudp} {free pkt : Queue Nat}
    {idle pending : List Nat} (pooled : Pooled qsize lost comm free pkt idle pending) :
    comm.Owns ptr ↔ ptr ∈ idle ++ pending := by
  rw [List.mem_append]
  refine or_congr ?_ ?_
  · constructor
    · rintro ⟨same, stored, member⟩
      obtain rfl := Option.some.inj (pooled.freeBuffers.symm.trans stored)
      rw [pooled.freeContents] at member
      simpa using member
    · intro member
      refine ⟨free, pooled.freeBuffers, ?_⟩
      rw [pooled.freeContents]
      exact List.mem_map_of_mem member
  · constructor
    · rintro ⟨same, stored, member⟩
      obtain rfl := Option.some.inj (pooled.pktQueue.symm.trans stored)
      rw [pooled.pktContents] at member
      simpa using member
    · intro member
      refine ⟨pkt, pooled.pktQueue, ?_⟩
      rw [pooled.pktContents]
      exact List.mem_map_of_mem member

theorem Booted.apart (booted : Booted sizes uudps) : Apart uudps := by
  induction booted with
  | boot buffers =>
      intro i j comm other ptr found
      cases found
  | @create uudps after blocks random listenPort qsize before separate fresh created size ih =>
      obtain ⟨last, free, pkt, idle, listed, inside, given⟩ := hfUudpCreate_ok separate created
      have place : ∀ i comm, after.comm i = some comm → uudps.comm i = some comm ∨
          comm = last ∧ i = (uudps.commList.getD []).length := by
        intro i comm found
        rw [comm_eq, listed, Option.getD_some, List.getElem?_append] at found
        split at found
        · exact Or.inl ((comm_eq uudps i).trans found)
        · obtain ⟨below, there⟩ := List.getElem?_eq_some_iff.mp found
          simp only [List.length_cons, List.length_nil] at below
          obtain rfl : i = (uudps.commList.getD []).length := by omega
          simp only [Nat.sub_self, List.getElem_cons_zero] at there
          exact Or.inr ⟨there.symm, rfl⟩
      have new : ∀ ptr, last.Owns ptr → ∀ i comm, uudps.comm i = some comm → ¬comm.Owns ptr := by
        intro ptr owned
        rw [inside.owns, List.append_nil] at owned
        obtain ⟨k, below, block⟩ := given ptr owned
        exact fresh k ptr below block
      intro i j comm other ptr first second mine yours
      rcases place i comm first with old | ⟨rfl, rfl⟩
      · rcases place j other second with known | ⟨rfl, rfl⟩
        · exact ih i j comm other ptr old known mine yours
        · exact absurd mine (new ptr yours i comm old)
      · rcases place j other second with known | ⟨rfl, rfl⟩
        · exact absurd yours (new ptr mine j other known)
        · rfl

end Boots

section Effects

variable {uudps after : Uudps} {sizes losts : Nat → Nat} {event : UudpEvent}

/-- What an operation does to the buffers: a datagram moves one from the pool of an endpoint to the end of
its packet queue and fills it, and `hf_uudp_recv` takes the first one from the packet queue. -/
inductive Effect (sizes : Nat → Nat) (uudps : Uudps) : UudpEvent → Uudps → Prop
  | dropped {packet : Frame} {after : Uudps} : after.buffers = uudps.buffers →
      (∀ j, after.comm j = uudps.comm j) → Effect sizes uudps (.datagram packet) after
  | queued {packet : Frame} {after : Uudps} {i buff lost : Nat} {comm changed : Uudp}
      {free pkt freeLeft pktNow : Queue Nat} {idle pending : List Nat} : uudps.comm i = some comm →
      Pooled (sizes i) lost comm free pkt (buff :: idle) pending →
      Pooled (sizes i) lost changed freeLeft pktNow idle (pending ++ [buff]) →
      after.buffers = (uudps.copyTo buff packet (packet.wordAt ipHdrLen1)).buffers →
      (∀ j, after.comm j = if i = j then some changed else uudps.comm j) →
      Effect sizes uudps (.datagram packet) after
  | nothing {i : Nat} : (∀ comm free pkt idle pending lost, uudps.comm i = some comm →
        Pooled (sizes i) lost comm free pkt idle pending → pending = []) →
      Effect sizes uudps (.recv i) uudps
  | taken {after : Uudps} {i buff lost left : Nat} {comm changed : Uudp}
      {free pkt freeNow pktLeft : Queue Nat} {idle idleNow pending : List Nat} :
      uudps.comm i = some comm → Pooled (sizes i) lost comm free pkt idle (buff :: pending) →
      Pooled (sizes i) left changed freeNow pktLeft idleNow pending → idleNow ⊆ idle ++ [buff] →
      after.buffers = uudps.buffers →
      (∀ j, after.comm j = if i = j then some changed else uudps.comm j) →
      Effect sizes uudps (.recv i) after

theorem Pooled.pending_eq {qsize more lost left : Nat} {comm : Uudp} {free freeSame pkt pktSame : Queue Nat}
    {idle others pending waiting : List Nat} (pooled : Pooled qsize lost comm free pkt idle pending)
    (again : Pooled more left comm freeSame pktSame others waiting) : pending = waiting := by
  obtain rfl := Option.some.inj (pooled.pktQueue.symm.trans again.pktQueue)
  exact List.map_injective_iff.mpr (Option.some_injective Nat)
    (pooled.pktContents.symm.trans again.pktContents)

theorem datagram_effect (pooled : AllPooled sizes losts uudps) {packet : Frame}
    (stepped : uudps.udpCallback packet = some after) :
    Effect sizes uudps (.datagram packet) after := by
  cases found : uudps.listener packet with
  | none =>
      rw [udpCallback_unheard found] at stepped
      obtain rfl := Option.some.inj stepped
      exact .dropped rfl fun _ => rfl
  | some i =>
      obtain ⟨comm, listed⟩ := listener_comm found
      obtain ⟨free, pkt, idle, pending, inside⟩ := pooled i comm listed
      cases idle with
      | nil =>
          rw [udpCallback_full found listed inside] at stepped
          obtain rfl := Option.some.inj stepped
          refine .dropped rfl fun j => ?_
          rw [comm_setComm listed]
          split
          · rename_i same
            rw [← same, listed]
          · rfl
      | cons buff idle =>
          rw [udpCallback_fill found listed inside] at stepped
          split at stepped
          · cases stepped
          · obtain rfl := Option.some.inj stepped
            exact .queued listed inside inside.fill.2 rfl (comm_setComm
              (show (uudps.copyTo buff packet _).comm i = some comm from listed) _)

theorem recv_effect (pooled : AllPooled sizes losts uudps) {i : Nat}
    (stepped : step uudps (.recv i) = some after) : Effect sizes uudps (.recv i) after := by
  cases listed : uudps.comm i with
  | none =>
      simp only [step, listed, Option.isSome_none, Bool.false_eq_true, if_false] at stepped
      obtain rfl := Option.some.inj stepped
      refine .nothing fun comm _ _ _ _ _ found => ?_
      rw [listed] at found
      cases found
  | some comm =>
      obtain ⟨free, pkt, idle, pending, inside⟩ := pooled i comm listed
      simp only [step, listed, Option.isSome_some, if_true] at stepped
      cases pending with
      | nil =>
          rw [hfUudpRecv_empty listed inside] at stepped
          obtain rfl := Option.some.inj stepped
          refine .nothing fun other _ _ _ _ _ found again => ?_
          obtain rfl := Option.some.inj (listed.symm.trans found)
          exact again.pending_eq inside
      | cons buff pending =>
          rw [hfUudpRecv_drain listed inside] at stepped
          split at stepped
          · obtain rfl := Option.some.inj stepped
            exact .taken listed inside inside.lose (List.subset_append_left _ _) rfl (comm_setComm listed _)
          · split at stepped
            · cases stepped
            · obtain rfl := Option.some.inj stepped
              exact .taken listed inside inside.drain.2 (List.Subset.refl _) rfl (comm_setComm listed _)

theorem step_effect (pooled : AllPooled sizes losts uudps) (stepped : step uudps event = some after) :
    Effect sizes uudps event after := by
  cases event with
  | datagram packet => exact datagram_effect pooled stepped
  | recv i => exact recv_effect pooled stepped

theorem Effect.pooled (effect : Effect sizes uudps event after) (pooled : AllPooled sizes losts uudps) :
    ∃ lostsNow, AllPooled sizes lostsNow after := by
  have replaced : ∀ {i left : Nat} {changed : Uudp} {freeNow pktNow : Queue Nat} {idle pending : List Nat},
      Pooled (sizes i) left changed freeNow pktNow idle pending →
      (∀ j, after.comm j = if i = j then some changed else uudps.comm j) →
      AllPooled sizes (Function.update losts i left) after := by
    intro i left changed freeNow pktNow idle pending inside comms j comm found
    rw [comms] at found
    split at found
    · rename_i same
      subst same
      obtain rfl := Option.some.inj found
      rw [Function.update_self]
      exact ⟨_, _, _, _, inside⟩
    · rename_i other
      rw [Function.update_of_ne (Ne.symm other)]
      exact pooled j comm found
  cases effect with
  | dropped _ comms =>
      refine ⟨losts, fun j comm found => pooled j comm ?_⟩
      rw [← comms]
      exact found
  | queued _ _ inside _ comms => exact ⟨_, replaced inside comms⟩
  | nothing _ => exact ⟨losts, pooled⟩
  | taken _ _ inside _ _ comms => exact ⟨_, replaced inside comms⟩

theorem Effect.owns (effect : Effect sizes uudps event after) {j ptr : Nat} {comm : Uudp}
    (found : after.comm j = some comm) (owned : comm.Owns ptr) :
    ∃ earlier, uudps.comm j = some earlier ∧ earlier.Owns ptr := by
  cases effect with
  | dropped _ comms =>
      rw [comms] at found
      exact ⟨comm, found, owned⟩
  | @queued packet _ i buff lost previous changed free pkt freeLeft pktNow idle pending listed before inside
      _ comms =>
      rw [comms] at found
      split at found
      · rename_i same
        subst same
        obtain rfl := Option.some.inj found
        refine ⟨previous, listed, ?_⟩
        rw [inside.owns] at owned
        rw [before.owns]
        simp only [List.mem_append, List.mem_cons, List.not_mem_nil, or_false] at owned ⊢
        tauto
      · exact ⟨comm, found, owned⟩
  | nothing _ => exact ⟨comm, found, owned⟩
  | @taken _ i buff lost left previous changed free pkt freeNow pktLeft idle idleNow pending listed before
      inside kept _ comms =>
      rw [comms] at found
      split at found
      · rename_i same
        subst same
        obtain rfl := Option.some.inj found
        refine ⟨previous, listed, ?_⟩
        rw [inside.owns, List.mem_append] at owned
        rw [before.owns]
        rcases owned with pool | queue
        · have member := kept pool
          simp only [List.mem_append, List.mem_cons, List.not_mem_nil, or_false] at member ⊢
          tauto
        · exact List.mem_append_right _ (List.mem_cons_of_mem _ queue)
      · exact ⟨comm, found, owned⟩

theorem Effect.apart (effect : Effect sizes uudps event after) (apart : Apart uudps) : Apart after := by
  intro i j comm other ptr first second mine yours
  obtain ⟨earlier, found, had⟩ := effect.owns first mine
  obtain ⟨previous, listed, held⟩ := effect.owns second yours
  exact apart i j earlier previous ptr found listed had held

theorem Running.tidy (running : Running sizes uudps) :
    (∃ losts, AllPooled sizes losts uudps) ∧ Apart uudps := by
  induction running with
  | booted booted => exact ⟨⟨_, booted.started.pooled⟩, booted.apart⟩
  | step _ stepped ih =>
      obtain ⟨⟨losts, pooled⟩, apart⟩ := ih
      have effect := step_effect pooled stepped
      exact ⟨effect.pooled pooled, effect.apart apart⟩

end Effects

section Waiting

variable {uudps after later : Uudps} {sizes : Nat → Nat} {event : UudpEvent} {i buff : Nat}
  {ahead : List Nat} {content : Frame}

def Waiting (sizes : Nat → Nat) (uudps : Uudps) (i : Nat) (ahead : List Nat) (buff : Nat)
    (content : Frame) : Prop :=
  ∃ comm lost free pkt idle behind, uudps.comm i = some comm ∧
    Pooled (sizes i) lost comm free pkt idle (ahead ++ buff :: behind) ∧ uudps.buffers buff = content

def takes (i : Nat) : UudpEvent → Bool
  | .datagram _ => false
  | .recv j => i = j

theorem Waiting.step (waiting : Waiting sizes uudps i ahead buff content) (apart : Apart uudps)
    (effect : Effect sizes uudps event after) (enough : takes i event = true → ahead ≠ []) :
    Waiting sizes after i (if takes i event then ahead.tail else ahead) buff content := by
  obtain ⟨comm, lost, free, pkt, idle, behind, listed, inside, held⟩ := waiting
  have owned : comm.Owns buff := by
    rw [inside.owns]
    simp
  cases effect with
  | dropped buffers comms =>
      refine ⟨comm, lost, free, pkt, idle, behind, ?_, inside, ?_⟩
      · rw [comms]
        exact listed
      · rw [buffers]
        exact held
  | @queued packet _ j filled lostThere other changed freeThere pktThere freeLeft pktNow idleThere pending
      found before inThere buffers comms =>
      have mine : other.Owns filled := by
        rw [before.owns]
        simp
      by_cases same : j = i
      · subst same
        obtain rfl := Option.some.inj (listed.symm.trans found)
        obtain rfl := before.pending_eq inside
        have different : buff ≠ filled := by
          rintro rfl
          exact (List.nodup_append.mp before.distinct).2.2 buff List.mem_cons_self buff (by simp) rfl
        refine ⟨changed, lostThere, freeLeft, pktNow, idleThere, behind ++ [filled], ?_, ?_, ?_⟩
        · rw [comms, if_pos rfl]
        · rw [List.append_assoc, List.cons_append] at inThere
          exact inThere
        · rw [buffers, copyTo_other _ different]
          exact held
      · have different : buff ≠ filled := by
          rintro rfl
          exact same (apart j i other comm buff found listed mine owned)
        refine ⟨comm, lost, free, pkt, idle, behind, ?_, inside, ?_⟩
        · rw [comms, if_neg same]
          exact listed
        · rw [buffers, copyTo_other _ different]
          exact held
  | @nothing j empty =>
      have other : i ≠ j := by
        rintro rfl
        have none := empty _ _ _ _ _ _ listed inside
        exact absurd none (by simp)
      rw [takes, decide_eq_false other]
      exact ⟨comm, lost, free, pkt, idle, behind, listed, inside, held⟩
  | @taken _ j first lostThere left other changed freeThere pktThere freeNow pktLeft idleThere idleNow
      pending found before inThere _ buffers comms =>
      by_cases same : i = j
      · subst same
        obtain rfl := Option.some.inj (listed.symm.trans found)
        have waits : takes i (.recv i) = true := decide_eq_true rfl
        obtain ⟨next, rest, rfl⟩ := List.exists_cons_of_ne_nil (enough waits)
        rw [waits, if_pos rfl, List.tail_cons]
        obtain ⟨-, rfl⟩ := List.cons.inj (before.pending_eq inside)
        refine ⟨changed, left, freeNow, pktLeft, idleNow, behind, ?_, inThere, ?_⟩
        · rw [comms, if_pos rfl]
        · rw [buffers]
          exact held
      · rw [takes, decide_eq_false same]
        refine ⟨comm, lost, free, pkt, idle, behind, ?_, inside, ?_⟩
        · rw [comms, if_neg (Ne.symm same)]
          exact listed
        · rw [buffers]
          exact held

theorem Waiting.run (events : List UudpEvent) : ∀ {uudps : Uudps} {ahead : List Nat},
    Running sizes uudps → Waiting sizes uudps i ahead buff content →
    events.countP (takes i) ≤ ahead.length → events.foldlM Uudps.step uudps = some later →
    Running sizes later ∧
      Waiting sizes later i (ahead.drop (events.countP (takes i))) buff content := by
  induction events with
  | nil =>
      intro uudps ahead running waiting _ ran
      obtain rfl := Option.some.inj ran
      exact ⟨running, waiting⟩
  | cons event events ih =>
      intro uudps ahead running waiting enough ran
      rw [List.foldlM_cons] at ran
      obtain ⟨after, stepped, rest⟩ := Option.bind_eq_some_iff.mp ran
      obtain ⟨⟨losts, pooled⟩, apart⟩ := running.tidy
      rw [List.countP_cons] at enough ⊢
      have nonempty : takes i event = true → ahead ≠ [] := by
        rintro waits rfl
        rw [waits, if_pos rfl, List.length_nil] at enough
        omega
      have next := waiting.step apart (step_effect pooled stepped) nonempty
      cases waits : takes i event with
      | false =>
          rw [waits, if_neg Bool.false_ne_true] at next enough
          exact ih (running.step stepped) next enough rest
      | true =>
          rw [waits, if_pos rfl] at next enough
          have fewer : events.countP (takes i) ≤ ahead.tail.length := by
            rw [List.length_tail]
            omega
          rw [if_pos rfl, ← List.drop_tail]
          exact ih (running.step stepped) next fewer rest

end Waiting

section Deliveries

variable {uudps later : Uudps} {sizes : Nat → Nat} {i buff ptr : Nat} {packet content : Frame}

def Delivers (later : Uudps) (i : Nat) (packet : Frame) : Prop :=
  ∃ value datagram last, later.hfUudpRecv i = some (value, datagram, last) ∧
    (value = errError ∧ datagram = none ∨ ∃ taken, datagram = some taken ∧
      value = (packet.wordAt udpHdrLen1 : Int) - udpHeaderSize ∧ 0 ≤ value ∧
      (taken.data.length : Int) = value ∧ udpDataOfs + value ≤ packetSize)

theorem Waiting.delivers_iff (waiting : Waiting sizes later i [] buff content) :
    Delivers later i packet ↔ uudpLimit < content.wordAt udpHdrLen1 ∨
      content.wordAt udpHdrLen1 = packet.wordAt udpHdrLen1 ∧
        udpHeaderSize ≤ content.wordAt udpHdrLen1 := by
  obtain ⟨comm, lost, free, pkt, idle, behind, listed, inside, rfl⟩ := waiting
  unfold Delivers
  rw [hfUudpRecv_drain listed inside]
  by_cases long : uudpLimit < (later.buffers buff).wordAt udpHdrLen1
  · rw [if_pos long]
    exact iff_of_true ⟨_, _, _, rfl, Or.inl ⟨rfl, rfl⟩⟩ (Or.inl long)
  · rw [if_neg long]
    by_cases short : (later.buffers buff).wordAt udpHdrLen1 < udpHeaderSize
    · rw [if_pos short]
      refine iff_of_false ?_ ?_
      · rintro ⟨_, _, _, none, _⟩
        cases none
      · rintro (yes | ⟨_, yes⟩)
        · exact long yes
        · exact Nat.not_lt.mpr yes short
    · rw [if_neg short]
      have size : ((datagramOf (later.buffers buff)).data.length : Int) =
          ((later.buffers buff).wordAt udpHdrLen1 : Int) - udpHeaderSize := by
        rw [datagramOf, Frame.bytesAt_length, Int.ofNat_sub (Nat.not_lt.mp short)]
      have cast : (((later.buffers buff).wordAt udpHdrLen1 - udpHeaderSize : Nat) : Int) =
          ((later.buffers buff).wordAt udpHdrLen1 : Int) - udpHeaderSize :=
        Int.ofNat_sub (Nat.not_lt.mp short)
      rw [cast]
      simp only [uudpLimit, packetSize, ethHeaderSize, udpHeaderSize, Nat.reduceSub] at long short size ⊢
      constructor
      · rintro ⟨value, datagram, last, same, outcome⟩
        obtain ⟨rfl, rest⟩ := Prod.mk.inj (Option.some.inj same)
        obtain ⟨rfl, -⟩ := Prod.mk.inj rest
        rcases outcome with ⟨_, none⟩ | ⟨taken, _, value, _⟩
        · cases none
        · exact Or.inr ⟨by omega, by omega⟩
      · rintro (yes | ⟨same, _⟩)
        · omega
        · refine ⟨_, _, _, rfl, Or.inr ⟨_, rfl, ?_, ?_, size, ?_⟩⟩
          · rw [same]
          · omega
          · simp only [udpDataOfs]
            omega

/-- The UDP length that the buffer holds after the copy: a short copy leaves old bytes there. -/
def heldLength (old packet : Frame) : Nat :=
  Frame.wordAt (fun k => if k < packet.wordAt ipHdrLen1 then packet k else old k) udpHdrLen1

/-- A datagram that reaches `udp_callback` is safe: the copy fits into the buffer, and however
long it waits there, the call of `hf_uudp_recv` whose turn it is delivers it. -/
def FitsBuffer (uudps : Uudps) (packet : Frame) : Prop :=
  ∀ i comm free pkt, uudps.listener packet = some i → uudps.comm i = some comm →
    comm.freeBuffers = some free → comm.pktQueue = some pkt → free.contents ≠ [] →
    packet.wordAt ipHdrLen1 ≤ packetSize ∧
      ∀ filled, uudps.udpCallback packet = some filled → ∀ (events : List UudpEvent) later,
        events.foldlM step filled = some later → events.countP (takes i) = pkt.contents.length →
        Delivers later i packet

/-- The copy fits into the buffer, and the length that it leaves there is either above the limit, or that
of the datagram and not below the size of the header; or else a shorter datagram is in front of it. -/
def Proper (uudps : Uudps) (packet : Frame) : Prop :=
  ∀ i comm free pkt buff rest, uudps.listener packet = some i → uudps.comm i = some comm →
    comm.freeBuffers = some free → comm.pktQueue = some pkt → free.contents = some buff :: rest →
    packet.wordAt ipHdrLen1 ≤ packetSize ∧
      ((∃ ptr, some ptr ∈ pkt.contents ∧ (uudps.buffers ptr).wordAt udpHdrLen1 < udpHeaderSize) ∨
        uudpLimit < heldLength (uudps.buffers buff) packet ∨
        heldLength (uudps.buffers buff) packet = packet.wordAt udpHdrLen1 ∧
          udpHeaderSize ≤ heldLength (uudps.buffers buff) packet)

theorem drained_events (i count : Nat) : ∀ {uudps : Uudps}, drained i count uudps = some later →
    (List.replicate count (UudpEvent.recv i)).foldlM step uudps = some later := by
  induction count with
  | zero => exact fun done => done
  | succ count ih =>
      intro uudps done
      obtain ⟨⟨value, datagram, after⟩, received, rest⟩ := Option.bind_eq_some_iff.mp done
      obtain ⟨comm, listed, -⟩ := Option.bind_eq_some_iff.mp received
      have stepped : step uudps (.recv i) = some after := by
        simp only [step, listed, Option.isSome_some, if_true, received, Option.map_some]
      rw [List.replicate_succ, List.foldlM_cons, stepped]
      exact ih rest

theorem countP_replicate_recv (i count : Nat) :
    (List.replicate count (UudpEvent.recv i)).countP (takes i) = count := by
  rw [List.countP_replicate, takes, if_pos (decide_eq_true rfl)]

theorem heldLength_copyTo (uudps : Uudps) (buff : Nat) (packet : Frame) :
    ((uudps.copyTo buff packet (packet.wordAt ipHdrLen1)).buffers buff).wordAt udpHdrLen1 =
      heldLength (uudps.buffers buff) packet := by
  simp only [copyTo, Function.update_self, heldLength]

theorem waiting_copied {lost : Nat} {comm : Uudp} {free pkt : Queue Nat} {idle pending : List Nat}
    {filled : Uudps} (heard : uudps.listener packet = some i) (listed : uudps.comm i = some comm)
    (pooled : Pooled (sizes i) lost comm free pkt (buff :: idle) pending)
    (fits : packet.wordAt ipHdrLen1 ≤ packetSize) (ran : uudps.udpCallback packet = some filled) :
    filled.buffers = (uudps.copyTo buff packet (packet.wordAt ipHdrLen1)).buffers ∧
      Waiting sizes filled i pending buff
        ((uudps.copyTo buff packet (packet.wordAt ipHdrLen1)).buffers buff) := by
  obtain ⟨after, changed, freeLeft, pktNow, again, present, kept, buffers⟩ :=
    udpCallback_queues heard listed pooled fits
  obtain rfl := Option.some.inj (ran.symm.trans again)
  exact ⟨buffers, changed, lost, freeLeft, pktNow, idle, [], present, kept, by rw [buffers]⟩

theorem drained_front {lost : Nat} {comm : Uudp} {free pkt : Queue Nat} {idle pending : List Nat}
    {filled : Uudps} (heard : uudps.listener packet = some i) (listed : uudps.comm i = some comm)
    (pooled : Pooled (sizes i) lost comm free pkt (buff :: idle) pending)
    (fits : packet.wordAt ipHdrLen1 ≤ packetSize) (ran : uudps.udpCallback packet = some filled)
    (whole : ∀ ptr ∈ pending, udpHeaderSize ≤ (uudps.buffers ptr).wordAt udpHdrLen1) :
    ∃ ready, drained i pending.length filled = some ready := by
  obtain ⟨after, changed, freeLeft, pktNow, again, present, kept, buffers⟩ :=
    udpCallback_queues heard listed pooled fits
  obtain rfl := Option.some.inj (ran.symm.trans again)
  have others : ∀ ptr ∈ pending, udpHeaderSize ≤ (filled.buffers ptr).wordAt udpHdrLen1 := by
    intro ptr member
    have different : ptr ≠ buff := by
      rintro rfl
      exact (List.nodup_append.mp pooled.distinct).2.2 ptr List.mem_cons_self ptr member rfl
    rw [buffers, copyTo_other _ different]
    exact whole ptr member
  obtain ⟨ready, _, _, _, _, _, all, -⟩ := drained_pooled pending present kept others
  exact ⟨ready, all⟩

theorem Waiting.front {before after : List Nat}
    (waiting : Waiting sizes uudps i (before ++ ptr :: after) buff content) :
    Waiting sizes uudps i before ptr (uudps.buffers ptr) := by
  obtain ⟨comm, lost, free, pkt, idle, behind, listed, inside, -⟩ := waiting
  rw [List.append_assoc, List.cons_append] at inside
  exact ⟨comm, lost, free, pkt, idle, _, listed, inside, rfl⟩

theorem Waiting.blocked (events : List UudpEvent) : ∀ {uudps : Uudps} {ahead : List Nat},
    Running sizes uudps → Waiting sizes uudps i ahead buff content →
    content.wordAt udpHdrLen1 < udpHeaderSize → events.foldlM Uudps.step uudps = some later →
    events.countP (takes i) ≤ ahead.length := by
  induction events with
  | nil => exact fun _ _ _ _ => Nat.zero_le _
  | cons event events ih =>
      intro uudps ahead running waiting short ran
      rw [List.foldlM_cons] at ran
      obtain ⟨after, stepped, rest⟩ := Option.bind_eq_some_iff.mp ran
      obtain ⟨⟨losts, pooled⟩, apart⟩ := running.tidy
      by_cases nonempty : takes i event = true → ahead ≠ []
      · have next := waiting.step apart (step_effect pooled stepped) nonempty
        have fewer := ih (running.step stepped) next short rest
        rw [List.countP_cons]
        cases waits : takes i event with
        | false =>
            rw [waits, if_neg Bool.false_ne_true] at fewer
            rw [if_neg Bool.false_ne_true]
            exact fewer
        | true =>
            rw [waits, if_pos rfl, List.length_tail] at fewer
            have some := List.length_pos_of_ne_nil (nonempty waits)
            rw [if_pos rfl]
            omega
      · obtain ⟨waits, first⟩ := Classical.not_imp.mp nonempty
        rw [not_not.mp first] at waiting
        obtain ⟨comm, lost, free, pkt, idle, behind, listed, inside, rfl⟩ := waiting
        cases event with
        | datagram packet => cases waits
        | recv j =>
            obtain rfl := of_decide_eq_true waits
            have fits : ¬uudpLimit < (uudps.buffers buff).wordAt udpHdrLen1 := by
              simp only [uudpLimit, packetSize, ethHeaderSize, udpHeaderSize] at short ⊢
              omega
            simp only [Uudps.step, listed, Option.isSome_some, if_true] at stepped
            rw [hfUudpRecv_drain listed inside, if_neg fits, if_pos short] at stepped
            cases stepped

/-- A datagram that reaches the callback of a running system. -/
theorem fits_iff_proper (running : Running sizes uudps) (packet : Frame) :
    FitsBuffer uudps packet ↔ Proper uudps packet := by
  obtain ⟨⟨losts, pooled⟩, apart⟩ := running.tidy
  constructor
  · intro fits i comm free pkt buff rest heard listed stored queue contents
    obtain ⟨freeSame, pktSame, idle, pending, inside⟩ := pooled i comm listed
    obtain rfl := Option.some.inj (stored.symm.trans inside.freeBuffers)
    obtain rfl := Option.some.inj (queue.symm.trans inside.pktQueue)
    obtain ⟨small, later⟩ := fits i comm free pkt heard listed stored queue
      (by rw [contents]; exact List.cons_ne_nil _ _)
    refine ⟨small, ?_⟩
    obtain ⟨first, idle, rfl, same, -⟩ := List.map_eq_cons_iff.mp (inside.freeContents.symm.trans contents)
    obtain rfl := Option.some.inj same
    by_cases whole : ∀ ptr ∈ pending, udpHeaderSize ≤ (uudps.buffers ptr).wordAt udpHdrLen1
    · right
      obtain ⟨filled, _, _, _, ran, -⟩ := udpCallback_queues heard listed inside small
      obtain ⟨ready, all⟩ := drained_front heard listed inside small ran whole
      have count := countP_replicate_recv i pending.length
      have waits := (waiting_copied heard listed inside small ran).2
      have turn := (Waiting.run _ (running.step (show step uudps (.datagram packet) = some filled from ran))
        waits count.le (drained_events i _ all)).2
      rw [count, List.drop_length] at turn
      rw [← heldLength_copyTo]
      refine turn.delivers_iff.mp (later filled ran _ ready (drained_events i _ all) (count.trans ?_))
      rw [inside.pktContents, List.length_map]
    · left
      simp only [not_forall, Nat.not_le, exists_prop] at whole
      obtain ⟨ptr, member, short⟩ := whole
      refine ⟨ptr, ?_, short⟩
      rw [inside.pktContents]
      exact List.mem_map_of_mem member
  · intro proper i comm free pkt heard listed stored queue nonempty
    obtain ⟨freeSame, pktSame, idle, pending, inside⟩ := pooled i comm listed
    obtain rfl := Option.some.inj (stored.symm.trans inside.freeBuffers)
    obtain rfl := Option.some.inj (queue.symm.trans inside.pktQueue)
    have stocked : idle ≠ [] := by
      rintro rfl
      exact nonempty inside.freeContents
    obtain ⟨buff, idle, rfl⟩ := List.exists_cons_of_ne_nil stocked
    obtain ⟨small, condition⟩ := proper i comm free pkt buff _ heard listed stored queue inside.freeContents
    refine ⟨small, fun filled ran events later ended count => ?_⟩
    rw [inside.pktContents, List.length_map] at count
    obtain ⟨buffers, waits⟩ := waiting_copied heard listed inside small ran
    have moved := running.step (show step uudps (.datagram packet) = some filled from ran)
    rcases condition with ⟨ptr, member, short⟩ | held
    · rw [inside.pktContents] at member
      obtain ⟨_, queued, same⟩ := List.mem_map.mp member
      rw [Option.some.inj same] at queued
      have different : ptr ≠ buff := by
        rintro rfl
        exact (List.nodup_append.mp inside.distinct).2.2 ptr List.mem_cons_self ptr queued rfl
      rw [← copyTo_other uudps different packet (packet.wordAt ipHdrLen1), ← buffers] at short
      obtain ⟨before, behind, rfl⟩ := List.append_of_mem queued
      have fewer := waits.front.blocked events moved short ended
      rw [count, List.length_append, List.length_cons] at fewer
      omega
    · obtain ⟨-, turn⟩ := waits.run events moved count.le ended
      rw [count, List.drop_length] at turn
      rw [← heldLength_copyTo] at held
      exact turn.delivers_iff.mpr held

theorem proper_congr {first second : Frame} (same : ∀ k, k < 26 → first k = second k) :
    Proper uudps first ↔ Proper uudps second := by
  have words : ∀ ofs, ofs < 25 → first.wordAt ofs = second.wordAt ofs :=
    fun ofs most => Frame.wordAt_congr fun i above below => same i (by omega)
  have heard : uudps.listener first = uudps.listener second := by
    rw [listener, listener, words udpHdrDestport1 (by decide)]
  have held : ∀ old, heldLength old first = heldLength old second := by
    intro old
    have byte : ∀ k, k < 26 → (if k < first.wordAt ipHdrLen1 then first k else old k) =
        if k < second.wordAt ipHdrLen1 then second k else old k := by
      intro k below
      rw [words ipHdrLen1 (by decide), same k below]
    exact congrArg₂ word (byte 24 (by decide)) (byte 25 (by decide))
  unfold Proper
  rw [heard, words ipHdrLen1 (by decide), words udpHdrLen1 (by decide)]
  simp only [held]

def packetIn (frame : Frame) : Frame := fun k => frame (ethHeaderSize + k)

open Net in
theorem fits_checked (running : Running sizes uudps) (frame : Frame) :
    FitsBuffer uudps (packetIn (checkedFrame frame)) ↔ Proper uudps (packetIn frame) := by
  rw [fits_iff_proper running]
  refine proper_congr fun k below => checkedFrame_outside _ (Or.inl ?_)
  simp only [ethHeaderSize]
  omega

open Net in
/-- A datagram that the network service hands to `udp_callback` fits the buffers exactly if the frame is
proper for the endpoint that gets it. -/
theorem received_datagram_fits_iff (running : Running sizes uudps) {peer served : Station}
    {received : List UInt8} {seen : Frame}
    (ran : (ustackService received).run peer = some ((), served))
    (upcall : served.upcalls = peer.upcalls ++ [seen]) :
    FitsBuffer uudps (packetIn seen) ↔ Proper uudps (packetIn (filledWith peer received).frame) := by
  rw [ustackService_upcall ran upcall]
  exact fits_checked running _

theorem heldLength_whole (old : Frame) (whole : 26 ≤ packet.wordAt ipHdrLen1) :
    heldLength old packet = packet.wordAt udpHdrLen1 := by
  have byte : ∀ k, k < 26 → (if k < packet.wordAt ipHdrLen1 then packet k else old k) = packet k :=
    fun k below => if_pos (by omega)
  exact congrArg₂ word (byte 24 (by decide)) (byte 25 (by decide))

end Deliveries

section Frames

open Net

/-- A broadcast frame of 60 bytes with a datagram for the port 666 of 10.0.0.2, without a UDP checksum. -/
def datagramFrame (ipLen udpLen : Nat) : List UInt8 :=
  [255, 255, 255, 255, 255, 255, 2, 0, 0, 0, 0, 1, 8, 0, 0x45, 0] ++ bytesOf ipLen ++
    [0, 0, 0, 0, 64, 17] ++ bytesOf (26347 - ipLen) ++ [10, 0, 0, 1, 10, 0, 0, 2] ++ bytesOf 777 ++
    bytesOf 666 ++ bytesOf udpLen ++ List.replicate 20 0

theorem endpoint_running : Running (fun _ => 2) endpoint := by
  refine .booted (.create (.boot fun _ _ => 0) twoBuffers_separate ?_ (Prod.ext (by decide) rfl) rfl)
  intro k ptr _ _ i comm found
  cases found

theorem datagramFrame_carries : ∀ lens ∈ [(29, 9), (1519, 8), (28, 7)],
    CarriesDatagram (filledWith (stationAt 2) (datagramFrame lens.1 lens.2)) := by
  decide +kernel

theorem datagramFrame_handed {lens : Nat × Nat} (known : lens ∈ [(29, 9), (1519, 8), (28, 7)]) :
    ∃ served, (ustackService (datagramFrame lens.1 lens.2)).run (stationAt 2) = some ((), served) ∧
      served.upcalls = (stationAt 2).upcalls ++
        [checkedFrame (filledWith (stationAt 2) (datagramFrame lens.1 lens.2)).frame] := by
  refine ustackService_delivers ?_ (datagramFrame_carries lens known)
  simp [datagramFrame]

theorem received_datagram_fits_short : ∃ served seen,
    (ustackService (datagramFrame 29 9)).run (stationAt 2) = some ((), served) ∧
      served.upcalls = (stationAt 2).upcalls ++ [seen] ∧ FitsBuffer endpoint (packetIn seen) := by
  obtain ⟨served, ran, called⟩ := datagramFrame_handed (show (29, 9) ∈ _ by decide)
  refine ⟨served, _, ran, called, (received_datagram_fits_iff endpoint_running ran called).mpr ?_⟩
  intro i comm free pkt buff rest _ _ _ _ _
  have total : (packetIn (filledWith (stationAt 2) (datagramFrame 29 9)).frame).wordAt ipHdrLen1 = 29 := by
    decide +kernel
  have length : (packetIn (filledWith (stationAt 2) (datagramFrame 29 9)).frame).wordAt udpHdrLen1 = 9 := by
    decide +kernel
  rw [heldLength_whole _ (by rw [total]; decide), total, length]
  exact ⟨by decide, Or.inr (Or.inr ⟨rfl, by decide⟩)⟩

/-- The IP length 1519 writes one byte behind the buffer, and the UDP length 7 asks for -1 bytes. -/
theorem received_datagram_overflows :
    (∃ served seen, (ustackService (datagramFrame 1519 8)).run (stationAt 2) = some ((), served) ∧
      served.upcalls = (stationAt 2).upcalls ++ [seen] ∧ ¬FitsBuffer endpoint (packetIn seen)) ∧
    ∃ served seen, (ustackService (datagramFrame 28 7)).run (stationAt 2) = some ((), served) ∧
      served.upcalls = (stationAt 2).upcalls ++ [seen] ∧ ¬FitsBuffer endpoint (packetIn seen) := by
  obtain ⟨comm, free, pkt, listed, pooled⟩ := endpoint_pooled
  constructor
  · obtain ⟨served, ran, called⟩ := datagramFrame_handed (show (1519, 8) ∈ _ by decide)
    refine ⟨served, _, ran, called, ?_⟩
    rw [fits_checked endpoint_running]
    intro proper
    have heard : endpoint.listener
        (packetIn (filledWith (stationAt 2) (datagramFrame 1519 8)).frame) = some 0 := by
      decide +kernel
    obtain ⟨small, -⟩ := proper 0 comm free pkt 4096 [some 8192] heard listed pooled.freeBuffers
      pooled.pktQueue pooled.freeContents
    revert small
    decide +kernel
  · obtain ⟨served, ran, called⟩ := datagramFrame_handed (show (28, 7) ∈ _ by decide)
    refine ⟨served, _, ran, called, ?_⟩
    rw [fits_checked endpoint_running]
    intro proper
    have heard : endpoint.listener
        (packetIn (filledWith (stationAt 2) (datagramFrame 28 7)).frame) = some 0 := by
      decide +kernel
    have total : (packetIn (filledWith (stationAt 2) (datagramFrame 28 7)).frame).wordAt ipHdrLen1 = 28 := by
      decide +kernel
    have length : (packetIn (filledWith (stationAt 2) (datagramFrame 28 7)).frame).wordAt udpHdrLen1 = 7 := by
      decide +kernel
    obtain ⟨-, held⟩ := proper 0 comm free pkt 4096 [some 8192] heard listed pooled.freeBuffers
      pooled.pktQueue pooled.freeContents
    rw [heldLength_whole _ (by rw [total]; decide), length, pooled.pktContents] at held
    rcases held with ⟨ptr, none, -⟩ | long | ⟨-, whole⟩
    · cases none
    · revert long
      decide
    · revert whole
      decide

end Frames

end Uudps

end Hellfire

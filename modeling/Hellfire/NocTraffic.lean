import Hellfire.NocAssembly

/-!
Any number of senders whose packets arrive in order but interleaved with each other, and the
messages that `hf_recv` returns.
-/

namespace Hellfire

open Machine

def SendCall.packets (noc : NocConfig) (sender message : Nat) (call : SendCall) : List Packet :=
  (call.hfSend noc).zipIdx.map fun (flits, index) => ⟨flits, ⟨sender, message, index⟩⟩

def stream (noc : NocConfig) (sender : Nat) (sent : List SendCall) : List Packet :=
  sent.zipIdx.flatMap fun (call, message) => call.packets noc sender message

/-- A core with the number of packets of each sender that arrived, and the calls of `hf_recv`
that returned `ERR_OK`, with their tasks. -/
structure Traffic (noc : NocConfig) where
  core : Noc noc
  arrived : Nat → Nat
  log : List (Nat × RecvCall)

inductive TrafficOp
  | arrive (sender : Nat)
  | core (op : NocOp)
deriving DecidableEq, Repr

namespace Traffic

variable {noc : NocConfig} (sent : Nat → List SendCall)

def start (kernel : Kernel noc.toConfig) : Traffic noc := ⟨.niInit kernel, fun _ => 0, []⟩

def incoming (sender : Nat) (traffic : Traffic noc) : Option Packet :=
  (stream noc sender (sent sender))[traffic.arrived sender]?

def returns : NocOp → Noc noc → List (Nat × RecvCall)
  | .advance task _, core =>
      match core.receiving task with
      | some call => if call.point = .returned ∧ call.error = errOk then [(task, call)] else []
      | none => []
  | _, _ => []

def step : TrafficOp → Traffic noc → Except CommFault (Traffic noc)
  | .arrive sender, traffic =>
      match traffic.incoming sent sender with
      | none => .ok traffic
      | some packet => (traffic.core.step (.arrive packet)).map fun core =>
          { traffic with
            core
            arrived := Function.update traffic.arrived sender (traffic.arrived sender + 1) }
  | .core op, traffic => (traffic.core.step op).map fun core =>
      { traffic with core, log := traffic.log ++ returns op core }

def admits : TrafficOp → Traffic noc → Prop
  | .arrive sender, traffic => match traffic.incoming sent sender with
      | none => False
      | some packet => Noc.serves (.arrive packet) traffic.core
  | .core (.arrive _), _ => False
  | .core op, traffic => Noc.serves op traffic.core

/-- No call takes a packet of another message that has the channel and the number it waits for. -/
def keeps : TrafficOp → Traffic noc → Prop
  | .arrive _, _ => True
  | .core op, traffic => Noc.keepsMessages op traffic.core

variable {sent} {traffic traffic' : Traffic noc}

/-- The call returned one message of one sender, all of it from packets of this message. -/
def FromOne (sent : Nat → List SendCall) (call : RecvCall) : Prop :=
  ∃ sender message sentCall, (sent sender)[message]? = some sentCall ∧ call.Holds sentCall ∧
    ∀ origin ∈ call.taken, origin.sender = sender ∧ origin.message = message

def table (sent : Nat → List SendCall) : SentTable := fun sender message => (sent sender)[message]?

theorem packets_genuine {table : SentTable} {sender message : Nat} {call : SendCall} {packet : Packet}
    (there : table sender message = some call) (member : packet ∈ call.packets noc sender message) :
    packet.Genuine noc table ∧ packet.origin.sender = sender ∧ packet.origin.message = message := by
  obtain ⟨⟨flits, index⟩, inFlits, rfl⟩ := List.mem_map.mp member
  have piece := List.mem_zipIdx_iff_getElem?.mp inFlits
  rw [SendCall.hfSend_eq, List.getElem?_map, Option.map_eq_some_iff] at piece
  obtain ⟨k, inRange, isPiece⟩ := piece
  obtain ⟨bound, place⟩ := List.getElem?_eq_some_iff.mp inRange
  rw [List.getElem_range] at place
  rw [List.length_range] at bound
  exact ⟨⟨call, there, bound, by rw [← place] at isPiece; exact isPiece.symm⟩, rfl, rfl⟩

theorem stream_genuine {sender : Nat} {packet : Packet}
    (member : packet ∈ stream noc sender (sent sender)) :
    packet.origin.sender = sender ∧ packet.Genuine noc (table sent) := by
  obtain ⟨⟨call, message⟩, inSent, inPackets⟩ := List.mem_flatMap.mp member
  have there : table sent sender message = some call := List.mem_zipIdx_iff_getElem?.mp inSent
  obtain ⟨genuine, isSender, _⟩ := packets_genuine there inPackets
  exact ⟨isSender, genuine⟩

theorem core_of_step {op : NocOp} (stepped : step sent (.core op) traffic = .ok traffic') :
    ∃ codes, traffic.core.turn op = .ok (codes, traffic'.core) ∧
      traffic'.arrived = traffic.arrived ∧ traffic'.log = traffic.log ++ returns op traffic'.core := by
  unfold step at stepped
  obtain ⟨core, codes, turned, rfl⟩ := Noc.map_step stepped
  exact ⟨codes, turned, rfl, rfl⟩

theorem arrive_of_step {sender : Nat} {packet : Packet}
    (isIncoming : traffic.incoming sent sender = some packet)
    (stepped : step sent (.arrive sender) traffic = .ok traffic') :
    ∃ codes, traffic.core.turn (.arrive packet) = .ok (codes, traffic'.core) ∧
      traffic'.arrived = Function.update traffic.arrived sender (traffic.arrived sender + 1) ∧
      traffic'.log = traffic.log := by
  unfold step at stepped
  simp only [isIncoming] at stepped
  obtain ⟨core, codes, turned, rfl⟩ := Noc.map_step stepped
  exact ⟨codes, turned, rfl, rfl⟩

theorem mem_returns {op : NocOp} {core : Noc noc} {task : Nat} {call : RecvCall}
    (member : (task, call) ∈ returns op core) :
    core.receiving task = some call ∧ call.point = .returned ∧ call.error = errOk := by
  cases op with
  | advance caller address =>
      unfold returns at member
      cases receives : core.receiving caller with
      | none => simp [receives] at member
      | some found =>
          simp only [receives] at member
          split at member
          · rename_i finished
            obtain ⟨rfl, rfl⟩ : task = caller ∧ call = found := by simpa using member
            exact ⟨receives, finished⟩
          · simp at member
  | _ => simp [returns] at member

theorem tracked_step {op : TrafficOp}
    (tracked : traffic.core.Tracked (table sent)) (whole : ∀ entry ∈ traffic.log, FromOne sent entry.2)
    (admitted : traffic.admits sent op) (keeping : traffic.keeps op)
    (stepped : step sent op traffic = .ok traffic') :
    traffic'.core.Tracked (table sent) ∧ ∀ entry ∈ traffic'.log, FromOne sent entry.2 := by
  cases op with
  | arrive sender =>
      unfold admits at admitted
      cases isIncoming : traffic.incoming sent sender with
      | none => simp [isIncoming] at admitted
      | some packet =>
          simp only [isIncoming] at admitted
          obtain ⟨codes, done, _, sameLog⟩ := arrive_of_step isIncoming stepped
          rw [sameLog]
          refine ⟨tracked.turn admitted (fun arriving same => ?_) trivial done, whole⟩
          obtain rfl : packet = arriving := by simpa using same
          exact (stream_genuine (List.mem_of_getElem? isIncoming)).2
  | core op =>
      obtain ⟨codes, done, _, moreLog⟩ := core_of_step stepped
      have notArrive : ∀ packet, op ≠ .arrive packet := by
        rintro packet rfl
        exact admitted
      have served : Noc.serves op traffic.core := by
        cases op with
        | arrive packet => exact admitted.elim
        | _ => exact admitted
      have tracked' := tracked.turn served (fun packet same => absurd same (notArrive packet)) keeping done
      refine ⟨tracked', fun ⟨task, call⟩ member => ?_⟩
      rw [moreLog] at member
      rcases List.mem_append.mp member with before | now
      · exact whole _ before
      · obtain ⟨receives, returned, error⟩ := mem_returns now
        obtain ⟨sender, message, sentCall, there, holds, _, same⟩ :=
          (tracked'.sound task call receives).received returned error
        exact ⟨sender, message, sentCall, there, holds, same⟩

/-- Every message that `hf_recv` returns without an error is one message of the sender that it
reports, in every run in which no call takes a packet of another message for its next one. -/
theorem message_from_one_sender {kernel : Kernel noc.toConfig}
    (reached : Reaches (step sent) (fun op traffic => traffic.admits sent op ∧ traffic.keeps op)
      (start kernel) traffic) : ∀ entry ∈ traffic.log, FromOne sent entry.2 := by
  have both := reached.invariant (fun state => state.core.Tracked (table sent) ∧
    ∀ entry ∈ state.log, FromOne sent entry.2) ⟨.niInit kernel, by simp [start]⟩ ?_
  · exact both.2
  · rintro op before after ⟨tracked, whole⟩ ⟨admitted, keeping⟩ stepped
    exact tracked_step tracked whole admitted keeping stepped

instance (op : TrafficOp) (traffic : Traffic noc) : Decidable (traffic.admits sent op) :=
  match op with
  | .arrive sender => match isIncoming : traffic.incoming sent sender with
      | none => .isFalse (by simp only [admits, isIncoming, not_false_eq_true])
      | some packet => decidable_of_iff (Noc.serves (.arrive packet) traffic.core)
          (by simp only [admits, isIncoming])
  | .core (.arrive _) => .isFalse nofun
  | .core .deliver => inferInstanceAs (Decidable (Noc.serves .deliver traffic.core))
  | .core (.recv task channel) => inferInstanceAs (Decidable (Noc.serves (.recv task channel) _))
  | .core (.create task id port packets) =>
      inferInstanceAs (Decidable (Noc.serves (.create task id port packets) _))
  | .core (.advance task address) => inferInstanceAs (Decidable (Noc.serves (.advance task address) _))
  | .core (.destroy _ _) | .core (.kernel _) => .isFalse nofun

instance (op : TrafficOp) (traffic : Traffic noc) : Decidable (traffic.keeps op) :=
  match op with
  | .core (.advance task _) => match receives : traffic.core.receiving task with
      | none => .isTrue (by simp [keeps, Noc.keepsMessages, receives])
      | some call => decidable_of_iff (call.KeepsTo (traffic.core.mail task))
          (by simp [keeps, Noc.keepsMessages, receives])
  | .arrive _ => .isTrue trivial
  | .core (.arrive _) | .core .deliver | .core (.recv _ _) | .core (.create _ _ _ _)
  | .core (.destroy _ _) | .core (.kernel _) => .isTrue trivial

def twoSenders : Nat → List SendCall
  | 0 => [⟨1, 7, 0, 5, fun i => UInt8.ofNat (65 + i), 3, 2⟩]
  | 1 => [⟨2, 8, 0, 5, fun i => UInt8.ofNat (97 + i), 3, 2⟩]
  | _ => []

def smallTraffic : Traffic Noc.smallNoc := ⟨.niInit (Kernel.smallRun [.spawn Kernel.worker]), fun _ => 0, []⟩

def workerTraffic (sent : Nat → List SendCall) (steps : List TrafficOp) : Traffic Noc.smallNoc :=
  outcome (step sent) steps smallTraffic

def openPort : List TrafficOp :=
  [.core (.create 1 1 5 0), .core (.advance 1 256), .core (.advance 1 0)]

def advances (count : Nat) : List TrafficOp := List.replicate count (.core (.advance 1 0))

def separateRun : List TrafficOp :=
  openPort ++ [.arrive 0, .core .deliver, .arrive 0, .core .deliver, .arrive 1, .core .deliver,
    .core (.recv 1 2)] ++ advances 6

def mixedRun : List TrafficOp :=
  openPort ++ [.arrive 0, .core .deliver, .arrive 1, .core .deliver, .arrive 1, .core .deliver,
    .arrive 0, .core .deliver, .core (.recv 1 2)] ++ advances 8

theorem message_from_one_sender_separate :
    (workerTraffic twoSenders separateRun).log.length = 1 ∧
      ∀ entry ∈ (workerTraffic twoSenders separateRun).log, FromOne twoSenders entry.2 :=
  ⟨by decide, message_from_one_sender (outcome_reaches _ _ (by decide) (by decide))⟩

/-- The first packet of one sender and the last one of the other are returned as a message, which
neither of them sent. -/
theorem message_from_two_senders :
    ∃ (sent : Nat → List SendCall) (kernel : Kernel Noc.smallNoc.toConfig)
      (traffic : Traffic Noc.smallNoc), Reaches (step sent) (fun op traffic => traffic.admits sent op)
        (start kernel) traffic ∧
      ∃ entry ∈ traffic.log, ∀ sender, ∀ call ∈ sent sender, ¬entry.2.Holds call := by
  have reached : Reaches (step twoSenders) (fun op traffic => traffic.admits twoSenders op)
      smallTraffic (workerTraffic twoSenders mixedRun) :=
    outcome_reaches _ _ (by decide) (by decide)
  obtain ⟨entry, isLog⟩ : ∃ entry, (workerTraffic twoSenders mixedRun).log = [entry] := ⟨_, rfl⟩
  have buf : ∀ entry ∈ (workerTraffic twoSenders mixedRun).log,
      entry.2.buf.take 3 = [65, 66, 99] ∧ entry.2.sourceCpu = 1 := by decide
  obtain ⟨bytes, cpu⟩ := buf entry (by rw [isLog]; exact List.mem_singleton_self _)
  refine ⟨twoSenders, _, _, reached, entry, by rw [isLog]; exact List.mem_singleton_self _, ?_⟩
  intro sender call member holds
  match sender, member with
  | 0, member =>
      rw [List.mem_singleton.mp member] at holds
      have whole := holds.buf
      rw [show ((3 : UInt16).toNat) = 3 from rfl, bytes] at whole
      exact absurd whole (by decide)
  | 1, member =>
      rw [List.mem_singleton.mp member] at holds
      have other := holds.sourceCpu
      rw [cpu] at other
      exact absurd other (by decide)

end Traffic

end Hellfire

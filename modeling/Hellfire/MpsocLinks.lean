import Hellfire.MpsocRouterCore

/-!
The two parts that the routers of the mesh are joined by: flit buffers, and links on which a
flit is offered, requested, taken and acknowledged.
-/

namespace Hellfire

namespace MpsocSim

open CircularWindow

namespace Buffer

structure Holds (buffer : Buffer) (stored : List Flit) : Prop where
  cells : buffer.buffer.length = buffer.max
  start : buffer.start % buffer.max = buffer.start
  stop : buffer.stop = position buffer.max buffer.start stored.length
  size : buffer.size = stored.length
  bound : stored.length ≤ buffer.max
  contents : buffer.contents = stored

variable {buffer : Buffer} {stored : List Flit}

theorem Holds.create (memory : List Flit) : Holds (create memory) [] :=
  ⟨rfl, Nat.zero_mod _, (Nat.zero_mod _).symm, rfl, Nat.zero_le _, rfl⟩

theorem Holds.isFull (holds : Holds buffer stored) :
    buffer.isFull = decide (stored.length = buffer.max) := by
  rw [Buffer.isFull, holds.size]
  exact decide_eq_decide.mpr Int.ofNat_inj

theorem Holds.isEmpty (holds : Holds buffer stored) : buffer.isEmpty = decide (stored = []) := by
  rw [Buffer.isEmpty, holds.size]
  exact decide_eq_decide.mpr (Int.ofNat_eq_zero.trans List.length_eq_zero_iff)

theorem Holds.put (holds : Holds buffer stored) (room : stored.length < buffer.max)
    (value : Flit) : Holds (buffer.put value) (stored ++ [value]) := by
  have width : buffer.size.toNat = stored.length := by rw [holds.size, Int.toNat_natCast]
  refine ⟨?_, holds.start, ?_, ?_, ?_, ?_⟩
  · simp only [Buffer.put, List.length_set]
    exact holds.cells
  · simp only [Buffer.put, holds.stop, position, List.length_append, List.length_singleton]
    rw [Nat.mod_add_mod, Nat.add_assoc]
  · simp only [Buffer.put, holds.size, List.length_append, List.length_singleton, Int.natCast_add,
      Int.cast_ofNat_Int]
  · simp only [Buffer.put, List.length_append, List.length_singleton]
    omega
  · have stored' : window 0 buffer.buffer buffer.start stored.length = stored := by
      have shown := holds.contents
      rwa [Buffer.contents, width] at shown
    have longer : (buffer.size + 1).toNat = stored.length + 1 := by
      rw [holds.size]
      omega
    simp only [Buffer.contents, Buffer.put, longer]
    rw [holds.stop, ← holds.cells, window_append 0 _ _ _ _ (by rw [holds.cells]; exact room), stored']

theorem Holds.take {flit : Flit} (holds : Holds buffer (flit :: stored)) :
    buffer.read = flit ∧ buffer.take.1 = flit ∧ Holds buffer.take.2 stored := by
  have width : buffer.size.toNat = stored.length + 1 := by
    rw [holds.size, Int.toNat_natCast, List.length_cons]
  have bound := holds.bound
  rw [List.length_cons] at bound
  have shown := holds.contents
  rw [Buffer.contents, width, window_advance, List.cons.injEq] at shown
  obtain ⟨first, others⟩ := shown
  have oldest : buffer.read = flit := by
    rw [← first, position, Nat.add_zero, holds.cells, holds.start]
    rfl
  have fewer : (buffer.size - 1).toNat = stored.length := by
    rw [holds.size, List.length_cons]
    omega
  refine ⟨oldest, oldest, holds.cells, Nat.mod_mod _ _, ?_, ?_, ?_, ?_⟩
  · simp only [Buffer.take]
    rw [holds.stop, List.length_cons, position_succ_start]
  · simp only [Buffer.take]
    rw [holds.size, List.length_cons]
    omega
  · simp only [Buffer.take]
    omega
  · simp only [Buffer.contents, Buffer.take, fewer]
    rw [← holds.cells]
    exact others

end Buffer

section Links

inductive Phase
  | quiet
  | offered
  | requested
  | taken
  | acknowledged
deriving DecidableEq, Repr

structure Link (phase : Phase) (sender receiver : Port) : Prop where
  request : sender.outRequest = decide (phase ≠ .quiet)
  acknowledge : sender.outAck = decide (phase = .acknowledged)
  requested : receiver.inRequest = decide (phase = .requested ∨ phase = .taken)
  taken : receiver.inAck = decide (phase = .taken)
  same : phase = .requested → receiver.input = sender.out

def unread (phase : Phase) (out : Flit) : List Flit :=
  if phase = .offered ∨ phase = .requested then [out] else []

def Phase.next : Phase → Phase
  | .offered => .requested
  | .taken => .acknowledged
  | phase => phase

structure SameInput (before after : Port) : Prop where
  input : after.input = before.input
  inRequest : after.inRequest = before.inRequest
  inAck : after.inAck = before.inAck

structure SameOutput (before after : Port) : Prop where
  out : after.out = before.out
  outRequest : after.outRequest = before.outRequest
  outAck : after.outAck = before.outAck

theorem SameInput.refl (port : Port) : SameInput port port := ⟨rfl, rfl, rfl⟩

theorem SameOutput.refl (port : Port) : SameOutput port port := ⟨rfl, rfl, rfl⟩

variable {phase : Phase} {sender sender' receiver receiver' : Port}

theorem Link.congr (link : Link phase sender receiver) (out : SameOutput sender sender')
    (input : SameInput receiver receiver') : Link phase sender' receiver' := by
  refine ⟨out.outRequest.trans link.request, out.outAck.trans link.acknowledge,
    input.inRequest.trans link.requested, input.inAck.trans link.taken, fun pending => ?_⟩
  rw [input.input, out.out]
  exact link.same pending

theorem Link.clean : Link .quiet cleanPort cleanPort := ⟨rfl, rfl, rfl, rfl, fun _ => rfl⟩

theorem Link.acknowledged (link : Link phase sender receiver) (ack : sender.outAck = true) :
    phase = .acknowledged := by
  simpa [link.acknowledge] using ack

theorem Link.pending (link : Link phase sender receiver) (request : receiver.inRequest = true)
    (ack : receiver.inAck = false) : phase = .requested := by
  have asked : phase = .requested ∨ phase = .taken := by simpa [link.requested] using request
  have fresh : phase ≠ .taken := by simpa [link.taken] using ack
  exact asked.resolve_right fresh

theorem sameInput_drive (port : Port) (out : Flit) (request : Bool) :
    SameInput port (port.drive out request) :=
  ⟨rfl, rfl, rfl⟩

theorem Link.offer (link : Link phase sender receiver)
    (ready : phase = .quiet ∨ phase = .acknowledged) (out : Flit) :
    Link .offered (sender.drive out true) receiver := by
  refine ⟨rfl, rfl, ?_, ?_, fun other => by cases other⟩
  · rcases ready with rfl | rfl
    · exact link.requested
    · exact link.requested
  · rcases ready with rfl | rfl
    · exact link.taken
    · exact link.taken

theorem Link.withdraw (link : Link .acknowledged sender receiver) (out : Flit) :
    Link .quiet (sender.drive out false) receiver :=
  ⟨rfl, rfl, link.requested, link.taken, fun other => by cases other⟩

theorem Link.synchronize (link : Link phase sender receiver) :
    Link phase.next (synchronizePorts sender receiver).1 (synchronizePorts sender receiver).2 ∧
      (synchronizePorts sender receiver).1.out = sender.out ∧
      SameInput sender (synchronizePorts sender receiver).1 ∧
      SameOutput receiver (synchronizePorts sender receiver).2 := by
  obtain ⟨request, acknowledge, requested, taken, same⟩ := link
  cases phase with
  | quiet =>
      have idle : ¬sender.outRequest = true := by simp [request]
      rw [synchronizePorts, if_neg fun all => idle all.1, if_neg fun both => idle both.1]
      exact ⟨⟨request, acknowledge, requested, taken, same⟩, rfl, .refl _, .refl _⟩
  | offered =>
      rw [synchronizePorts, if_pos ⟨request, taken, acknowledge⟩]
      exact ⟨⟨request, acknowledge, rfl, taken, fun _ => rfl⟩, rfl, .refl _, ⟨rfl, rfl, rfl⟩⟩
  | requested =>
      rw [synchronizePorts, if_pos ⟨request, taken, acknowledge⟩]
      exact ⟨⟨request, acknowledge, rfl, taken, fun _ => rfl⟩, rfl, .refl _, ⟨rfl, rfl, rfl⟩⟩
  | taken =>
      have held : ¬receiver.inAck = false := by simp [taken]
      rw [synchronizePorts, if_neg fun all => held all.2.1, if_pos ⟨request, taken⟩]
      exact ⟨⟨request, rfl, rfl, rfl, fun other => by cases other⟩, rfl, ⟨rfl, rfl, rfl⟩,
        ⟨rfl, rfl, rfl⟩⟩
  | acknowledged =>
      have done : ¬sender.outAck = false := by simp [acknowledge]
      have free : ¬receiver.inAck = true := by simp [taken]
      rw [synchronizePorts, if_neg fun all => done all.2.2, if_neg fun both => free both.2]
      exact ⟨⟨request, acknowledge, requested, taken, same⟩, rfl, .refl _, .refl _⟩

@[simp] theorem unread_next (phase : Phase) (out : Flit) :
    unread phase.next out = unread phase out := by
  cases phase with
  | quiet | offered | requested | taken | acknowledged => simp [unread, Phase.next]

theorem unread_length_le (phase : Phase) (out : Flit) : (unread phase out).length ≤ 1 := by
  unfold unread
  split
  · exact Nat.le_refl 1
  · exact Nat.zero_le 1

end Links

end MpsocSim

end Hellfire

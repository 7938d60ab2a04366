import Hellfire.Mailbox

/-!
The packets of one message and the calls of `hf_recv` that read them: which bytes each
packet carries, and what a call has when it has taken the first packets in order.
-/

namespace Hellfire

theorem wordBytes_byteWord (buf : Nat → UInt8) (p : Nat) :
    wordBytes (byteWord buf p) = [buf p, buf (p + 1)] := by
  have high := (buf p).toNat_lt
  have low := (buf (p + 1)).toNat_lt
  have joined : (byteWord buf p).toNat = (buf p).toNat * 256 + (buf (p + 1)).toNat := by
    have shifted : (buf p).toNat <<< 8 < 65536 := by
      rw [Nat.shiftLeft_eq]
      omega
    rw [byteWord, UInt16.toNat_or, UInt16.toNat_shiftLeft, UInt8.toNat_toUInt16, UInt8.toNat_toUInt16]
    simp only [UInt16.toNat_ofNat, Nat.reduceMod, Nat.reducePow]
    rw [Nat.mod_eq_of_lt shifted, ← Nat.shiftLeft_add_eq_or_of_lt (by omega), Nat.shiftLeft_eq]
  have first : (byteWord buf p >>> 8).toUInt8 = buf p := by
    apply UInt8.toNat_inj.mp
    rw [UInt16.toNat_toUInt8, UInt16.toNat_shiftRight, joined]
    simp only [UInt16.toNat_ofNat, Nat.reduceMod, Nat.reducePow, Nat.shiftRight_eq_div_pow]
    omega
  have second : (byteWord buf p &&& 0xff).toUInt8 = buf (p + 1) := by
    apply UInt8.toNat_inj.mp
    rw [UInt16.toNat_toUInt8, UInt16.toNat_and, joined]
    have mask : (0xff : UInt16).toNat = 2 ^ 8 - 1 := rfl
    rw [mask, Nat.and_two_pow_sub_one_eq_mod]
    omega
  rw [wordBytes, first, second]

namespace NocConfig

variable (noc : NocConfig)

theorem payloadBytes_pos : 2 ≤ noc.payloadBytes := by
  have := noc.header
  unfold payloadBytes pktHeaderSize
  omega

theorem packetsOf_covers (size : UInt16) : size.toNat ≤ noc.packetsOf size * noc.payloadBytes := by
  have division := Nat.div_add_mod size.toNat noc.payloadBytes
  have remainder := Nat.mod_lt size.toNat (by have := noc.payloadBytes_pos; omega : 0 < noc.payloadBytes)
  unfold packetsOf
  rw [Nat.mul_comm] at division
  split
  · omega
  · rw [Nat.add_mul]
    omega

theorem packetsOf_le (size : UInt16) : noc.packetsOf size ≤ 32768 := by
  have bound := size.toNat_lt
  have division := Nat.div_le_div_left noc.payloadBytes_pos (by decide : 0 < 2) (a := size.toNat)
  unfold packetsOf
  split
  · omega
  · omega

end NocConfig

namespace SendCall

variable (noc : NocConfig) (call : SendCall)

def pieces : Nat := noc.packetsOf call.size - 1 + 1

def body (k : Nat) : List UInt16 :=
  if k + 1 < noc.packetsOf call.size then
    call.fullWords (noc.nocPacketSize - pktHeaderSize) (k * noc.payloadBytes)
  else call.lastWords (noc.nocPacketSize - pktHeaderSize) (k * noc.payloadBytes)

def piece (k : Nat) : List UInt16 := call.header noc (k + 1) ++ call.body noc k

variable {noc call}

theorem piece_inner {k : Nat} (inner : k + 1 < noc.packetsOf call.size) :
    call.piece noc k = call.header noc (k + 1) ++
      call.fullWords (noc.nocPacketSize - pktHeaderSize) (k * noc.payloadBytes) := by
  rw [piece, body, if_pos inner]

theorem piece_last {k : Nat} (last : ¬k + 1 < noc.packetsOf call.size) :
    call.piece noc k = call.header noc (k + 1) ++
      call.lastWords (noc.nocPacketSize - pktHeaderSize) (k * noc.payloadBytes) := by
  rw [piece, body, if_neg last]

theorem sendFrom_eq (more : Nat) : ∀ k, noc.packetsOf call.size - 1 = k + more →
    call.sendFrom noc more (k + 1) (k * noc.payloadBytes) =
      (List.range' k (more + 1)).map (call.piece noc) := by
  induction more with
  | zero =>
      intro k count
      rw [sendFrom, ← piece_last (by omega)]
      rfl
  | succ more ih =>
      intro k count
      have next : k * noc.payloadBytes + noc.payloadBytes = (k + 1) * noc.payloadBytes := by
        rw [Nat.add_mul, Nat.one_mul]
      rw [sendFrom, ← piece_inner (by omega), next, ih (k + 1) (by omega)]
      rfl

theorem hfSend_eq : call.hfSend noc = (List.range (call.pieces noc)).map (call.piece noc) := by
  have all : call.sendFrom noc (noc.packetsOf call.size - 1) (0 + 1) (0 * noc.payloadBytes) = _ :=
    sendFrom_eq _ 0 (by omega)
  rw [Nat.zero_mul, Nat.zero_add] at all
  rw [hfSend, all, pieces, List.range_eq_range']

theorem pieces_le : call.pieces noc ≤ 32768 := by
  have := noc.packetsOf_le call.size
  unfold pieces
  omega

theorem fullWords_bytes (count : Nat) : ∀ p, (call.fullWords count p).flatMap wordBytes =
    (List.range' p (2 * count)).map call.buf := by
  induction count with
  | zero =>
      intro p
      rfl
  | succ count ih =>
      intro p
      have double : 2 * (count + 1) = 2 * count + 1 + 1 := by omega
      rw [fullWords, List.flatMap_cons, wordBytes_byteWord, ih, double, List.range'_succ,
        List.range'_succ]
      rfl

theorem copyLast_lastWords (count : Nat) : ∀ p, call.size.toNat ≤ p + 2 * count →
    (RecvCall.copyLast call.size.toNat (call.lastWords count p) ((List.range p).map call.buf)).take
      call.size.toNat = (List.range call.size.toNat).map call.buf := by
  have complete : ∀ p, call.size.toNat ≤ p → ((List.range p).map call.buf).take call.size.toNat =
      (List.range call.size.toNat).map call.buf := by
    intro p enough
    rw [← List.map_take, List.take_range, Nat.min_eq_left enough]
  induction count with
  | zero =>
      intro p enough
      exact complete p (by omega)
  | succ count ih =>
      intro p enough
      unfold lastWords
      split
      · rename_i more
        have longer : (List.range p).map call.buf ++ wordBytes (byteWord call.buf p) =
            (List.range (p + 2)).map call.buf := by
          rw [wordBytes_byteWord, List.range_succ, List.range_succ]
          simp
        rw [RecvCall.copyLast, List.length_map, List.length_range, if_pos more, longer]
        exact ih (p + 2) (by omega)
      · rename_i whole
        rw [List.replicate_succ, RecvCall.copyLast, List.length_map, List.length_range, if_neg whole]
        exact complete p (by omega)

section Header

variable {bufPtr : Buffer} {k : Nat} (carried : bufPtr.packet.flits = call.piece noc k)

include carried

theorem piece_sourceCpu : bufPtr.flit pktSourceCpu = call.sourceCpu := by
  rw [Buffer.flit, Packet.flit, carried]
  rfl

theorem piece_sourcePort : bufPtr.flit pktSourcePort = call.sourcePort := by
  rw [Buffer.flit, Packet.flit, carried]
  rfl

theorem piece_targetPort : bufPtr.flit pktTargetPort = call.targetPort := by
  rw [Buffer.flit, Packet.flit, carried]
  rfl

theorem piece_msgSize : bufPtr.flit pktMsgSize = call.size := by
  rw [Buffer.flit, Packet.flit, carried]
  rfl

theorem piece_channel : bufPtr.flit pktChannel = call.channel := by
  rw [Buffer.flit, Packet.flit, carried]
  rfl

theorem piece_seq : bufPtr.flit pktSeq = UInt16.ofNat (k + 1) := by
  rw [Buffer.flit, Packet.flit, carried]
  rfl

theorem piece_words : bufPtr.words = call.body noc k := by
  rw [Buffer.words, carried]
  rfl

theorem piece_seq_toNat (bound : k < call.pieces noc) : (bufPtr.flit pktSeq).toNat = k + 1 := by
  have : call.pieces noc ≤ 32768 := pieces_le
  rw [piece_seq carried, UInt16.toNat_ofNat_of_lt' (by unfold UInt16.size; omega)]

end Header

end SendCall

namespace RecvCall

def Begins (call : RecvCall) : Prop :=
  (call.point = .searchFirst ∨ call.point = .turnFirst ∨ call.point = .takeFirst) ∧
    call = { RecvCall.start call.channel with point := call.point }

structure Holds (sent : SendCall) (call : RecvCall) : Prop where
  error : call.error = errOk
  sourceCpu : call.sourceCpu = sent.sourceCpu
  sourcePort : call.sourcePort = sent.sourcePort
  size : call.size = sent.size
  buf : call.buf.take sent.size.toNat = (List.range sent.size.toNat).map sent.buf

structure Stored (noc : NocConfig) (sent : SendCall) (call : RecvCall) (k : Nat) : Prop where
  error : call.error = errOk
  sourceCpu : call.sourceCpu = sent.sourceCpu
  sourcePort : call.sourcePort = sent.sourcePort
  size : call.size = sent.size
  packets : call.packets = noc.packetsOf sent.size
  seq : call.seq = UInt16.ofNat (k + 1)
  buf : call.buf = (List.range (k * noc.payloadBytes)).map sent.buf

def Reads (noc : NocConfig) (sent : SendCall) (call : RecvCall) : Prop :=
  match call.point with
  | .store bufPtr => ∃ k, call.packet = k + 1 ∧ k + 1 < noc.packetsOf sent.size ∧
      call.Stored noc sent k ∧ bufPtr.packet.flits = sent.piece noc k
  | .finish bufPtr => ∃ k, call.packet = k + 1 ∧ k + 1 = sent.pieces noc ∧
      call.Stored noc sent k ∧ bufPtr.packet.flits = sent.piece noc k
  | .searchNext | .turnNext | .takeNext =>
      call.packet < noc.packetsOf sent.size ∧ call.Stored noc sent call.packet
  | .returned => call.Holds sent
  | .searchFirst | .turnFirst | .takeFirst => False

variable {noc : NocConfig} {sent : SendCall} {call : RecvCall} {queue : List Buffer}
  {next : MailStep}

theorem start_begins (channel : UInt16) : (RecvCall.start channel).Begins := ⟨Or.inl rfl, rfl⟩

theorem Begins.mailStep (begins : call.Begins) (searching : call.point ≠ .takeFirst)
    (stepped : call.mailStep noc queue = some next) : next.call.Begins := by
  obtain ⟨point | point | point, fresh⟩ := begins
  · rw [point] at fresh
    cases queue with
    | nil =>
        simp only [RecvCall.mailStep, point, Option.some.injEq] at stepped
        rw [← stepped]
        exact ⟨Or.inl point, by rw [point]; exact fresh⟩
    | cons bufPtr rest =>
        simp only [RecvCall.mailStep, point, Option.some.injEq] at stepped
        subst stepped
        refine ⟨?_, ?_⟩
        · simp only
          split
          · exact Or.inr (Or.inr rfl)
          · exact Or.inr (Or.inl rfl)
        · rw [fresh]
          rfl
  · rw [point] at fresh
    cases queue with
    | nil => simp [RecvCall.mailStep, point] at stepped
    | cons bufPtr rest =>
        simp only [RecvCall.mailStep, point, Option.some.injEq] at stepped
        subst stepped
        refine ⟨Or.inl rfl, ?_⟩
        rw [fresh]
        rfl
  · exact absurd point searching

theorem Stored.proceed {k : Nat} {bufPtr : Buffer} (stored : call.Stored noc sent k)
    (packet : call.packet = k) (bound : k < sent.pieces noc)
    (carried : bufPtr.packet.flits = sent.piece noc k) : (call.proceed bufPtr).Reads noc sent := by
  have kept : (call.proceed bufPtr).Stored noc sent k :=
    ⟨stored.error, stored.sourceCpu, stored.sourcePort, stored.size, stored.packets, stored.seq,
      stored.buf⟩
  have counted : (call.proceed bufPtr).packet = k + 1 := by rw [← packet]; rfl
  have turn : (call.proceed bufPtr).point =
      if k + 1 < noc.packetsOf sent.size then .store bufPtr else .finish bufPtr := by
    rw [← packet, ← stored.packets]
    rfl
  by_cases more : k + 1 < noc.packetsOf sent.size
  · rw [if_pos more] at turn
    unfold Reads
    rw [turn]
    exact ⟨k, counted, more, kept, carried⟩
  · rw [if_neg more] at turn
    unfold Reads
    rw [turn]
    unfold SendCall.pieces at bound
    exact ⟨k, counted, by unfold SendCall.pieces; omega, kept, carried⟩

theorem Stored.searching {point : RecvPoint} {i : Nat} (stored : call.Stored noc sent call.packet)
    (more : call.packet < noc.packetsOf sent.size)
    (searches : point = .searchNext ∨ point = .turnNext ∨ point = .takeNext) :
    RecvCall.Reads noc sent { call with point, i } := by
  have kept : RecvCall.Stored noc sent { call with point, i } call.packet :=
    ⟨stored.error, stored.sourceCpu, stored.sourcePort, stored.size, stored.packets, stored.seq,
      stored.buf⟩
  rcases searches with rfl | rfl | rfl
  · exact ⟨more, kept⟩
  · exact ⟨more, kept⟩
  · exact ⟨more, kept⟩

theorem Begins.take {bufPtr : Buffer} {rest : List Buffer} (begins : call.Begins)
    (point : call.point = .takeFirst) (carried : bufPtr.packet.flits = sent.piece noc 0)
    (stepped : call.mailStep noc (bufPtr :: rest) = some next) : next.call.Reads noc sent := by
  obtain ⟨_, fresh⟩ := begins
  simp only [RecvCall.mailStep, point, Option.some.injEq] at stepped
  rw [← stepped]
  apply Stored.proceed (k := 0)
  · refine ⟨by rw [fresh]; rfl, SendCall.piece_sourceCpu carried, SendCall.piece_sourcePort carried,
      SendCall.piece_msgSize carried, ?_, SendCall.piece_seq carried, ?_⟩
    · simp only [SendCall.piece_msgSize carried]
    · rw [Nat.zero_mul, fresh]
      rfl
  · rw [fresh]
    rfl
  · exact Nat.succ_pos _
  · exact carried

theorem Stored.checkSeq {k : Nat} {bufPtr : Buffer} (stored : call.Stored noc sent k)
    (carried : bufPtr.packet.flits = sent.piece noc k) :
    (call.checkSeq bufPtr).error = errOk ∧ (call.checkSeq bufPtr).seq = UInt16.ofNat (k + 1 + 1) := by
  constructor
  · simp only [RecvCall.checkSeq, SendCall.piece_seq carried, stored.seq, ne_eq, not_true_eq_false,
      if_false]
    exact stored.error
  · simp only [RecvCall.checkSeq, stored.seq]
    rw [UInt16.ofNat_add (k + 1) 1]
    rfl

theorem Stored.words {k : Nat} {bufPtr : Buffer} (stored : call.Stored noc sent k)
    (inner : k + 1 < noc.packetsOf sent.size) (carried : bufPtr.packet.flits = sent.piece noc k) :
    call.buf ++ bufPtr.words.flatMap wordBytes =
      (List.range ((k + 1) * noc.payloadBytes)).map sent.buf := by
  have payload : 2 * (noc.nocPacketSize - pktHeaderSize) = noc.payloadBytes := by
    rw [NocConfig.payloadBytes, Nat.mul_comm]
  rw [SendCall.piece_words carried, SendCall.body, if_pos inner, SendCall.fullWords_bytes, payload,
    stored.buf, ← List.map_append, Nat.add_mul, Nat.one_mul, List.range_add, List.range'_eq_map_range]

theorem Stored.copyLast {k : Nat} {bufPtr : Buffer} (stored : call.Stored noc sent k)
    (last : k + 1 = sent.pieces noc) (carried : bufPtr.packet.flits = sent.piece noc k) :
    (RecvCall.copyLast call.size.toNat bufPtr.words call.buf).take sent.size.toNat =
      (List.range sent.size.toNat).map sent.buf := by
  have payload : 2 * (noc.nocPacketSize - pktHeaderSize) = noc.payloadBytes := by
    rw [NocConfig.payloadBytes, Nat.mul_comm]
  have covered := noc.packetsOf_covers sent.size
  unfold SendCall.pieces at last
  have outer : ¬k + 1 < noc.packetsOf sent.size := by omega
  have reach : noc.packetsOf sent.size * noc.payloadBytes ≤ (k + 1) * noc.payloadBytes :=
    Nat.mul_le_mul_right _ (by omega)
  rw [Nat.add_mul, Nat.one_mul] at reach
  rw [SendCall.piece_words carried, SendCall.body, if_neg outer, stored.size, stored.buf]
  apply SendCall.copyLast_lastWords
  rw [payload]
  omega

theorem Reads.mailStep (reads : call.Reads noc sent)
    (carried : call.point = .takeNext → ∀ bufPtr ∈ queue.head?,
      bufPtr.packet.flits = sent.piece noc call.packet)
    (stepped : call.mailStep noc queue = some next) : next.call.Reads noc sent := by
  unfold Reads at reads
  cases point : call.point with
  | searchFirst | turnFirst | takeFirst =>
      rw [point] at reads
      exact reads.elim
  | store bufPtr =>
      rw [point] at reads
      obtain ⟨k, packet, inner, stored, carried⟩ := reads
      obtain ⟨error, seq⟩ := stored.checkSeq carried
      simp only [RecvCall.mailStep, point, Option.some.injEq] at stepped
      rw [← stepped]
      refine ⟨by rw [← packet] at inner; exact inner, error, stored.sourceCpu, stored.sourcePort, stored.size,
        stored.packets, ?_, ?_⟩
      · simpa [RecvCall.checkSeq, packet] using seq
      · simpa [RecvCall.checkSeq, packet] using stored.words inner carried
  | searchNext =>
      rw [point] at reads
      cases queue with
      | nil =>
          simp only [RecvCall.mailStep, point, Option.some.injEq] at stepped
          rw [← stepped]
          unfold Reads
          rwa [point]
      | cons bufPtr rest =>
          simp only [RecvCall.mailStep, point, Option.some.injEq] at stepped
          rw [← stepped]
          apply Stored.searching reads.2 reads.1
          split
          · exact Or.inr (Or.inr rfl)
          · exact Or.inr (Or.inl rfl)
  | turnNext =>
      rw [point] at reads
      cases queue with
      | nil => simp [RecvCall.mailStep, point] at stepped
      | cons bufPtr rest =>
          simp only [RecvCall.mailStep, point, Option.some.injEq] at stepped
          rw [← stepped]
          apply Stored.searching reads.2 reads.1
          split
          · exact Or.inr (Or.inr rfl)
          · exact Or.inl rfl
  | takeNext =>
      rw [point] at reads
      cases queue with
      | nil => simp [RecvCall.mailStep, point] at stepped
      | cons bufPtr rest =>
          simp only [RecvCall.mailStep, point, Option.some.injEq] at stepped
          rw [← stepped]
          apply reads.2.proceed rfl
          · have := reads.1
            unfold SendCall.pieces
            omega
          · exact carried point bufPtr rfl
  | finish bufPtr =>
      rw [point] at reads
      obtain ⟨k, _, last, stored, carried⟩ := reads
      simp only [RecvCall.mailStep, point, Option.some.injEq] at stepped
      rw [← stepped]
      exact ⟨(stored.checkSeq carried).1, stored.sourceCpu, stored.sourcePort, stored.size,
        stored.copyLast last carried⟩
  | returned =>
      rw [point] at reads
      simp only [RecvCall.mailStep, point, Option.some.injEq] at stepped
      rw [← stepped]
      unfold Reads
      rwa [point]

end RecvCall

end Hellfire

import Mathlib.Data.List.Rotate
import Hellfire.NocConservation
import Hellfire.NocMessage

/-!
`hf_recv` on a queue that holds all packets of a message of `hf_send`, in any order and between
packets of other channels.
-/

namespace Hellfire

open Machine

def ownPackets (channel : UInt16) (queue : List Buffer) : List Buffer :=
  queue.filter fun bufPtr => bufPtr.flit pktChannel = channel

def otherPackets (channel : UInt16) (queue : List Buffer) : List Buffer :=
  queue.filter fun bufPtr => bufPtr.flit pktChannel ≠ channel

namespace MailStep

variable {noc : NocConfig}

def next (noc : NocConfig) (mail : MailStep) : Option MailStep :=
  (mail.call.mailStep noc mail.queue).map fun step =>
    { step with released := mail.released ++ step.released }

def Leads (noc : NocConfig) : MailStep → MailStep → Prop :=
  Relation.ReflTransGen fun mail after => mail.next noc = some after

theorem next_perm {mail after : MailStep} (stepped : mail.next noc = some after) :
    (after.released ++ after.queue ++ after.call.point.held).Perm
      (mail.released ++ mail.queue ++ mail.call.point.held) := by
  unfold next at stepped
  cases done : mail.call.mailStep noc mail.queue with
  | none => simp [done] at stepped
  | some step =>
      simp only [done, Option.map_some, Option.some.injEq] at stepped
      rw [← stepped]
      have moved := (RecvCall.mailStep_perm done).append_left mail.released
      simpa only [List.append_assoc] using moved

theorem Leads.perm {mail after : MailStep} (leads : Leads noc mail after) :
    (after.released ++ after.queue ++ after.call.point.held).Perm
      (mail.released ++ mail.queue ++ mail.call.point.held) := by
  induction leads with
  | refl => exact List.Perm.refl _
  | tail _ stepped ih => exact (next_perm stepped).trans ih

theorem leads_first {released : List Buffer} {bufPtr : Buffer} (front : List Buffer) :
    ∀ (back : List Buffer) (call : RecvCall), call.point = .searchFirst →
      (∀ other ∈ front, call.awaits (call.seq.toNat + 1) (some other) = false) →
      call.awaits (call.seq.toNat + 1) (some bufPtr) = true →
      Leads noc ⟨front ++ bufPtr :: back, released, call⟩
        ⟨bufPtr :: (back ++ front), released, { call with point := .takeFirst }⟩ := by
  induction front with
  | nil =>
      intro back call point _ awaited
      apply Relation.ReflTransGen.single
      simp [next, RecvCall.mailStep, point, awaited]
  | cons other front ih =>
      intro back call point missed awaited
      have first : MailStep.next noc ⟨other :: front ++ bufPtr :: back, released, call⟩ =
          some ⟨other :: front ++ bufPtr :: back, released, { call with point := .turnFirst }⟩ := by
        simp [next, RecvCall.mailStep, point, missed other List.mem_cons_self]
      have second : MailStep.next noc
          ⟨other :: front ++ bufPtr :: back, released, { call with point := .turnFirst }⟩ =
          some ⟨front ++ bufPtr :: (back ++ [other]), released, { call with point := .searchFirst }⟩ := by
        simp [next, RecvCall.mailStep]
      have rest := ih (back ++ [other]) { call with point := .searchFirst } rfl
        (fun later member => missed later (List.mem_cons_of_mem _ member)) awaited
      rw [List.append_assoc, List.singleton_append] at rest
      exact .head first (.head second rest)

theorem leads_next {released : List Buffer} {bufPtr : Buffer} (front : List Buffer) :
    ∀ (back : List Buffer) (call : RecvCall), call.point = .searchNext →
      (∀ other ∈ front, call.awaits call.seq.toNat (some other) = false) →
      call.awaits call.seq.toNat (some bufPtr) = true →
      call.i + front.length ≤ noc.nocPacketSlots <<< 3 →
      Leads noc ⟨front ++ bufPtr :: back, released, call⟩ ⟨bufPtr :: (back ++ front), released,
        { call with point := .takeNext, i := call.i + front.length }⟩ := by
  induction front with
  | nil =>
      intro back call point _ awaited _
      apply Relation.ReflTransGen.single
      simp [next, RecvCall.mailStep, point, awaited]
  | cons other front ih =>
      intro back call point missed awaited bound
      rw [List.length_cons] at bound
      have first : MailStep.next noc ⟨other :: front ++ bufPtr :: back, released, call⟩ =
          some ⟨other :: front ++ bufPtr :: back, released, { call with point := .turnNext }⟩ := by
        simp [next, RecvCall.mailStep, point, missed other List.mem_cons_self]
      have within : ¬noc.nocPacketSlots <<< 3 < call.i := by omega
      have second : MailStep.next noc
          ⟨other :: front ++ bufPtr :: back, released, { call with point := .turnNext }⟩ =
          some ⟨front ++ bufPtr :: (back ++ [other]), released,
            { call with point := .searchNext, i := call.i + 1 }⟩ := by
        simp [next, RecvCall.mailStep, within]
      have rest := ih (back ++ [other]) { call with point := .searchNext, i := call.i + 1 } rfl
        (fun later member => missed later (List.mem_cons_of_mem _ member)) awaited
        (by simp only; omega)
      rw [List.append_assoc, List.singleton_append] at rest
      have counted : call.i + (other :: front).length = call.i + 1 + front.length := by
        rw [List.length_cons]
        omega
      rw [counted]
      exact .head first (.head second rest)

theorem otherPackets_rotated (channel : UInt16) (front back : List Buffer) {bufPtr : Buffer}
    (own : bufPtr.flit pktChannel = channel) :
    (otherPackets channel (front ++ bufPtr :: back)).IsRotated (otherPackets channel (back ++ front)) := by
  simp only [otherPackets, List.filter_append, List.filter_cons, own, ne_eq, not_true_eq_false,
    decide_false, Bool.false_eq_true, if_false]
  exact List.isRotated_append

section Message

variable {sent : SendCall}

theorem exists_awaited {call : RecvCall} {queue : List Buffer} {k more : Nat}
    (channel : call.channel = sent.channel) (bound : k + (more + 1) = sent.pieces noc)
    (stored : ((ownPackets sent.channel queue).map fun bufPtr => bufPtr.packet.flits).Perm
      ((List.range' k (more + 1)).map (sent.piece noc))) :
    ∃ front bufPtr back, queue = front ++ bufPtr :: back ∧
      (∀ other ∈ front, call.awaits (k + 1) (some other) = false) ∧
      call.awaits (k + 1) (some bufPtr) = true ∧ bufPtr.packet.flits = sent.piece noc k ∧
      ((ownPackets sent.channel (back ++ front)).map fun bufPtr => bufPtr.packet.flits).Perm
        ((List.range' (k + 1) more).map (sent.piece noc)) ∧
      (otherPackets sent.channel queue).IsRotated (otherPackets sent.channel (back ++ front)) := by
  have awaits : ∀ bufPtr : Buffer, call.awaits (k + 1) (some bufPtr) = true ↔
      bufPtr.flit pktChannel = sent.channel ∧ (bufPtr.flit pktSeq).toNat = k + 1 := by
    intro bufPtr
    simp [RecvCall.awaits, channel]
  rw [List.range'_succ, List.map_cons] at stored
  obtain ⟨found, member, carried⟩ := List.mem_map.mp (stored.mem_iff.mpr List.mem_cons_self)
  have inQueue := (List.mem_filter.mp member).1
  have foundAwaited : call.awaits (k + 1) (some found) = true :=
    (awaits found).mpr ⟨SendCall.piece_channel carried, SendCall.piece_seq_toNat carried (by omega)⟩
  obtain ⟨bufPtr, front, back, missed, awaited, parts, _⟩ :=
    List.exists_of_eraseP (p := fun bufPtr => call.awaits (k + 1) (some bufPtr)) inQueue foundAwaited
  obtain ⟨own, seq⟩ := (awaits bufPtr).mp awaited
  have isPiece : bufPtr.packet.flits = sent.piece noc k := by
    have among : bufPtr ∈ ownPackets sent.channel queue := by
      rw [parts]
      simp [ownPackets, own]
    rcases List.mem_cons.mp (stored.mem_iff.mp (List.mem_map_of_mem among)) with first | later
    · exact first
    · obtain ⟨j, inRange, isLater⟩ := List.mem_map.mp later
      have place := List.mem_range'_1.mp inRange
      have := SendCall.piece_seq_toNat isLater.symm (by omega)
      omega
  refine ⟨front, bufPtr, back, parts, fun other member => by simpa using missed other member, awaited,
    isPiece, ?_, ?_⟩
  · rw [parts] at stored
    simp only [ownPackets, List.filter_append, List.filter_cons, own, decide_true, if_true,
      List.map_append, List.map_cons, isPiece] at stored ⊢
    exact List.perm_append_comm.trans ((List.perm_middle.symm.trans stored).cons_inv)
  · rw [parts]
    exact otherPackets_rotated _ front back own

theorem leads_last {mail : MailStep} {bufPtr : Buffer} (point : mail.call.point = .finish bufPtr)
    (reads : mail.call.Reads noc sent) :
    ∃ after, Leads noc mail after ∧ after.call.point = .returned ∧ after.call.Holds sent ∧
      after.queue = mail.queue := by
  have stepped : mail.call.mailStep noc mail.queue = some ⟨mail.queue, [bufPtr],
      { mail.call.checkSeq bufPtr with
        buf := RecvCall.copyLast mail.call.size.toNat bufPtr.words mail.call.buf
        point := .returned }⟩ := by
    simp only [RecvCall.mailStep, point]
  have read := reads.mailStep (fun taking => by simp [point] at taking) stepped
  have last : mail.next noc = some ⟨mail.queue, mail.released ++ [bufPtr],
      { mail.call.checkSeq bufPtr with
        buf := RecvCall.copyLast mail.call.size.toNat bufPtr.words mail.call.buf
        point := .returned }⟩ := by
    simp only [next, stepped, Option.map_some]
  exact ⟨_, .single last, rfl, read, rfl⟩

theorem leads_piece {k more : Nat} {mail : MailStep} {bufPtr : Buffer}
    (point : mail.call.point = .store bufPtr) (reads : mail.call.Reads noc sent)
    (count : k + 1 + (more + 1) = sent.pieces noc) (packet : mail.call.packet = k + 1)
    (channel : mail.call.channel = sent.channel)
    (short : mail.queue.length ≤ noc.nocPacketSlots <<< 3)
    (stored : ((ownPackets sent.channel mail.queue).map fun bufPtr => bufPtr.packet.flits).Perm
      ((List.range' (k + 1) (more + 1)).map (sent.piece noc))) :
    ∃ after, Leads noc mail after ∧ after.call.Reads noc sent ∧ after.call.packet = k + 1 + 1 ∧
      after.call.point.held ≠ [] ∧ after.call.channel = sent.channel ∧
      after.queue.length ≤ noc.nocPacketSlots <<< 3 ∧
      ((ownPackets sent.channel after.queue).map fun bufPtr => bufPtr.packet.flits).Perm
        ((List.range' (k + 1 + 1) more).map (sent.piece noc)) ∧
      (otherPackets sent.channel mail.queue).IsRotated (otherPackets sent.channel after.queue) := by
  have stepped : mail.call.mailStep noc mail.queue = some ⟨mail.queue, [bufPtr],
      { mail.call.checkSeq bufPtr with
        buf := mail.call.buf ++ bufPtr.words.flatMap wordBytes
        i := 0
        point := .searchNext }⟩ := by
    simp only [RecvCall.mailStep, point]
  have read := reads.mailStep (fun taking => by simp [point] at taking) stepped
  obtain ⟨call, isCall⟩ : ∃ call, call = { mail.call.checkSeq bufPtr with
      buf := mail.call.buf ++ bufPtr.words.flatMap wordBytes
      i := 0
      point := RecvPoint.searchNext } := ⟨_, rfl⟩
  rw [← isCall] at stepped read
  have searching : call.point = .searchNext := by rw [isCall]
  have counted : call.packet = k + 1 := by rw [isCall, ← packet]; rfl
  have start : call.i = 0 := by rw [isCall]
  have onChannel : call.channel = sent.channel := by rw [isCall, ← channel]; rfl
  have first : mail.next noc = some ⟨mail.queue, mail.released ++ [bufPtr], call⟩ := by
    simp only [next, stepped, Option.map_some]
  unfold RecvCall.Reads at read
  rw [searching] at read
  obtain ⟨unfinished, held⟩ := read
  have awaited : call.seq.toNat = k + 1 + 1 := by
    have : sent.pieces noc ≤ 32768 := SendCall.pieces_le
    rw [held.seq, counted, UInt16.toNat_ofNat_of_lt' (by unfold UInt16.size; omega)]
  obtain ⟨front, found, back, parts, missed, hit, carried, rest, rotated⟩ :=
    exists_awaited onChannel (by omega) stored
  rw [parts, List.length_append, List.length_cons] at short
  have second : Leads noc ⟨front ++ found :: back, mail.released ++ [bufPtr], call⟩ _ :=
    leads_next front back call searching (by rw [awaited]; exact missed) (by rw [awaited]; exact hit) (by omega)
  rw [← parts] at second
  obtain ⟨taking, isTaking⟩ : ∃ taking, taking = { call with
      point := RecvPoint.takeNext, i := call.i + front.length } := ⟨_, rfl⟩
  rw [← isTaking] at second
  have aimed : taking.Reads noc sent := by
    rw [isTaking]
    exact held.searching unfinished (Or.inr (Or.inr rfl))
  have atTake : taking.point = .takeNext := by rw [isTaking]
  have third : taking.mailStep noc (found :: (back ++ front)) =
      some ⟨back ++ front, [], taking.proceed found⟩ := by
    simp only [RecvCall.mailStep, atTake]
  have taken := aimed.mailStep (fun _ head isHead => by
    obtain rfl : found = head := by simpa using isHead
    rw [isTaking]
    simp only
    rw [counted]
    exact carried) third
  refine ⟨⟨back ++ front, mail.released ++ [bufPtr] ++ [], taking.proceed found⟩, ?_, taken, ?_, ?_,
    ?_, ?_, rest, rotated⟩
  · refine .head first (second.trans (.single ?_))
    simp only [next, third, Option.map_some]
  · rw [isTaking, ← counted]
    rfl
  · rw [RecvCall.proceed_held]
    simp
  · rw [isTaking, ← onChannel]
    rfl
  · simp only [List.length_append]
    omega

theorem leads_returned (more : Nat) : ∀ (k : Nat) (mail : MailStep),
    k + 1 + more = sent.pieces noc → mail.call.Reads noc sent → mail.call.packet = k + 1 →
    mail.call.point.held ≠ [] → mail.call.channel = sent.channel →
    mail.queue.length ≤ noc.nocPacketSlots <<< 3 →
    ((ownPackets sent.channel mail.queue).map fun bufPtr => bufPtr.packet.flits).Perm
      ((List.range' (k + 1) more).map (sent.piece noc)) →
    ∃ after, Leads noc mail after ∧ after.call.point = .returned ∧ after.call.Holds sent ∧
      ownPackets sent.channel after.queue = [] ∧
      (otherPackets sent.channel mail.queue).IsRotated (otherPackets sent.channel after.queue) := by
  induction more with
  | zero =>
      intro k mail count reads packet holds channel _ stored
      cases point : mail.call.point with
      | finish bufPtr =>
          obtain ⟨after, leads, returned, whole, same⟩ := leads_last point reads
          refine ⟨after, leads, returned, whole, ?_, ?_⟩
          · rw [same]
            simpa using stored
          · rw [same]
      | store bufPtr =>
          unfold RecvCall.Reads at reads
          rw [point] at reads
          obtain ⟨k', packet', inner, _⟩ := reads
          unfold SendCall.pieces at count
          omega
      | _ => simp [point, RecvPoint.held] at holds
  | succ more ih =>
      intro k mail count reads packet holds channel short stored
      cases point : mail.call.point with
      | store bufPtr =>
          obtain ⟨middle, piece, read, counted, holding, onChannel, room, rest, rotated⟩ :=
            leads_piece point reads count packet channel short stored
          obtain ⟨after, leads, returned, whole, none, rotated'⟩ :=
            ih (k + 1) middle (by omega) read counted holding onChannel room rest
          exact ⟨after, piece.trans leads, returned, whole, none, rotated.trans rotated'⟩
      | finish bufPtr =>
          unfold RecvCall.Reads at reads
          rw [point] at reads
          obtain ⟨k', packet', last, _⟩ := reads
          omega
      | _ => simp [point, RecvPoint.held] at holds

theorem leads_received (queue : List Buffer) (short : queue.length ≤ noc.nocPacketSlots)
    (stored : ((ownPackets sent.channel queue).map fun bufPtr => bufPtr.packet.flits).Perm
      (sent.hfSend noc)) :
    ∃ after, Leads noc ⟨queue, [], .start sent.channel⟩ after ∧ after.call.point = .returned ∧
      after.call.Holds sent ∧ after.released.Perm (ownPackets sent.channel queue) ∧
      (otherPackets sent.channel queue).IsRotated after.queue := by
  rw [SendCall.hfSend_eq, List.range_eq_range'] at stored
  obtain ⟨front, found, back, parts, missed, hit, carried, rest, rotated⟩ :=
    exists_awaited (rfl : (RecvCall.start sent.channel).channel = sent.channel)
      (by unfold SendCall.pieces; omega) stored
  have first : Leads noc ⟨front ++ found :: back, [], .start sent.channel⟩ _ :=
    leads_first front back (.start sent.channel) rfl missed hit
  rw [← parts] at first
  have begins : RecvCall.Begins { RecvCall.start sent.channel with point := .takeFirst } :=
    ⟨Or.inr (Or.inr rfl), rfl⟩
  obtain ⟨step, second⟩ : ∃ step, RecvCall.mailStep noc (found :: (back ++ front))
      { RecvCall.start sent.channel with point := .takeFirst } = some step := ⟨_, rfl⟩
  have taken := begins.take rfl carried second
  simp only [RecvCall.mailStep, Option.some.injEq] at second
  have wide : noc.nocPacketSlots ≤ noc.nocPacketSlots <<< 3 := by
    rw [Nat.shiftLeft_eq]
    omega
  have fewer : (back ++ front).length ≤ queue.length := by
    rw [parts, List.length_append, List.length_append, List.length_cons]
    omega
  obtain ⟨after, leads, returned, holds, none, rotated'⟩ := leads_returned (sent.pieces noc - 1) 0
    ⟨back ++ front, [], step.call⟩ (by unfold SendCall.pieces; omega) taken
    (by rw [← second]; rfl) (by rw [← second, RecvCall.proceed_held]; simp) (by rw [← second]; rfl)
    (by simp only; omega) rest
  have all : Leads noc ⟨queue, [], .start sent.channel⟩ after := by
    refine first.trans (.head ?_ leads)
    simp only [next, RecvCall.mailStep, Option.map_some, ← second]
    rfl
  have remaining : after.queue = otherPackets sent.channel after.queue := by
    symm
    apply List.filter_eq_self.mpr
    intro bufPtr member
    have missing := List.filter_eq_nil_iff.mp none bufPtr member
    simpa using missing
  refine ⟨after, all, returned, holds, ?_, ?_⟩
  · have moved := all.perm
    have split : (ownPackets sent.channel queue ++ otherPackets sent.channel queue).Perm queue := by
      have halves := List.filter_append_perm (fun bufPtr => bufPtr.flit pktChannel = sent.channel) queue
      simpa only [ownPackets, otherPackets, ne_eq, decide_not] using halves
    rw [returned] at moved
    simp only [RecvPoint.held, RecvCall.start, List.append_nil, List.nil_append] at moved
    rw [remaining] at moved
    have turned := (rotated.trans rotated').perm
    have joined := (moved.trans split.symm).trans (turned.append_left _)
    exact (List.perm_append_right_iff _).mp joined
  · rw [remaining]
    exact rotated.trans rotated'

end Message

end MailStep

namespace Noc

variable {noc : NocConfig}

structure Attends (core : Noc noc) (task : Nat) (pool : List (Option Buffer)) (mail : MailStep) :
    Prop where
  call : core.calls task = .recv mail.call
  queue : ∃ queue, core.queueAt (core.pktdrvTqueue task) = .ok queue ∧
    queue.ring.contents = mail.queue.map some
  pooled : core.pktdrvQueue.contents = pool ++ mail.released.map some
  room : pool.length + (mail.released ++ mail.queue ++ mail.call.point.held).length ≤
    noc.nocPacketSlots

theorem Attends.step {core : Noc noc} {task : Nat} {pool : List (Option Buffer)}
    {mail after : MailStep} (attends : core.Attends task pool mail)
    (stepped : mail.next noc = some after) :
    ∃ next, Noc.step (.advance task 0) core = .ok next ∧ next.Attends task pool after := by
  obtain ⟨queue, there, stored⟩ := attends.queue
  have kept := (MailStep.next_perm stepped).length_eq
  have room := attends.room
  unfold MailStep.next at stepped
  cases done : mail.call.mailStep noc mail.queue with
  | none => simp [done] at stepped
  | some step =>
      simp only [done, Option.map_some, Option.some.injEq] at stepped
      have space : mail.call.point.held ≠ [] →
          core.pktdrvQueue.contents.length < noc.nocPacketSlots := by
        intro holds
        have := List.length_pos_iff.mpr holds
        simp only [List.length_append] at room
        rw [attends.pooled, List.length_append, List.length_map]
        omega
      obtain ⟨turn, turned, _, poolEq, queueEq, callEq⟩ :=
        RecvCall.step_mailStep core.pktdrvQueue queue.ring stored space done
      obtain ⟨present, standing⟩ := queueAt_ok.mp there
      refine ⟨(({ core.setRing (core.pktdrvTqueue task) queue turn.queue with
        pktdrvQueue := turn.pktdrvQueue } : Noc noc).setCall task (.recv turn.call)), ?_, ?_⟩
      · simp only [Noc.step, Noc.turn, advance, attends.call, there, turned, bind, Except.bind,
          Except.map]
      · refine ⟨?_, ⟨{ queue with ring := turn.queue }, ?_, ?_⟩, ?_, ?_⟩
        · rw [setCall_same, callEq, ← stepped]
        · exact queueAt_ok.mpr ⟨present, Function.update_self _ _ _⟩
        · rw [← stepped]
          exact queueEq
        · change turn.pktdrvQueue.contents = _
          rw [poolEq, attends.pooled, ← stepped, List.append_assoc, List.map_append]
        · rwa [kept]

theorem Attends.run {core : Noc noc} {task : Nat} {pool : List (Option Buffer)}
    {mail after : MailStep} (attends : core.Attends task pool mail)
    (leads : MailStep.Leads noc mail after) :
    ∃ steps next, execute Noc.step (List.replicate steps (.advance task 0)) core = .ok next ∧
      next.Attends task pool after := by
  induction leads using Relation.ReflTransGen.head_induction_on generalizing core with
  | refl => exact ⟨0, core, rfl, attends⟩
  | head stepped _ ih =>
      obtain ⟨middle, first, attends'⟩ := attends.step stepped
      obtain ⟨steps, next, rest, last⟩ := ih attends'
      refine ⟨steps + 1, next, ?_, last⟩
      rw [List.replicate_succ, execute, first]
      exact rest

theorem hfRecv_attends {core : Noc noc} {task : Nat} {queue : CommQueue} {cells : List Buffer}
    (channel : UInt16) (there : core.queueAt (core.pktdrvTqueue task) = .ok queue)
    (stored : queue.ring.contents = cells.map some)
    (buffers : core.pktdrvQueue.contents.length + cells.length ≤ noc.nocPacketSlots) :
    (core.hfRecv task channel).Attends task core.pktdrvQueue.contents
      ⟨cells, [], .start channel⟩ := by
  rw [hfRecv_started (queueAt_ok.mp there).1]
  refine ⟨setCall_same _ _ _, ⟨queue, there, stored⟩, by simp [setCall], ?_⟩
  simpa [RecvCall.start, RecvPoint.held] using buffers

/-- A message whose packets are all in the queue of a task, in any order and between any packets of
other channels, is received as it was sent. -/
theorem message_received (core : Noc noc) (task : Nat) (sent : SendCall) (queue : CommQueue)
    (cells : List Buffer) (there : core.queueAt (core.pktdrvTqueue task) = .ok queue)
    (stored : queue.ring.contents = cells.map some)
    (buffers : core.pktdrvQueue.contents.length + cells.length ≤ noc.nocPacketSlots)
    (whole : ((ownPackets sent.channel cells).map fun bufPtr => bufPtr.packet.flits).Perm
      (sent.hfSend noc)) :
    ∃ steps next call rest, execute Noc.step (List.replicate steps (.advance task 0))
        (core.hfRecv task sent.channel) = .ok next ∧
      next.calls task = .recv call ∧ call.point = .returned ∧ call.Holds sent ∧
      next.cellsAt (next.pktdrvTqueue task) = rest.map some ∧
      (otherPackets sent.channel cells).IsRotated rest ∧
      ∃ returned : List Buffer, next.pktdrvQueue.contents = core.pktdrvQueue.contents ++ returned.map some ∧
        returned.Perm (ownPackets sent.channel cells) := by
  obtain ⟨after, leads, point, holds, released, rotated⟩ :=
    MailStep.leads_received cells (by omega) whole
  have attends := hfRecv_attends sent.channel there stored buffers
  obtain ⟨steps, next, done, attends'⟩ := attends.run leads
  obtain ⟨final, there', stored'⟩ := attends'.queue
  refine ⟨steps, next, after.call, after.queue, done, attends'.call, point, holds, ?_, rotated,
    after.released, attends'.pooled, released⟩
  rw [cellsAt_some (queueAt_ok.mp there').2, stored']

/-- A message of three bytes, whose two packets arrive in reverse order and with a packet of
another channel between them. -/
def smallMessage : SendCall := ⟨1, 7, 0, 5, fun i => UInt8.ofNat (65 + i), 3, 2⟩

def smallPacket (sent : SendCall) (k : Nat) : Packet := ⟨sent.piece smallNoc k, ⟨0, 0, k⟩⟩

def mixedCore : Noc smallNoc :=
  workerCore [.create 1 1 5 0, .advance 1 256, .advance 1 0, .arrive (smallPacket smallMessage 1),
    .deliver, .arrive (incoming 5), .deliver, .arrive (smallPacket smallMessage 0), .deliver]

def mixedCells : List Buffer :=
  [⟨0, smallPacket smallMessage 1⟩, ⟨1, incoming 5⟩, ⟨2, smallPacket smallMessage 0⟩]

theorem mixedCore_queue : ∃ queue, mixedCore.queueAt (mixedCore.pktdrvTqueue 1) = .ok queue ∧
    queue.ring.contents = mixedCells.map some := by
  obtain ⟨queue, there⟩ : ∃ queue, mixedCore.queues 256 = some queue := ⟨_, rfl⟩
  have cells : mixedCore.cellsAt 256 = mixedCells.map some := by decide
  rw [cellsAt_some there] at cells
  exact ⟨queue, queueAt_ok.mpr ⟨by decide, there⟩, cells⟩

theorem message_received_mixed :
    ∃ steps next call rest, execute Noc.step (List.replicate steps (.advance 1 0))
        (mixedCore.hfRecv 1 2) = .ok next ∧
      next.calls 1 = .recv call ∧ call.point = .returned ∧ call.Holds smallMessage ∧
      next.cellsAt (next.pktdrvTqueue 1) = rest.map some ∧
      (otherPackets 2 mixedCells).IsRotated rest ∧
      ∃ returned : List Buffer, next.pktdrvQueue.contents =
          mixedCore.pktdrvQueue.contents ++ returned.map some ∧
        returned.Perm (ownPackets 2 mixedCells) := by
  obtain ⟨queue, there, stored⟩ := mixedCore_queue
  exact message_received mixedCore 1 smallMessage queue mixedCells there stored (by decide) (by decide)

end Noc

end Hellfire

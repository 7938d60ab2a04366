import Hellfire.NocCore

/-!
`hf_recv` on the queue as a plain list of buffers. A call that only turns or takes from a
queue that holds a packet does on the ring queues what it does on the lists.
-/

namespace Hellfire

namespace RingQueue

variable {α : Type} {capacity : Nat}

theorem hfQueueAddtail_full (ring : RingQueue α capacity) (ptr : Option α)
    (full : ring.contents.length = capacity) : (ring.hfQueueAddtail ptr).1 = -1 :=
  congrArg Prod.fst (Queue.hfQueueAddtail_full ring.wellFormed ptr full)

@[simp] theorem create_contents (addressable : capacity + 1 < 1073741824) :
    (RingQueue.create (α := α) capacity addressable).contents = [] := rfl

theorem hfQueueDestroy_eq (ring : RingQueue α capacity) :
    ring.queue.hfQueueDestroy = 0 ↔ ring.contents = [] := by
  have valid := ring.wellFormed
  have length := valid.elem_eq_length
  have empty : ring.contents = [] ↔ ring.contents.length = 0 := List.length_eq_zero_iff.symm
  have bounds := valid.headRange
  have bounds' := valid.tailRange
  rw [empty, contents, Queue.hfQueueDestroy]
  rcases valid.elem_cases with ⟨ordered, elemEq⟩ | ⟨wrapped, elemEq⟩
  · split <;> omega
  · split <;> omega

end RingQueue

structure MailStep where
  queue : List Buffer
  released : List Buffer
  call : RecvCall

def RecvPoint.removes : RecvPoint → Bool
  | .turnFirst | .takeFirst | .turnNext | .takeNext => true
  | _ => false

namespace RecvCall

variable (noc : NocConfig)

def Ready (call : RecvCall) (queue : List Buffer) : Prop := call.point.removes = true → queue ≠ []

def mailStep (queue : List Buffer) (call : RecvCall) : Option MailStep :=
  match call.point, queue with
  | .searchFirst, [] => some ⟨[], [], call⟩
  | .searchFirst, bufPtr :: rest => some ⟨bufPtr :: rest, [],
      { call with
        point := if call.awaits (call.seq.toNat + 1) (some bufPtr) then .takeFirst else .turnFirst }⟩
  | .turnFirst, bufPtr :: rest => some ⟨rest ++ [bufPtr], [], { call with point := .searchFirst }⟩
  | .takeFirst, bufPtr :: rest => some ⟨rest, [],
      ({ call with
        sourceCpu := bufPtr.flit pktSourceCpu
        sourcePort := bufPtr.flit pktSourcePort
        size := bufPtr.flit pktMsgSize
        seq := bufPtr.flit pktSeq
        packets := noc.packetsOf (bufPtr.flit pktMsgSize) } : RecvCall).proceed bufPtr⟩
  | .store bufPtr, queue => some ⟨queue, [bufPtr],
      { call.checkSeq bufPtr with
        buf := call.buf ++ bufPtr.words.flatMap wordBytes
        i := 0
        point := .searchNext }⟩
  | .searchNext, [] => some ⟨[], [], call⟩
  | .searchNext, bufPtr :: rest => some ⟨bufPtr :: rest, [],
      { call with
        point := if call.awaits call.seq.toNat (some bufPtr) then .takeNext else .turnNext }⟩
  | .turnNext, bufPtr :: rest => some ⟨rest ++ [bufPtr], [],
      { call with
        i := call.i + 1
        point := if noc.nocPacketSlots <<< 3 < call.i then .takeNext else .searchNext }⟩
  | .takeNext, bufPtr :: rest => some ⟨rest, [], call.proceed bufPtr⟩
  | .finish bufPtr, queue => some ⟨queue, [bufPtr],
      { call.checkSeq bufPtr with
        buf := copyLast call.size.toNat bufPtr.words call.buf
        point := .returned }⟩
  | .returned, queue => some ⟨queue, [], call⟩
  | _, [] => none

variable {noc}

theorem Ready.append {call : RecvCall} {queue : List Buffer} (ready : call.Ready queue)
    (more : List Buffer) : call.Ready (queue ++ more) :=
  fun removes => List.append_ne_nil_of_left_ne_nil (ready removes) more

theorem Ready.mailStep {call : RecvCall} {queue : List Buffer} (ready : call.Ready queue) :
    ∃ next, call.mailStep noc queue = some next := by
  unfold Ready at ready
  cases queue with
  | nil => cases point : call.point <;> simp_all [RecvCall.mailStep, RecvPoint.removes]
  | cons bufPtr rest => cases point : call.point <;> simp [RecvCall.mailStep, point]

inductive Mails (noc : NocConfig) (call : RecvCall) : List Buffer → MailStep → Prop
  | stays {queue} (resting : call.point = .searchFirst ∨ call.point = .searchNext ∨
      call.point = .returned) : Mails noc call queue ⟨queue, [], call⟩
  | searchFirst {bufPtr rest} (point : call.point = .searchFirst) :
      Mails noc call (bufPtr :: rest) ⟨bufPtr :: rest, [], { call with
        point := if call.awaits (call.seq.toNat + 1) (some bufPtr) then .takeFirst else .turnFirst }⟩
  | turnFirst {bufPtr rest} (point : call.point = .turnFirst) :
      Mails noc call (bufPtr :: rest) ⟨rest ++ [bufPtr], [], { call with point := .searchFirst }⟩
  | takeFirst {bufPtr rest} (point : call.point = .takeFirst) :
      Mails noc call (bufPtr :: rest) ⟨rest, [], ({ call with
        sourceCpu := bufPtr.flit pktSourceCpu
        sourcePort := bufPtr.flit pktSourcePort
        size := bufPtr.flit pktMsgSize
        seq := bufPtr.flit pktSeq
        packets := noc.packetsOf (bufPtr.flit pktMsgSize) } : RecvCall).proceed bufPtr⟩
  | store {queue bufPtr} (point : call.point = .store bufPtr) :
      Mails noc call queue ⟨queue, [bufPtr], { call.checkSeq bufPtr with
        buf := call.buf ++ bufPtr.words.flatMap wordBytes
        i := 0
        point := .searchNext }⟩
  | searchNext {bufPtr rest} (point : call.point = .searchNext) :
      Mails noc call (bufPtr :: rest) ⟨bufPtr :: rest, [], { call with
        point := if call.awaits call.seq.toNat (some bufPtr) then .takeNext else .turnNext }⟩
  | turnNext {bufPtr rest} (point : call.point = .turnNext) :
      Mails noc call (bufPtr :: rest) ⟨rest ++ [bufPtr], [], { call with
        i := call.i + 1
        point := if noc.nocPacketSlots <<< 3 < call.i then .takeNext else .searchNext }⟩
  | takeNext {bufPtr rest} (point : call.point = .takeNext) :
      Mails noc call (bufPtr :: rest) ⟨rest, [], call.proceed bufPtr⟩
  | finish {queue bufPtr} (point : call.point = .finish bufPtr) :
      Mails noc call queue ⟨queue, [bufPtr], { call.checkSeq bufPtr with
        buf := copyLast call.size.toNat bufPtr.words call.buf
        point := .returned }⟩

theorem mailStep_mails {call : RecvCall} {queue : List Buffer} {next : MailStep}
    (stepped : call.mailStep noc queue = some next) : Mails noc call queue next := by
  cases queue with
  | nil =>
      cases point : call.point <;> simp only [RecvCall.mailStep, point, Option.some.injEq,
        reduceCtorEq] at stepped
      all_goals subst stepped
      case searchFirst => exact .stays (Or.inl point)
      case searchNext => exact .stays (Or.inr (Or.inl point))
      case store => exact .store point
      case finish => exact .finish point
      case returned => exact .stays (Or.inr (Or.inr point))
  | cons bufPtr rest =>
      cases point : call.point <;> simp only [RecvCall.mailStep, point, Option.some.injEq] at stepped
      all_goals subst stepped
      case searchFirst => exact .searchFirst point
      case turnFirst => exact .turnFirst point
      case takeFirst => exact .takeFirst point
      case store => exact .store point
      case searchNext => exact .searchNext point
      case turnNext => exact .turnNext point
      case takeNext => exact .takeNext point
      case finish => exact .finish point
      case returned => exact .stays (Or.inr (Or.inr point))

theorem resting_point {point : RecvPoint}
    (resting : point = .searchFirst ∨ point = .searchNext ∨ point = .returned) :
    point.removes = false ∧ point.held = [] := by
  rcases resting with rfl | rfl | rfl
  · exact ⟨rfl, rfl⟩
  · exact ⟨rfl, rfl⟩
  · exact ⟨rfl, rfl⟩

theorem proceed_ready (call : RecvCall) (bufPtr : Buffer) (queue : List Buffer) :
    (call.proceed bufPtr).Ready queue := by
  unfold proceed Ready
  split <;> simp [RecvPoint.removes]

theorem mailStep_ready {call : RecvCall} {queue : List Buffer} {next : MailStep}
    (stepped : call.mailStep noc queue = some next) : next.call.Ready next.queue := by
  cases mailStep_mails stepped with
  | stays resting =>
      intro removes
      rw [(resting_point resting).1] at removes
      cases removes
  | takeFirst | takeNext => exact proceed_ready _ _ _
  | turnNext => simp [Ready]
  | searchFirst | turnFirst | store | searchNext | finish => simp [Ready, RecvPoint.removes]

theorem proceed_held (call : RecvCall) (bufPtr : Buffer) :
    (call.proceed bufPtr).point.held = [bufPtr] := by
  unfold proceed
  split <;> rfl

theorem mailStep_perm {call : RecvCall} {queue : List Buffer} {next : MailStep}
    (stepped : call.mailStep noc queue = some next) :
    (next.released ++ next.queue ++ next.call.point.held).Perm (queue ++ call.point.held) := by
  cases mailStep_mails stepped with
  | stays => exact List.Perm.refl _
  | searchFirst point | searchNext point =>
      rw [point]
      simp only [List.nil_append]
      split
      · exact List.Perm.refl _
      · exact List.Perm.refl _
  | turnFirst point => simp [point, RecvPoint.held]
  | turnNext point =>
      rw [point]
      simp only [List.nil_append]
      split
      · simp [RecvPoint.held]
      · simp [RecvPoint.held]
  | takeFirst point | takeNext point =>
      simp only [List.nil_append, proceed_held]
      simp [point, RecvPoint.held]
  | @store _ held point | @finish _ held point =>
      simpa [point, RecvPoint.held] using (List.perm_append_singleton held queue).symm

theorem turnQueue_cons {capacity : Nat} (queue : RingQueue Buffer capacity)
    {bufPtr : Buffer} {rest : List Buffer} (stored : queue.contents = (bufPtr :: rest).map some) :
    ∃ next, turnQueue queue = (0, next) ∧ next.contents = (rest ++ [bufPtr]).map some := by
  obtain ⟨shorter, removed, remaining⟩ := queue.hfQueueRemhead_cons stored
  have bounded := queue.contents_length_le
  rw [stored, List.length_map, List.length_cons] at bounded
  obtain ⟨next, added, contents⟩ := shorter.hfQueueAddtail_room (some bufPtr)
    (by rw [remaining, List.length_map]; omega)
  refine ⟨next, ?_, by rw [contents, remaining, List.map_append]; rfl⟩
  simp only [turnQueue, removed, added]

/-- A call on a queue that is ready for it does on the rings what it does on the lists. With room in
the pool the calls of `hf_queue_addtail` succeed. -/
theorem step_mailed {capacity : Nat} {call : RecvCall} {cells : List Buffer} {next : MailStep}
    (pool : RingQueue Buffer noc.nocPacketSlots) (queue : RingQueue Buffer capacity)
    (stored : queue.contents = cells.map some) (stepped : call.mailStep noc cells = some next) :
    ∃ turn, call.step noc pool queue = .ok turn ∧ turn.queue.contents = next.queue.map some ∧
      turn.call = next.call ∧
      ((call.point.held ≠ [] → pool.contents.length < noc.nocPacketSlots) →
        (∀ code ∈ turn.codes, code = 0) ∧
          turn.pktdrvQueue.contents = pool.contents ++ next.released.map some) := by
  have count : queue.hfQueueCount = cells.length := by
    rw [queue.hfQueueCount_eq, stored, List.length_map]
  have head : queue.hfQueueGet 0 = (cells.map some).getD 0 none := by
    rw [queue.hfQueueGet_eq, stored]
  -- Only a call that holds a packet puts it into the pool.
  have pooled : ∀ bufPtr : Buffer, call.point.held = [bufPtr] →
      (call.point.held ≠ [] → pool.contents.length < noc.nocPacketSlots) →
      (pool.hfQueueAddtail (some bufPtr)).1 = 0 ∧
        (pool.hfQueueAddtail (some bufPtr)).2.contents = pool.contents ++ [some bufPtr] := by
    intro bufPtr holds room
    obtain ⟨next, added, contents⟩ :=
      pool.hfQueueAddtail_room (some bufPtr) (room (by rw [holds]; simp))
    rw [added]
    exact ⟨rfl, contents⟩
  cases cells with
  | nil =>
      cases point : call.point <;> simp only [RecvCall.mailStep, point, Option.some.injEq,
        reduceCtorEq] at stepped
      case store bufPtr | finish bufPtr =>
        subst stepped
        have added := pooled bufPtr (by rw [point]; rfl)
        rw [point] at added
        simpa [RecvCall.step, point, stored] using added
      all_goals
        subst stepped
        simp [RecvCall.step, point, stored]
  | cons bufPtr rest =>
      obtain ⟨turned, isTurned, turnedContents⟩ := turnQueue_cons queue stored
      obtain ⟨shorter, removed, remaining⟩ := queue.hfQueueRemhead_cons stored
      cases point : call.point <;> simp only [RecvCall.mailStep, point, Option.some.injEq] at stepped
      case store held | finish held =>
        subst stepped
        have added := pooled held (by rw [point]; rfl)
        rw [point] at added
        simpa [RecvCall.step, point, stored] using added
      case searchFirst | searchNext =>
        subst stepped
        simp only [RecvCall.step, point, count, head, List.length_cons, Nat.add_eq_zero_iff,
          Nat.one_ne_zero, and_false, if_false]
        refine ⟨_, rfl, stored, ?_, fun _ => ⟨by simp, by simp⟩⟩
        simp only [List.map_cons, List.getD_cons_zero]
        split
        · rfl
        · rfl
      case returned =>
        subst stepped
        simp [RecvCall.step, point, stored]
      all_goals
        subst stepped
        simp [RecvCall.step, point, isTurned, turnedContents, removed, remaining]

theorem step_mailStep {capacity : Nat} {call : RecvCall} {cells : List Buffer} {next : MailStep}
    (pool : RingQueue Buffer noc.nocPacketSlots) (queue : RingQueue Buffer capacity)
    (stored : queue.contents = cells.map some)
    (room : call.point.held ≠ [] → pool.contents.length < noc.nocPacketSlots)
    (stepped : call.mailStep noc cells = some next) :
    ∃ turn, call.step noc pool queue = .ok turn ∧ (∀ code ∈ turn.codes, code = 0) ∧
      turn.pktdrvQueue.contents = pool.contents ++ next.released.map some ∧
      turn.queue.contents = next.queue.map some ∧ turn.call = next.call := by
  obtain ⟨turn, done, queued, called, given⟩ := step_mailed pool queue stored stepped
  exact ⟨turn, done, (given room).1, (given room).2, queued, called⟩

end RecvCall

end Hellfire

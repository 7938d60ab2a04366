import Hellfire.NocService

/-!
When a call of `hf_recv` returns one message of one sender: every packet that it takes with the
sequence number it waits for belongs to the message of the first one.
-/

namespace Hellfire

/-- The messages of each sender by their number. -/
abbrev SentTable := Nat → Nat → Option SendCall

def Packet.Genuine (noc : NocConfig) (table : SentTable) (packet : Packet) : Prop :=
  ∃ sent, table packet.origin.sender packet.origin.message = some sent ∧
    packet.origin.index < sent.pieces noc ∧ packet.flits = sent.piece noc packet.origin.index

namespace RecvCall

variable {noc : NocConfig} {table : SentTable} {call : RecvCall} {queue : List Buffer}
  {next : MailStep}

def number (call : RecvCall) : Option Nat := call.taken.head?.map Origin.message

def Failing (call : RecvCall) : Prop :=
  call.error ≠ errOk ∨ ∃ bufPtr ∈ call.point.held, bufPtr.flit pktSeq ≠ call.seq

def ReadsOne (noc : NocConfig) (table : SentTable) (call : RecvCall) : Prop :=
  ∃ sender message sent, table sender message = some sent ∧ call.Reads noc sent ∧
    call.taken ≠ [] ∧ ∀ origin ∈ call.taken, origin.sender = sender ∧ origin.message = message

def Sound (noc : NocConfig) (table : SentTable) (call : RecvCall) : Prop :=
  call.Begins ∨ call.Failing ∨ call.ReadsOne noc table

def KeepsTo (call : RecvCall) (queue : List Buffer) : Prop :=
  call.point = .takeNext → call.error = errOk → ∀ bufPtr ∈ queue.head?,
    bufPtr.flit pktSeq = call.seq → ∀ origin ∈ call.taken,
      bufPtr.packet.origin.sender = origin.sender ∧ bufPtr.packet.origin.message = origin.message

instance (call : RecvCall) (queue : List Buffer) : Decidable (call.KeepsTo queue) :=
  inferInstanceAs (Decidable (call.point = .takeNext → call.error = errOk →
    ∀ bufPtr ∈ queue.head?, bufPtr.flit pktSeq = call.seq → ∀ origin ∈ call.taken, _))

theorem checkSeq_error {bufPtr : Buffer}
    (failed : call.error ≠ errOk ∨ bufPtr.flit pktSeq ≠ call.seq) :
    (call.checkSeq bufPtr).error ≠ errOk := by
  unfold checkSeq
  simp only
  split
  · decide
  · rename_i same
    exact failed.resolve_right same

theorem Failing.mailStep (failing : call.Failing) (stepped : call.mailStep noc queue = some next) :
    next.call.Failing := by
  have whole : call.point.held = [] → call.error ≠ errOk := by
    intro held
    refine failing.resolve_right ?_
    simp [held]
  cases mailStep_mails stepped with
  | @store _ bufPtr point | @finish _ bufPtr point =>
      refine Or.inl (checkSeq_error (failing.imp_right ?_))
      rintro ⟨held, member, differs⟩
      obtain rfl : held = bufPtr := by simpa [point, RecvPoint.held] using member
      exact differs
  | stays resting => exact Or.inl (whole (resting_point resting).2)
  | searchFirst point | turnFirst point | takeFirst point | searchNext point | turnNext point
  | takeNext point => exact Or.inl (whole (by rw [point]; rfl))

theorem mailStep_taken (stepped : call.mailStep noc queue = some next)
    (first : call.point ≠ .takeFirst) (later : call.point ≠ .takeNext) :
    next.call.taken = call.taken := by
  cases mailStep_mails stepped with
  | takeFirst point => exact absurd point first
  | takeNext point => exact absurd point later
  | stays | searchFirst | turnFirst | store | searchNext | turnNext | finish => rfl

theorem genuine_seq {bufPtr : Buffer} {sent : SendCall} {k : Nat}
    (index : bufPtr.packet.origin.index < sent.pieces noc)
    (flits : bufPtr.packet.flits = sent.piece noc bufPtr.packet.origin.index)
    (seq : (bufPtr.flit pktSeq).toNat = k + 1) : bufPtr.packet.flits = sent.piece noc k := by
  have counted := SendCall.piece_seq_toNat flits index
  have place : bufPtr.packet.origin.index = k := by omega
  rwa [place] at flits

theorem Begins.sound (begins : call.Begins) (genuine : ∀ bufPtr ∈ queue, bufPtr.packet.Genuine noc table)
    (aimed : call.Aimed queue) (stepped : call.mailStep noc queue = some next) :
    next.call.Sound noc table := by
  by_cases taking : call.point = .takeFirst
  · obtain ⟨bufPtr, rest, rfl, awaited⟩ := aimed taking
    obtain ⟨sent, there, index, flits⟩ := genuine bufPtr List.mem_cons_self
    have fresh : call.seq = 0 ∧ call.taken = [] := by
      have whole := begins.2
      exact ⟨by rw [whole]; rfl, by rw [whole]; rfl⟩
    simp only [awaits, fresh.1, Bool.and_eq_true, decide_eq_true_eq] at awaited
    have first : bufPtr.packet.flits = sent.piece noc 0 := genuine_seq index flits awaited.2
    refine Or.inr (Or.inr ⟨bufPtr.packet.origin.sender, bufPtr.packet.origin.message, sent, there,
      begins.take taking first stepped, ?_⟩)
    simp only [RecvCall.mailStep, taking, Option.some.injEq] at stepped
    rw [← stepped]
    simp [proceed, fresh.2]
  · exact Or.inl (begins.mailStep taking stepped)

theorem ReadsOne.sound (reads : call.ReadsOne noc table)
    (genuine : ∀ bufPtr ∈ queue, bufPtr.packet.Genuine noc table) (keeps : call.KeepsTo queue)
    (stepped : call.mailStep noc queue = some next) : next.call.Sound noc table := by
  obtain ⟨sender, message, sent, there, reads, started, same⟩ := reads
  by_cases taking : call.point = .takeNext
  · have stored := reads
    unfold Reads at stored
    rw [taking] at stored
    obtain ⟨more, stored⟩ := stored
    cases queue with
    | nil => simp [RecvCall.mailStep, taking] at stepped
    | cons bufPtr rest =>
        have isNext := stepped
        simp only [RecvCall.mailStep, taking, Option.some.injEq] at isNext
        by_cases awaited : bufPtr.flit pktSeq = call.seq
        · obtain ⟨origin, member⟩ := List.exists_mem_of_ne_nil _ started
          obtain ⟨sameSender, sameMessage⟩ := keeps taking stored.error bufPtr rfl awaited origin member
          rw [(same origin member).1] at sameSender
          rw [(same origin member).2] at sameMessage
          obtain ⟨sent', there', index, flits⟩ := genuine bufPtr List.mem_cons_self
          rw [sameSender, sameMessage, there, Option.some.injEq] at there'
          subst there'
          have seq : (bufPtr.flit pktSeq).toNat = call.packet + 1 := by
            have bound := noc.packetsOf_le sent.size
            rw [awaited, stored.seq, UInt16.toNat_ofNat_of_lt' (by unfold UInt16.size; omega)]
          have carried := genuine_seq index flits seq
          refine Or.inr (Or.inr ⟨sender, message, sent, there, reads.mailStep (fun _ head isHead => ?_)
            stepped, ?_⟩)
          · obtain rfl : bufPtr = head := by simpa using isHead
            exact carried
          · rw [← isNext]
            refine ⟨by simp [proceed], fun origin member => ?_⟩
            rcases List.mem_append.mp member with before | now
            · exact same origin before
            · obtain rfl := List.mem_singleton.mp now
              exact ⟨sameSender, sameMessage⟩
        · refine Or.inr (Or.inl (Or.inr ⟨bufPtr, ?_, ?_⟩))
          · rw [← isNext, proceed_held]
            exact List.mem_singleton_self _
          · rw [← isNext]
            exact awaited
  · have first : call.point ≠ .takeFirst := by
      intro point
      unfold Reads at reads
      rw [point] at reads
      exact reads
    refine Or.inr (Or.inr ⟨sender, message, sent, there, reads.mailStep (fun now => absurd now taking)
      stepped, ?_⟩)
    rw [mailStep_taken stepped first taking]
    exact ⟨started, same⟩

theorem Sound.mailStep (sound : call.Sound noc table)
    (genuine : ∀ bufPtr ∈ queue, bufPtr.packet.Genuine noc table) (aimed : call.Aimed queue)
    (keeps : call.KeepsTo queue) (stepped : call.mailStep noc queue = some next) :
    next.call.Sound noc table := by
  rcases sound with begins | failing | reads
  · exact begins.sound genuine aimed stepped
  · exact Or.inr (Or.inl (failing.mailStep stepped))
  · exact reads.sound genuine keeps stepped

theorem Sound.received (sound : call.Sound noc table) (returned : call.point = .returned)
    (error : call.error = errOk) : ∃ sender message sent, table sender message = some sent ∧
      call.Holds sent ∧ call.taken ≠ [] ∧
      ∀ origin ∈ call.taken, origin.sender = sender ∧ origin.message = message := by
  rcases sound with begins | failing | ⟨sender, message, sent, there, reads, some, same⟩
  · rcases begins.1 with point | point | point
    · simp [returned] at point
    · simp [returned] at point
    · simp [returned] at point
  · rcases failing with failed | ⟨bufPtr, member, _⟩
    · exact absurd error failed
    · simp [returned, RecvPoint.held] at member
  · unfold Reads at reads
    rw [returned] at reads
    exact ⟨sender, message, sent, there, reads, some, same⟩

theorem mailStep_subset (stepped : call.mailStep noc queue = some next) : next.queue ⊆ queue := by
  intro bufPtr member
  cases mailStep_mails stepped with
  | turnFirst | turnNext =>
      rcases List.mem_append.mp member with inside | first
      · exact List.mem_cons_of_mem _ inside
      · rw [List.mem_singleton.mp first]
        exact List.mem_cons_self
  | takeFirst | takeNext => exact List.mem_cons_of_mem _ member
  | stays | searchFirst | store | searchNext | finish => exact member

end RecvCall

theorem Packet.Genuine.mono {noc : NocConfig} {table table' : SentTable} {packet : Packet}
    (genuine : packet.Genuine noc table)
    (more : ∀ sender message sent, table sender message = some sent →
      table' sender message = some sent) : packet.Genuine noc table' := by
  obtain ⟨sent, there, index, flits⟩ := genuine
  exact ⟨sent, more _ _ _ there, index, flits⟩

theorem RecvCall.Sound.mono {noc : NocConfig} {table table' : SentTable} {call : RecvCall}
    (sound : call.Sound noc table)
    (more : ∀ sender message sent, table sender message = some sent →
      table' sender message = some sent) : call.Sound noc table' := by
  refine sound.imp_right (Or.imp_right ?_)
  rintro ⟨sender, message, sent, there, reads⟩
  exact ⟨sender, message, sent, more _ _ _ there, reads⟩

namespace Noc

variable {noc : NocConfig} {table : SentTable} {core next : Noc noc}

structure Tracked (table : SentTable) (core : Noc noc) : Prop where
  serving : Serving core
  queued : ∀ task, ∀ bufPtr ∈ core.mail task, bufPtr.packet.Genuine noc table
  running : ∀ bufPtr, core.isr = some bufPtr → bufPtr.packet.Genuine noc table
  sound : ∀ task call, core.receiving task = some call → call.Sound noc table

def keepsMessages : NocOp → Noc noc → Prop
  | .advance task _, core => ∀ call ∈ core.receiving task, call.KeepsTo (core.mail task)
  | _, _ => True

theorem Tracked.mono {table' : SentTable} (tracked : Tracked table core)
    (more : ∀ sender message sent, table sender message = some sent →
      table' sender message = some sent) : Tracked table' core :=
  ⟨tracked.serving, fun task bufPtr member => (tracked.queued task bufPtr member).mono more,
    fun bufPtr running => (tracked.running bufPtr running).mono more,
    fun task call receives => (tracked.sound task call receives).mono more⟩

theorem Tracked.niInit (kernel : Kernel noc.toConfig) : Tracked table (niInit kernel : Noc noc) := by
  refine ⟨.niInit kernel, fun task bufPtr member => ?_, fun bufPtr running => ?_,
    fun task call receives => ?_⟩
  · simp [mail, cellsAt, Noc.niInit] at member
  · simp [Noc.niInit] at running
  · simp [receiving, Noc.niInit] at receives

theorem Tracked.turn {op : NocOp} {codes : List Int} (tracked : Tracked table core)
    (served : serves op core) (carried : ∀ packet, op = .arrive packet → packet.Genuine noc table)
    (keeps : keepsMessages op core) (done : core.turn op = .ok (codes, next)) :
    Tracked table next := by
  obtain ⟨codes', next', done', serving'⟩ := tracked.serving.turn served
  rw [done] at done'
  cases done'
  have seen := tracked.serving.seen served done
  refine ⟨serving', fun task bufPtr member => ?_, fun bufPtr running => ?_,
    fun task call receives => ?_⟩
  · cases seen task with
    | same receiving mail | started receiving mail | ended receiving mail =>
        rw [mail] at member
        exact tracked.queued task bufPtr member
    | put running port receiving mail =>
        rw [mail] at member
        rcases List.mem_append.mp member with before | now
        · exact tracked.queued task bufPtr before
        · rw [List.mem_singleton.mp now]
          exact tracked.running _ running
    | stepped before stepped receiving mail =>
        rw [mail] at member
        exact tracked.queued task bufPtr (RecvCall.mailStep_subset stepped member)
  · rcases tracked.serving.seen_isr served done running with before | arrived
    · exact tracked.running bufPtr before.1
    · exact carried _ arrived
  · cases seen task with
    | same receiving mail | put running port receiving mail =>
        exact tracked.sound task call (receiving.symm.trans receives)
    | started receiving mail =>
        rw [receiving, Option.some.injEq] at receives
        rw [← receives]
        exact Or.inl (RecvCall.start_begins _)
    | ended receiving mail =>
        rw [receiving] at receives
        cases receives
    | stepped before stepped receiving mail =>
        rw [receiving, Option.some.injEq] at receives
        rw [← receives]
        exact (tracked.sound task _ before).mailStep (tracked.queued task)
          (tracked.serving.aimed task _ before) (keeps _ before) stepped

end Noc

end Hellfire

import Hellfire.NocAckCore

/-!
When `hf_sendack` tells the truth: the target task has received the message with `hf_recvack`
since the call started.
-/

namespace Hellfire

open Machine

namespace Noc

variable {noc : NocConfig} {core next : Noc noc}

theorem Serving.ports_turn {op : NocOp} {codes : List Int} (serving : Serving core)
    (served : serves op core) (settled : ∀ task, (core.calls task).concerns = none)
    (notCreate : ∀ task id port packets, op ≠ .create task id port packets)
    (done : core.turn op = .ok (codes, next)) :
    next.pktdrvPorts = core.pktdrvPorts ∧ ∀ task, (next.calls task).concerns = none := by
  have setCall_settled : ∀ (state : Noc noc) task call, state.calls = core.calls →
      call.concerns = none → ∀ other, ((state.setCall task call).calls other).concerns = none := by
    intro state task call same free other
    by_cases here : other = task
    · rw [here, setCall_same]
      exact free
    · rw [setCall_other _ _ here, same]
      exact settled other
  cases op with
  | arrive packet =>
      simp only [Noc.turn, Except.ok.injEq, Prod.mk.injEq] at done
      obtain ⟨addresses, kept⟩ := serving.kept
      obtain ⟨buffers, stored⟩ := kept.disjoint.pool kept.listed
      rw [← done.2]
      obtain ⟨_, same⟩ | ⟨bufPtr, rest, pool, _, _, fetched⟩ := niFetch_cases packet stored
      · rw [same]
        exact ⟨rfl, settled⟩
      · rw [fetched]
        exact ⟨rfl, settled⟩
  | deliver =>
      obtain ⟨bufPtr, running⟩ := Option.ne_none_iff_exists'.mp served
      simp only [Noc.turn, running] at done
      obtain ⟨addresses, kept⟩ := serving.kept
      have delivered := niDeliver_delivered bufPtr (kept.disjoint.room kept.listed 0 (Or.inl served))
      rw [done] at delivered
      cases delivered with
      | dropped refused returned => exact ⟨rfl, settled⟩
      | queued slot bound live whole there space contents => exact ⟨rfl, settled⟩
  | recv task channel =>
      simp only [Noc.turn, Except.ok.injEq, Prod.mk.injEq] at done
      rw [← done.2, hfRecv]
      split
      · exact ⟨rfl, setCall_settled core task _ rfl rfl⟩
      · exact ⟨rfl, setCall_settled core task _ rfl rfl⟩
  | create task id port packets => exact absurd rfl (notCreate task id port packets)
  | destroy task id => exact served.elim
  | advance task address =>
      have free := settled task
      have advanced := advance_cases done
      cases advanced with
      | idle call | returned call => exact ⟨rfl, settled⟩
      | recv isRecv there turned => exact ⟨rfl, setCall_settled _ task _ rfl rfl⟩
      | noMemory call null | createQueue call present | createPort call | drain call there drained
      | keep call there filled | test call there empty | free call there | clearPort call =>
          simp [call, CommCall.concerns] at free
  | kernel op => exact served.elim

/-- A packet of the message is on the core: with the interrupt, in a queue, or taken by a call of
`hf_recv` that has not returned. -/
def Carries (core : Noc noc) (number : Nat) : Prop :=
  (∃ bufPtr, core.isr = some bufPtr ∧ bufPtr.packet.origin.message = number) ∨
    (∃ task, ∃ bufPtr ∈ core.mail task, bufPtr.packet.origin.message = number) ∨
    ∃ task call, core.receiving task = some call ∧ call.point ≠ .returned ∧
      ∃ origin ∈ call.taken, origin.message = number

theorem Serving.mail_turn {op : NocOp} {codes : List Int} {task : Nat} {bufPtr : Buffer}
    (serving : Serving core) (served : serves op core) (done : core.turn op = .ok (codes, next))
    (member : bufPtr ∈ next.mail task) : bufPtr ∈ core.mail task ∨
      core.isr = some bufPtr ∧ core.pktdrvPorts task = bufPtr.flit pktTargetPort := by
  cases serving.seen served done task with
  | same receiving mail | started receiving mail | ended receiving mail => exact Or.inl (mail ▸ member)
  | put running port receiving mail =>
      rw [mail] at member
      rcases List.mem_append.mp member with before | now
      · exact Or.inl before
      · rw [List.mem_singleton.mp now]
        exact Or.inr ⟨running, port⟩
  | stepped before stepped receiving mail =>
      rw [mail] at member
      exact Or.inl (RecvCall.mailStep_subset stepped member)

theorem Serving.taken_turn {op : NocOp} {codes : List Int} {task : Nat} {call : RecvCall} {origin : Origin}
    (serving : Serving core) (served : serves op core) (done : core.turn op = .ok (codes, next))
    (receives : next.receiving task = some call) (member : origin ∈ call.taken) :
    (∃ before, core.receiving task = some before ∧ origin ∈ before.taken ∧
      (before.point = .returned → call.point = .returned)) ∨
      ∃ bufPtr ∈ core.mail task, bufPtr.packet.origin = origin := by
  cases serving.seen served done task with
  | same receiving mail | put running port receiving mail =>
      exact Or.inl ⟨call, receiving.symm.trans receives, member, id⟩
  | started receiving mail =>
      rw [receiving, Option.some.injEq] at receives
      rw [← receives] at member
      simp [RecvCall.start] at member
  | ended receiving mail =>
      rw [receiving] at receives
      cases receives
  | @stepped _ prior step before stepped receiving mail =>
      rw [receiving, Option.some.injEq] at receives
      rw [← receives] at member ⊢
      have ended : prior.point = .returned → step.call.point = .returned := by
        intro finished
        simp only [RecvCall.mailStep, finished, Option.some.injEq] at stepped
        rw [← stepped]
        exact finished
      obtain ⟨_, ⟨taken, _⟩ | ⟨bufPtr, rest, isMail, _, _, taken, _⟩⟩ := RecvCall.mailStep_cases stepped
      · exact Or.inl ⟨prior, before, taken ▸ member, ended⟩
      · rw [taken] at member
        rcases List.mem_append.mp member with old | now
        · exact Or.inl ⟨prior, before, old, ended⟩
        · exact Or.inr ⟨bufPtr, by rw [isMail]; exact List.mem_cons_self, (List.mem_singleton.mp now).symm⟩

theorem Serving.carries_turn {op : NocOp} {codes : List Int} {number : Nat} (serving : Serving core)
    (served : serves op core) (done : core.turn op = .ok (codes, next)) (carries : next.Carries number) :
    core.Carries number ∨ ∃ packet, op = .arrive packet ∧ packet.origin.message = number := by
  rcases carries with ⟨bufPtr, running, same⟩ | ⟨task, bufPtr, member, same⟩ |
    ⟨task, call, receives, unfinished, origin, member, same⟩
  · rcases serving.seen_isr served done running with ⟨before, _⟩ | arrived
    · exact Or.inl (Or.inl ⟨bufPtr, before, same⟩)
    · exact Or.inr ⟨bufPtr.packet, arrived, same⟩
  · rcases serving.mail_turn served done member with before | ⟨running, _⟩
    · exact Or.inl (Or.inr (Or.inl ⟨task, bufPtr, before, same⟩))
    · exact Or.inl (Or.inl ⟨bufPtr, running, same⟩)
  · rcases serving.taken_turn served done receives member with ⟨before, was, inside, finished⟩ |
      ⟨bufPtr, inside, rfl⟩
    · exact Or.inl (Or.inr (Or.inr ⟨task, before, was, mt finished unfinished, origin, inside, same⟩))
    · exact Or.inl (Or.inr (Or.inl ⟨task, bufPtr, inside, same⟩))

theorem Serving.channel_turn {op : NocOp} {codes : List Int} {task : Nat} {call : RecvCall}
    (serving : Serving core) (served : serves op core) (done : core.turn op = .ok (codes, next))
    (notStarted : ∀ channel, op ≠ .recv task channel) (receives : next.receiving task = some call) :
    ∃ before, core.receiving task = some before ∧ before.channel = call.channel := by
  cases serving.seen served done task with
  | same receiving mail | put running port receiving mail =>
      exact ⟨call, receiving.symm.trans receives, rfl⟩
  | started receiving mail => exact absurd rfl (notStarted _)
  | ended receiving mail =>
      rw [receiving] at receives
      cases receives
  | stepped before stepped receiving mail =>
      rw [receiving, Option.some.injEq] at receives
      rw [← receives]
      exact ⟨_, before, (RecvCall.mailStep_cases stepped).1.symm⟩

theorem hfRecv_channel {task : Nat} {channel : UInt16} {call : RecvCall}
    (receives : (core.hfRecv task channel).receiving task = some call) : call.channel = channel := by
  unfold hfRecv at receives
  split at receives
  · simp [receiving] at receives
  · simp only [receiving, setCall_same, Option.some.injEq] at receives
    rw [← receives]
    rfl

end Noc

theorem RecvCall.mailStep_returned {noc : NocConfig} {call : RecvCall} {queue : List Buffer}
    {next : MailStep} (stepped : call.mailStep noc queue = some next)
    (returned : next.call.point = .returned) (before : call.point ≠ .returned) :
    next.call.taken = call.taken := by
  cases RecvCall.mailStep_mails stepped with
  | stays => exact absurd returned before
  | finish point => rfl
  | takeFirst | takeNext =>
      simp only [proceed] at returned
      split at returned <;> cases returned
  | searchFirst | searchNext | turnNext =>
      simp only at returned
      split at returned <;> cases returned
  | turnFirst | store => cases returned

namespace AckNet

variable {noc : NocConfig} {sent sent' : List SentMessage} {receptions receptions' : List Reception}

def table (sent : List SentMessage) : SentTable := fun _ message =>
  sent[message]?.map SentMessage.call

def Sent (sent : List SentMessage) (cpu : UInt16) (origin : Origin) : Prop :=
  ∃ message, sent[origin.message]? = some message ∧ message.call.targetCpu = cpu

def Addressed (sent : List SentMessage) (port : UInt16) (origin : Origin) : Prop :=
  ∃ message, sent[origin.message]? = some message ∧ message.call.targetPort = port

def Headed (sent : List SentMessage) (call : RecvCall) : Prop :=
  call.Begins ∨ ∃ number message, call.number = some number ∧ sent[number]? = some message ∧
    message.call.channel = call.channel

/-- A call of `hf_recvack` returned a message to its task, as it was sent. -/
def Reception.Genuine (sent : List SentMessage) (reception : Reception) : Prop :=
  ∃ number message, reception.received.number = some number ∧ sent[number]? = some message ∧
    message.call.targetCpu = reception.cpu ∧ message.call.targetPort = reception.port ∧
    reception.received.Holds message.call

structure CoreOk (sent : List SentMessage) (cpu : UInt16) (core : Noc noc) : Prop where
  tracked : core.Tracked (table sent)
  settled : ∀ task, (core.calls task).concerns = none
  running : ∀ bufPtr, core.isr = some bufPtr → Sent sent cpu bufPtr.packet.origin
  queued : ∀ task, ∀ bufPtr ∈ core.mail task, Sent sent cpu bufPtr.packet.origin ∧
    Addressed sent (core.pktdrvPorts task) bufPtr.packet.origin
  taken : ∀ task call, core.receiving task = some call → ∀ origin ∈ call.taken,
    Sent sent cpu origin ∧ Addressed sent (core.pktdrvPorts task) origin
  headed : ∀ task call, core.receiving task = some call → Headed sent call

theorem found_longer {α : Type} {l l' : List α} {i : Nat} {x : α} (more : l <+: l')
    (there : l[i]? = some x) : l'[i]? = some x := by
  obtain ⟨rest, rfl⟩ := more
  rw [List.getElem?_append_left (List.getElem?_eq_some_iff.mp there).1, there]

theorem Sent.mono {cpu : UInt16} {origin : Origin} (was : Sent sent cpu origin)
    (more : sent <+: sent') : Sent sent' cpu origin := by
  obtain ⟨message, there, target⟩ := was
  exact ⟨message, found_longer more there, target⟩

theorem Addressed.mono {port : UInt16} {origin : Origin} (was : Addressed sent port origin)
    (more : sent <+: sent') : Addressed sent' port origin := by
  obtain ⟨message, there, target⟩ := was
  exact ⟨message, found_longer more there, target⟩

theorem Headed.mono {call : RecvCall} (headed : Headed sent call) (more : sent <+: sent') :
    Headed sent' call := by
  refine headed.imp_right ?_
  rintro ⟨number, message, isNumber, there, channel⟩
  exact ⟨number, message, isNumber, found_longer more there, channel⟩

theorem Headed.mailStep {call : RecvCall} {queue : List Buffer} {next : MailStep}
    (headed : Headed sent call)
    (genuine : ∀ bufPtr ∈ queue, bufPtr.packet.Genuine noc (table sent)) (aimed : call.Aimed queue)
    (stepped : call.mailStep noc queue = some next) : Headed sent next.call := by
  rcases headed with begins | ⟨number, message, isNumber, there, channel⟩
  · by_cases taking : call.point = .takeFirst
    · obtain ⟨bufPtr, rest, rfl, awaited⟩ := aimed taking
      obtain ⟨sentCall, isSent, _, flits⟩ := genuine bufPtr List.mem_cons_self
      obtain ⟨message, there, rfl⟩ := Option.map_eq_some_iff.mp isSent
      have none : call.taken = [] := by
        rw [begins.2]
        rfl
      simp only [RecvCall.awaits, Bool.and_eq_true, decide_eq_true_eq] at awaited
      simp only [RecvCall.mailStep, taking, Option.some.injEq] at stepped
      rw [← stepped]
      refine Or.inr ⟨bufPtr.packet.origin.message, message, ?_, there, ?_⟩
      · simp [RecvCall.number, RecvCall.proceed, none]
      · exact (SendCall.piece_channel flits).symm.trans awaited.1
    · exact Or.inl (begins.mailStep taking stepped)
  · obtain ⟨first, rest, isTaken⟩ : ∃ first rest, call.taken = first :: rest := by
      cases isTaken : call.taken with
      | nil => simp [RecvCall.number, isTaken] at isNumber
      | cons first rest => exact ⟨first, rest, rfl⟩
    obtain ⟨same, ⟨taken, _⟩ | ⟨bufPtr, left, _, _, _, taken, _⟩⟩ := RecvCall.mailStep_cases stepped
    · refine Or.inr ⟨number, message, ?_, there, channel.trans same.symm⟩
      rw [← isNumber, RecvCall.number, taken, RecvCall.number]
    · refine Or.inr ⟨number, message, ?_, there, channel.trans same.symm⟩
      rw [← isNumber, RecvCall.number, taken, RecvCall.number, isTaken]
      rfl

theorem table_mono (more : sent <+: sent') (sender message : Nat) (call : SendCall)
    (there : table sent sender message = some call) : table sent' sender message = some call := by
  obtain ⟨found, isFound, rfl⟩ := Option.map_eq_some_iff.mp there
  simp only [table, found_longer more isFound, Option.map_some]

theorem CoreOk.mono {cpu : UInt16} {core : Noc noc} (ok : CoreOk sent cpu core)
    (more : sent <+: sent') : CoreOk sent' cpu core := by
  constructor
  · exact ok.tracked.mono (table_mono more)
  · exact ok.settled
  · intro bufPtr running
    exact (ok.running bufPtr running).mono more
  · intro task bufPtr member
    exact ⟨(ok.queued task bufPtr member).1.mono more, (ok.queued task bufPtr member).2.mono more⟩
  · intro task call receives origin member
    have was := ok.taken task call receives origin member
    exact ⟨was.1.mono more, was.2.mono more⟩
  · intro task call receives
    exact (ok.headed task call receives).mono more

theorem CoreOk.turn {cpu : UInt16} {core next : Noc noc} {op : NocOp} {codes : List Int}
    (ok : CoreOk sent cpu core) (served : Noc.serves op core)
    (notCreate : ∀ task id port packets, op ≠ .create task id port packets)
    (arrives : ∀ packet, op = .arrive packet → packet.Genuine noc (table sent) ∧
      Sent sent cpu packet.origin)
    (keeps : Noc.keepsMessages op core) (done : core.turn op = .ok (codes, next)) :
    CoreOk sent cpu next ∧ next.pktdrvPorts = core.pktdrvPorts := by
  have serving := ok.tracked.serving
  obtain ⟨ports, settled⟩ := serving.ports_turn served ok.settled notCreate done
  refine ⟨⟨ok.tracked.turn served (fun packet same => (arrives packet same).1) keeps done, settled,
    fun bufPtr running => ?_, fun task bufPtr member => ?_, fun task call receives => ?_,
    fun task call receives => ?_⟩, ports⟩
  · rcases serving.seen_isr served done running with ⟨before, _⟩ | arrived
    · exact ok.running bufPtr before
    · exact (arrives _ arrived).2
  · rw [ports]
    rcases serving.mail_turn served done member with before | ⟨running, port⟩
    · exact ok.queued task bufPtr before
    · obtain ⟨call, there, _, flits⟩ := ok.tracked.running _ running
      obtain ⟨message, isMessage, rfl⟩ := Option.map_eq_some_iff.mp there
      refine ⟨ok.running _ running, message, isMessage, ?_⟩
      rw [port, SendCall.piece_targetPort flits]
  · rw [ports]
    intro origin member
    rcases serving.taken_turn served done receives member with ⟨before, was, inside, _⟩ |
      ⟨bufPtr, inside, rfl⟩
    · exact ok.taken task before was origin inside
    · exact ok.queued task bufPtr inside
  · cases serving.seen served done task with
    | same receiving mail | put running port receiving mail =>
        exact ok.headed task call (receiving.symm.trans receives)
    | started receiving mail =>
        rw [receiving, Option.some.injEq] at receives
        rw [← receives]
        exact Or.inl (RecvCall.start_begins _)
    | ended receiving mail =>
        rw [receiving] at receives
        cases receives
    | stepped before stepped receiving mail =>
        rw [receiving, Option.some.injEq] at receives
        rw [← receives]
        exact (ok.headed task _ before).mailStep (ok.tracked.queued task)
          (serving.aimed task _ before) stepped

end AckNet

def AckPhase.sends : AckPhase → Option Nat
  | .sending _ number _ _ | .waiting _ number _ | .acknowledged _ number _ => some number
  | _ => none

def AckPhase.underWay : AckPhase → Option Nat
  | .answering _ _ number (_ :: _) => some number
  | phase => phase.sends

theorem AckPhase.answers_of_starts {phase : AckPhase} (idle : phase.starts = true) :
    phase.answers = false := by
  cases phase with
  | answering received target number packets => cases idle
  | _ => rfl

theorem AckPhase.underWay_of_sends {phase : AckPhase} {number : Nat}
    (sends : phase.sends = some number) : phase.underWay = some number := by
  cases phase with
  | answering received target place packets => cases sends
  | _ => exact sends

namespace AckNet

variable {noc : NocConfig} {sent sent' : List SentMessage} {receptions receptions' : List Reception}

structure Pending (sent : List SentMessage) (receptions : List Reception) (cpu port : UInt16)
    (call : SendCall) (number mark : Nat) : Prop where
  message : sent[number]? = some ⟨call, none⟩
  sourceCpu : call.sourceCpu = cpu
  sourcePort : call.sourcePort = port
  counted : mark ≤ receptions.length
  fresh : ∀ place reception, place < mark → receptions[place]? = some reception →
    reception.received.number ≠ some number

def Ready (noc : NocConfig) (sent : List SentMessage) (target : UInt16) (number : Nat)
    (packets : List Packet) : Prop :=
  ∀ packet ∈ packets, packet.Genuine noc (table sent) ∧ Sent sent target packet.origin ∧
    packet.origin.message = number

def PhaseOk (noc : NocConfig) (sent : List SentMessage) (receptions : List Reception)
    (cpu port : UInt16) : AckPhase → Prop
  | .sending call number mark packets => Pending sent receptions cpu port call number mark ∧
      Ready noc sent call.targetCpu number packets
  | .waiting call number mark | .acknowledged call number mark =>
      Pending sent receptions cpu port call number mark
  | .answering received target number packets =>
      (∀ completed, Reception.Genuine sent ⟨cpu, port, received, completed⟩) ∧
      (∃ ack, sent[number]? = some ⟨ack, received.number⟩) ∧ Ready noc sent target number packets
  | .idle | .receiving | .returned _ => True

def Matched (receives : Option RecvCall) : AckPhase → Prop
  | .receiving => ∀ call ∈ receives, call.channel ≠ ackChannel
  | .acknowledged _ _ _ => ∀ call ∈ receives, call.channel = ackChannel
  | _ => True

/-- After the call of `hf_sendack` started and before it returned, a call of `hf_recvack` of the
target task received the message without an error: its `hf_recv` returned, or the call itself. -/
def Acknowledged.Heard (receptions : List Reception) (entry : Acknowledged) (completed : Bool) : Prop :=
  ∃ place reception, entry.mark ≤ place ∧ place < entry.upto ∧
    receptions[place]? = some reception ∧ reception.completed = completed ∧
    reception.cpu = entry.call.targetCpu ∧ reception.port = entry.call.targetPort ∧
    reception.received.Holds entry.call

/-- After the call of `hf_sendack` started and before it returned, the target task completed a call
of `hf_recvack` that returned the message without an error. -/
def Acknowledged.Truthful (receptions : List Reception) (entry : Acknowledged) : Prop :=
  Acknowledged.Heard receptions entry true

/-- The message was sent to acknowledge another one, which its target had sent. A task received
the other one and has returned from `hf_recvack`, or is still in its `hf_send`. -/
structure Answers (net : AckNet noc) (message : SentMessage) (number : Nat) : Prop where
  channel : message.call.channel = ackChannel
  subject : ∃ heard, net.sent[number]? = some heard ∧
    message.call.targetCpu = heard.call.sourceCpu ∧ message.call.targetPort = heard.call.sourcePort
  heard : ∃ reception ∈ net.receptions, reception.completed = false ∧
    reception.received.number = some number
  completed : (∃ reception ∈ net.receptions, reception.completed = true ∧
      reception.received.number = some number) ∨
    ∃ cpu task received target place packets,
      net.phases cpu task = .answering received target place packets ∧ received.number = some number

structure MessageOk (net : AckNet noc) (message : SentMessage) : Prop where
  plain : message.answers = none → message.call.channel ≠ ackChannel
  answer : ∀ number, message.answers = some number → Answers net message number

structure NetOk (net : AckNet noc) : Prop where
  cores : ∀ cpu, CoreOk net.sent cpu (net.cores cpu)
  flying : ∀ entry ∈ net.flying, entry.2.Genuine noc (table net.sent) ∧
    Sent net.sent entry.1 entry.2.origin
  phases : ∀ cpu task, PhaseOk noc net.sent net.receptions cpu ((net.cores cpu).pktdrvPorts task)
    (net.phases cpu task)
  matched : ∀ cpu task, Matched ((net.cores cpu).receiving task) (net.phases cpu task)
  sent : ∀ (number : Nat) message, net.sent[number]? = some message → MessageOk net message
  bounded : ∀ cpu task, noc.maxTasks ≤ task → net.phases cpu task = .idle
  receptions : ∀ reception ∈ net.receptions, Reception.Genuine net.sent reception
  log : ∀ entry ∈ net.log, Acknowledged.Heard net.receptions entry false ∧
    (entry.pausing = false → Acknowledged.Truthful net.receptions entry)

theorem Pending.mono {cpu port : UInt16} {call : SendCall} {number mark : Nat}
    (pending : Pending sent receptions cpu port call number mark) (more : sent <+: sent')
    (later : receptions <+: receptions') : Pending sent' receptions' cpu port call number mark := by
  refine ⟨found_longer more pending.message, pending.sourceCpu, pending.sourcePort,
    pending.counted.trans later.length_le,
    fun place reception before there => pending.fresh place reception before ?_⟩
  obtain ⟨rest, rfl⟩ := later
  have bound := pending.counted
  rwa [List.getElem?_append_left (by omega)] at there

theorem Ready.mono {target : UInt16} {number : Nat} {packets : List Packet}
    (ready : Ready noc sent target number packets) (more : sent <+: sent') :
    Ready noc sent' target number packets := by
  intro packet member
  obtain ⟨genuine, isSent, same⟩ := ready packet member
  exact ⟨genuine.mono (table_mono more), isSent.mono more, same⟩

theorem Reception.Genuine.mono {reception : Reception} (genuine : Reception.Genuine sent reception)
    (more : sent <+: sent') : Reception.Genuine sent' reception := by
  obtain ⟨number, message, isNumber, there, rest⟩ := genuine
  exact ⟨number, message, isNumber, found_longer more there, rest⟩

theorem PhaseOk.mono {cpu port : UInt16} {phase : AckPhase}
    (ok : PhaseOk noc sent receptions cpu port phase) (more : sent <+: sent')
    (later : receptions <+: receptions') : PhaseOk noc sent' receptions' cpu port phase := by
  cases phase with
  | sending call number mark packets => exact ⟨ok.1.mono more later, ok.2.mono more⟩
  | waiting call number mark | acknowledged call number mark => exact Pending.mono ok more later
  | answering received target number packets =>
      obtain ⟨genuine, ⟨ack, isAck⟩, ready⟩ := ok
      exact ⟨fun completed => (genuine completed).mono more, ⟨ack, found_longer more isAck⟩,
        ready.mono more⟩
  | idle | receiving | returned code => trivial

theorem Acknowledged.Heard.mono {entry : Acknowledged} {completed : Bool}
    (heard : Acknowledged.Heard receptions entry completed) (later : receptions <+: receptions') :
    Acknowledged.Heard receptions' entry completed := by
  obtain ⟨place, reception, after, before, there, rest⟩ := heard
  exact ⟨place, reception, after, before, found_longer later there, rest⟩

structure Grows (net net' : AckNet noc) : Prop where
  sent : net.sent <+: net'.sent
  receptions : net.receptions <+: net'.receptions
  answering : ∀ cpu task received target place packets,
    net.phases cpu task = .answering received target place packets →
      (∃ packets', net'.phases cpu task = .answering received target place packets') ∨
      ∃ reception ∈ net'.receptions, reception.completed = true ∧ reception.received = received

theorem MessageOk.mono {net net' : AckNet noc} {message : SentMessage} (ok : MessageOk net message)
    (grows : Grows net net') : MessageOk net' message := by
  refine ⟨ok.plain, fun number answers => ?_⟩
  obtain ⟨channel, ⟨heard, there, target⟩, ⟨reception, member, received⟩, completed⟩ :=
    ok.answer number answers
  refine ⟨channel, ⟨heard, found_longer grows.sent there, target⟩,
    ⟨reception, grows.receptions.subset member, received⟩, ?_⟩
  rcases completed with ⟨done, isDone, same⟩ | ⟨cpu, task, call, target, place, packets, phase, same⟩
  · exact Or.inl ⟨done, grows.receptions.subset isDone, same⟩
  · rcases grows.answering cpu task call target place packets phase with ⟨packets', later⟩ |
      ⟨done, isDone, ended, isCall⟩
    · exact Or.inr ⟨cpu, task, call, target, place, packets', later, same⟩
    · exact Or.inl ⟨done, isDone, ended, isCall ▸ same⟩

section Edits

variable {net : AckNet noc} {cpu : UInt16} {task : Nat}

theorem NetOk.bound {phase : AckPhase} (ok : NetOk net) (isPhase : net.phases cpu task = phase)
    (busy : phase ≠ .idle) : task < noc.maxTasks := by
  by_contra outside
  exact busy (isPhase.symm.trans (ok.bounded cpu task (Nat.le_of_not_lt outside)))

theorem NetOk.setCore {core : Noc noc} (ok : NetOk net) (core_ok : CoreOk net.sent cpu core)
    (ports : core.pktdrvPorts = (net.cores cpu).pktdrvPorts)
    (matched : ∀ task, Matched (core.receiving task) (net.phases cpu task)) :
    NetOk (net.setCore cpu core) := by
  have sent : ∀ (number : Nat) message, net.sent[number]? = some message →
      MessageOk (net.setCore cpu core) message := by
    intro number message there
    exact (ok.sent number message there).mono ⟨List.prefix_rfl, List.prefix_rfl,
      fun _ _ _ _ _ packets phase => Or.inl ⟨packets, phase⟩⟩
  refine ⟨fun other => ?_, ok.flying, fun other task => ?_, fun other task => ?_, sent, ok.bounded,
    ok.receptions, ok.log⟩
  · by_cases here : other = cpu
    · rw [here]
      simpa [AckNet.setCore] using core_ok
    · simpa [AckNet.setCore, here] using ok.cores other
  · have phase := ok.phases other task
    by_cases here : other = cpu
    · rw [here] at phase ⊢
      simpa [AckNet.setCore, ports] using phase
    · simpa [AckNet.setCore, here] using phase
  · by_cases here : other = cpu
    · rw [here]
      simpa [AckNet.setCore] using matched task
    · simpa [AckNet.setCore, here] using ok.matched other task

theorem setCore_same (net : AckNet noc) (cpu : UInt16) (core : Noc noc) :
    (net.setCore cpu core).cores cpu = core := by
  simp [AckNet.setCore]

theorem setPhase_cases (net : AckNet noc) (cpu other : UInt16) (task caller : Nat) (phase : AckPhase) :
    other = cpu ∧ caller = task ∧ (net.setPhase cpu task phase).phases other caller = phase ∨
      ¬(other = cpu ∧ caller = task) ∧
        (net.setPhase cpu task phase).phases other caller = net.phases other caller := by
  by_cases here : other = cpu
  · by_cases same : caller = task
    · exact Or.inl ⟨here, same, by simp [AckNet.setPhase, here, same]⟩
    · exact Or.inr ⟨fun both => same both.2, by simp [AckNet.setPhase, here, same]⟩
  · exact Or.inr ⟨fun both => here both.1, by simp [AckNet.setPhase, here]⟩

theorem NetOk.enter {phase : AckPhase} (ok : NetOk net) (bound : task < noc.maxTasks)
    (more : net.sent <+: sent) (later : net.receptions <+: receptions)
    (kept : ∀ received target place packets,
      net.phases cpu task = .answering received target place packets →
        (∃ packets', phase = .answering received target place packets') ∨
        ∃ reception ∈ receptions, reception.completed = true ∧ reception.received = received)
    (phase_ok : PhaseOk noc sent receptions cpu ((net.cores cpu).pktdrvPorts task) phase)
    (matched : Matched ((net.cores cpu).receiving task) phase)
    (fresh : ∀ (number : Nat) message, sent[number]? = some message → net.sent[number]? = some message ∨
      MessageOk ({ net with sent, receptions }.setPhase cpu task phase) message)
    (genuine : ∀ reception ∈ receptions, Reception.Genuine sent reception) :
    NetOk ({ net with sent, receptions }.setPhase cpu task phase) := by
  have cases_of := setPhase_cases { net with sent, receptions } cpu
  have grows : Grows net ({ net with sent, receptions }.setPhase cpu task phase) := by
    refine ⟨more, later, fun other caller received target place packets before => ?_⟩
    rcases cases_of other task caller phase with ⟨rfl, rfl, now⟩ | ⟨_, now⟩
    · rw [now]
      exact kept received target place packets before
    · exact Or.inl ⟨packets, now.trans before⟩
  constructor
  · intro other
    exact (ok.cores other).mono more
  · intro entry member
    exact ⟨(ok.flying entry member).1.mono (table_mono more), (ok.flying entry member).2.mono more⟩
  · intro other caller
    rcases cases_of other task caller phase with ⟨rfl, rfl, now⟩ | ⟨_, now⟩
    · rw [now]
      exact phase_ok
    · rw [now]
      exact (ok.phases other caller).mono more later
  · intro other caller
    rcases cases_of other task caller phase with ⟨rfl, rfl, now⟩ | ⟨_, now⟩
    · rw [now]
      exact matched
    · rw [now]
      exact ok.matched other caller
  · intro number message there
    rcases fresh number message there with before | now
    · exact (ok.sent number message before).mono grows
    · exact now
  · intro other caller outside
    rcases cases_of other task caller phase with ⟨rfl, rfl, now⟩ | ⟨_, now⟩
    · omega
    · rw [now]
      exact ok.bounded other caller outside
  · exact genuine
  · intro entry member
    obtain ⟨heard, truthful⟩ := ok.log entry member
    exact ⟨heard.mono later, fun ended => Acknowledged.Heard.mono (truthful ended) later⟩

theorem NetOk.setPhase {phase : AckPhase} (ok : NetOk net) (bound : task < noc.maxTasks)
    (before : (net.phases cpu task).answers = false)
    (phase_ok : PhaseOk noc net.sent net.receptions cpu ((net.cores cpu).pktdrvPorts task) phase)
    (matched : Matched ((net.cores cpu).receiving task) phase) : NetOk (net.setPhase cpu task phase) := by
  refine ok.enter bound List.prefix_rfl List.prefix_rfl (fun received target place packets now => ?_)
    phase_ok matched (fun number message there => Or.inl there) ok.receptions
  rw [now] at before
  cases before

theorem NetOk.addFlying (ok : NetOk net) {target : UInt16} {packet : Packet}
    (genuine : packet.Genuine noc (table net.sent)) (isSent : Sent net.sent target packet.origin) :
    NetOk { net with flying := net.flying ++ [(target, packet)] } := by
  refine ⟨ok.cores, ?_, ok.phases, ok.matched, fun number message there => ?_, ok.bounded,
    ok.receptions, ok.log⟩
  · simp only [List.forall_mem_append, List.forall_mem_singleton]
    exact ⟨ok.flying, genuine, isSent⟩
  · exact (ok.sent number message there).mono ⟨List.prefix_rfl, List.prefix_rfl,
      fun _ _ _ _ _ packets phase => Or.inl ⟨packets, phase⟩⟩

theorem NetOk.eraseFlying (ok : NetOk net) (place : Nat) :
    NetOk { net with flying := net.flying.eraseIdx place } :=
  ⟨ok.cores, fun entry member => ok.flying entry (List.mem_of_mem_eraseIdx member), ok.phases,
    ok.matched, fun number message there => (ok.sent number message there).mono
      ⟨List.prefix_rfl, List.prefix_rfl, fun _ _ _ _ _ packets phase => Or.inl ⟨packets, phase⟩⟩,
    ok.bounded, ok.receptions, ok.log⟩

theorem NetOk.addLog (ok : NetOk net) {entry : Acknowledged}
    (heard : Acknowledged.Heard net.receptions entry false)
    (truthful : entry.pausing = false → Acknowledged.Truthful net.receptions entry) :
    NetOk { net with log := net.log ++ [entry] } := by
  refine ⟨ok.cores, ok.flying, ok.phases, ok.matched, fun number message there =>
    (ok.sent number message there).mono ⟨List.prefix_rfl, List.prefix_rfl,
      fun _ _ _ _ _ packets phase => Or.inl ⟨packets, phase⟩⟩, ok.bounded, ok.receptions, ?_⟩
  simp only [List.forall_mem_append, List.forall_mem_singleton]
  exact ⟨ok.log, heard, truthful⟩

end Edits

theorem packets_ready {number : Nat} {message : SentMessage} (sender : Nat)
    (there : sent[number]? = some message) :
    Ready noc sent message.call.targetCpu number (message.call.packets noc sender number) := by
  intro packet member
  have isCall : table sent sender number = some message.call := by
    simp only [table, there, Option.map_some]
  obtain ⟨genuine, _, same⟩ := Traffic.packets_genuine isCall member
  exact ⟨genuine, ⟨message, by rw [same, there], rfl⟩, same⟩

theorem CoreOk.received {cpu : UInt16} {core : Noc noc} {task : Nat} {received : RecvCall}
    (ok : CoreOk sent cpu core) (receives : core.receiving task = some received)
    (returned : received.point = .returned) (error : received.error = errOk) (completed : Bool) :
    Reception.Genuine sent ⟨cpu, core.pktdrvPorts task, received, completed⟩ := by
  obtain ⟨sender, number, call, there, holds, some, same⟩ :=
    (ok.tracked.sound task received receives).received returned error
  obtain ⟨message, isMessage, rfl⟩ := Option.map_eq_some_iff.mp there
  obtain ⟨origin, rest, isTaken⟩ := List.exists_cons_of_ne_nil some
  have member : origin ∈ received.taken := by
    rw [isTaken]
    exact List.mem_cons_self
  have isNumber : received.number = .some number := by
    rw [RecvCall.number, isTaken, List.head?_cons, Option.map_some, (same origin member).2]
  obtain ⟨⟨found, isFound, onCpu⟩, ⟨other, isOther, onPort⟩⟩ :=
    ok.taken task received receives origin member
  rw [(same origin member).2, isMessage, Option.some.injEq] at isFound isOther
  rw [← isFound] at onCpu
  rw [← isOther] at onPort
  exact ⟨number, message, isNumber, isMessage, onCpu, onPort, holds⟩

theorem Pending.heard {cpu port : UInt16} {call : SendCall} {number mark : Nat} {pausing completed : Bool}
    (pending : Pending sent receptions cpu port call number mark)
    (genuine : ∀ reception ∈ receptions, Reception.Genuine sent reception)
    (heard : ∃ reception ∈ receptions, reception.completed = completed ∧
      reception.received.number = some number) :
    Acknowledged.Heard receptions ⟨call, mark, receptions.length, pausing⟩ completed := by
  obtain ⟨reception, member, isCompleted, isNumber⟩ := heard
  obtain ⟨place, there⟩ := List.getElem?_of_mem member
  obtain ⟨found, message, isFound, isMessage, onCpu, onPort, holds⟩ := genuine reception member
  rw [isNumber, Option.some.injEq] at isFound
  rw [← isFound, pending.message, Option.some.injEq] at isMessage
  rw [← isMessage] at onCpu onPort holds
  refine ⟨place, reception, ?_, (List.getElem?_eq_some_iff.mp there).1, there, isCompleted, onCpu.symm,
    onPort.symm, holds⟩
  by_contra before
  exact pending.fresh place reception (by simpa using before) there isNumber

def about (sent : List SentMessage) (number : Nat) : Nat :=
  (sent[number]?.bind SentMessage.answers).getD number

def source (sent : List SentMessage) (number : Nat) : Option (UInt16 × UInt16) :=
  sent[number]?.map fun message => (message.call.sourceCpu, message.call.sourcePort)

/-- A packet of the message is under way: on the network, on a core or still to be written. Or a call
of `hf_sendack` is sending the message or waits for its acknowledgement. -/
def Around (net : AckNet noc) (number : Nat) : Prop :=
  (∃ entry ∈ net.flying, entry.2.origin.message = number) ∨
    (∃ cpu, (net.cores cpu).Carries number) ∨
    ∃ cpu task, (net.phases cpu task).underWay = some number

/-- No message of this port is under way, and no acknowledgement of one. -/
def Quiet (net : AckNet noc) (cpu port : UInt16) : Prop :=
  ∀ number, net.Around number → source net.sent (about net.sent number) ≠ some (cpu, port)

/-- No queue is created while messages are sent. A task starts a call when it executes none, and a
core serves the packets that arrive. -/
def admits : AckOp → AckNet noc → Prop
  | .core cpu .deliver, net => Noc.serves .deliver (net.cores cpu)
  | .core cpu (.advance task address), net => Noc.serves (.advance task address) (net.cores cpu)
  | .core _ _, _ => False
  | .arrive place, net => ∀ entry ∈ net.flying[place]?,
      Noc.serves (.arrive entry.2) (net.cores entry.1)
  | .sendAck cpu task _ _ _ _ _, net => (net.cores cpu).isr = none ∧ task < noc.maxTasks ∧
      (net.cores cpu).resting task = true ∧ (net.phases cpu task).starts = true
  | .recvAck cpu task channel, net => Noc.serves (.recv task channel) (net.cores cpu) ∧
      (net.phases cpu task).starts = true
  | .look cpu task, net => Noc.serves (.recv task ackChannel) (net.cores cpu)
  | .write cpu _, net | .giveUp cpu _, net => (net.cores cpu).isr = none

/-- The channel of the acknowledgements is left to them, no call of `hf_recv` takes a packet of
another message for the next one of its own, and `hf_sendack` is called when nothing of an earlier
message of its port is under way. -/
def keeps : AckOp → AckNet noc → Prop
  | .core cpu op, net => Noc.keepsMessages op (net.cores cpu)
  | .sendAck cpu task _ _ _ _ channel, net =>
      channel ≠ ackChannel ∧ net.Quiet cpu ((net.cores cpu).pktdrvPorts task)
  | .recvAck _ _ channel, _ => channel ≠ ackChannel
  | _, _ => True

def Alone (net : AckNet noc) : Prop :=
  ∀ cpu task number, (net.phases cpu task).sends = some number → ∀ other, net.Around other →
    source net.sent (about net.sent other) = source net.sent number → about net.sent other = number

structure Calms (net net' : AckNet noc) : Prop where
  sent : net'.sent = net.sent
  around : ∀ number, net'.Around number → net.Around number
  sends : ∀ cpu task number, (net'.phases cpu task).sends = some number →
    (net.phases cpu task).sends = some number

theorem Alone.calms {net net' : AckNet noc} (alone : Alone net) (calms : Calms net net') :
    Alone net' := by
  intro cpu task number sends other around same
  rw [calms.sent] at same ⊢
  exact alone cpu task number (calms.sends cpu task number sends) other (calms.around other around) same

theorem Calms.refl (net : AckNet noc) : Calms net net :=
  ⟨rfl, fun _ around => around, fun _ _ _ sends => sends⟩

theorem Calms.ghost {net : AckNet noc} (receptions : List Reception) (log : List Acknowledged) :
    Calms net { net with receptions, log } :=
  ⟨rfl, fun _ around => around, fun _ _ _ sends => sends⟩

theorem Calms.trans {first second third : AckNet noc} (one : Calms first second)
    (two : Calms second third) : Calms first third :=
  ⟨two.sent.trans one.sent, fun number around => one.around number (two.around number around),
    fun cpu task number sends => one.sends cpu task number (two.sends cpu task number sends)⟩

section Around

variable {net : AckNet noc} {cpu : UInt16} {task : Nat}

theorem around_setCore {core : Noc noc} {number : Nat} (around : (net.setCore cpu core).Around number) :
    core.Carries number ∨ net.Around number := by
  rcases around with flying | ⟨other, carries⟩ | phase
  · exact Or.inr (Or.inl flying)
  · by_cases here : other = cpu
    · rw [here] at carries
      exact Or.inl (by simpa [AckNet.setCore] using carries)
    · exact Or.inr (Or.inr (Or.inl ⟨other, by simpa [AckNet.setCore, here] using carries⟩))
  · exact Or.inr (Or.inr (Or.inr phase))

theorem around_setPhase {phase : AckPhase} {number : Nat}
    (around : (net.setPhase cpu task phase).Around number) :
    phase.underWay = some number ∨ net.Around number := by
  rcases around with flying | core | ⟨other, caller, underWay⟩
  · exact Or.inr (Or.inl flying)
  · exact Or.inr (Or.inr (Or.inl core))
  · rcases setPhase_cases net cpu other task caller phase with ⟨_, _, now⟩ | ⟨_, now⟩
    · exact Or.inl (now ▸ underWay)
    · exact Or.inr (Or.inr (Or.inr ⟨other, caller, now ▸ underWay⟩))

theorem around_of_phase {phase : AckPhase} {number : Nat} (isPhase : net.phases cpu task = phase)
    (underWay : phase.underWay = some number) : net.Around number :=
  Or.inr (Or.inr ⟨cpu, task, isPhase ▸ underWay⟩)

theorem Calms.setCore {core : Noc noc}
    (carries : ∀ number, core.Carries number → net.Around number) : Calms net (net.setCore cpu core) :=
  ⟨rfl, fun number around => (around_setCore around).elim (carries number) id, fun _ _ _ sends => sends⟩

theorem Calms.turn {op : NocOp} {codes : List Int} {core : Noc noc} (serving : (net.cores cpu).Serving)
    (served : Noc.serves op (net.cores cpu)) (done : (net.cores cpu).turn op = .ok (codes, core))
    (notArrive : ∀ packet, op ≠ .arrive packet) : Calms net (net.setCore cpu core) := by
  refine .setCore fun number carries => ?_
  rcases serving.carries_turn served done carries with before | ⟨packet, arrives, _⟩
  · exact Or.inr (Or.inl ⟨cpu, before⟩)
  · exact absurd arrives (notArrive packet)

theorem Calms.setPhase {phase : AckPhase}
    (underWay : ∀ number, phase.underWay = some number → net.Around number)
    (sends : phase.sends = none ∨ phase.sends = (net.phases cpu task).sends) :
    Calms net (net.setPhase cpu task phase) := by
  refine ⟨rfl, fun number around => (around_setPhase around).elim (underWay number) id,
    fun other caller number now => ?_⟩
  rcases setPhase_cases net cpu other task caller phase with ⟨rfl, rfl, isPhase⟩ | ⟨_, isPhase⟩
  · rw [isPhase] at now
    rcases sends with none | same
    · rw [none] at now
      cases now
    · exact same ▸ now
  · exact isPhase ▸ now

theorem Calms.addFlying {target : UInt16} {packet : Packet} (around : net.Around packet.origin.message) :
    Calms net { net with flying := net.flying ++ [(target, packet)] } := by
  refine ⟨rfl, fun number there => ?_, fun _ _ _ sends => sends⟩
  rcases there with ⟨entry, member, same⟩ | rest
  · rcases List.mem_append.mp member with before | now
    · exact Or.inl ⟨entry, before, same⟩
    · rw [List.mem_singleton.mp now] at same
      exact same ▸ around
  · exact Or.inr rest

theorem NetOk.found (ok : NetOk net) {number : Nat} (around : net.Around number) :
    ∃ message, net.sent[number]? = some message := by
  rcases around with ⟨entry, member, same⟩ | ⟨cpu, carries⟩ | ⟨cpu, task, underWay⟩
  · obtain ⟨message, there, _⟩ := (ok.flying entry member).2
    exact ⟨message, same ▸ there⟩
  · rcases carries with ⟨bufPtr, running, same⟩ | ⟨task, bufPtr, member, same⟩ |
      ⟨task, call, receives, _, origin, member, same⟩
    · obtain ⟨message, there, _⟩ := (ok.cores cpu).running bufPtr running
      exact ⟨message, same ▸ there⟩
    · obtain ⟨message, there, _⟩ := ((ok.cores cpu).queued task bufPtr member).1
      exact ⟨message, same ▸ there⟩
    · obtain ⟨message, there, _⟩ := ((ok.cores cpu).taken task call receives origin member).1
      exact ⟨message, same ▸ there⟩
  · have phase := ok.phases cpu task
    cases isPhase : net.phases cpu task with
    | sending call place mark packets =>
        rw [isPhase] at phase underWay
        obtain rfl := Option.some.inj underWay
        exact ⟨_, phase.1.message⟩
    | waiting call place mark | acknowledged call place mark =>
        rw [isPhase] at phase underWay
        obtain rfl := Option.some.inj underWay
        exact ⟨_, Pending.message phase⟩
    | answering received target place packets =>
        rw [isPhase] at phase underWay
        cases packets with
        | nil => cases underWay
        | cons packet rest =>
            obtain rfl := Option.some.inj underWay
            obtain ⟨ack, isAck⟩ := phase.2.1
            exact ⟨_, isAck⟩
    | idle | receiving | returned code =>
        rw [isPhase] at underWay
        cases underWay

theorem NetOk.about_sends (ok : NetOk net) {number : Nat} (sends : (net.phases cpu task).sends = some number) :
    about net.sent number = number := by
  have phase := ok.phases cpu task
  cases isPhase : net.phases cpu task with
  | sending call place mark packets =>
      rw [isPhase] at phase sends
      obtain rfl := Option.some.inj sends
      simp [about, phase.1.message]
  | waiting call place mark | acknowledged call place mark =>
      rw [isPhase] at phase sends
      obtain rfl := Option.some.inj sends
      simp [about, Pending.message phase]
  | idle | receiving | returned code | answering received target place packets =>
      rw [isPhase] at sends
      cases sends

theorem about_mono {number : Nat} {message : SentMessage} (there : sent[number]? = some message)
    (more : sent <+: sent') : about sent' number = about sent number := by
  simp only [about, there, found_longer more there]

theorem source_mono {number : Nat} {message : SentMessage} (there : sent[number]? = some message)
    (more : sent <+: sent') : source sent' number = source sent number := by
  simp only [source, there, found_longer more there]

theorem NetOk.found_about (ok : NetOk net) {number : Nat} (around : net.Around number) :
    ∃ message, net.sent[about net.sent number]? = some message := by
  obtain ⟨message, there⟩ := ok.found around
  cases answers : message.answers with
  | none => exact ⟨message, by simp [about, there, answers]⟩
  | some subject =>
      obtain ⟨heard, isHeard, _⟩ := ((ok.sent number message there).answer subject answers).subject
      exact ⟨heard, by simpa [about, there, answers] using isHeard⟩

theorem Alone.enter {phase : AckPhase} {message : SentMessage} (ok : NetOk net) (alone : Alone net)
    (underWay : ∀ number, phase.underWay = some number → number = net.sent.length)
    (others : ∀ other caller number, (net.phases other caller).sends = some number →
      source (net.sent ++ [message]) (about (net.sent ++ [message]) net.sent.length) =
        source net.sent number → about (net.sent ++ [message]) net.sent.length = number)
    (first : phase.sends = some net.sent.length → message.answers = none ∧
      net.Quiet message.call.sourceCpu message.call.sourcePort) :
    Alone ({ net with sent := net.sent ++ [message], receptions }.setPhase cpu task phase) := by
  intro other caller number sends place around same
  have more := List.prefix_append net.sent [message]
  have arrived : place = net.sent.length ∨ net.Around place := by
    rcases around_setPhase around with fresh | before
    · exact Or.inl (underWay place fresh)
    · exact Or.inr before
  change source (net.sent ++ [message]) (about (net.sent ++ [message]) place) =
    source (net.sent ++ [message]) number at same
  change about (net.sent ++ [message]) place = number
  have isPhase := setPhase_cases { net with sent := net.sent ++ [message], receptions } cpu other task caller
    phase
  rcases isPhase with ⟨_, _, now⟩ | ⟨_, now⟩
  · rw [now] at sends
    have isNumber := underWay number (AckPhase.underWay_of_sends sends)
    subst isNumber
    obtain ⟨plain, quiet⟩ := first sends
    rcases arrived with rfl | before
    · simp [about, plain]
    · obtain ⟨found, there⟩ := ok.found before
      obtain ⟨_, isAbout⟩ := ok.found_about before
      rw [about_mono there more, source_mono isAbout more] at same
      refine absurd (same.trans ?_) (quiet place before)
      simp [source]
  · rw [now] at sends
    obtain ⟨_, isCurrent⟩ := ok.found (around_of_phase rfl (AckPhase.underWay_of_sends sends))
    rw [source_mono isCurrent more] at same
    rcases arrived with rfl | before
    · exact others other caller number sends same
    · obtain ⟨found, there⟩ := ok.found before
      obtain ⟨_, isAbout⟩ := ok.found_about before
      rw [about_mono there more, source_mono isAbout more] at same
      rw [about_mono there more]
      exact alone other caller number sends place before same

end Around

section Steps

variable {net net' : AckNet noc} {cpu : UInt16} {task : Nat}

theorem NetOk.turn {op : NocOp} {codes : List Int} {core : Noc noc} (ok : NetOk net)
    (served : Noc.serves op (net.cores cpu))
    (notCreate : ∀ task id port packets, op ≠ .create task id port packets)
    (arrives : ∀ packet, op = .arrive packet → packet.Genuine noc (table net.sent) ∧
      Sent net.sent cpu packet.origin)
    (keeps : Noc.keepsMessages op (net.cores cpu))
    (starts : ∀ task channel, op = .recv task channel → ∀ receives,
      Matched receives (net.phases cpu task))
    (done : (net.cores cpu).turn op = .ok (codes, core)) : NetOk (net.setCore cpu core) := by
  obtain ⟨core_ok, ports⟩ := (ok.cores cpu).turn served notCreate arrives keeps done
  refine ok.setCore core_ok ports fun task => ?_
  by_cases started : ∃ channel, op = .recv task channel
  · obtain ⟨channel, isRecv⟩ := started
    exact starts task channel isRecv _
  · have same : ∀ call, core.receiving task = some call →
        ∃ before, (net.cores cpu).receiving task = some before ∧ before.channel = call.channel :=
      fun call receives => (ok.cores cpu).tracked.serving.channel_turn served done
        (fun channel isRecv => started ⟨channel, isRecv⟩) receives
    have matched := ok.matched cpu task
    cases isPhase : net.phases cpu task with
    | receiving =>
        rw [isPhase] at matched
        intro call receives
        obtain ⟨before, was, channel⟩ := same call receives
        exact channel ▸ matched before was
    | acknowledged call number mark =>
        rw [isPhase] at matched
        intro call receives
        obtain ⟨before, was, channel⟩ := same call receives
        exact channel ▸ matched before was
    | _ => trivial

theorem NetOk.unheard (ok : NetOk net) {reception : Reception} (member : reception ∈ net.receptions) :
    reception.received.number ≠ some net.sent.length := by
  intro isNumber
  obtain ⟨number, message, isFound, isMessage, _⟩ := ok.receptions reception member
  rw [isNumber, Option.some.injEq] at isFound
  rw [← isFound, List.getElem?_eq_none le_rfl] at isMessage
  cases isMessage

theorem found_concat {α : Type} {l : List α} {x y : α} {i : Nat} (there : (l ++ [x])[i]? = some y) :
    l[i]? = some y ∨ i = l.length ∧ y = x := by
  by_cases inside : i < l.length
  · exact Or.inl (by rwa [List.getElem?_append_left inside] at there)
  · rw [List.getElem?_append_right (by omega), List.getElem?_singleton] at there
    split at there
    · exact Or.inr ⟨by omega, (Option.some.inj there).symm⟩
    · cases there

theorem NetOk.hfSendack {targetCpu targetPort : UInt16} {buf : Nat → UInt8} {size channel : UInt16}
    (ok : NetOk net) (alone : Alone net) (bound : task < noc.maxTasks)
    (idle : (net.phases cpu task).starts = true) (free : channel ≠ ackChannel)
    (quiet : net.Quiet cpu ((net.cores cpu).pktdrvPorts task)) :
    NetOk (net.hfSendack cpu task targetCpu targetPort buf size channel) ∧
      Alone (net.hfSendack cpu task targetCpu targetPort buf size channel) := by
  have before := AckPhase.answers_of_starts idle
  unfold AckNet.hfSendack
  simp only
  split
  · exact ⟨ok.setPhase bound before trivial trivial, alone.calms (.setPhase nofun (Or.inl rfl))⟩
  · constructor
    · refine ok.enter bound (List.prefix_append _ _) List.prefix_rfl
        (fun received target place packets now => ?_) ⟨⟨List.getElem?_concat_length, rfl, rfl, le_rfl,
          fun place reception _ there => ?_⟩, packets_ready cpu.toNat List.getElem?_concat_length⟩ trivial
        (fun number message there => ?_)
        fun reception member => (ok.receptions reception member).mono (List.prefix_append _ _)
      · rw [now] at before
        cases before
      · exact ok.unheard (List.mem_of_getElem? there)
      · rcases found_concat there with old | ⟨_, rfl⟩
        · exact Or.inl old
        · exact Or.inr ⟨fun _ => free, nofun⟩
    · refine alone.enter ok (fun number underWay => (Option.some.inj underWay).symm)
        (fun other caller number sends same => ?_) fun _ => ⟨rfl, quiet⟩
      -- the new message comes from this port, and what another call waits for does not
      have elsewhere := quiet number (around_of_phase rfl (AckPhase.underWay_of_sends sends))
      rw [ok.about_sends sends, ← same] at elsewhere
      simp [about, source] at elsewhere

theorem NetOk.hfSendWrite (ok : NetOk net) :
    NetOk (net.hfSendWrite cpu task) ∧ Calms net (net.hfSendWrite cpu task) := by
  have phase := ok.phases cpu task
  unfold AckNet.hfSendWrite
  split
  next call number mark packet rest isPhase =>
    rw [isPhase] at phase
    obtain ⟨pending, ready⟩ := phase
    obtain ⟨⟨genuine, isSent, isNumber⟩, others⟩ := List.forall_mem_cons.mp ready
    have around : net.Around packet.origin.message := around_of_phase isPhase (congrArg some isNumber.symm)
    refine ⟨(ok.addFlying genuine isSent).setPhase (ok.bound isPhase nofun) (by simp [isPhase, AckPhase.answers])
      ⟨pending, others⟩ trivial,
      (Calms.addFlying around).trans (.setPhase (fun place underWay => ?_) (Or.inr ?_))⟩
    · exact around_of_phase isPhase underWay
    · simp only [isPhase, AckPhase.sends]
  next call number mark isPhase =>
    rw [isPhase] at phase
    refine ⟨ok.setPhase (ok.bound isPhase nofun) (by simp [isPhase, AckPhase.answers]) phase.1 trivial,
      .setPhase (fun place underWay => around_of_phase isPhase underWay) (Or.inr ?_)⟩
    simp only [isPhase, AckPhase.sends]
  next received target number packet rest isPhase =>
    rw [isPhase] at phase
    obtain ⟨genuine, isAck, ready⟩ := phase
    obtain ⟨⟨packet_genuine, isSent, isNumber⟩, others⟩ := List.forall_mem_cons.mp ready
    have around : net.Around packet.origin.message := around_of_phase isPhase (congrArg some isNumber.symm)
    constructor
    · refine (ok.addFlying packet_genuine isSent).enter (ok.bound isPhase nofun) List.prefix_rfl
        List.prefix_rfl (fun before target' place packets now => ?_) ⟨genuine, isAck, others⟩ trivial
        (fun place message there => Or.inl there) ok.receptions
      have same := isPhase.symm.trans now
      simp only [AckPhase.answering.injEq] at same
      obtain ⟨rfl, rfl, rfl, _⟩ := same
      exact Or.inl ⟨rest, rfl⟩
    · refine (Calms.addFlying around).trans (.setPhase (fun place underWay => ?_) (Or.inl rfl))
      cases rest with
      | nil => cases underWay
      | cons other others => exact around_of_phase isPhase underWay
  next received target number isPhase =>
    rw [isPhase] at phase
    constructor
    · refine ok.enter (ok.bound isPhase nofun) List.prefix_rfl (List.prefix_append _ _)
        (fun before target' place packets now => ?_) trivial trivial (fun place message there => Or.inl there) ?_
      · have same := isPhase.symm.trans now
        simp only [AckPhase.answering.injEq] at same
        obtain ⟨rfl, -⟩ := same
        exact Or.inr ⟨_, List.mem_append_right _ List.mem_cons_self, rfl, rfl⟩
      · simp only [List.forall_mem_append, List.forall_mem_singleton]
        exact ⟨ok.receptions, phase.1 true⟩
    · exact (Calms.ghost _ _).trans (.setPhase nofun (Or.inl rfl))
  next => exact ⟨ok, .refl net⟩

theorem NetOk.lookForAck (ok : NetOk net)
    (served : Noc.serves (.recv task ackChannel) (net.cores cpu))
    (looked : net.lookForAck cpu task = .ok net') : NetOk net' ∧ Calms net net' := by
  have phase := ok.phases cpu task
  unfold AckNet.lookForAck at looked
  simp only at looked
  split at looked
  next call number mark isPhase =>
    rw [isPhase] at phase
    obtain ⟨queue, _, looked⟩ := ok_of_bind looked
    split at looked
    · exact Except.ok.inj looked ▸ ⟨ok, .refl net⟩
    · split at looked
      · exact Except.ok.inj looked ▸ ⟨ok, .refl net⟩
      · split at looked
        · rw [← Except.ok.inj looked]
          have started := ok.turn served nofun nofun trivial (fun caller channel same receives => by
            cases same
            rw [isPhase]
            trivial) rfl
          have ports := ((ok.cores cpu).turn served nofun nofun trivial rfl).2
          refine ⟨started.setPhase (ok.bound isPhase nofun)
            (by simp [AckNet.setCore, isPhase, AckPhase.answers]) ?_ fun call receives => ?_,
            (Calms.turn (ok.cores cpu).tracked.serving served rfl nofun).trans
              (.setPhase (fun place underWay => around_of_phase isPhase underWay) (Or.inr ?_))⟩
          · have pending : Pending net.sent net.receptions cpu ((net.cores cpu).pktdrvPorts task) call
                number mark := phase
            change Pending _ _ _ _ _ _ _
            simpa [AckNet.setCore, ports] using pending
          · exact Noc.hfRecv_channel (by simpa [AckNet.setCore] using receives)
          · simp only [AckNet.setCore, isPhase, AckPhase.sends]
        · exact Except.ok.inj looked ▸ ⟨ok, .refl net⟩
  next => exact Except.ok.inj looked ▸ ⟨ok, .refl net⟩

theorem NetOk.ending {address : Nat} {codes : List Int} {core : Noc noc} {received : RecvCall}
    (ok : NetOk net) (served : Noc.serves (.advance task address) (net.cores cpu))
    (core_ok : CoreOk net.sent cpu core)
    (done : (net.cores cpu).turn (.advance task address) = .ok (codes, core))
    (receives : core.receiving task = some received) (returned : received.point = .returned) :
    ∃ number message, received.number = some number ∧ net.Around number ∧
      net.sent[number]? = some message ∧ message.call.channel = received.channel ∧
      message.call.targetCpu = cpu ∧ message.call.targetPort = core.pktdrvPorts task := by
  obtain begins | ⟨number, message, isNumber, there, channel⟩ := core_ok.headed task received receives
  · rcases begins.1 with point | point | point <;> simp [returned] at point
  obtain ⟨first, isFirst, isMessage⟩ := Option.map_eq_some_iff.mp isNumber
  have member : first ∈ received.taken := List.mem_of_head? isFirst
  obtain ⟨⟨onCpu, isCpu, targetCpu⟩, ⟨onPort, isPort, targetPort⟩⟩ :=
    core_ok.taken task received receives first member
  rw [isMessage, there, Option.some.injEq] at isCpu isPort
  refine ⟨number, message, isNumber, ?_, there, channel, isCpu ▸ targetCpu, isPort ▸ targetPort⟩
  have busy : ∀ before, (net.cores cpu).receiving task = some before → before.point ≠ .returned := by
    intro before isBefore finished
    have resting := served.2.2.1
    unfold Noc.resting at resting
    unfold Noc.receiving at isBefore
    split at isBefore
    · rename_i found isFound
      cases isBefore
      simp [isFound, finished] at resting
    · cases isBefore
  refine Or.inr (Or.inl ⟨cpu, Or.inr (Or.inr ?_)⟩)
  cases (ok.cores cpu).tracked.serving.seen served done task with
  | same receiving mail => exact absurd returned (busy received (receiving.symm.trans receives))
  | ended receiving mail =>
      rw [receiving] at receives
      cases receives
  | @stepped _ before step was stepped receiving mail =>
      rw [receiving, Option.some.injEq] at receives
      rw [← receives] at returned member
      rw [RecvCall.mailStep_returned stepped returned (busy _ was)] at member
      exact ⟨task, before, was, busy _ was, first, member, isMessage⟩

theorem NetOk.isAnswer {number : Nat} {message : SentMessage} (ok : NetOk net)
    (there : net.sent[number]? = some message) (channel : message.call.channel = ackChannel) :
    ∃ subject, message.answers = some subject ∧ Answers net message subject := by
  cases answers : message.answers with
  | none => exact absurd channel ((ok.sent number message there).plain answers)
  | some subject => exact ⟨subject, rfl, (ok.sent number message there).answer subject answers⟩

theorem NetOk.own {number place mark : Nat} {call : SendCall} {message : SentMessage} (ok : NetOk net)
    (alone : Alone net) (pending : Pending net.sent net.receptions cpu ((net.cores cpu).pktdrvPorts task)
      call number mark) (sends : (net.phases cpu task).sends = some number)
    (around : net.Around place) (there : net.sent[place]? = some message)
    (channel : message.call.channel = ackChannel) (onCpu : message.call.targetCpu = cpu)
    (onPort : message.call.targetPort = (net.cores cpu).pktdrvPorts task) :
    Answers net message number := by
  obtain ⟨subject, answers, answer⟩ := ok.isAnswer there channel
  obtain ⟨heard, isHeard, targetCpu, targetPort⟩ := answer.subject
  have isAbout : about net.sent place = subject := by
    simp only [about, there, Option.bind_some, answers, Option.getD_some]
  have same : source net.sent (about net.sent place) = source net.sent number := by
    simp only [isAbout, source, isHeard, pending.message, Option.map_some, pending.sourceCpu,
      pending.sourcePort, ← targetCpu, ← targetPort, onCpu, onPort]
  have isNumber := alone cpu task number sends place around same
  rw [isAbout] at isNumber
  rwa [isNumber] at answer

theorem NetOk.pausing_of_answering {number place : Nat} {message : SentMessage} {other : UInt16}
    {caller : Nat} {received : RecvCall} {target : UInt16} {packets : List Packet} (ok : NetOk net)
    (there : net.sent[number]? = some message)
    (phase : net.phases other caller = .answering received target place packets)
    (isNumber : received.number = some number) :
    net.pausing message.call.targetCpu message.call.targetPort = true := by
  have inside := ok.bound phase nofun
  have phase_ok := ok.phases other caller
  rw [phase] at phase_ok
  obtain ⟨found, call, isFound, isCall, onCpu, onPort, _⟩ := phase_ok.1 true
  simp only at isFound onCpu onPort
  rw [isNumber, Option.some.injEq] at isFound
  rw [← isFound, there, Option.some.injEq] at isCall
  rw [isCall, onCpu, onPort, AckNet.pausing, List.any_eq_true]
  exact ⟨caller, List.mem_range.mpr inside, by simp [phase, AckPhase.answers]⟩

structure Ends (net : AckNet noc) (cpu : UInt16) (task : Nat) (received : RecvCall) : Prop where
  answered : ∀ call number mark, net.phases cpu task = .acknowledged call number mark →
    ∃ message, Answers net message number
  taken : ∃ subject message, received.number = some subject ∧ net.sent[subject]? = some message ∧
    message.call.channel = received.channel ∧
    ∀ other caller number, (net.phases other caller).sends = some number →
      source net.sent (about net.sent subject) = source net.sent number →
      about net.sent subject = number

theorem NetOk.settle (ok : NetOk net) (alone : Alone net)
    (ends : ∀ received, (net.cores cpu).receiving task = some received →
      received.point = .returned → Ends net cpu task received) :
    NetOk (net.settle cpu task) ∧ Alone (net.settle cpu task) := by
  have phase := ok.phases cpu task
  have matched := ok.matched cpu task
  unfold AckNet.settle
  split
  next => exact ⟨ok, alone⟩
  next received receives =>
    split
    · exact ⟨ok, alone⟩
    · rename_i finished
      rw [not_not] at finished
      obtain ⟨answered, subject, message, isSubject, there, channel, others⟩ := ends received receives finished
      split
      next call number mark isPhase =>
        rw [isPhase] at phase
        obtain ⟨ack, answer⟩ := answered call number mark isPhase
        have heard : Acknowledged.Heard net.receptions ⟨call, mark, net.receptions.length,
            net.pausing call.targetCpu call.targetPort⟩ false :=
          Pending.heard phase ok.receptions answer.heard
        refine ⟨(ok.addLog heard fun ended => ?_).setPhase (ok.bound isPhase nofun)
          (by simp [isPhase, AckPhase.answers]) trivial trivial,
          alone.calms ((Calms.ghost _ _).trans (.setPhase nofun (Or.inl rfl)))⟩
        rcases answer.completed with completed | ⟨other, caller, call', target, place, packets, now, same⟩
        · exact Pending.heard phase ok.receptions completed
        · have shows := ok.pausing_of_answering phase.message now same
          exact absurd (ended.symm.trans shows) nofun
      next isPhase =>
        have bound := ok.bound isPhase nofun
        have before : (net.phases cpu task).answers = false := by simp [isPhase, AckPhase.answers]
        split
        · rename_i error
          rw [isPhase] at matched
          have genuine := (ok.cores cpu).received receives finished error
          have more := List.prefix_append net.sent [⟨net.ackCall cpu task received, received.number⟩]
          constructor
          · refine ok.enter bound more (List.prefix_append _ _) (fun received target place packets now => ?_)
              ⟨fun completed => (genuine completed).mono more, ⟨_, List.getElem?_concat_length⟩,
                packets_ready cpu.toNat List.getElem?_concat_length⟩ trivial (fun place message now => ?_) ?_
            · rw [now] at before
              cases before
            · rcases found_concat now with old | ⟨_, rfl⟩
              · exact Or.inl old
              · refine Or.inr ⟨fun plain => ?_, fun subject answers => ?_⟩
                · rw [isSubject] at plain
                  cases plain
                · obtain ⟨found, message, isFound, isMessage, _, _, holds⟩ := genuine false
                  simp only at isFound answers holds
                  rw [isFound, Option.some.injEq] at answers
                  subst answers
                  refine ⟨rfl, ⟨message, found_longer more isMessage, holds.sourceCpu, holds.sourcePort⟩,
                    ⟨_, List.mem_append_right _ List.mem_cons_self, rfl, isFound⟩,
                    Or.inr ⟨cpu, task, received, received.sourceCpu, net.sent.length,
                      net.nextPackets cpu (net.ackCall cpu task received), ?_, isFound⟩⟩
                  simp only [AckNet.setPhase, Function.update_self]
            · simp only [List.forall_mem_append, List.forall_mem_singleton]
              exact ⟨fun reception member => (ok.receptions reception member).mono more,
                (genuine false).mono more⟩
          · -- the acknowledged message was under way, and is not on the channel of acknowledgements
            have plain : about net.sent subject = subject := by
              cases answers : message.answers with
              | none => simp [about, there, answers]
              | some heard =>
                  have answer := (ok.sent subject message there).answer heard answers
                  exact absurd (channel.symm.trans answer.channel) (matched received receives)
            have isAbout : about (net.sent ++ [⟨net.ackCall cpu task received, received.number⟩])
                net.sent.length = subject := by simp [about, isSubject]
            refine alone.enter ok (fun number underWay => ?_) (fun other caller number sends same => ?_) nofun
            · cases packets : net.nextPackets cpu (net.ackCall cpu task received) with
              | nil =>
                  rw [packets] at underWay
                  cases underWay
              | cons packet rest =>
                  rw [packets] at underWay
                  exact (Option.some.inj underWay).symm
            · rw [isAbout] at same ⊢
              rw [source_mono there more] at same
              rw [plain] at others
              exact others other caller number sends same
        · exact ⟨ok.setPhase bound before trivial trivial, alone.calms (.setPhase nofun (Or.inl rfl))⟩
      next => exact ⟨ok, alone⟩

end Steps

section Run

variable {net net' : AckNet noc} {cpu : UInt16} {task : Nat}

theorem NetOk.ends {address : Nat} {codes : List Int} {core : Noc noc} {received : RecvCall}
    (ok : NetOk net) (alone : Alone net) (served : Noc.serves (.advance task address) (net.cores cpu))
    (done : (net.cores cpu).turn (.advance task address) = .ok (codes, core))
    (later : NetOk (net.setCore cpu core)) (ports : core.pktdrvPorts = (net.cores cpu).pktdrvPorts)
    (receives : core.receiving task = some received) (returned : received.point = .returned) :
    Ends (net.setCore cpu core) cpu task received := by
  have same := setCore_same net cpu core
  have core_ok := later.cores cpu
  rw [same] at core_ok
  obtain ⟨number, message, isNumber, around, there, channel, onCpu, onPort⟩ :=
    ok.ending served core_ok done receives returned
  refine ⟨fun call current mark phase => ?_, number, message, isNumber, there, channel,
    fun other caller current sends => alone other caller current sends number around⟩
  have matched := later.matched cpu task
  have pending := ok.phases cpu task
  rw [phase, same] at matched
  rw [show net.phases cpu task = _ from phase] at pending
  have answer := ok.own alone pending (by rw [show net.phases cpu task = _ from phase]; rfl) around there
    (channel.trans (matched received receives)) onCpu (ports ▸ onPort)
  exact ⟨message, answer.channel, answer.subject, answer.heard, answer.completed⟩

theorem NetOk.step {op : AckOp} (ok : NetOk net) (alone : Alone net) (admitted : net.admits op)
    (keeping : net.keeps op) (stepped : AckNet.step op net = .ok net') : NetOk net' ∧ Alone net' := by
  cases op with
  | core cpu op =>
      unfold AckNet.step at stepped
      obtain ⟨core, codes, turned, rfl⟩ := Noc.map_step stepped
      have serving := (ok.cores cpu).tracked.serving
      cases op with
      | deliver =>
          have served : Noc.serves .deliver (net.cores cpu) := admitted
          exact ⟨ok.turn served nofun nofun trivial nofun turned,
            alone.calms (.turn serving served turned nofun)⟩
      | advance task address =>
          have served : Noc.serves (.advance task address) (net.cores cpu) := admitted
          have later := ok.turn served nofun nofun keeping nofun turned
          have ports := ((ok.cores cpu).turn served nofun nofun keeping turned).2
          have ends : ∀ received, ((net.setCore cpu core).cores cpu).receiving task = some received →
              received.point = .returned → Ends (net.setCore cpu core) cpu task received := by
            intro received receives returned
            rw [setCore_same] at receives
            exact ok.ends alone served turned later ports receives returned
          exact later.settle (alone.calms (.turn serving served turned nofun)) ends
      | arrive packet | recv caller channel | create caller id port packets | destroy caller id
      | kernel op => exact admitted.elim
  | arrive place =>
      unfold AckNet.step at stepped
      unfold admits at admitted
      cases there : net.flying[place]? with
      | none =>
          simp only [there, Except.ok.injEq] at stepped
          rw [← stepped]
          exact ⟨ok, alone⟩
      | some entry =>
          obtain ⟨cpu, packet⟩ := entry
          simp only [there] at stepped
          have served := admitted (cpu, packet) there
          obtain ⟨core, codes, turned, rfl⟩ := Noc.map_step stepped
          have member := List.mem_of_getElem? there
          have arrives := ok.flying (cpu, packet) member
          constructor
          · refine (ok.eraseFlying place).turn served nofun (fun found same => ?_) trivial nofun turned
            obtain rfl : packet = found := by simpa using same
            exact arrives
          · have erased : Calms net { net with flying := net.flying.eraseIdx place } := by
              refine ⟨rfl, fun number around => ?_, fun _ _ _ sends => sends⟩
              rcases around with ⟨entry, inside, same⟩ | rest
              · exact Or.inl ⟨entry, List.mem_of_mem_eraseIdx inside, same⟩
              · exact Or.inr rest
            have serving := (ok.cores cpu).tracked.serving
            refine alone.calms ⟨rfl, fun number around => ?_, fun _ _ _ sends => sends⟩
            rcases around_setCore around with carries | before
            · rcases serving.carries_turn served turned carries with was | ⟨found, isFound, same⟩
              · exact Or.inr (Or.inl ⟨cpu, was⟩)
              · obtain rfl : packet = found := by simpa using isFound
                exact Or.inl ⟨(cpu, packet), member, same⟩
            · exact erased.around number before
  | sendAck cpu task targetCpu targetPort buf size channel =>
      simp only [AckNet.step, Except.ok.injEq] at stepped
      rw [← stepped]
      obtain ⟨_, bound, _, idle⟩ := admitted
      exact ok.hfSendack alone bound idle keeping.1 keeping.2
  | write cpu task =>
      simp only [AckNet.step, Except.ok.injEq] at stepped
      rw [← stepped]
      exact ⟨ok.hfSendWrite.1, alone.calms ok.hfSendWrite.2⟩
  | look cpu task =>
      have looked := ok.lookForAck admitted stepped
      exact ⟨looked.1, alone.calms looked.2⟩
  | giveUp cpu task =>
      simp only [AckNet.step] at stepped
      split at stepped
      next call number mark isPhase =>
        rw [← Except.ok.inj stepped]
        exact ⟨ok.setPhase (ok.bound isPhase nofun) (by simp [isPhase, AckPhase.answers]) trivial trivial,
          alone.calms (.setPhase nofun (Or.inl rfl))⟩
      next =>
        rw [← Except.ok.inj stepped]
        exact ⟨ok, alone⟩
  | recvAck cpu task channel =>
      obtain ⟨served, idle⟩ := admitted
      have before := AckPhase.answers_of_starts idle
      simp only [AckNet.step] at stepped
      split at stepped
      · rw [← Except.ok.inj stepped]
        exact ⟨ok.setPhase served.2.1 before trivial trivial,
          alone.calms (.setPhase nofun (Or.inl rfl))⟩
      · rw [← Except.ok.inj stepped]
        have free : ∀ receives, Matched receives (net.phases cpu task) := by
          intro receives
          cases isPhase : net.phases cpu task with
          | receiving | acknowledged call number mark =>
              rw [isPhase] at idle
              cases idle
          | _ => trivial
        have started := ok.turn served nofun nofun trivial (fun caller other same => by
          cases same
          exact free) rfl
        refine ⟨started.setPhase served.2.1 before trivial fun call receives => ?_,
          alone.calms ((Calms.turn (ok.cores cpu).tracked.serving served rfl nofun).trans
            (.setPhase nofun (Or.inl rfl)))⟩
        rw [Noc.hfRecv_channel (by simpa [AckNet.setCore] using receives)]
        exact keeping

end Run

def opens : NocOp → Bool
  | .create _ _ _ _ | .advance _ _ => true
  | _ => false

structure Opened (kernel : Kernel noc.toConfig) (core : Noc noc) : Prop where
  reached : Reaches Noc.step (fun op core => Noc.serves op core ∧ opens op = true)
    (.niInit kernel) core
  resting : ∀ task, core.resting task = true

structure Silent (core : Noc noc) : Prop where
  tracked : core.Tracked (table [])
  isr : core.isr = none
  receiving : ∀ task, core.receiving task = none
  mail : ∀ task, core.mail task = []

theorem Silent.step {core next : Noc noc} {op : NocOp} (silent : Silent core)
    (served : Noc.serves op core) (opens : opens op = true) (stepped : Noc.step op core = .ok next) :
    Silent next := by
  obtain ⟨codes, done⟩ := Noc.turn_of_step stepped
  have serving := silent.tracked.serving
  have notArrive : ∀ packet, op ≠ .arrive packet := by
    rintro packet rfl
    cases opens
  have keeps : Noc.keepsMessages op core := by
    cases op with
    | advance task address => simp [Noc.keepsMessages, silent.receiving task]
    | _ => trivial
  have both : ∀ task, next.receiving task = none ∧ next.mail task = [] := by
    intro task
    cases serving.seen served done task with
    | same receiving mail =>
        exact ⟨receiving.trans (silent.receiving task), mail.trans (silent.mail task)⟩
    | put running => simp [silent.isr] at running
    | started => cases opens
    | ended receiving mail => exact ⟨receiving, mail.trans (silent.mail task)⟩
    | stepped before => simp [silent.receiving task] at before
  constructor
  · exact silent.tracked.turn served (fun packet same => absurd same (notArrive packet)) keeps done
  · apply Option.eq_none_iff_forall_ne_some.mpr
    intro bufPtr running
    rcases serving.seen_isr served done running with ⟨before, _⟩ | arrived
    · simp [silent.isr] at before
    · exact notArrive _ arrived
  · exact fun task => (both task).1
  · exact fun task => (both task).2

theorem Opened.coreOk {kernel : Kernel noc.toConfig} {core : Noc noc} (opened : Opened kernel core)
    (cpu : UInt16) : CoreOk [] cpu core := by
  have silent : Silent core := by
    refine opened.reached.invariant Silent ⟨.niInit kernel, rfl, fun task => rfl, fun task => ?_⟩ ?_
    · simp [Noc.mail, Noc.cellsAt, Noc.niInit]
    · rintro op before after silent ⟨served, opens⟩ stepped
      exact silent.step served opens stepped
  refine ⟨silent.tracked, fun task => ?_, fun bufPtr running => ?_, fun task bufPtr member => ?_,
    fun task call receives => ?_, fun task call receives => ?_⟩
  · have resting := opened.resting task
    unfold Noc.resting at resting
    cases isCall : core.calls task <;> simp [isCall, CommCall.concerns] at resting ⊢
  · simp [silent.isr] at running
  · simp [silent.mail] at member
  · simp [silent.receiving] at receives
  · simp [silent.receiving] at receives

def start (cores : UInt16 → Noc noc) : AckNet noc := ⟨cores, fun _ _ => .idle, [], [], [], []⟩

theorem Opened.netOk {kernel : UInt16 → Kernel noc.toConfig} {cores : UInt16 → Noc noc}
    (opened : ∀ cpu, Opened (kernel cpu) (cores cpu)) : NetOk (start cores) := by
  refine ⟨fun cpu => (opened cpu).coreOk cpu, nofun, fun cpu task => trivial, fun cpu task => trivial,
    fun number message there => ?_, fun cpu task outside => rfl, nofun, nofun⟩
  simp [start] at there

/-- In every run in which the channel of the acknowledgements is left to them, no call takes a packet
of another message for its next one, and `hf_sendack` is called when nothing of an earlier message
of its port is under way: when `hf_sendack` returns `ERR_OK`, the target task has received the message
in a call of `hf_recvack`, and has completed that call unless it is still in its `hf_send`. -/
theorem acknowledged_truthful {kernel : UInt16 → Kernel noc.toConfig} {cores : UInt16 → Noc noc}
    {net : AckNet noc} (opened : ∀ cpu, Opened (kernel cpu) (cores cpu))
    (reached : Reaches AckNet.step (fun op net => net.admits op ∧ net.keeps op) (start cores) net) :
    ∀ entry ∈ net.log, Acknowledged.Heard net.receptions entry false ∧
      (entry.pausing = false → Acknowledged.Truthful net.receptions entry) := by
  have both : NetOk net ∧ Alone net := by
    refine reached.invariant (fun net => NetOk net ∧ Alone net) ⟨Opened.netOk opened, nofun⟩ ?_
    rintro op before after ⟨ok, alone⟩ ⟨admitted, keeping⟩ stepped
    exact ok.step alone admitted keeping stepped
  exact both.1.log

instance (op : AckOp) (net : AckNet noc) : Decidable (net.admits op) :=
  match op with
  | .core cpu .deliver => inferInstanceAs (Decidable (Noc.serves .deliver (net.cores cpu)))
  | .core cpu (.advance task address) =>
      inferInstanceAs (Decidable (Noc.serves (.advance task address) (net.cores cpu)))
  | .core _ (.arrive _) | .core _ (.recv _ _) | .core _ (.create _ _ _ _) | .core _ (.destroy _ _)
  | .core _ (.kernel _) => .isFalse nofun
  | .arrive place => inferInstanceAs (Decidable (∀ entry ∈ net.flying[place]?,
      Noc.serves (.arrive entry.2) (net.cores entry.1)))
  | .sendAck _ _ _ _ _ _ _ => inferInstanceAs (Decidable (_ ∧ _ ∧ _ ∧ _))
  | .recvAck _ _ _ => inferInstanceAs (Decidable (_ ∧ _))
  | .look cpu task => inferInstanceAs (Decidable (Noc.serves (.recv task ackChannel) (net.cores cpu)))
  | .write cpu _ | .giveUp cpu _ => inferInstanceAs (Decidable ((net.cores cpu).isr = none))

def keepsFirst : AckOp → AckNet noc → Prop
  | .core cpu (.advance task _), net => ∀ call ∈ (net.cores cpu).receiving task,
      call.KeepsTo ((net.cores cpu).mail task)
  | .sendAck cpu task _ _ _ _ channel, net => channel ≠ ackChannel ∧ ∀ message ∈ net.sent,
      (message.call.sourceCpu, message.call.sourcePort) ≠ (cpu, (net.cores cpu).pktdrvPorts task)
  | .recvAck _ _ channel, _ => channel ≠ ackChannel
  | _, _ => True

instance (op : AckOp) (net : AckNet noc) : Decidable (net.keepsFirst op) :=
  match op with
  | .core cpu (.advance task _) => inferInstanceAs (Decidable (∀ call ∈ (net.cores cpu).receiving task,
      call.KeepsTo ((net.cores cpu).mail task)))
  | .sendAck _ _ _ _ _ _ _ => inferInstanceAs (Decidable (_ ∧ _))
  | .recvAck _ _ channel => inferInstanceAs (Decidable (channel ≠ ackChannel))
  | .core _ .deliver | .core _ (.arrive _) | .core _ (.recv _ _) | .core _ (.create _ _ _ _)
  | .core _ (.destroy _ _) | .core _ (.kernel _) | .arrive _ | .look _ _ | .write _ _ | .giveUp _ _ =>
      .isTrue trivial

theorem keepsFirst_keeps {op : AckOp} {net : AckNet noc} (first : net.keepsFirst op) : net.keeps op := by
  cases op with
  | core cpu op =>
      cases op with
      | advance task address => exact first
      | _ => trivial
  | sendAck cpu task targetCpu targetPort buf size channel =>
      refine ⟨first.1, fun number _ isSource => ?_⟩
      obtain ⟨message, there, same⟩ := Option.map_eq_some_iff.mp isSource
      exact first.2 message (List.mem_of_getElem? there) same
  | recvAck cpu task channel => exact first
  | _ => trivial

def letters (cpu : UInt16) (first : Nat) : AckOp :=
  .sendAck cpu 1 2 5 (fun i => UInt8.ofNat (first + i)) 2 7

def transfer (cpu : UInt16) : List AckOp := [.arrive 0, .core cpu .deliver]

def works (cpu : UInt16) (count : Nat) : List AckOp := List.replicate count (.core cpu (.advance 1 0))

def answer : List AckOp :=
  transfer 2 ++ [.recvAck 2 1 7] ++ works 2 3 ++ [.write 2 1, .write 2 1]

def hears (cpu : UInt16) : List AckOp := transfer cpu ++ transfer cpu ++ [.look cpu 1] ++ works cpu 6

/-- Two cores send a message to a third one. The target ends its first call of `hf_recvack` before
the acknowledgement arrives, and is still in its second one when the second acknowledgement does. -/
def properRun : List AckOp :=
  [letters 1 65, .write 1 1, .write 1 1] ++ answer ++ [.write 2 1] ++ hears 1 ++
    [letters 3 67, .write 3 1, .write 3 1] ++ answer ++ hears 3

/-- The acknowledgement comes after the timeout, and the next call takes it. -/
def lateRun : List AckOp :=
  [letters 1 65, .write 1 1, .write 1 1, .giveUp 1 1] ++ answer ++ [.write 2 1] ++ transfer 1 ++ transfer 1 ++
    [letters 1 67, .write 1 1, .write 1 1, .look 1 1] ++ works 1 6

def openedCore : Noc Noc.smallNoc := Noc.workerCore [.create 1 1 5 0, .advance 1 256, .advance 1 0]

theorem openedCore_opened : Opened (Kernel.smallRun [.spawn Kernel.worker]) openedCore where
  reached := by
    unfold openedCore Noc.workerCore
    exact outcome_reaches _ _ (by decide) (by decide)
  resting := by
    intro task
    obtain ⟨first, second, third, calls⟩ : ∃ first second third, openedCore.calls =
        Function.update (Function.update (Function.update (fun _ => .idle) 1 first) 1 second) 1 third :=
      ⟨_, _, _, rfl⟩
    by_cases here : task = 1
    · rw [here]
      rfl
    · simp [Noc.resting, calls, here]

def acked (ops : List AckOp) : AckNet Noc.smallNoc := outcome AckNet.step ops (start fun _ => openedCore)

theorem acknowledged_truthful_proper :
    ∃ first second, (acked properRun).log = [first, second] ∧
      first.pausing = false ∧ Acknowledged.Truthful (acked properRun).receptions first ∧
      second.pausing = true ∧ Acknowledged.Heard (acked properRun).receptions second false := by
  obtain ⟨first, second, isLog⟩ : ∃ first second, (acked properRun).log = [first, second] := ⟨_, _, rfl⟩
  have reached : Reaches AckNet.step (fun op net => net.admits op ∧ net.keepsFirst op)
      (start fun _ => openedCore) (acked properRun) := outcome_reaches _ _ (by decide) (by decide)
  have truthful := acknowledged_truthful (fun _ => openedCore_opened)
    (reached.mono fun op net both => ⟨both.1, keepsFirst_keeps both.2⟩)
  have pauses : (acked properRun).log.map Acknowledged.pausing = [false, true] := by decide
  rw [isLog] at truthful pauses
  obtain ⟨ended, paused⟩ : first.pausing = false ∧ second.pausing = true := by simpa using pauses
  refine ⟨first, second, isLog, ended, ?_, paused, ?_⟩
  · exact (truthful first List.mem_cons_self).2 ended
  · exact (truthful second (List.mem_cons_of_mem _ List.mem_cons_self)).1

/-- A late acknowledgement is taken for the one of the next message, and a call of `hf_sendack` may
return while its target is still in `hf_recvack`. -/
theorem acknowledged_late :
    ∃ (kernel : UInt16 → Kernel Noc.smallNoc.toConfig) (cores : UInt16 → Noc Noc.smallNoc)
      (late early : AckNet Noc.smallNoc), (∀ cpu, Opened (kernel cpu) (cores cpu)) ∧
      Reaches AckNet.step (fun op net => net.admits op) (start cores) late ∧
      Reaches AckNet.step (fun op net => net.admits op) (start cores) early ∧
      (∃ entry ∈ late.log, ∀ completed, ¬Acknowledged.Heard late.receptions entry completed) ∧
      ∃ entry ∈ early.log, ¬Acknowledged.Truthful early.receptions entry := by
  refine ⟨_, _, acked lateRun, acked properRun, fun _ => openedCore_opened,
    outcome_reaches _ _ (by decide) (by decide), outcome_reaches _ _ (by decide) (by decide), ?_, ?_⟩
  · obtain ⟨entry, isLog⟩ : ∃ entry, (acked lateRun).log = [entry] := ⟨_, rfl⟩
    refine ⟨entry, by rw [isLog]; exact List.mem_cons_self, ?_⟩
    rintro completed ⟨place, reception, after, before, _⟩
    have marks : ∀ entry ∈ (acked lateRun).log, entry.mark = 2 ∧ entry.upto = 2 := by decide
    obtain ⟨mark, upto⟩ := marks entry (by rw [isLog]; exact List.mem_cons_self)
    omega
  · obtain ⟨first, second, isLog⟩ : ∃ first second, (acked properRun).log = [first, second] := ⟨_, _, rfl⟩
    refine ⟨second, by rw [isLog]; exact List.mem_cons_of_mem _ List.mem_cons_self, ?_⟩
    rintro ⟨place, reception, after, before, there, isCompleted, _⟩
    have marks : (acked properRun).log.map Acknowledged.mark = [0, 2] ∧
        (acked properRun).log.map Acknowledged.upto = [2, 3] := by decide
    rw [isLog] at marks
    have counts : (first.mark = 0 ∧ second.mark = 2) ∧ first.upto = 2 ∧ second.upto = 3 := by
      simpa using marks
    obtain rfl : place = 2 := by omega
    have going : (acked properRun).receptions[2]?.map Reception.completed = some false := by decide
    rw [there] at going
    simp [isCompleted] at going

end AckNet

end Hellfire

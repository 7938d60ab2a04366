import Mathlib.Data.List.Rotate
import Hellfire.NocTraffic

/-!
One receiving task and one sender for each channel: when `hf_recv` keeps the channels apart and
returns the messages of each channel in the order in which they were sent.
-/

namespace Hellfire

open Machine

theorem zipIdx_increasing {α : Type} (l : List α) : ∀ k, (l.zipIdx k).Pairwise fun a b => a.2 < b.2 := by
  induction l with
  | nil => exact fun _ => List.Pairwise.nil
  | cons head rest ih =>
      intro k
      rw [List.zipIdx_cons]
      refine List.pairwise_cons.mpr ⟨fun later member => ?_, ih (k + 1)⟩
      have := List.le_snd_of_mem_zipIdx member
      simp only
      omega

theorem stream_sorted {noc : NocConfig} (sender : Nat) (sent : List SendCall) :
    (stream noc sender sent).Pairwise fun p q => p.origin.message < q.origin.message ∨
      p.origin.message = q.origin.message ∧ p.origin.index < q.origin.index := by
  refine List.pairwise_flatMap.mpr ⟨?_, ?_⟩
  · rintro ⟨call, message⟩ _
    refine List.pairwise_map.mpr ((zipIdx_increasing _ 0).imp ?_)
    exact fun earlier => Or.inr ⟨rfl, earlier⟩
  · refine (zipIdx_increasing _ 0).imp ?_
    rintro ⟨call, message⟩ ⟨call', message'⟩ earlier p inP q inQ
    obtain ⟨_, _, rfl⟩ := List.mem_map.mp inP
    obtain ⟨_, _, rfl⟩ := List.mem_map.mp inQ
    exact Or.inl earlier

theorem stream_earlier {noc : NocConfig} {sender : Nat} {sent : List SendCall} {i j : Nat}
    {p q : Packet} (atI : (stream noc sender sent)[i]? = some p)
    (atJ : (stream noc sender sent)[j]? = some q) (before : i < j) (first : q.origin.index = 0) :
    p.origin.message < q.origin.message := by
  obtain ⟨boundI, rfl⟩ := List.getElem?_eq_some_iff.mp atI
  obtain ⟨boundJ, rfl⟩ := List.getElem?_eq_some_iff.mp atJ
  rcases List.pairwise_iff_getElem.mp (stream_sorted sender sent) i j boundI boundJ before with
    earlier | ⟨_, less⟩
  · exact earlier
  · omega

def Packet.Differs (p q : Packet) : Prop :=
  p.origin.sender = q.origin.sender → p.origin.index = 0 → q.origin.index = 0 →
    p.origin.message ≠ q.origin.message

theorem Packet.Differs.symm {p q : Packet} (differs : p.Differs q) : q.Differs p :=
  fun sender first second same => differs sender.symm second first same.symm

structure Sequenced (noc : NocConfig) (sent : Nat → List SendCall) (stock : List Packet)
    (arrived : Nat → Nat) (numbers : UInt16 → List Nat) : Prop where
  sorted : ∀ channel, (numbers channel).Pairwise (· < ·)
  distinct : stock.Pairwise Packet.Differs
  taken : ∀ channel, ∀ number ∈ numbers channel, ∀ p ∈ stock, p.origin.sender = channel.toNat →
    p.origin.index = 0 → number < p.origin.message
  coming : ∀ p ∈ stock, ∀ k, arrived p.origin.sender ≤ k →
    ∀ q ∈ (stream noc p.origin.sender (sent p.origin.sender))[k]?, q.origin.index = 0 →
      p.origin.message < q.origin.message
  later : ∀ channel, ∀ number ∈ numbers channel, ∀ k, arrived channel.toNat ≤ k →
    ∀ q ∈ (stream noc channel.toNat (sent channel.toNat))[k]?, q.origin.index = 0 →
      number < q.origin.message

namespace Sequenced

variable {noc : NocConfig} {sent : Nat → List SendCall} {stock stock' : List Packet}
  {arrived : Nat → Nat} {numbers numbers' : UInt16 → List Nat}

theorem narrow (sequenced : Sequenced noc sent stock arrived numbers) (fewer : stock'.Subperm stock)
    (less : ∀ channel, (numbers' channel).Sublist (numbers channel)) :
    Sequenced noc sent stock' arrived numbers' := by
  obtain ⟨kept, perm, sublist⟩ := fewer
  have inside : ∀ p ∈ stock', p ∈ stock := fun p member => sublist.subset (perm.mem_iff.mpr member)
  have before : ∀ channel, ∀ number ∈ numbers' channel, number ∈ numbers channel :=
    fun channel number member => (less channel).subset member
  refine ⟨fun channel => (sequenced.sorted channel).sublist (less channel),
    perm.pairwise (sequenced.distinct.sublist sublist) Packet.Differs.symm,
    fun channel number member p inStock => ?_, fun p inStock => ?_, fun channel number member => ?_⟩
  · exact sequenced.taken channel number (before channel number member) p (inside p inStock)
  · exact sequenced.coming p (inside p inStock)
  · exact sequenced.later channel number (before channel number member)

theorem arrive (sequenced : Sequenced noc sent stock arrived numbers) {p : Packet}
    (isNext : (stream noc p.origin.sender (sent p.origin.sender))[arrived p.origin.sender]? = some p) :
    Sequenced noc sent (stock ++ [p])
      (Function.update arrived p.origin.sender (arrived p.origin.sender + 1)) numbers := by
  have grows : ∀ sender k,
      Function.update arrived p.origin.sender (arrived p.origin.sender + 1) sender ≤ k →
      arrived sender ≤ k := by
    intro sender k bound
    by_cases same : sender = p.origin.sender
    · rw [same, Function.update_self] at bound
      rw [same]
      omega
    · rwa [Function.update_of_ne same] at bound
  refine ⟨sequenced.sorted, ?_, fun channel number member q inStock sender first => ?_,
    fun q inStock k bound later isLater first => ?_, fun channel number member k bound => ?_⟩
  · refine List.pairwise_append.mpr ⟨sequenced.distinct, List.pairwise_singleton _ _, ?_⟩
    intro q inStock last isLast same firstQ firstP
    rw [List.mem_singleton.mp isLast] at same firstP ⊢
    have earlier := sequenced.coming q inStock (arrived p.origin.sender) (by rw [same]) p
      (by rw [same]; exact isNext) firstP
    omega
  · rcases List.mem_append.mp inStock with old | new
    · exact sequenced.taken channel number member q old sender first
    · rw [List.mem_singleton.mp new] at sender first ⊢
      exact sequenced.later channel number member (arrived p.origin.sender) (by rw [sender]) p
        (by rw [← sender]; exact isNext) first
  · rcases List.mem_append.mp inStock with old | new
    · exact sequenced.coming q old k (grows _ k bound) later isLater first
    · rw [List.mem_singleton.mp new] at bound isLater ⊢
      rw [Function.update_self] at bound
      exact stream_earlier isNext isLater (by omega) first
  · exact sequenced.later channel number member k (grows _ k bound)

theorem claim {rest : List Packet} {p : Packet} {channel : UInt16}
    (sequenced : Sequenced noc sent (p :: rest) arrived numbers)
    (sender : p.origin.sender = channel.toNat) (first : p.origin.index = 0)
    (oldest : ∀ q ∈ rest, q.origin.sender = p.origin.sender → q.origin.index = 0 →
      p.origin.message ≤ q.origin.message) :
    Sequenced noc sent rest arrived
      (Function.update numbers channel (numbers channel ++ [p.origin.message])) := by
  have member_cases : ∀ other number,
      number ∈ Function.update numbers channel (numbers channel ++ [p.origin.message]) other →
      number ∈ numbers other ∨ other = channel ∧ number = p.origin.message := by
    intro other number member
    by_cases same : other = channel
    · rw [same, Function.update_self] at member
      rcases List.mem_append.mp member with old | new
      · exact Or.inl (same ▸ old)
      · exact Or.inr ⟨same, List.mem_singleton.mp new⟩
    · rw [Function.update_of_ne same] at member
      exact Or.inl member
  obtain ⟨differs, distinct⟩ := List.pairwise_cons.mp sequenced.distinct
  refine ⟨fun other => ?_, distinct, fun other number member q inRest from' first' => ?_,
    fun q inRest => sequenced.coming q (List.mem_cons_of_mem _ inRest),
    fun other number member k bound q isLater first' => ?_⟩
  · by_cases same : other = channel
    · rw [same, Function.update_self]
      refine List.pairwise_append.mpr ⟨sequenced.sorted channel, List.pairwise_singleton _ _, ?_⟩
      intro number member last isLast
      rw [List.mem_singleton.mp isLast]
      exact sequenced.taken channel number member p List.mem_cons_self sender first
    · rw [Function.update_of_ne same]
      exact sequenced.sorted other
  · rcases member_cases other number member with old | ⟨rfl, rfl⟩
    · exact sequenced.taken other number old q (List.mem_cons_of_mem _ inRest) from' first'
    · have same : q.origin.sender = p.origin.sender := from'.trans sender.symm
      have least := oldest q inRest same first'
      have other := differs q inRest same.symm first first'
      omega
  · rcases member_cases other number member with old | ⟨rfl, rfl⟩
    · exact sequenced.later other number old k bound q isLater first'
    · rw [← sender] at bound isLater
      exact sequenced.coming p List.mem_cons_self k bound q isLater first'

end Sequenced

def RecvPoint.first : RecvPoint → Bool
  | .searchFirst | .turnFirst | .takeFirst => true
  | _ => false

namespace RecvCall

variable {noc : NocConfig} {call : RecvCall} {queue : List Buffer} {next : MailStep}

/-- The call is about to take a further packet that it waits for. -/
def AimedNext (call : RecvCall) (queue : List Buffer) : Prop :=
  call.point = .takeNext →
    ∃ bufPtr rest, queue = bufPtr :: rest ∧ call.awaits call.seq.toNat (some bufPtr) = true

/-- The bounded search does not give up on a packet that the call does not wait for. -/
def SearchesOn (noc : NocConfig) (call : RecvCall) (queue : List Buffer) : Prop :=
  call.point = .turnNext → noc.nocPacketSlots <<< 3 < call.i →
    ∀ bufPtr ∈ (queue.rotate 1).head?, call.awaits call.seq.toNat (some bufPtr) = true

/-- The first packet that is taken belongs to the oldest message of the channel in the queue. -/
def TakesOldest (call : RecvCall) (queue : List Buffer) : Prop :=
  call.point = .takeFirst → ∀ head ∈ queue.head?, ∀ bufPtr ∈ queue,
    bufPtr.flit pktChannel = call.channel → bufPtr.flit pktSeq = 1 →
      head.packet.origin.message ≤ bufPtr.packet.origin.message

structure Started (call : RecvCall) : Prop where
  taken : call.taken ≠ []
  point : call.point.first = false

theorem AimedNext.append (aimed : call.AimedNext queue) (more : List Buffer) :
    call.AimedNext (queue ++ more) := by
  intro taking
  obtain ⟨bufPtr, rest, rfl, awaited⟩ := aimed taking
  exact ⟨bufPtr, rest ++ more, rfl, awaited⟩

theorem mailStep_aimedNext (searches : call.SearchesOn noc queue)
    (stepped : call.mailStep noc queue = some next) : next.call.AimedNext next.queue := by
  have proceeds : ∀ (taken : RecvCall) (bufPtr : Buffer) (rest : List Buffer),
      (taken.proceed bufPtr).AimedNext rest := by
    intro taken bufPtr rest taking
    rcases proceed_point taken bufPtr with point | point
    · simp [point] at taking
    · simp [point] at taking
  cases mailStep_mails stepped with
  | stays resting =>
      intro taking
      rw [show call.point = .takeNext from taking] at resting
      simp at resting
  | searchFirst =>
      intro taking
      simp only at taking
      split at taking
      · cases taking
      · cases taking
  | @searchNext bufPtr rest =>
      intro taking
      simp only at taking
      split at taking
      · rename_i awaited
        exact ⟨bufPtr, rest, rfl, awaited⟩
      · cases taking
  | @turnNext bufPtr rest point =>
      intro taking
      simp only at taking
      split at taking
      · rename_i expired
        have awaited := searches point expired
        rw [List.rotate_cons_succ, List.rotate_zero] at awaited
        cases turned : rest ++ [bufPtr] with
        | nil => simp at turned
        | cons head others =>
            rw [turned] at awaited
            exact ⟨head, others, rfl, awaited head rfl⟩
      · cases taking
  | takeFirst | takeNext => exact proceeds _ _ _
  | turnFirst | store | finish => simp [AimedNext]

theorem mailStep_later (later : call.point.first = false)
    (stepped : call.mailStep noc queue = some next) : next.call.point.first = false := by
  have proceeds : ∀ (taken : RecvCall) (bufPtr : Buffer), (taken.proceed bufPtr).point.first = false := by
    intro taken bufPtr
    rcases proceed_point taken bufPtr with point | point
    · rw [point]
      rfl
    · rw [point]
      rfl
  cases mailStep_mails stepped with
  | stays => exact later
  | searchFirst point | turnFirst point => simp [point, RecvPoint.first] at later
  | takeFirst | takeNext => exact proceeds _ _
  | searchNext | turnNext =>
      simp only
      split
      · rfl
      · rfl
  | store | finish => rfl

theorem Begins.first (begins : call.Begins) : call.point.first = true := by
  rcases begins.1 with point | point | point
  · rw [point]
    rfl
  · rw [point]
    rfl
  · rw [point]
    rfl

theorem Begins.taken (begins : call.Begins) : call.taken = [] := by
  rw [begins.2]
  rfl

theorem mailStep_started (phase : call.Begins ∨ call.Started)
    (stepped : call.mailStep noc queue = some next) : next.call.Begins ∨ next.call.Started := by
  rcases mailStep_cases stepped with ⟨_, ⟨taken, _, notFirst, _⟩ | ⟨bufPtr, rest, _, _, _, taken, held⟩⟩
  · rcases phase with begins | started
    · exact Or.inl (begins.mailStep notFirst stepped)
    · exact Or.inr ⟨by rw [taken]; exact started.taken, mailStep_later started.point stepped⟩
  · refine Or.inr ⟨by simp [taken], ?_⟩
    cases point : next.call.point with
    | store _ | finish _ => rfl
    | _ => simp [point, RecvPoint.held] at held

end RecvCall

namespace Traffic

variable {noc : NocConfig} {sent : Nat → List SendCall} {traffic traffic' : Traffic noc} {task : Nat}

def receivesOnly (task : Nat) : TrafficOp → Prop
  | .core (.recv caller _) => caller = task
  | _ => True

/-- The searches of `hf_recv` end on the awaited packets of the oldest message. -/
def keepsOrder : TrafficOp → Traffic noc → Prop
  | .core (.advance task _), traffic => ∀ call ∈ traffic.core.receiving task,
      call.KeepsTo (traffic.core.mail task) ∧ call.SearchesOn noc (traffic.core.mail task) ∧
        call.TakesOldest (traffic.core.mail task)
  | _, _ => True

/-- The messages that were returned from a channel are as sent and in the order of their
numbers. -/
def InOrder (sent : Nat → List SendCall) (log : List (Nat × RecvCall)) (channel : UInt16) : Prop :=
  ∃ numbers : List Nat, numbers.Pairwise (· < ·) ∧
    List.Forall₂ (fun entry number => ∃ call, (sent channel.toNat)[number]? = some call ∧
      RecvCall.Holds call entry.2) (log.filter fun entry => entry.2.channel = channel) numbers

def numbersOf (calls : List RecvCall) (channel : UInt16) : List Nat :=
  (calls.filter fun call => call.channel = channel).filterMap RecvCall.number

def openCall (core : Noc noc) (task : Nat) : List RecvCall :=
  (core.receiving task).toList.filter fun call => call.point ≠ .returned

def stock (core : Noc noc) (task : Nat) : List Packet :=
  (core.mail task ++ core.isr.toList).map Buffer.packet

structure Ordered (sent : Nat → List SendCall) (task : Nat) (traffic : Traffic noc) : Prop where
  tracked : traffic.core.Tracked (table sent)
  alone : ∀ other, other ≠ task → traffic.core.receiving other = none
  phase : ∀ call, traffic.core.receiving task = some call → call.Begins ∨ call.Started
  aimed : ∀ call, traffic.core.receiving task = some call →
    call.AimedNext (traffic.core.mail task)
  own : ∀ call, traffic.core.receiving task = some call →
    ∀ origin ∈ call.taken, origin.sender = call.channel.toNat
  sequenced : Sequenced noc sent (stock traffic.core task) traffic.arrived
    (numbersOf (traffic.log.map Prod.snd ++ openCall traffic.core task))
  logged : ∀ entry ∈ traffic.log, ∃ message call,
    (sent entry.2.channel.toNat)[message]? = some call ∧ entry.2.Holds call ∧
      entry.2.number = some message

theorem genuine_channel (channels : ∀ sender, ∀ call ∈ sent sender, call.channel.toNat = sender)
    {bufPtr : Buffer} (genuine : bufPtr.packet.Genuine noc (table sent)) :
    (bufPtr.flit pktChannel).toNat = bufPtr.packet.origin.sender := by
  obtain ⟨call, there, _, flits⟩ := genuine
  rw [SendCall.piece_channel flits]
  exact channels _ call (List.mem_of_getElem? there)

theorem genuine_first {bufPtr : Buffer} (genuine : bufPtr.packet.Genuine noc (table sent)) :
    bufPtr.packet.origin.index = 0 ↔ (bufPtr.flit pktSeq).toNat = 1 := by
  obtain ⟨call, _, bound, flits⟩ := genuine
  have counted := SendCall.piece_seq_toNat flits bound
  omega

theorem inOrder_of_ordered (ordered : Ordered sent task traffic) (channel : UInt16) :
    InOrder sent traffic.log channel := by
  refine ⟨numbersOf (traffic.log.map Prod.snd) channel, ?_, ?_⟩
  · have sorted := ordered.sequenced.sorted channel
    unfold numbersOf at sorted ⊢
    rw [List.filter_append, List.filterMap_append] at sorted
    exact sorted.sublist (List.sublist_append_left _ _)
  · have logged := ordered.logged
    generalize traffic.log = log at logged
    induction log with
    | nil => exact List.Forall₂.nil
    | cons entry rest ih =>
        obtain ⟨message, call, there, holds, isNumber⟩ := logged entry List.mem_cons_self
        have others := ih fun later member => logged later (List.mem_cons_of_mem _ member)
        by_cases same : entry.2.channel = channel
        · rw [same] at there
          have more : numbersOf ((entry :: rest).map Prod.snd) channel =
              message :: numbersOf (rest.map Prod.snd) channel := by
            simp [numbersOf, same, isNumber]
          rw [more, List.filter_cons_of_pos (by simpa using same)]
          exact List.Forall₂.cons ⟨call, there, holds⟩ others
        · have less : numbersOf ((entry :: rest).map Prod.snd) channel =
              numbersOf (rest.map Prod.snd) channel := by
            simp [numbersOf, same]
          rw [less, List.filter_cons_of_neg (by simpa using same)]
          exact others

theorem numbersOf_append (calls more : List RecvCall) (channel : UInt16) :
    numbersOf (calls ++ more) channel = numbersOf calls channel ++ numbersOf more channel := by
  unfold numbersOf
  rw [List.filter_append, List.filterMap_append]

theorem Ordered.start (kernel : Kernel noc.toConfig) :
    Ordered sent task (Traffic.start kernel : Traffic noc) := by
  have silent : ∀ other, (Noc.niInit kernel : Noc noc).receiving other = none := fun _ => rfl
  refine ⟨.niInit kernel, fun other _ => silent other, fun call receives => ?_, fun call receives => ?_,
    fun call receives => ?_, ?_, by simp [Traffic.start]⟩
  · cases receives
  · cases receives
  · cases receives
  · refine ⟨fun channel => List.Pairwise.nil, List.Pairwise.nil, fun _ _ member => ?_,
      fun _ member => ?_, fun _ _ member => ?_⟩
    · cases member
    · cases member
    · cases member

theorem resting_receiving {core : Noc noc} {call : RecvCall} (receives : core.receiving task = some call)
    (busy : core.resting task = false) : call.point ≠ .returned := by
  unfold Noc.receiving at receives
  cases isCall : core.calls task with
  | recv found =>
      simp only [isCall, Option.some.injEq] at receives
      rw [← receives]
      simpa [Noc.resting, isCall] using busy
  | _ => simp [isCall] at receives

theorem alone_step {core next : Noc noc} {op : NocOp}
    (alone : ∀ other, other ≠ task → core.receiving other = none)
    (only : ∀ caller channel, op = .recv caller channel → caller = task)
    (seen : ∀ other, Noc.Seen core next other op) :
    ∀ other, other ≠ task → next.receiving other = none := by
  intro other away
  cases seen other with
  | same receiving _ => exact receiving.trans (alone other away)
  | put _ _ receiving _ => exact receiving.trans (alone other away)
  | started _ _ => exact absurd (only _ _ rfl) away
  | ended receiving _ => exact receiving
  | stepped before _ _ _ =>
      rw [alone other away] at before
      cases before

theorem returns_nil {core : Noc noc} {op : NocOp}
    (open' : ∀ caller address, op = .advance caller address →
      ∀ call, core.receiving caller = some call → call.point ≠ .returned) : returns op core = [] := by
  cases op with
  | advance caller address =>
      cases receives : core.receiving caller with
      | none => simp only [returns, receives]
      | some call =>
          have unfinished := open' caller address rfl call receives
          simp only [returns, receives, unfinished, false_and, if_false]
  | _ => rfl

theorem Ordered.quiet (ordered : Ordered sent task traffic)
    (tracked : traffic'.core.Tracked (table sent))
    (alone : ∀ other, other ≠ task → traffic'.core.receiving other = none)
    (receiving : traffic'.core.receiving task = traffic.core.receiving task ∨
      traffic'.core.receiving task = none ∨
      ∃ channel, traffic'.core.receiving task = some (.start channel))
    (mail : ∃ more, traffic'.core.mail task = traffic.core.mail task ++ more)
    (log : traffic'.log = traffic.log)
    (sequenced : ∀ numbers, (∀ channel, (numbers channel).Sublist
        (numbersOf (traffic.log.map Prod.snd ++ openCall traffic.core task) channel)) →
      Sequenced noc sent (stock traffic'.core task) traffic'.arrived numbers) :
    Ordered sent task traffic' := by
  obtain ⟨more, mail⟩ := mail
  have cases' : ∀ call, traffic'.core.receiving task = some call →
      traffic.core.receiving task = some call ∨ ∃ channel, call = .start channel := by
    intro call receives
    rcases receiving with same | none | ⟨channel, started⟩
    · exact Or.inl (same.symm.trans receives)
    · rw [none] at receives
      cases receives
    · rw [started, Option.some.injEq] at receives
      exact Or.inr ⟨channel, receives.symm⟩
  refine ⟨tracked, alone, fun call receives => ?_, fun call receives => ?_, fun call receives => ?_,
    sequenced _ fun channel => ?_, by rw [log]; exact ordered.logged⟩
  · rcases cases' call receives with before | ⟨channel, rfl⟩
    · exact ordered.phase call before
    · exact Or.inl (RecvCall.start_begins channel)
  · rcases cases' call receives with before | ⟨channel, rfl⟩
    · rw [mail]
      exact (ordered.aimed call before).append more
    · simp [RecvCall.AimedNext, RecvCall.start]
  · rcases cases' call receives with before | ⟨channel, rfl⟩
    · exact ordered.own call before
    · simp [RecvCall.start]
  · rw [log, numbersOf_append, numbersOf_append]
    refine List.Sublist.append_left ?_ _
    rcases receiving with same | none | ⟨other, started⟩
    · unfold openCall
      rw [same]
    · simp [openCall, none, numbersOf]
    · have silent : numbersOf (openCall traffic'.core task) channel = [] := by
        simp only [openCall, started, Option.toList, numbersOf]
        refine List.filterMap_eq_nil_iff.mpr fun call member => ?_
        have isStart := List.mem_singleton.mp (List.mem_filter.mp (List.mem_filter.mp member).1).1
        rw [isStart]
        rfl
      rw [silent]
      exact List.nil_sublist _

theorem Ordered.takes_own (ordered : Ordered sent task traffic)
    (channels : ∀ sender, ∀ call ∈ sent sender, call.channel.toNat = sender) {call : RecvCall}
    {bufPtr : Buffer} {rest : List Buffer} (receives : traffic.core.receiving task = some call)
    (mail : traffic.core.mail task = bufPtr :: rest)
    (taking : call.point = .takeFirst ∨ call.point = .takeNext) :
    bufPtr.packet.origin.sender = call.channel.toNat := by
  have genuine := ordered.tracked.queued task bufPtr (by rw [mail]; exact List.mem_cons_self)
  have onChannel : bufPtr.flit pktChannel = call.channel := by
    rcases taking with first | next
    · obtain ⟨head, others, isMail, awaited⟩ := ordered.tracked.serving.aimed task call receives first
      obtain ⟨rfl, _⟩ := List.cons.inj (mail.symm.trans isMail)
      simp only [RecvCall.awaits, Bool.and_eq_true, decide_eq_true_eq] at awaited
      exact awaited.1
    · obtain ⟨head, others, isMail, awaited⟩ := ordered.aimed call receives next
      obtain ⟨rfl, _⟩ := List.cons.inj (mail.symm.trans isMail)
      simp only [RecvCall.awaits, Bool.and_eq_true, decide_eq_true_eq] at awaited
      exact awaited.1
  rw [← genuine_channel channels genuine, onChannel]

theorem Ordered.takes_oldest (ordered : Ordered sent task traffic)
    (channels : ∀ sender, ∀ call ∈ sent sender, call.channel.toNat = sender) {call : RecvCall}
    {bufPtr : Buffer} {rest : List Buffer} (receives : traffic.core.receiving task = some call)
    (mail : traffic.core.mail task = bufPtr :: rest) (taking : call.point = .takeFirst)
    (oldest : call.TakesOldest (traffic.core.mail task)) :
    bufPtr.packet.origin.index = 0 ∧ ∀ other ∈ rest, other.packet.origin.sender =
      bufPtr.packet.origin.sender → other.packet.origin.index = 0 →
        bufPtr.packet.origin.message ≤ other.packet.origin.message := by
  have genuine : ∀ other ∈ bufPtr :: rest, other.packet.Genuine noc (table sent) := by
    intro other member
    exact ordered.tracked.queued task other (by rw [mail]; exact member)
  have sender := ordered.takes_own channels receives mail (Or.inl taking)
  constructor
  · apply (genuine_first (genuine bufPtr List.mem_cons_self)).mpr
    obtain ⟨head, others, isMail, awaited⟩ := ordered.tracked.serving.aimed task call receives taking
    obtain ⟨rfl, _⟩ := List.cons.inj (mail.symm.trans isMail)
    have fresh : call.seq = 0 := by
      rcases ordered.phase call receives with begins | started
      · rw [begins.2]
        rfl
      · have later := started.point
        rw [taking] at later
        cases later
    simp only [RecvCall.awaits, fresh, Bool.and_eq_true, decide_eq_true_eq] at awaited
    exact awaited.2
  · intro other member same first
    have inMail := List.mem_cons_of_mem bufPtr member
    have isGenuine := genuine other inMail
    apply oldest taking bufPtr (by rw [mail]; rfl) other (by rw [mail]; exact inMail)
    · apply UInt16.toNat_inj.mp
      rw [genuine_channel channels isGenuine, same, sender]
    · apply UInt16.toNat_inj.mp
      exact (genuine_first isGenuine).mp first

theorem numbersOf_singleton (call : RecvCall) (channel : UInt16) :
    numbersOf [call] channel = if call.channel = channel then call.number.toList else [] := by
  unfold numbersOf
  by_cases same : call.channel = channel
  · rw [List.filter_cons_of_pos (by simpa using same), if_pos same]
    cases isNumber : call.number with
    | none => simp [isNumber]
    | some message => simp [isNumber]
  · rw [List.filter_cons_of_neg (by simpa using same), if_neg same]
    rfl

theorem Ordered.sequenced_step (ordered : Ordered sent task traffic)
    (channels : ∀ sender, ∀ call ∈ sent sender, call.channel.toNat = sender) {call : RecvCall}
    {step : MailStep} (receives : traffic.core.receiving task = some call)
    (unfinished : call.point ≠ .returned) (idle : traffic.core.isr = none)
    (oldest : call.TakesOldest (traffic.core.mail task))
    (stepped : call.mailStep noc (traffic.core.mail task) = some step) :
    Sequenced noc sent (step.queue.map Buffer.packet) traffic.arrived
      (numbersOf (traffic.log.map Prod.snd ++ [step.call])) := by
  have before : openCall traffic.core task = [call] := by
    simp [openCall, receives, unfinished]
  have sequenced := ordered.sequenced
  rw [before] at sequenced
  have isStock : stock traffic.core task = (traffic.core.mail task).map Buffer.packet := by
    simp [stock, idle]
  rw [isStock] at sequenced
  obtain ⟨channel, ⟨taken, perm, _, _⟩ | ⟨bufPtr, rest, isMail, taking, isRest, taken, _⟩⟩ :=
    RecvCall.mailStep_cases stepped
  · refine sequenced.narrow (perm.map Buffer.packet).subperm fun other => ?_
    rw [numbersOf_append, numbersOf_append, numbersOf_singleton, numbersOf_singleton, channel]
    unfold RecvCall.number
    rw [taken]
  · rw [isMail, List.map_cons] at sequenced
    rw [isRest]
    rcases taking with first | later
    · have empty : call.taken = [] := by
        rcases ordered.phase call receives with begins | started
        · exact begins.taken
        · have point := started.point
          rw [first] at point
          cases point
      obtain ⟨index, least⟩ := ordered.takes_oldest channels receives isMail first oldest
      have claimed := sequenced.claim (ordered.takes_own channels receives isMail (Or.inl first)) index
        (by simpa using least)
      refine claimed.narrow (List.Subperm.refl _) fun other => ?_
      rw [numbersOf_append, numbersOf_singleton, channel]
      by_cases same : call.channel = other
      · rw [if_pos same, ← same, Function.update_self, numbersOf_append, numbersOf_singleton, if_pos rfl]
        simp [RecvCall.number, empty, taken]
      · rw [if_neg same, Function.update_of_ne (Ne.symm same), numbersOf_append]
        simp
    · have some : call.taken ≠ [] := by
        rcases ordered.phase call receives with begins | started
        · have point := begins.first
          rw [later] at point
          cases point
        · exact started.taken
      refine sequenced.narrow (List.sublist_cons_self _ _).subperm fun other => ?_
      rw [numbersOf_append, numbersOf_append, numbersOf_singleton, numbersOf_singleton, channel]
      unfold RecvCall.number
      rw [taken, List.head?_append_of_ne_nil _ some]

theorem Ordered.stepped (ordered : Ordered sent task traffic)
    (channels : ∀ sender, ∀ call ∈ sent sender, call.channel.toNat = sender) {address : Nat}
    {call : RecvCall} {step : MailStep} (tracked : traffic'.core.Tracked (table sent))
    (alone : ∀ other, other ≠ task → traffic'.core.receiving other = none)
    (receives : traffic.core.receiving task = some call) (unfinished : call.point ≠ .returned)
    (idle : traffic.core.isr = none) (idle' : traffic'.core.isr = none)
    (searches : call.SearchesOn noc (traffic.core.mail task))
    (oldest : call.TakesOldest (traffic.core.mail task))
    (stepped : call.mailStep noc (traffic.core.mail task) = some step)
    (receiving : traffic'.core.receiving task = some step.call)
    (mail : traffic'.core.mail task = step.queue) (arrived : traffic'.arrived = traffic.arrived)
    (log : traffic'.log = traffic.log ++ returns (.advance task address) traffic'.core) :
    Ordered sent task traffic' := by
  have isReturns : returns (.advance task address) traffic'.core =
      if step.call.point = .returned ∧ step.call.error = errOk then [(task, step.call)] else [] := by
    simp only [returns, receiving]
  have own' : ∀ origin ∈ step.call.taken, origin.sender = step.call.channel.toNat := by
    intro origin member
    obtain ⟨channel, ⟨taken, _⟩ | ⟨bufPtr, rest, isMail, taking, _, taken, _⟩⟩ :=
      RecvCall.mailStep_cases stepped
    · rw [taken] at member
      rw [channel]
      exact ordered.own call receives origin member
    · rw [taken] at member
      rw [channel]
      rcases List.mem_append.mp member with old | new
      · exact ordered.own call receives origin old
      · rw [List.mem_singleton.mp new]
        exact ordered.takes_own channels receives isMail taking
  refine ⟨tracked, alone, fun after isAfter => ?_, fun after isAfter => ?_, fun after isAfter => ?_, ?_,
    fun entry member => ?_⟩
  · obtain rfl : step.call = after := by simpa [receiving] using isAfter
    exact RecvCall.mailStep_started (ordered.phase call receives) stepped
  · obtain rfl : step.call = after := by simpa [receiving] using isAfter
    rw [mail]
    exact RecvCall.mailStep_aimedNext searches stepped
  · obtain rfl : step.call = after := by simpa [receiving] using isAfter
    exact own'
  · have isStock : stock traffic'.core task = step.queue.map Buffer.packet := by
      simp [stock, mail, idle']
    rw [isStock, arrived]
    have sequenced := ordered.sequenced_step channels receives unfinished idle oldest stepped
    refine sequenced.narrow (List.Subperm.refl _) fun channel => ?_
    rw [log, isReturns, List.map_append, List.append_assoc, numbersOf_append, numbersOf_append,
      numbersOf_append (traffic.log.map Prod.snd)]
    refine List.Sublist.append_left ?_ _
    by_cases finished : step.call.point = .returned
    · have closed : openCall traffic'.core task = [] := by
        simp [openCall, receiving, finished]
      rw [closed, show numbersOf [] channel = [] from rfl, List.append_nil]
      split
      · exact List.Sublist.refl _
      · exact List.nil_sublist _
    · have opened : openCall traffic'.core task = [step.call] := by
        simp [openCall, receiving, finished]
      rw [opened, if_neg fun both => finished both.1]
      exact List.Sublist.refl _
  · rw [log] at member
    rcases List.mem_append.mp member with old | new
    · exact ordered.logged entry old
    · rw [isReturns] at new
      split at new
      · rename_i both
        rw [List.mem_singleton.mp new]
        obtain ⟨sender, message, sentCall, there, holds, some, same⟩ :=
          (tracked.sound task step.call receiving).received both.1 both.2
        obtain ⟨head, rest, isTaken⟩ := List.exists_cons_of_ne_nil some
        have inTaken : head ∈ step.call.taken := by
          rw [isTaken]
          exact List.mem_cons_self
        refine ⟨message, sentCall, ?_, holds, ?_⟩
        · rw [← own' head inTaken, (same head inTaken).1]
          exact there
        · rw [RecvCall.number, isTaken, ← (same head inTaken).2]
          rfl
      · cases new

theorem serves_of_admits {op : NocOp} (admitted : traffic.admits sent (.core op)) :
    Noc.serves op traffic.core ∧ ∀ packet, op ≠ .arrive packet := by
  cases op with
  | arrive packet => exact admitted.elim
  | _ => exact ⟨admitted, by simp⟩

theorem keepsMessages_of_order {op : NocOp} (keeping : traffic.keepsOrder (.core op)) :
    Noc.keepsMessages op traffic.core := by
  cases op with
  | advance caller address => exact fun call receives => (keeping call receives).1
  | _ => trivial

theorem Ordered.core_step {op : NocOp} (ordered : Ordered sent task traffic)
    (channels : ∀ sender, ∀ call ∈ sent sender, call.channel.toNat = sender)
    (admitted : traffic.admits sent (.core op)) (only : receivesOnly task (.core op))
    (keeping : traffic.keepsOrder (.core op)) (stepped : step sent (.core op) traffic = .ok traffic') :
    Ordered sent task traffic' := by
  obtain ⟨codes, done, arrived, log⟩ := core_of_step stepped
  obtain ⟨served, notArrive⟩ := serves_of_admits admitted
  have tracked := ordered.tracked.turn served (fun packet same => absurd same (notArrive packet))
    (keepsMessages_of_order keeping) done
  have seen := ordered.tracked.serving.seen served done
  have alone := alone_step ordered.alone (fun caller channel same => by rw [same] at only; exact only) seen
  have isr : traffic'.core.isr.toList.Sublist traffic.core.isr.toList := by
    cases running : traffic'.core.isr with
    | none => exact List.nil_sublist _
    | some bufPtr =>
        rcases ordered.tracked.serving.seen_isr served done running with ⟨before, _⟩ | arrives
        · rw [before]
        · exact absurd arrives (notArrive _)
  have narrow : ∀ (packets : List Packet), packets.Subperm (stock traffic.core task) →
      ∀ numbers, (∀ channel, (numbers channel).Sublist
          (numbersOf (traffic.log.map Prod.snd ++ openCall traffic.core task) channel)) →
        Sequenced noc sent packets traffic'.arrived numbers := by
    intro packets fewer numbers less
    rw [arrived]
    exact ordered.sequenced.narrow fewer less
  have fewer : traffic'.core.mail task = traffic.core.mail task →
      (stock traffic'.core task).Subperm (stock traffic.core task) := by
    intro mail
    unfold stock
    rw [mail]
    exact ((isr.append_left _).map _).subperm
  cases seen task with
  | same receiving mail =>
      have sameLog : traffic'.log = traffic.log := by
        rw [log, returns_nil, List.append_nil]
        rintro caller address rfl call receives
        by_cases here : caller = task
        · rw [here, receiving] at receives
          rw [here] at served
          exact resting_receiving receives served.2.2.1
        · rw [alone caller here] at receives
          cases receives
      exact ordered.quiet tracked alone (Or.inl receiving) ⟨[], by rw [mail, List.append_nil]⟩ sameLog
        (narrow _ (fewer mail))
  | @put bufPtr running port receiving mail =>
      have sameLog : traffic'.log = traffic.log := by
        rw [log, returns_nil (by simp), List.append_nil]
      have idle' : traffic'.core.isr = none := by
        by_contra busy
        obtain ⟨other, isOther⟩ := Option.ne_none_iff_exists'.mp busy
        rcases ordered.tracked.serving.seen_isr served done isOther with ⟨_, notDeliver⟩ | arrives
        · exact notDeliver rfl
        · cases arrives
      refine ordered.quiet tracked alone (Or.inl receiving) ⟨[bufPtr], mail⟩ sameLog (narrow _ ?_)
      unfold stock
      rw [mail, idle', running]
      simp only [Option.toList, List.append_nil]
      exact List.Subperm.refl _
  | started receiving mail =>
      have sameLog : traffic'.log = traffic.log := by
        rw [log, returns_nil (by simp), List.append_nil]
      exact ordered.quiet tracked alone (Or.inr (Or.inr ⟨_, receiving⟩))
        ⟨[], by rw [mail, List.append_nil]⟩ sameLog (narrow _ (fewer mail))
  | ended receiving mail =>
      have sameLog : traffic'.log = traffic.log := by
        rw [log, returns_nil, List.append_nil]
        rintro caller address rfl call receives
        by_cases here : caller = task
        · rw [here, receiving] at receives
          cases receives
        · rw [alone caller here] at receives
          cases receives
      exact ordered.quiet tracked alone (Or.inr (Or.inl receiving))
        ⟨[], by rw [mail, List.append_nil]⟩ sameLog (narrow _ (fewer mail))
  | @stepped address call next before went receiving mail =>
      obtain ⟨_, searches, oldest⟩ := keeping call before
      obtain ⟨idle, _, busy, _⟩ := served
      have idle' : traffic'.core.isr = none := by
        rw [idle] at isr
        have none := List.sublist_nil.mp isr
        simpa using none
      exact ordered.stepped channels tracked alone before (resting_receiving before busy) idle idle'
        searches oldest went receiving mail arrived log

theorem Ordered.arrive_step {sender : Nat} (ordered : Ordered sent task traffic)
    (admitted : traffic.admits sent (.arrive sender))
    (stepped : step sent (.arrive sender) traffic = .ok traffic') : Ordered sent task traffic' := by
  unfold admits at admitted
  cases isIncoming : traffic.incoming sent sender with
  | none => simp [isIncoming] at admitted
  | some packet =>
      simp only [isIncoming] at admitted
      obtain ⟨codes, done, arrived, log⟩ := arrive_of_step isIncoming stepped
      obtain ⟨isSender, genuine⟩ := stream_genuine (List.mem_of_getElem? isIncoming)
      have tracked := ordered.tracked.turn admitted (fun other same => by
        obtain rfl : packet = other := by simpa using same
        exact genuine) trivial done
      have seen := ordered.tracked.serving.seen admitted done
      have alone := alone_step ordered.alone (by simp) seen
      have idle := admitted.1
      have isr : (traffic'.core.isr.toList.map Buffer.packet).Sublist [packet] := by
        cases running : traffic'.core.isr with
        | none => exact List.nil_sublist _
        | some bufPtr =>
            rcases ordered.tracked.serving.seen_isr admitted done running with ⟨before, _⟩ | arrives
            · rw [idle] at before
              cases before
            · obtain rfl : packet = bufPtr.packet := by simpa using arrives
              exact List.Sublist.refl _
      unfold incoming at isIncoming
      have sequenced : Sequenced noc sent (stock traffic.core task ++ [packet]) traffic'.arrived
          (numbersOf (traffic.log.map Prod.snd ++ openCall traffic.core task)) := by
        rw [arrived, ← isSender]
        exact ordered.sequenced.arrive (by rw [isSender]; exact isIncoming)
      have more : traffic'.core.mail task = traffic.core.mail task →
          (stock traffic'.core task).Subperm (stock traffic.core task ++ [packet]) := by
        intro mail
        unfold stock
        rw [mail, idle]
        simp only [List.map_append, Option.toList, List.append_nil]
        exact (isr.append_left _).subperm
      cases seen task with
      | same receiving mail =>
          exact ordered.quiet tracked alone (Or.inl receiving) ⟨[], by rw [mail, List.append_nil]⟩ log
            fun numbers less => sequenced.narrow (more mail) less
      | ended receiving mail =>
          exact ordered.quiet tracked alone (Or.inr (Or.inl receiving))
            ⟨[], by rw [mail, List.append_nil]⟩ log fun numbers less => sequenced.narrow (more mail) less

/-- `hf_recv` takes only packets of its own channel, and returns the messages of each channel as
and in the order in which they were sent, in every run in which its searches end on the awaited
packets of the oldest message. -/
theorem channels_isolated_in_order {kernel : Kernel noc.toConfig}
    (channels : ∀ sender, ∀ call ∈ sent sender, call.channel.toNat = sender)
    (reached : Reaches (step sent) (fun op traffic => traffic.admits sent op ∧ receivesOnly task op ∧
      traffic.keepsOrder op) (start kernel) traffic) :
    (∀ caller call, traffic.core.receiving caller = some call →
      ∀ origin ∈ call.taken, origin.sender = call.channel.toNat) ∧
      ∀ channel, InOrder sent traffic.log channel := by
  have ordered : Ordered sent task traffic := by
    refine reached.invariant (Ordered sent task) (.start kernel) ?_
    rintro op before after ordered ⟨admitted, only, keeping⟩ stepped
    cases op with
    | arrive sender => exact ordered.arrive_step admitted stepped
    | core op => exact ordered.core_step channels admitted only keeping stepped
  refine ⟨fun caller call receives => ?_, inOrder_of_ordered ordered⟩
  by_cases here : caller = task
  · rw [here] at receives
    exact ordered.own call receives
  · rw [ordered.alone caller here] at receives
    cases receives

instance (task : Nat) (op : TrafficOp) : Decidable (receivesOnly task op) :=
  match op with
  | .core (.recv caller _) => inferInstanceAs (Decidable (caller = task))
  | .arrive _ | .core (.arrive _) | .core .deliver | .core (.create _ _ _ _) | .core (.destroy _ _)
  | .core (.advance _ _) | .core (.kernel _) => .isTrue trivial

instance (call : RecvCall) (queue : List Buffer) : Decidable (call.SearchesOn noc queue) :=
  inferInstanceAs (Decidable (call.point = .turnNext → noc.nocPacketSlots <<< 3 < call.i →
    ∀ bufPtr ∈ (queue.rotate 1).head?, _))

instance (call : RecvCall) (queue : List Buffer) : Decidable (call.TakesOldest queue) :=
  inferInstanceAs (Decidable (call.point = .takeFirst → ∀ head ∈ queue.head?, ∀ bufPtr ∈ queue,
    bufPtr.flit pktChannel = call.channel → bufPtr.flit pktSeq = 1 → _))

instance (op : TrafficOp) (traffic : Traffic noc) : Decidable (traffic.keepsOrder op) :=
  match op with
  | .core (.advance task _) => match receives : traffic.core.receiving task with
      | none => .isTrue (by simp [keepsOrder, receives])
      | some call => decidable_of_iff (call.KeepsTo (traffic.core.mail task) ∧
          call.SearchesOn noc (traffic.core.mail task) ∧ call.TakesOldest (traffic.core.mail task))
          (by simp [keepsOrder, receives])
  | .arrive _ | .core (.arrive _) | .core .deliver | .core (.recv _ _) | .core (.create _ _ _ _)
  | .core (.destroy _ _) | .core (.kernel _) => .isTrue trivial

def twoChannels : Nat → List SendCall
  | 1 => [⟨1, 7, 0, 5, fun i => UInt8.ofNat (65 + i), 2, 1⟩, ⟨1, 7, 0, 5, fun i => UInt8.ofNat (67 + i), 2, 1⟩]
  | 2 => [⟨2, 8, 0, 5, fun i => UInt8.ofNat (97 + i), 2, 2⟩]
  | _ => []

def threeArrivals : List TrafficOp :=
  openPort ++ [.arrive 1, .core .deliver, .arrive 2, .core .deliver, .arrive 1, .core .deliver]

def orderedRun : List TrafficOp :=
  threeArrivals ++ [.core (.recv 1 1)] ++ advances 3 ++ [.core (.recv 1 2)] ++ advances 3 ++
    [.core (.recv 1 1)] ++ advances 3

def turnedRun : List TrafficOp :=
  threeArrivals ++ [.core (.recv 1 2)] ++ advances 5 ++ [.core (.recv 1 1)] ++ advances 3 ++
    [.core (.recv 1 1)] ++ advances 3

theorem twoChannels_channels : ∀ sender, ∀ call ∈ twoChannels sender, call.channel.toNat = sender := by
  intro sender call member
  match sender, member with
  | 1, member =>
      rcases List.mem_pair.mp member with rfl | rfl
      · rfl
      · rfl
  | 2, member =>
      rw [List.mem_singleton.mp member]
      rfl

theorem channels_isolated_in_order_three :
    (∀ caller call, (workerTraffic twoChannels orderedRun).core.receiving caller = some call →
      ∀ origin ∈ call.taken, origin.sender = call.channel.toNat) ∧
      ∀ channel, InOrder twoChannels (workerTraffic twoChannels orderedRun).log channel := by
  have reached : Reaches (step twoChannels) (fun op traffic => traffic.admits twoChannels op ∧
      receivesOnly 1 op ∧ traffic.keepsOrder op) smallTraffic (workerTraffic twoChannels orderedRun) :=
    outcome_reaches _ _ (by decide) (by decide)
  exact channels_isolated_in_order twoChannels_channels reached

def threeChannels : Nat → List SendCall
  | 1 => [⟨1, 7, 0, 5, fun i => UInt8.ofNat (65 + i), 3, 1⟩]
  | 2 => [⟨2, 8, 0, 5, fun i => UInt8.ofNat (97 + i), 3, 2⟩]
  | 3 => [⟨3, 9, 0, 5, fun i => UInt8.ofNat (48 + i), 2, 3⟩]
  | _ => []

def slowRun : List TrafficOp :=
  openPort ++ [.arrive 1, .core .deliver, .arrive 2, .core .deliver, .arrive 2, .core .deliver,
    .arrive 3, .core .deliver, .core (.recv 1 1)] ++ advances 73

theorem threeChannels_channels :
    ∀ sender, ∀ call ∈ threeChannels sender, call.channel.toNat = sender := by
  intro sender call member
  match sender, member with
  | 1, member | 2, member | 3, member =>
      rw [List.mem_singleton.mp member]
      rfl

/-- A message that was sent later is returned first; and a call that waits too long takes a packet
of another channel and returns it as a part of its message. -/
theorem channels_out_of_order_and_mixed :
    (∃ (sent : Nat → List SendCall) (kernel : Kernel Noc.smallNoc.toConfig)
      (traffic : Traffic Noc.smallNoc), (∀ sender, ∀ call ∈ sent sender, call.channel.toNat = sender) ∧
        Reaches (step sent) (fun op traffic => traffic.admits sent op ∧ receivesOnly 1 op)
          (start kernel) traffic ∧ ¬InOrder sent traffic.log 1) ∧
      ∃ (sent : Nat → List SendCall) (kernel : Kernel Noc.smallNoc.toConfig)
        (traffic : Traffic Noc.smallNoc), (∀ sender, ∀ call ∈ sent sender, call.channel.toNat = sender) ∧
          Reaches (step sent) (fun op traffic => traffic.admits sent op ∧ receivesOnly 1 op)
            (start kernel) traffic ∧
          ∃ entry ∈ traffic.log, entry.2.channel = 1 ∧ (⟨2, 0, 1⟩ : Origin) ∈ entry.2.taken ∧
            ∀ call ∈ sent 1, ¬entry.2.Holds call := by
  have turned : Reaches (step twoChannels) (fun op traffic => traffic.admits twoChannels op ∧
      receivesOnly 1 op) smallTraffic (workerTraffic twoChannels turnedRun) :=
    outcome_reaches _ _ (by decide) (by decide)
  have slow : Reaches (step threeChannels) (fun op traffic => traffic.admits threeChannels op ∧
      receivesOnly 1 op) smallTraffic (workerTraffic threeChannels slowRun) :=
    outcome_reaches _ _ (by decide +kernel) (by decide +kernel)
  refine ⟨⟨twoChannels, _, _, twoChannels_channels, turned, ?_⟩,
    threeChannels, _, _, threeChannels_channels, slow, ?_⟩
  · rintro ⟨numbers, increasing, matched⟩
    obtain ⟨first, second, isLog, early⟩ : ∃ first second,
        (workerTraffic twoChannels turnedRun).log.filter (fun entry => entry.2.channel = 1) =
          [first, second] ∧ first.2.buf.take 2 = [67, 68] := ⟨_, _, rfl, rfl⟩
    rw [isLog] at matched
    cases matched with
    | @cons _ number _ rest one others =>
        cases others with
        | @cons _ number' _ rest two others =>
            have order := List.rel_of_pairwise_cons increasing List.mem_cons_self
            obtain ⟨call, there, holds⟩ := one
            obtain ⟨call', there', _⟩ := two
            have few := (List.getElem?_eq_some_iff.mp there').1
            have length : (twoChannels (1 : UInt16).toNat).length = 2 := rfl
            have isFirst : number = 0 := by omega
            rw [isFirst] at there
            have isCall : ⟨1, 7, 0, 5, fun i => UInt8.ofNat (65 + i), 2, 1⟩ = call :=
              Option.some.inj there
            rw [← isCall] at holds
            have whole := holds.buf
            rw [show ((2 : UInt16).toNat) = 2 from rfl, early] at whole
            exact absurd whole (by decide)
  · have facts : ∀ entry ∈ (workerTraffic threeChannels slowRun).log, entry.2.channel = 1 ∧
        (⟨2, 0, 1⟩ : Origin) ∈ entry.2.taken ∧ entry.2.buf.take 3 = [65, 66, 99] := by decide +kernel
    have some : (workerTraffic threeChannels slowRun).log ≠ [] := by decide +kernel
    obtain ⟨entry, isEntry⟩ := List.exists_mem_of_ne_nil _ some
    obtain ⟨channel, mixed, bytes⟩ := facts entry isEntry
    refine ⟨entry, isEntry, channel, mixed, ?_⟩
    intro call member holds
    rw [List.mem_singleton.mp member] at holds
    have whole := holds.buf
    rw [show ((3 : UInt16).toNat) = 3 from rfl, bytes] at whole
    exact absurd whole (by decide)

end Traffic

end Hellfire

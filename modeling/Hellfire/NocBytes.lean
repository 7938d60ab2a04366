import Hellfire.NocAssembly
import Hellfire.NocRoundTrip

/-!
Which bytes of a message buffer `hf_send` reads and `hf_recv` stores to. Both move two bytes for
each flit and look at the index before the first of them only.
-/

namespace Hellfire

namespace NocConfig

variable (noc : NocConfig)

theorem payloadBytes_even : noc.payloadBytes % 2 = 0 := by
  unfold payloadBytes
  omega

theorem packetsOf_inner {size : UInt16} {k : Nat} (inner : k < noc.packetsOf size) :
    k * noc.payloadBytes ≤ size.toNat := by
  have division := Nat.div_add_mod size.toNat noc.payloadBytes
  have fewer : k ≤ size.toNat / noc.payloadBytes := by
    unfold packetsOf at inner
    split at inner
    · omega
    · omega
  have bound := Nat.mul_le_mul_left noc.payloadBytes fewer
  rw [Nat.mul_comm]
  omega

end NocConfig

namespace SendCall

variable (noc : NocConfig) (call : SendCall)

def fullReads : Nat → Nat → List Nat
  | 0, _ => []
  | count + 1, p => p :: (p + 1) :: fullReads count (p + 2)

def lastReads : Nat → Nat → List Nat
  | 0, _ => []
  | count + 1, p =>
      if p < call.size.toNat then p :: (p + 1) :: lastReads count (p + 2)
      else []

def readsFrom : Nat → Nat → List Nat
  | 0, p => call.lastReads (noc.nocPacketSize - pktHeaderSize) p
  | more + 1, p =>
      fullReads (noc.nocPacketSize - pktHeaderSize) p ++ readsFrom more (p + noc.payloadBytes)

def reads : List Nat := call.readsFrom noc (noc.packetsOf call.size - 1) 0

variable {noc call}

section Same

variable {other : Nat → UInt8}

theorem fullWords_congr (count : Nat) : ∀ p, (∀ index ∈ fullReads count p, call.buf index = other index) →
    SendCall.fullWords { call with buf := other } count p = call.fullWords count p := by
  induction count with
  | zero =>
      intro p _
      rfl
  | succ count ih =>
      intro p same
      simp only [fullReads, List.forall_mem_cons] at same
      obtain ⟨first, second, rest⟩ := same
      simp only [fullWords, byteWord, first, second]
      rw [ih (p + 2) rest]

theorem lastWords_congr (count : Nat) :
    ∀ p, (∀ index ∈ call.lastReads count p, call.buf index = other index) →
      SendCall.lastWords { call with buf := other } count p = call.lastWords count p := by
  induction count with
  | zero =>
      intro p _
      rfl
  | succ count ih =>
      intro p same
      by_cases more : p < call.size.toNat
      · simp only [lastReads, if_pos more, List.forall_mem_cons] at same
        obtain ⟨first, second, rest⟩ := same
        simp only [lastWords, byteWord, first, second, if_pos more]
        rw [ih (p + 2) rest]
      · simp only [lastWords, if_neg more]

theorem sendFrom_congr (more : Nat) :
    ∀ packet p, (∀ index ∈ call.readsFrom noc more p, call.buf index = other index) →
      SendCall.sendFrom noc { call with buf := other } more packet p =
        call.sendFrom noc more packet p := by
  induction more with
  | zero =>
      intro packet p same
      simp only [sendFrom, lastWords_congr _ p same]
      rfl
  | succ more ih =>
      intro packet p same
      simp only [readsFrom, List.forall_mem_append] at same
      simp only [sendFrom, fullWords_congr _ p same.1, ih _ _ same.2]
      rfl

theorem hfSend_congr (same : ∀ index ∈ call.reads noc, call.buf index = other index) :
    SendCall.hfSend noc { call with buf := other } = call.hfSend noc :=
  sendFrom_congr _ _ _ same

end Same

theorem fullReads_eq (count : Nat) : ∀ p, fullReads count p = List.range' p (2 * count) := by
  induction count with
  | zero =>
      intro p
      rfl
  | succ count ih =>
      intro p
      have double : 2 * (count + 1) = 2 * count + 1 + 1 := by omega
      rw [fullReads, ih, double, List.range'_succ, List.range'_succ]

theorem lastReads_eq (count : Nat) : ∀ p, p % 2 = 0 → call.size.toNat ≤ p + 2 * count →
    call.lastReads count p = List.range' p (call.size.toNat + call.size.toNat % 2 - p) := by
  induction count with
  | zero =>
      intro p even covered
      have none : call.size.toNat + call.size.toNat % 2 - p = 0 := by omega
      rw [none]
      rfl
  | succ count ih =>
      intro p even covered
      by_cases more : p < call.size.toNat
      · have two : call.size.toNat + call.size.toNat % 2 - p =
            call.size.toNat + call.size.toNat % 2 - (p + 2) + 1 + 1 := by omega
        rw [lastReads, if_pos more, ih (p + 2) (by omega) (by omega), two, List.range'_succ,
          List.range'_succ]
      · have none : call.size.toNat + call.size.toNat % 2 - p = 0 := by omega
        rw [lastReads, if_neg more, none]
        rfl

theorem readsFrom_eq (more : Nat) : ∀ p, p % 2 = 0 → p + more * noc.payloadBytes ≤ call.size.toNat →
    call.size.toNat ≤ p + (more + 1) * noc.payloadBytes →
    call.readsFrom noc more p = List.range' p (call.size.toNat + call.size.toNat % 2 - p) := by
  have payload : 2 * (noc.nocPacketSize - pktHeaderSize) = noc.payloadBytes := by
    rw [NocConfig.payloadBytes, Nat.mul_comm]
  induction more with
  | zero =>
      intro p even _ covered
      rw [readsFrom]
      apply lastReads_eq _ p even
      rw [payload]
      simpa using covered
  | succ more ih =>
      intro p even inside covered
      have next := noc.payloadBytes_even
      simp only [Nat.add_mul, Nat.one_mul] at inside covered
      have rest := ih (p + noc.payloadBytes) (by omega) (by omega)
        (by simp only [Nat.add_mul, Nat.one_mul]; omega)
      have joined : call.size.toNat + call.size.toNat % 2 - p =
          noc.payloadBytes + (call.size.toNat + call.size.toNat % 2 - (p + noc.payloadBytes)) := by
        omega
      rw [readsFrom, fullReads_eq, rest, payload, joined, List.range'_append_1]

theorem reads_eq : call.reads noc = List.range (call.size.toNat + call.size.toNat % 2) := by
  have covered := noc.packetsOf_covers call.size
  have inside : (noc.packetsOf call.size - 1) * noc.payloadBytes ≤ call.size.toNat := by
    by_cases empty : noc.packetsOf call.size = 0
    · simp [empty]
    · exact noc.packetsOf_inner (by omega)
  have all : noc.packetsOf call.size * noc.payloadBytes ≤
      (noc.packetsOf call.size - 1 + 1) * noc.payloadBytes := Nat.mul_le_mul_right _ (by omega)
  rw [reads, readsFrom_eq _ 0 rfl (by omega) (by omega), Nat.sub_zero, List.range_eq_range']

end SendCall

def Buffer.Whole (noc : NocConfig) (bufPtr : Buffer) : Prop :=
  bufPtr.packet.flits.length = noc.nocPacketSize

instance (noc : NocConfig) (bufPtr : Buffer) : Decidable (bufPtr.Whole noc) :=
  inferInstanceAs (Decidable (bufPtr.packet.flits.length = noc.nocPacketSize))

theorem Buffer.Whole.words_length {noc : NocConfig} {bufPtr : Buffer} (whole : bufPtr.Whole noc) :
    2 * bufPtr.words.length = noc.payloadBytes := by
  unfold Buffer.Whole at whole
  rw [Buffer.words, List.length_drop, whole, NocConfig.payloadBytes, Nat.mul_comm]

namespace RecvCall

def fullStores : List UInt16 → Nat → List Nat
  | [], _ => []
  | _ :: words, p => p :: (p + 1) :: fullStores words (p + 2)

def lastStores (size : Nat) : List UInt16 → Nat → List Nat
  | [], _ => []
  | _ :: words, p => if p < size then p :: (p + 1) :: lastStores size words (p + 2) else []

def stores (call : RecvCall) : List Nat :=
  match call.point with
  | .store bufPtr => fullStores bufPtr.words call.buf.length
  | .finish bufPtr => lastStores call.size.toNat bufPtr.words call.buf.length
  | _ => []

theorem wordBytes_length (words : List UInt16) :
    (words.flatMap wordBytes).length = 2 * words.length := by
  induction words with
  | nil => rfl
  | cons word words ih =>
      simp only [List.flatMap_cons, List.length_append, List.length_cons, ih, wordBytes,
        List.length_nil]
      omega

theorem range_fullStores (words : List UInt16) : ∀ p,
    List.range p ++ fullStores words p = List.range (p + 2 * words.length) := by
  induction words with
  | nil =>
      intro p
      simp [fullStores]
  | cons word words ih =>
      intro p
      have longer : p + 2 * (word :: words).length = p + 2 + 2 * words.length := by
        rw [List.length_cons]
        omega
      rw [longer, ← ih (p + 2), List.range_succ, List.range_succ, fullStores]
      simp

theorem range_lastStores (size : Nat) (words : List UInt16) : ∀ buf : List UInt8,
    List.range buf.length ++ lastStores size words buf.length =
      List.range (copyLast size words buf).length := by
  induction words with
  | nil =>
      intro buf
      simp [lastStores, copyLast]
  | cons word words ih =>
      intro buf
      by_cases more : buf.length < size
      · have longer : (buf ++ wordBytes word).length = buf.length + 2 := by simp [wordBytes]
        have rest := ih (buf ++ wordBytes word)
        rw [longer, List.range_succ, List.range_succ] at rest
        rw [copyLast, if_pos more, lastStores, if_pos more, ← rest]
        simp
      · rw [copyLast, if_neg more, lastStores, if_neg more, List.append_nil]

theorem copyLast_length (size : Nat) (words : List UInt16) : ∀ buf : List UInt8,
    buf.length % 2 = 0 → buf.length ≤ size + size % 2 →
    (copyLast size words buf).length % 2 = 0 ∧ (copyLast size words buf).length ≤ size + size % 2 := by
  induction words with
  | nil => exact fun buf even bound => ⟨even, bound⟩
  | cons word words ih =>
      intro buf even bound
      have longer : (buf ++ wordBytes word).length = buf.length + 2 := by simp [wordBytes]
      unfold copyLast
      split
      · exact ih _ (by omega) (by omega)
      · exact ⟨even, bound⟩

variable {noc : NocConfig} {call : RecvCall} {queue : List Buffer} {next : MailStep}

theorem mailStep_stores (stepped : call.mailStep noc queue = some next) :
    List.range call.buf.length ++ call.stores = List.range next.call.buf.length := by
  cases mailStep_mails stepped with
  | stays resting =>
      rcases resting with point | point | point
      · simp [stores, point]
      · simp [stores, point]
      · simp [stores, point]
  | @store _ bufPtr point =>
      simp only [stores, point, range_fullStores, List.length_append, wordBytes_length]
  | @finish _ bufPtr point =>
      simp only [stores, point, range_lastStores]
  | searchFirst point | turnFirst point | searchNext point | turnNext point =>
      simp [stores, point]
  | takeFirst point | takeNext point => simp [stores, point, proceed]

structure Aims (size : UInt16) (call : RecvCall) (queue : List Buffer) : Prop where
  found : ∃ bufPtr, queue.find? (fun bufPtr => call.awaits (call.seq.toNat + 1) (some bufPtr)) =
    some bufPtr ∧ bufPtr.flit pktMsgSize = size
  turn : call.point = .turnFirst → ∀ bufPtr ∈ queue.head?,
    call.awaits (call.seq.toNat + 1) (some bufPtr) = false
  take : call.point = .takeFirst → ∀ bufPtr ∈ queue.head?,
    call.awaits (call.seq.toNat + 1) (some bufPtr) = true

/-- How far a call has come that has taken the first packet of a message. -/
def Copies (noc : NocConfig) (size : UInt16) (call : RecvCall) : Prop :=
  call.size = size ∧ call.packets = noc.packetsOf size ∧ call.buf.length % 2 = 0 ∧
    match call.point with
    | .searchFirst | .turnFirst | .takeFirst => False
    | .store bufPtr => bufPtr.Whole noc ∧ call.packet < noc.packetsOf size ∧
        call.buf.length + noc.payloadBytes = call.packet * noc.payloadBytes
    | .searchNext | .turnNext | .takeNext => call.packet < noc.packetsOf size ∧
        call.buf.length = call.packet * noc.payloadBytes
    | .finish _ => call.buf.length ≤ size.toNat
    | .returned => call.buf.length ≤ size.toNat + size.toNat % 2

theorem Copies.bound {size : UInt16} (copies : call.Copies noc size) :
    call.buf.length ≤ size.toNat + size.toNat % 2 := by
  obtain ⟨_, _, _, at_point⟩ := copies
  cases point : call.point with
  | searchFirst | turnFirst | takeFirst => simp [point] at at_point
  | store bufPtr =>
      rw [point] at at_point
      have := noc.packetsOf_inner at_point.2.1
      omega
  | searchNext | turnNext | takeNext =>
      rw [point] at at_point
      have := noc.packetsOf_inner at_point.1
      omega
  | finish bufPtr =>
      rw [point] at at_point
      have : call.buf.length ≤ size.toNat := at_point
      omega
  | returned =>
      rw [point] at at_point
      exact at_point

variable {size : UInt16}

theorem Aims.append (aims : call.Aims size queue) (ready : call.Ready queue) (more : List Buffer) :
    call.Aims size (queue ++ more) := by
  have sameHead : call.point.removes = true → (queue ++ more).head? = queue.head? := by
    intro removes
    exact List.head?_append_of_ne_nil _ (ready removes)
  obtain ⟨bufPtr, found, announced⟩ := aims.found
  refine ⟨⟨bufPtr, by rw [List.find?_append, found]; rfl, announced⟩, ?_, ?_⟩
  · intro turning
    rw [sameHead (by rw [turning]; rfl)]
    exact aims.turn turning
  · intro taking
    rw [sameHead (by rw [taking]; rfl)]
    exact aims.take taking

theorem Aims.mailStep (aims : call.Aims size queue) (begins : call.Begins)
    (searching : call.point ≠ .takeFirst) (stepped : call.mailStep noc queue = some next) :
    next.call.Aims size next.queue := by
  obtain ⟨found, turn, take⟩ := aims
  cases mailStep_mails stepped with
  | stays => exact ⟨found, turn, take⟩
  | @searchFirst bufPtr rest point =>
      refine ⟨found, ?_, ?_⟩
      · intro turning other isHead
        obtain rfl : bufPtr = other := by simpa using isHead
        simp only [ite_eq_right_iff, reduceCtorEq, imp_false, Bool.not_eq_true] at turning
        exact turning
      · intro taking other isHead
        obtain rfl : bufPtr = other := by simpa using isHead
        simp only [ite_eq_left_iff, reduceCtorEq, imp_false, Bool.not_eq_true, Bool.not_eq_false] at taking
        exact taking
  | @turnFirst bufPtr rest point =>
      have missed := turn point bufPtr rfl
      rw [List.find?_cons_of_neg (by simp [missed])] at found
      obtain ⟨first, found, announced⟩ := found
      refine ⟨⟨first, ?_, announced⟩, by simp, by simp⟩
      rw [List.find?_append]
      exact (congrArg (Option.or · _) found).trans rfl
  | takeFirst point => exact absurd point searching
  | store point | searchNext point | turnNext point | takeNext point | finish point =>
      simp [Begins, point] at begins

theorem Copies.proceed {bufPtr : Buffer} (announced : call.size = size)
    (packets : call.packets = noc.packetsOf size) (whole : bufPtr.Whole noc)
    (counted : call.packet = 0 ∨ call.packet < noc.packetsOf size)
    (stored : call.buf.length = call.packet * noc.payloadBytes) :
    (call.proceed bufPtr).Copies noc size := by
  have inside : call.packet * noc.payloadBytes ≤ size.toNat := by
    rcases counted with zero | inner
    · simp [zero]
    · exact noc.packetsOf_inner inner
  have even : call.buf.length % 2 = 0 := by
    rw [stored, Nat.mul_mod, noc.payloadBytes_even]
    simp
  have turn : (call.proceed bufPtr).point =
      if call.packet + 1 < noc.packetsOf size then .store bufPtr else .finish bufPtr := by
    rw [← packets]
    rfl
  refine ⟨announced, packets, even, ?_⟩
  by_cases more : call.packet + 1 < noc.packetsOf size
  · rw [if_pos more] at turn
    rw [turn]
    refine ⟨whole, more, ?_⟩
    change call.buf.length + _ = (call.packet + 1) * _
    rw [stored, Nat.add_mul, Nat.one_mul]
  · rw [if_neg more] at turn
    rw [turn]
    change call.buf.length ≤ _
    omega

theorem Aims.take_copies (aims : call.Aims size queue) (begins : call.Begins)
    (taking : call.point = .takeFirst) (whole : ∀ bufPtr ∈ queue, bufPtr.Whole noc)
    (stepped : call.mailStep noc queue = some next) : next.call.Copies noc size := by
  cases mailStep_mails stepped with
  | @takeFirst bufPtr rest point =>
      have awaited := aims.take taking bufPtr rfl
      obtain ⟨first, found, announced⟩ := aims.found
      rw [List.find?_cons_of_pos (by simpa using awaited)] at found
      obtain rfl : bufPtr = first := Option.some.inj found
      have fresh := begins.2
      have noPacket : call.packet = 0 := by
        rw [fresh]
        rfl
      have noByte : call.buf = [] := by
        rw [fresh]
        rfl
      apply Copies.proceed announced
      · simp only [announced]
      · exact whole bufPtr List.mem_cons_self
      · exact Or.inl noPacket
      · simp [noPacket, noByte]
  | stays resting => simp [taking] at resting
  | searchFirst point | turnFirst point | store point => simp [point] at taking
  | searchNext point | turnNext point | takeNext point | finish point => simp [point] at taking

theorem Copies.searching {point : RecvPoint} {i : Nat} (announced : call.size = size)
    (packets : call.packets = noc.packetsOf size) (even : call.buf.length % 2 = 0)
    (stored : call.packet < noc.packetsOf size ∧ call.buf.length = call.packet * noc.payloadBytes)
    (searches : point = .searchNext ∨ point = .turnNext ∨ point = .takeNext) :
    RecvCall.Copies noc size { call with point, i } := by
  rcases searches with rfl | rfl | rfl
  · exact ⟨announced, packets, even, stored⟩
  · exact ⟨announced, packets, even, stored⟩
  · exact ⟨announced, packets, even, stored⟩

theorem Copies.mailStep (copies : call.Copies noc size) (whole : ∀ bufPtr ∈ queue, bufPtr.Whole noc)
    (stepped : call.mailStep noc queue = some next) : next.call.Copies noc size := by
  obtain ⟨announced, packets, even, at_point⟩ := copies
  cases mailStep_mails stepped with
  | stays => exact ⟨announced, packets, even, at_point⟩
  | searchFirst point | turnFirst point | takeFirst point => simp [point] at at_point
  | @store _ bufPtr point =>
      rw [point] at at_point
      obtain ⟨isWhole, inner, stored⟩ := at_point
      have longer : (call.buf ++ bufPtr.words.flatMap wordBytes).length =
          call.packet * noc.payloadBytes := by
        rw [List.length_append, wordBytes_length, isWhole.words_length, stored]
      refine ⟨announced, packets, ?_, inner, longer⟩
      simp only
      rw [longer, Nat.mul_mod, noc.payloadBytes_even]
      simp
  | searchNext point =>
      rw [point] at at_point
      apply Copies.searching announced packets even at_point
      split
      · exact Or.inr (Or.inr rfl)
      · exact Or.inr (Or.inl rfl)
  | turnNext point =>
      rw [point] at at_point
      apply Copies.searching announced packets even at_point
      split
      · exact Or.inr (Or.inr rfl)
      · exact Or.inl rfl
  | @takeNext bufPtr rest point =>
      rw [point] at at_point
      obtain ⟨inner, stored⟩ := at_point
      exact Copies.proceed announced packets (whole bufPtr List.mem_cons_self) (Or.inr inner) stored
  | @finish _ bufPtr point =>
      rw [point] at at_point
      have inside : call.buf.length ≤ size.toNat := at_point
      have last := copyLast_length call.size.toNat bufPtr.words call.buf even
        (by rw [announced]; omega)
      refine ⟨announced, packets, last.1, ?_⟩
      rw [announced] at last
      simp only [announced]
      exact last.2

end RecvCall

namespace Noc

open Machine

variable {noc : NocConfig}

structure Copying (core : Noc noc) (task : Nat) (size : UInt16) (call : RecvCall) : Prop where
  calling : core.calls task = .recv call
  present : core.pktdrvTqueue task ≠ 0
  queue : ∃ queue cells, core.queues (core.pktdrvTqueue task) = some queue ∧
    queue.ring.contents = cells.map some ∧ (∀ bufPtr ∈ cells, bufPtr.Whole noc) ∧
    call.Ready cells ∧ (call.Begins ∧ call.Aims size cells ∨ call.Copies noc size)

structure Spares (task : Nat) (core next : Noc noc) : Prop where
  call : next.calls task = core.calls task
  pointer : next.pktdrvTqueue task = core.pktdrvTqueue task
  queue : ∀ queue, core.queues (core.pktdrvTqueue task) = some queue →
    ∃ (queue' : CommQueue) (more : List Buffer),
      next.queues (core.pktdrvTqueue task) = some queue' ∧
      queue'.ring.contents = queue.ring.contents ++ more.map some ∧ ∀ bufPtr ∈ more, bufPtr.Whole noc

inductive Receiving (task : Nat) (begun : Noc noc) : List Nat → Noc noc → Prop
  | begun : Receiving task begun [] begun
  | own {stores core next call address} : Receiving task begun stores core →
      core.calls task = .recv call → step (.advance task address) core = .ok next →
      Receiving task begun (stores ++ call.stores) next
  | other {stores core next op} : Receiving task begun stores core →
      step op core = .ok next → core.Spares task next → Receiving task begun stores next

variable {core next : Noc noc} {task : Nat} {size : UInt16}

theorem Copying.own {call : RecvCall} {address : Nat} (copying : core.Copying task size call)
    (stepped : step (.advance task address) core = .ok next) :
    ∃ call', next.Copying task size call' ∧
      List.range call.buf.length ++ call.stores = List.range call'.buf.length := by
  obtain ⟨codes, turned⟩ := turn_of_step stepped
  obtain ⟨queue, cells, there, stored, whole, ready, phase⟩ := copying.queue
  obtain ⟨mail, mailed⟩ : ∃ mail, call.mailStep noc cells = some mail := ready.mailStep
  have calling := copying.calling
  cases advance_cases turned with
  | @recv other queue' turn isCall there' stepped' =>
      obtain rfl : call = other := by
        rw [calling] at isCall
        exact CommCall.recv.inj isCall
      obtain rfl : queue = queue' := by
        rw [(queueAt_ok.mp there').2] at there
        exact (Option.some.inj there).symm
      obtain ⟨turn', done, contents, sameCall, _⟩ :=
        RecvCall.step_mailed core.pktdrvQueue queue.ring stored mailed
      obtain rfl : turn = turn' := Except.ok.inj (stepped'.symm.trans done)
      refine ⟨turn.call, ⟨setCall_same _ _ _, copying.present, { queue with ring := turn.queue },
        mail.queue, Function.update_self _ _ _, contents, ?_, ?_, ?_⟩, ?_⟩
      · exact fun bufPtr member => whole bufPtr (RecvCall.mailStep_subset mailed member)
      · rw [sameCall]
        exact RecvCall.mailStep_ready mailed
      · rw [sameCall]
        rcases phase with ⟨begins, aims⟩ | copies
        · by_cases taking : call.point = .takeFirst
          · exact Or.inr (aims.take_copies begins taking whole mailed)
          · exact Or.inl ⟨begins.mailStep taking mailed, aims.mailStep begins taking mailed⟩
        · exact Or.inr (copies.mailStep whole mailed)
      · rw [sameCall]
        exact RecvCall.mailStep_stores mailed
  | _ isCall => simp [calling] at isCall

theorem Copying.other {call : RecvCall} (copying : core.Copying task size call)
    (spares : core.Spares task next) : next.Copying task size call := by
  obtain ⟨queue, cells, there, stored, whole, ready, phase⟩ := copying.queue
  obtain ⟨queue', more, there', stored', wholeMore⟩ := spares.queue queue there
  refine ⟨spares.call.trans copying.calling, by rw [spares.pointer]; exact copying.present, queue',
    cells ++ more, by rw [spares.pointer]; exact there', ?_, ?_, ready.append more, ?_⟩
  · rw [stored', stored, List.map_append]
  · intro bufPtr member
    rcases List.mem_append.mp member with old | new
    · exact whole bufPtr old
    · exact wholeMore bufPtr new
  · rcases phase with ⟨begins, aims⟩ | copies
    · exact Or.inl ⟨begins, aims.append ready more⟩
    · exact Or.inr copies

theorem Copying.length_le {call : RecvCall} (copying : core.Copying task size call) :
    call.buf.length ≤ size.toNat + size.toNat % 2 := by
  obtain ⟨_, _, _, _, _, _, ⟨begins, _⟩ | copies⟩ := copying.queue
  · rw [begins.2]
    exact Nat.zero_le _
  · exact copies.bound

theorem Receiving.copying {stores : List Nat} {begun : Noc noc} {first : RecvCall}
    (receiving : Receiving task begun stores next) (copying : begun.Copying task size first)
    (fresh : first.buf = []) :
    ∃ call, next.Copying task size call ∧ stores = List.range call.buf.length := by
  induction receiving with
  | begun => exact ⟨first, copying, by rw [fresh]; rfl⟩
  | own _ isCall stepped ih =>
      obtain ⟨call, copied, same⟩ := ih
      obtain ⟨call', further, longer⟩ := copied.own stepped
      rw [copied.calling] at isCall
      obtain rfl := CommCall.recv.inj isCall
      exact ⟨call', further, by rw [same, longer]⟩
  | other _ _ spares ih =>
      obtain ⟨call, copied, same⟩ := ih
      exact ⟨call, copied.other spares, same⟩

theorem Receiving.alone (steps : Nat) : ∀ {stores : List Nat} {begun core : Noc noc} {call : RecvCall},
    Receiving task begun stores core → core.Copying task size call →
    execute Noc.step (List.replicate steps (.advance task 0)) core = .ok next →
    ∃ stores', Receiving task begun stores' next := by
  induction steps with
  | zero =>
      intro stores begun core call receiving _ done
      simp only [List.replicate_zero, execute, Except.ok.injEq] at done
      exact ⟨stores, done ▸ receiving⟩
  | succ steps ih =>
      intro stores begun core call receiving copying done
      rw [List.replicate_succ, execute] at done
      cases stepped : Noc.step (.advance task 0) core with
      | error fault => simp [stepped] at done
      | ok middle =>
          simp only [stepped] at done
          obtain ⟨call', further, _⟩ := copying.own stepped
          exact ih (.own receiving copying.calling stepped) further done

section Message

variable {sent : SendCall} {queue : CommQueue} {cells : List Buffer}

theorem hfRecv_copying (there : core.queueAt (core.pktdrvTqueue task) = .ok queue)
    (stored : queue.ring.contents = cells.map some) (whole : ∀ bufPtr ∈ cells, bufPtr.Whole noc)
    (message : ((ownPackets sent.channel cells).map fun bufPtr => bufPtr.packet.flits).Perm
      (sent.hfSend noc)) :
    (core.hfRecv task sent.channel).Copying task sent.size (.start sent.channel) := by
  obtain ⟨present, standing⟩ := queueAt_ok.mp there
  rw [SendCall.hfSend_eq, List.range_eq_range'] at message
  obtain ⟨front, found, back, parts, missed, hit, carried, _⟩ :=
    MailStep.exists_awaited (rfl : (RecvCall.start sent.channel).channel = sent.channel)
      (by unfold SendCall.pieces; omega) message
  rw [hfRecv_started present]
  refine ⟨setCall_same _ _ _, present, queue, cells, standing, stored, whole, ?_, Or.inl
    ⟨RecvCall.start_begins _, ⟨found, ?_, SendCall.piece_msgSize carried⟩, ?_, ?_⟩⟩
  · intro removes
    cases removes
  · have none : front.find? (fun bufPtr => (RecvCall.start sent.channel).awaits
        ((RecvCall.start sent.channel).seq.toNat + 1) (some bufPtr)) = none :=
      List.find?_eq_none.mpr fun other member => Bool.not_eq_true _ ▸ missed other member
    rw [parts, List.find?_append, none, List.find?_cons_of_pos (by exact hit)]
    rfl
  · intro turning
    cases turning
  · intro taking
    cases taking

/-- A message of odd size that is received whole has its last word behind its end. -/
theorem recv_overruns (there : core.queueAt (core.pktdrvTqueue task) = .ok queue)
    (stored : queue.ring.contents = cells.map some) (whole : ∀ bufPtr ∈ cells, bufPtr.Whole noc)
    (buffers : core.pktdrvQueue.contents.length + cells.length ≤ noc.nocPacketSlots)
    (message : ((ownPackets sent.channel cells).map fun bufPtr => bufPtr.packet.flits).Perm
      (sent.hfSend noc)) (odd : sent.size.toNat % 2 = 1) :
    ∃ stores next, Receiving task (core.hfRecv task sent.channel) stores next ∧
      sent.size.toNat ∈ stores := by
  have copying := hfRecv_copying there stored whole message
  obtain ⟨after, leads, point, holds, _⟩ := MailStep.leads_received cells (by omega) message
  have attends := hfRecv_attends sent.channel there stored buffers
  obtain ⟨steps, next, done, attends'⟩ := attends.run leads
  obtain ⟨stores, receiving⟩ := Receiving.alone steps .begun copying done
  obtain ⟨call, copied, same⟩ := receiving.copying copying rfl
  refine ⟨stores, next, receiving, ?_⟩
  have isCall := copied.calling
  rw [attends'.call] at isCall
  obtain rfl := CommCall.recv.inj isCall
  have long : sent.size.toNat ≤ after.call.buf.length := by
    have lengths := congrArg List.length holds.buf
    rw [List.length_take, List.length_map, List.length_range] at lengths
    omega
  obtain ⟨_, _, _, _, _, _, ⟨begins, _⟩ | ⟨_, _, even, _⟩⟩ := copied.queue
  · have := begins.1
    simp [point] at this
  · rw [same, List.mem_range]
    omega

/-- `hf_recv` stays within the message in all runs, and `hf_send` reads no more than it, exactly
if the size of the message is even. -/
theorem touches_message_iff (core : Noc noc) (task : Nat) (sent : SendCall) (queue : CommQueue)
    (cells : List Buffer) (there : core.queueAt (core.pktdrvTqueue task) = .ok queue)
    (stored : queue.ring.contents = cells.map some) (whole : ∀ bufPtr ∈ cells, bufPtr.Whole noc)
    (buffers : core.pktdrvQueue.contents.length + cells.length ≤ noc.nocPacketSlots)
    (message : ((ownPackets sent.channel cells).map fun bufPtr => bufPtr.packet.flits).Perm
      (sent.hfSend noc)) :
    ((∀ stores next, Receiving task (core.hfRecv task sent.channel) stores next →
        ∀ index ∈ stores, index < sent.size.toNat) ↔ sent.size.toNat % 2 = 0) ∧
      ((∀ index ∈ sent.reads noc, index < sent.size.toNat) ↔ sent.size.toNat % 2 = 0) := by
  constructor
  · constructor
    · intro within
      by_contra odd
      obtain ⟨stores, next, receiving, member⟩ :=
        recv_overruns there stored whole buffers message (by omega)
      exact Nat.lt_irrefl _ (within stores next receiving _ member)
    · intro even stores next receiving index member
      obtain ⟨call, copied, rfl⟩ :=
        receiving.copying (hfRecv_copying there stored whole message) rfl
      have := copied.length_le
      have := List.mem_range.mp member
      omega
  · rw [SendCall.reads_eq]
    constructor
    · intro within
      by_contra odd
      exact Nat.lt_irrefl _ (within sent.size.toNat (List.mem_range.mpr (by omega)))
    · intro even index member
      have := List.mem_range.mp member
      omega

end Message

theorem touches_message_iff_three :
    ((∀ stores next, Receiving 1 (mixedCore.hfRecv 1 2) stores next → ∀ index ∈ stores, index < 3) ↔
        3 % 2 = 0) ∧
      ((∀ index ∈ smallMessage.reads smallNoc, index < 3) ↔ 3 % 2 = 0) := by
  obtain ⟨queue, there, stored⟩ := mixedCore_queue
  exact touches_message_iff mixedCore 1 smallMessage queue mixedCells there stored (by decide)
    (by decide) (by decide)

/-- The fourth byte of the buffer of a message of three bytes is stored to and read. -/
theorem odd_message_overrun :
    (¬∀ stores next, Receiving 1 (mixedCore.hfRecv 1 2) stores next →
        ∀ index ∈ stores, index < smallMessage.size.toNat) ∧
      ¬∀ index ∈ smallMessage.reads smallNoc, index < smallMessage.size.toNat := by
  refine ⟨fun within => ?_, fun within => absurd (within 3 (by decide)) (by decide)⟩
  obtain ⟨queue, there, stored⟩ := mixedCore_queue
  have message : ((ownPackets smallMessage.channel mixedCells).map
      fun bufPtr => bufPtr.packet.flits).Perm (smallMessage.hfSend smallNoc) := by decide
  obtain ⟨stores, next, receiving, member⟩ :=
    recv_overruns there stored (by decide) (by decide) message rfl
  exact Nat.lt_irrefl _ (within stores next receiving _ member)

end Noc

end Hellfire

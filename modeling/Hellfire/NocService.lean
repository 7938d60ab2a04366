import Mathlib.Data.List.ReduceOption
import Hellfire.NocConservation
import Hellfire.NocMessage

/-!
The receiving core while no queue is destroyed: what one step means for the queue and the call of
each task, and that a call only takes what its search found.
-/

namespace Hellfire

namespace RecvCall

variable {noc : NocConfig} {call : RecvCall} {queue : List Buffer} {next : MailStep}

def Aimed (call : RecvCall) (queue : List Buffer) : Prop :=
  call.point = .takeFirst →
    ∃ bufPtr rest, queue = bufPtr :: rest ∧ call.awaits (call.seq.toNat + 1) (some bufPtr) = true

theorem Aimed.append (aimed : call.Aimed queue) (more : List Buffer) :
    call.Aimed (queue ++ more) := by
  intro taking
  obtain ⟨bufPtr, rest, rfl, awaited⟩ := aimed taking
  exact ⟨bufPtr, rest ++ more, rfl, awaited⟩

theorem proceed_point (call : RecvCall) (bufPtr : Buffer) :
    (call.proceed bufPtr).point = .store bufPtr ∨ (call.proceed bufPtr).point = .finish bufPtr := by
  unfold proceed
  split
  · exact Or.inl rfl
  · exact Or.inr rfl

theorem mailStep_aimed (stepped : call.mailStep noc queue = some next) :
    next.call.Aimed next.queue := by
  have proceeds : ∀ (taken : RecvCall) (bufPtr : Buffer) (rest : List Buffer),
      (taken.proceed bufPtr).Aimed rest := by
    intro taken bufPtr rest taking
    rcases proceed_point taken bufPtr with point | point
    · simp [point] at taking
    · simp [point] at taking
  cases mailStep_mails stepped with
  | stays resting =>
      intro taking
      rw [show call.point = .takeFirst from taking] at resting
      simp at resting
  | @searchFirst bufPtr rest =>
      intro taking
      simp only at taking
      split at taking
      · rename_i awaited
        exact ⟨bufPtr, rest, rfl, awaited⟩
      · cases taking
  | searchNext | turnNext =>
      intro taking
      simp only at taking
      split at taking
      · cases taking
      · cases taking
  | takeFirst | takeNext => exact proceeds _ _ _
  | turnFirst | store | finish => simp [Aimed]

theorem mailStep_cases (stepped : call.mailStep noc queue = some next) :
    next.call.channel = call.channel ∧
      (next.call.taken = call.taken ∧ next.queue.Perm queue ∧ call.point ≠ .takeFirst ∧
          next.call.point.held = [] ∨
        ∃ bufPtr rest, queue = bufPtr :: rest ∧ (call.point = .takeFirst ∨ call.point = .takeNext) ∧
          next.queue = rest ∧ next.call.taken = call.taken ++ [bufPtr.packet.origin] ∧
          next.call.point.held = [bufPtr]) := by
  cases mailStep_mails stepped with
  | stays resting =>
      refine ⟨rfl, Or.inl ⟨rfl, List.Perm.refl _, fun point => ?_, (resting_point resting).2⟩⟩
      simp [point] at resting
  | takeFirst point =>
      exact ⟨rfl, Or.inr ⟨_, _, rfl, Or.inl point, rfl, rfl, proceed_held _ _⟩⟩
  | takeNext point =>
      exact ⟨rfl, Or.inr ⟨_, _, rfl, Or.inr point, rfl, rfl, proceed_held _ _⟩⟩
  | turnFirst point =>
      exact ⟨rfl, Or.inl ⟨rfl, List.perm_append_singleton _ _, by simp [point], rfl⟩⟩
  | turnNext point =>
      refine ⟨rfl, Or.inl ⟨rfl, List.perm_append_singleton _ _, by simp [point], ?_⟩⟩
      simp only
      split
      · rfl
      · rfl
  | searchFirst point | searchNext point =>
      refine ⟨rfl, Or.inl ⟨rfl, List.Perm.refl _, by simp [point], ?_⟩⟩
      simp only
      split
      · rfl
      · rfl
  | store point | finish point =>
      exact ⟨rfl, Or.inl ⟨rfl, List.Perm.refl _, by simp [point], rfl⟩⟩

end RecvCall

namespace Noc

variable {noc : NocConfig} {core next : Noc noc}

def mail (core : Noc noc) (task : Nat) : List Buffer :=
  (core.cellsAt (core.pktdrvTqueue task)).reduceOption

def receiving (core : Noc noc) (task : Nat) : Option RecvCall :=
  match core.calls task with
  | .recv call => some call
  | _ => none

def serves : NocOp → Noc noc → Prop
  | .arrive packet, core => core.isr = none ∧ packet.flit pktTargetPort ≠ 0
  | .deliver, core => core.isr ≠ none
  | .recv task _, core => core.isr = none ∧ task < noc.maxTasks ∧ core.resting task = true
  | .create task id _ _, core => core.isr = none ∧ task < noc.maxTasks ∧
      core.resting task = true ∧
      ∀ caller < noc.maxTasks, (core.calls caller).creates ≠ some id.toNat
  | .advance task address, core => core.isr = none ∧ task < noc.maxTasks ∧
      core.resting task = false ∧ (address = 0 ∨ core.queues address = none)
  | .destroy _ _, _ | .kernel _, _ => False

instance (op : NocOp) (core : Noc noc) : Decidable (serves op core) :=
  match op with
  | .arrive _ => inferInstanceAs (Decidable (core.isr = none ∧ _))
  | .deliver => inferInstanceAs (Decidable (core.isr ≠ none))
  | .recv _ _ => inferInstanceAs (Decidable (core.isr = none ∧ _ ∧ _))
  | .create _ id _ _ => inferInstanceAs (Decidable (core.isr = none ∧ _ ∧ _ ∧
      ∀ caller < noc.maxTasks, (core.calls caller).creates ≠ some id.toNat))
  | .advance _ address => inferInstanceAs (Decidable (core.isr = none ∧ _ ∧ _ ∧
      (address = 0 ∨ core.queues address = none)))
  | .destroy _ _ | .kernel _ => inferInstanceAs (Decidable False)

structure Serving (core : Noc noc) : Prop where
  kept : ∃ addresses, Kept core addresses
  standing : ∀ task, (core.calls task).destroys = none
  own : ∀ id, core.pktdrvTqueue id ≠ 0 → core.owns id = true
  aimed : ∀ task call, core.receiving task = some call → call.Aimed (core.mail task)

inductive Seen (core next : Noc noc) (task : Nat) : NocOp → Prop
  | same {op} : next.receiving task = core.receiving task → next.mail task = core.mail task →
      Seen core next task op
  | put {bufPtr} : core.isr = some bufPtr →
      core.pktdrvPorts task = bufPtr.flit pktTargetPort →
      next.receiving task = core.receiving task →
      next.mail task = core.mail task ++ [bufPtr] → Seen core next task .deliver
  | started {channel} : next.receiving task = some (.start channel) →
      next.mail task = core.mail task → Seen core next task (.recv task channel)
  | ended {op} : next.receiving task = none → next.mail task = core.mail task →
      Seen core next task op
  | stepped {address call step} : core.receiving task = some call →
      call.mailStep noc (core.mail task) = some step → next.receiving task = some step.call →
      next.mail task = step.queue → Seen core next task (.advance task address)

theorem Serving.niInit (kernel : Kernel noc.toConfig) : Serving (niInit kernel : Noc noc) :=
  ⟨⟨[], .niInit kernel⟩, fun _ => rfl, fun _ pointed => absurd rfl pointed,
    fun task call receives => by simp [receiving, Noc.niInit] at receives⟩

theorem Serving.destroys_ne (serving : Serving core) (task id : Nat) :
    (core.calls task).destroys ≠ some id := by
  rw [serving.standing task]
  exact nofun

theorem Serving.ends_ne (serving : Serving core) (task id : Nat) :
    (core.calls task).ends ≠ some id := by
  have standing := serving.standing task
  cases call : core.calls task with
  | destroyFree other place | destroyPort other => simp [call, CommCall.destroys] at standing
  | _ => simp [CommCall.ends]

theorem Serving.exchanges {op : NocOp} (serving : Serving core) (served : serves op core) :
    exchanges op core ∧ undisturbed op core := by
  cases op with
  | arrive packet => exact ⟨served, trivial⟩
  | deliver =>
      refine ⟨served, ?_⟩
      obtain ⟨bufPtr, running⟩ := Option.ne_none_iff_exists'.mp served
      simp only [undisturbed, running]
      exact fun _ _ caller _ => serving.ends_ne caller _
  | recv task channel =>
      refine ⟨⟨served.1, served.2.1, served.2.2, fun caller _ => serving.destroys_ne caller task⟩, ?_⟩
      by_cases null : core.pktdrvTqueue task = 0
      · exact Or.inl null
      · exact Or.inr (serving.own task null)
  | create task id port packets => exact ⟨⟨served.1, served.2.1, served.2.2.1⟩, served.2.2.2⟩
  | destroy task id => exact served.elim
  | advance task address => exact ⟨served, trivial⟩
  | kernel op => exact served.elim

theorem reduceOption_some (buffers : List Buffer) : (buffers.map some).reduceOption = buffers := by
  induction buffers with
  | nil => rfl
  | cons bufPtr rest ih => rw [List.map_cons, List.reduceOption_cons_of_some, ih]

theorem mail_of_cells {task : Nat} {buffers : List Buffer}
    (cells : core.cellsAt (core.pktdrvTqueue task) = buffers.map some) :
    core.mail task = buffers := by
  rw [mail, cells, reduceOption_some]

theorem mail_congr {task : Nat} (tqueue : next.pktdrvTqueue task = core.pktdrvTqueue task)
    (queues : next.queues (core.pktdrvTqueue task) = core.queues (core.pktdrvTqueue task)) :
    next.mail task = core.mail task := by
  unfold mail
  rw [tqueue, cellsAt_congr queues]

theorem receiving_congr {task : Nat} (calls : next.calls task = core.calls task) :
    next.receiving task = core.receiving task := by
  unfold receiving
  rw [calls]

theorem Serving.others {task other : Nat} {queue : CommQueue}
    {ring : RingQueue Buffer queue.capacity} (serving : Serving core)
    (there : core.queueAt (core.pktdrvTqueue task) = .ok queue) (away : other ≠ task)
    (tqueue : next.pktdrvTqueue = core.pktdrvTqueue)
    (queues : next.queues = Function.update core.queues (core.pktdrvTqueue task)
      (some { queue with ring })) : next.mail other = core.mail other := by
  apply mail_congr (by rw [tqueue])
  rw [queues, Function.update_of_ne]
  intro same
  have present := (queueAt_ok.mp there).1
  exact away (owns_distinct (serving.own other (same ▸ present)) (serving.own task present) same)

theorem Serving.mail_cells (serving : Serving core) (task : Nat) :
    core.cellsAt (core.pktdrvTqueue task) = (core.mail task).map some := by
  obtain ⟨addresses, kept⟩ := serving.kept
  obtain ⟨buffers, cells⟩ := kept.disjoint.queue kept.listed (core.pktdrvTqueue task)
  rw [mail_of_cells cells, cells]

theorem Serving.receives {task address : Nat} {call : RecvCall} {queue : CommQueue}
    {turn : RecvTurn noc queue.capacity} (serving : Serving core)
    (isRecv : core.calls task = .recv call) (unfinished : call.point ≠ .returned)
    (there : core.queueAt (core.pktdrvTqueue task) = .ok queue)
    (turned : call.step noc core.pktdrvQueue queue.ring = .ok turn)
    (calls : next.calls = Function.update core.calls task (.recv turn.call))
    (tqueue : next.pktdrvTqueue = core.pktdrvTqueue)
    (queues : next.queues = Function.update core.queues (core.pktdrvTqueue task)
      (some { queue with ring := turn.queue })) :
    Seen core next task (.advance task address) := by
  obtain ⟨addresses, kept⟩ := serving.kept
  have fits : core.Fits task (.recv call) := isRecv ▸ kept.fits task
  obtain ⟨_, ready⟩ := fits.resolve_left unfinished
  have stored := (queueAt_ok.mp there).2
  rw [cellsAt_some stored] at ready
  obtain ⟨cells, step, isCells, stepped, _, _, queueEq, callEq⟩ :=
    recv_mailStep kept.listed kept.disjoint isRecv there turned ready
  have before : core.mail task = cells := mail_of_cells ((cellsAt_some stored).trans isCells)
  have now : core.receiving task = some call := by
    unfold receiving
    rw [isRecv]
  have went : call.mailStep noc (core.mail task) = some step := by rwa [before]
  refine .stepped now went ?_ ?_
  · unfold receiving
    rw [calls, Function.update_self, ← callEq]
  · apply mail_of_cells
    rw [tqueue, cellsAt_some (by rw [queues, Function.update_self]), queueEq]

theorem Serving.creates {task address other : Nat} {making : Making} {packets : UInt16}
    (serving : Serving core) (call : core.calls task = .createQueue making packets)
    (present : address ≠ 0) (absent : core.queues address = none)
    (tqueue : next.pktdrvTqueue = Function.update core.pktdrvTqueue making.owner address)
    (queues : next.queues = Function.update core.queues address (some (emptyQueue packets making))) :
    next.mail other = core.mail other := by
  obtain ⟨addresses, kept⟩ := serving.kept
  have null : core.Fits task (.createQueue making packets) := call ▸ kept.fits task
  by_cases owner : other = making.owner
  · have before : core.mail other = [] := by
      apply mail_of_cells
      rw [owner, show core.pktdrvTqueue making.owner = 0 from null]
      exact kept.listed.outside kept.listed.nonzero
    rw [before]
    apply mail_of_cells
    rw [tqueue, owner, Function.update_self, cellsAt_some (by rw [queues, Function.update_self])]
    rfl
  · apply mail_congr (by rw [tqueue, Function.update_of_ne owner])
    rw [queues, Function.update_of_ne]
    intro taken
    by_cases unset : core.pktdrvTqueue other = 0
    · exact present (taken.symm.trans unset)
    · obtain ⟨queue, there, _⟩ := owns_iff.mp (serving.own other unset)
      rw [taken, absent] at there
      cases there

theorem Serving.advanced {task address : Nat} {codes : List Int} (serving : Serving core)
    (busy : core.resting task = false) (fresh : address = 0 ∨ core.queues address = none)
    (advanced : Advanced core task address codes next) :
    next.isr = core.isr ∧ ∀ other, Seen core next other (.advance task address) := by
  have standing := serving.standing task
  obtain ⟨addresses, kept⟩ := serving.kept
  have fits := kept.fits task
  have finished : ∀ (after : Noc noc) call, (∀ recv, call ≠ .recv recv) →
      after.calls = Function.update core.calls task call →
      (∀ other, after.mail other = core.mail other) →
      ∀ other, Seen core after other (.advance task address) := by
    intro after call notRecv calls mail other
    by_cases here : other = task
    · refine .ended ?_ (mail other)
      unfold receiving
      rw [calls, here, Function.update_self]
      cases call with
      | recv recvCall => exact absurd rfl (notRecv recvCall)
      | _ => rfl
    · exact .same (receiving_congr (by rw [calls, Function.update_of_ne here])) (mail other)
  cases advanced with
  | idle call | returned call => simp [resting, call] at busy
  | drain call there drained | keep call there filled | test call there empty | free call there
  | clearPort call => simp [call, CommCall.destroys] at standing
  | @recv call queue turn isRecv there turned =>
      refine ⟨rfl, fun other => ?_⟩
      by_cases here : other = task
      · have unfinished : call.point ≠ .returned := by
          intro finished
          simp [resting, isRecv, finished] at busy
        rw [here]
        exact serving.receives isRecv unfinished there turned rfl rfl rfl
      · exact .same (receiving_congr (Function.update_of_ne here _ _))
          (serving.others there here rfl rfl)
  | @noMemory making packets call null =>
      rw [call] at fits
      refine ⟨rfl, finished _ (.returned errOutOfMemory) (by simp) rfl fun other => mail_congr ?_ rfl⟩
      have same : Function.update core.pktdrvTqueue making.owner address = core.pktdrvTqueue := by
        rw [null, ← show core.pktdrvTqueue making.owner = 0 from fits]
        exact Function.update_eq_self _ _
      exact congrFun same other
  | @createQueue making packets call present =>
      exact ⟨rfl, finished _ (.createPort making) (by simp) rfl fun other =>
        serving.creates call present (fresh.resolve_left present) rfl rfl⟩
  | createPort call =>
      exact ⟨rfl, finished _ (.returned errOk) (by simp) rfl fun other => mail_congr rfl rfl⟩

theorem Serving.delivered {bufPtr : Buffer} {codes : List Int} (serving : Serving core)
    (running : core.isr = some bufPtr) (done : core.niDeliver bufPtr = .ok (codes, next)) :
    next.isr = none ∧ ∀ task, Seen core next task .deliver := by
  obtain ⟨addresses, kept⟩ := serving.kept
  have delivered := niDeliver_delivered bufPtr
    (kept.disjoint.room kept.listed 0 (Or.inl (by rw [running]; simp)))
  rw [done] at delivered
  obtain ⟨after, isAfter⟩ : ∃ after, after = next := ⟨next, rfl⟩
  rw [← isAfter] at delivered
  cases delivered with
  | @dropped pool refused returned =>
      rw [← isAfter]
      exact ⟨rfl, fun task => .same rfl (mail_congr rfl rfl)⟩
  | @queued k queue ring slot bound live whole there space contents =>
      have tqueue : next.pktdrvTqueue = core.pktdrvTqueue := by rw [← isAfter]; rfl
      have queues : next.queues = Function.update core.queues (core.pktdrvTqueue k)
          (some { queue with ring }) := by rw [← isAfter]; rfl
      have calls : next.calls = core.calls := by rw [← isAfter]; rfl
      refine ⟨by rw [← isAfter], fun task => ?_⟩
      by_cases here : task = k
      · have port : core.pktdrvPorts task = bufPtr.flit pktTargetPort := by
          rw [here, ← slot]
          exact portSlot_port (by rwa [slot])
        refine .put running port (receiving_congr (by rw [calls])) (mail_of_cells ?_)
        have before := serving.mail_cells k
        rw [cellsAt_some (queueAt_ok.mp there).2] at before
        rw [here, tqueue, cellsAt_some (by rw [queues, Function.update_self])]
        simp only [contents, before, List.map_append, List.map_cons, List.map_nil]
      · exact .same (receiving_congr (by rw [calls])) (serving.others there here tqueue queues)

theorem Serving.setCall_seen {task : Nat} {call : CommCall} {op : NocOp}
    (notRecv : ∀ recv, call ≠ .recv recv) (other : Nat) :
    Seen core (core.setCall task call) other op := by
  by_cases here : other = task
  · refine .ended ?_ (mail_congr rfl rfl)
    unfold receiving
    rw [here, setCall_same]
    cases call with
    | recv recvCall => exact absurd rfl (notRecv recvCall)
    | _ => rfl
  · exact .same (receiving_congr (setCall_other _ _ here)) (mail_congr rfl rfl)

theorem Serving.seen {op : NocOp} {codes : List Int} (serving : Serving core)
    (served : serves op core) (done : core.turn op = .ok (codes, next)) (task : Nat) :
    Seen core next task op := by
  cases op with
  | arrive packet =>
      simp only [Noc.turn, Except.ok.injEq, Prod.mk.injEq] at done
      obtain ⟨addresses, kept⟩ := serving.kept
      obtain ⟨buffers, stored⟩ := kept.disjoint.pool kept.listed
      rw [← done.2]
      obtain ⟨_, same⟩ | ⟨bufPtr, rest, pool, _, _, fetched⟩ := niFetch_cases packet stored
      · rw [same]
        exact .same rfl rfl
      · rw [fetched]
        exact .same rfl (mail_congr rfl rfl)
  | deliver =>
      obtain ⟨bufPtr, running⟩ := Option.ne_none_iff_exists'.mp served
      simp only [Noc.turn, running] at done
      exact (serving.delivered running done).2 task
  | recv caller channel =>
      simp only [Noc.turn, Except.ok.injEq, Prod.mk.injEq] at done
      rw [← done.2, hfRecv]
      split
      · exact setCall_seen (by simp) task
      · by_cases here : task = caller
        · rw [here]
          refine .started ?_ (mail_congr rfl rfl)
          unfold receiving
          rw [setCall_same]
        · exact .same (receiving_congr (setCall_other _ _ here)) (mail_congr rfl rfl)
  | create caller id port packets =>
      simp only [Noc.turn, Except.ok.injEq, Prod.mk.injEq] at done
      obtain ⟨call, notRecv, same⟩ := hfCommCreate_setCall caller id port packets core
      rw [← done.2, same]
      exact setCall_seen notRecv task
  | destroy caller id => exact served.elim
  | advance caller address =>
      obtain ⟨_, _, busy, fresh⟩ := served
      exact (serving.advanced busy fresh (advance_cases done)).2 task
  | kernel op => exact served.elim

theorem Serving.seen_isr {op : NocOp} {codes : List Int} (serving : Serving core)
    (served : serves op core) (done : core.turn op = .ok (codes, next)) {bufPtr : Buffer}
    (running : next.isr = some bufPtr) :
    core.isr = some bufPtr ∧ op ≠ .deliver ∨ op = .arrive bufPtr.packet := by
  cases op with
  | arrive packet =>
      simp only [Noc.turn, Except.ok.injEq, Prod.mk.injEq] at done
      obtain ⟨addresses, kept⟩ := serving.kept
      obtain ⟨buffers, stored⟩ := kept.disjoint.pool kept.listed
      rw [← done.2] at running
      obtain ⟨_, same⟩ | ⟨_, rest, pool, _, _, fetched⟩ := niFetch_cases packet stored
      · rw [same] at running
        exact Or.inl ⟨running, by simp⟩
      · simp only [fetched, Option.some.injEq] at running
        rw [← running]
        exact Or.inr rfl
  | deliver =>
      obtain ⟨fetched, isFetched⟩ := Option.ne_none_iff_exists'.mp served
      simp only [Noc.turn, isFetched] at done
      rw [(serving.delivered isFetched done).1] at running
      cases running
  | recv caller channel =>
      simp only [Noc.turn, Except.ok.injEq, Prod.mk.injEq] at done
      rw [← done.2, hfRecv] at running
      split at running
      · exact Or.inl ⟨running, by simp⟩
      · exact Or.inl ⟨running, by simp⟩
  | create caller id port packets =>
      simp only [Noc.turn, Except.ok.injEq, Prod.mk.injEq] at done
      obtain ⟨call, _, same⟩ := hfCommCreate_setCall caller id port packets core
      rw [← done.2, same] at running
      exact Or.inl ⟨running, by simp⟩
  | destroy caller id => exact served.elim
  | advance caller address =>
      obtain ⟨_, _, busy, fresh⟩ := served
      rw [(serving.advanced busy fresh (advance_cases done)).1] at running
      exact Or.inl ⟨running, by simp⟩
  | kernel op => exact served.elim

theorem Serving.standing_update {task : Nat} {call : CommCall} (serving : Serving core)
    (calls : next.calls = Function.update core.calls task call) (stays : call.destroys = none) :
    ∀ other, (next.calls other).destroys = none := by
  intro other
  rw [calls]
  by_cases here : other = task
  · rw [here, Function.update_self]
    exact stays
  · rw [Function.update_of_ne here]
    exact serving.standing other

theorem Serving.own_same (serving : Serving core) (tqueue : next.pktdrvTqueue = core.pktdrvTqueue)
    (queues : ∀ address, (next.queues address).map CommQueue.making =
      (core.queues address).map CommQueue.making) :
    ∀ id, next.pktdrvTqueue id ≠ 0 → next.owns id = true := by
  intro id pointed
  have same : next.owns id = core.owns id := owns_congr (by rw [tqueue]) (queues _)
  rw [same]
  rw [tqueue] at pointed
  exact serving.own id pointed

theorem making_ring {address : Nat} {queue : CommQueue} {ring : RingQueue Buffer queue.capacity}
    (there : core.queues address = some queue)
    (queues : next.queues = Function.update core.queues address (some { queue with ring })) :
    ∀ other, (next.queues other).map CommQueue.making = (core.queues other).map CommQueue.making := by
  intro other
  rw [queues]
  by_cases here : other = address
  · rw [here, Function.update_self, there]
    rfl
  · rw [Function.update_of_ne here]

theorem Serving.advanced_own {task address : Nat} {codes : List Int} (serving : Serving core)
    (fresh : address = 0 ∨ core.queues address = none)
    (advanced : Advanced core task address codes next) :
    (∀ other, (next.calls other).destroys = none) ∧
      ∀ id, next.pktdrvTqueue id ≠ 0 → next.owns id = true := by
  have standing := serving.standing task
  obtain ⟨addresses, kept⟩ := serving.kept
  have fits := kept.fits task
  obtain ⟨after, isAfter⟩ : ∃ after, after = next := ⟨next, rfl⟩
  rw [← isAfter] at advanced
  cases advanced with
  | idle call | returned call =>
      rw [← isAfter]
      exact ⟨serving.standing, serving.own⟩
  | drain call there drained | keep call there filled | test call there empty | free call there
  | clearPort call => simp [call, CommCall.destroys] at standing
  | @recv call queue turn isRecv there turned =>
      rw [← isAfter]
      exact ⟨serving.standing_update rfl rfl,
        serving.own_same rfl (making_ring (queueAt_ok.mp there).2 rfl)⟩
  | @noMemory making packets call null =>
      rw [call] at fits
      have tqueue : next.pktdrvTqueue = core.pktdrvTqueue := by
        rw [← isAfter, null, ← show core.pktdrvTqueue making.owner = 0 from fits]
        exact Function.update_eq_self _ _
      refine ⟨serving.standing_update (by rw [← isAfter]; rfl) rfl, serving.own_same tqueue fun _ => ?_⟩
      rw [← isAfter]
      rfl
  | @createPort making call =>
      rw [← isAfter]
      exact ⟨serving.standing_update rfl rfl, serving.own_same rfl fun _ => rfl⟩
  | @createQueue making packets call present =>
      have absent := fresh.resolve_left present
      have tqueue : next.pktdrvTqueue = Function.update core.pktdrvTqueue making.owner address := by
        rw [← isAfter]
        rfl
      have queues : next.queues =
          Function.update core.queues address (some (emptyQueue packets making)) := by
        rw [← isAfter]
        rfl
      have calls : next.calls = Function.update core.calls task (.createPort making) := by
        rw [← isAfter]
        rfl
      refine ⟨serving.standing_update calls rfl, fun id pointed => ?_⟩
      by_cases owner : id = making.owner
      · apply owns_iff.mpr
        refine ⟨emptyQueue packets making, ?_, owner.symm⟩
        rw [tqueue, owner, Function.update_self, queues, Function.update_self]
      · rw [tqueue, Function.update_of_ne owner] at pointed
        have own := serving.own id pointed
        have away : core.pktdrvTqueue id ≠ address := by
          intro taken
          obtain ⟨queue, there, _⟩ := owns_iff.mp own
          rw [taken, absent] at there
          cases there
        have same : next.owns id = core.owns id := by
          apply owns_congr
          · rw [tqueue, Function.update_of_ne owner]
          · rw [queues, Function.update_of_ne away]
        rwa [same]

theorem Serving.aimed_step {op : NocOp} {task : Nat} (serving : Serving core)
    (seen : Seen core next task op) :
    ∀ call, next.receiving task = some call → call.Aimed (next.mail task) := by
  intro call receives
  cases seen with
  | same receiving mail =>
      rw [mail]
      exact serving.aimed task call (receiving.symm.trans receives)
  | put running port receiving mail =>
      rw [mail]
      exact (serving.aimed task call (receiving.symm.trans receives)).append _
  | started receiving mail =>
      rw [receiving, Option.some.injEq] at receives
      rw [← receives]
      simp [RecvCall.Aimed, RecvCall.start]
  | ended receiving mail =>
      rw [receiving] at receives
      cases receives
  | stepped before stepped receiving mail =>
      rw [receiving, Option.some.injEq] at receives
      rw [mail, ← receives]
      exact RecvCall.mailStep_aimed stepped

theorem Serving.turn {op : NocOp} (serving : Serving core) (served : serves op core) :
    ∃ codes next, core.turn op = .ok (codes, next) ∧ Serving next := by
  obtain ⟨admitted, calm⟩ := serving.exchanges served
  obtain ⟨addresses, kept⟩ := serving.kept
  obtain ⟨codes, next, done, _, kept'⟩ := kept.turn admitted calm
  refine ⟨codes, next, done, ?_⟩
  have both : (∀ other, (next.calls other).destroys = none) ∧
      ∀ id, next.pktdrvTqueue id ≠ 0 → next.owns id = true := by
    cases op with
    | arrive packet =>
        simp only [Noc.turn, Except.ok.injEq, Prod.mk.injEq] at done
        obtain ⟨buffers, stored⟩ := kept.disjoint.pool kept.listed
        rw [← done.2]
        obtain ⟨_, same⟩ | ⟨bufPtr, rest, pool, _, _, fetched⟩ := niFetch_cases packet stored
        · rw [same]
          exact ⟨serving.standing, serving.own⟩
        · rw [fetched]
          exact ⟨serving.standing, serving.own⟩
    | deliver =>
        obtain ⟨bufPtr, running⟩ := Option.ne_none_iff_exists'.mp served
        simp only [Noc.turn, running] at done
        have delivered := niDeliver_delivered bufPtr
          (kept.disjoint.room kept.listed 0 (Or.inl (by rw [running]; simp)))
        rw [done] at delivered
        cases delivered with
        | dropped refused returned => exact ⟨serving.standing, serving.own⟩
        | queued slot bound live whole there space contents =>
            exact ⟨serving.standing, serving.own_same rfl (making_ring (queueAt_ok.mp there).2 rfl)⟩
    | recv task channel =>
        simp only [Noc.turn, Except.ok.injEq, Prod.mk.injEq] at done
        rw [← done.2, hfRecv]
        split
        · exact ⟨serving.standing_update rfl rfl, serving.own⟩
        · exact ⟨serving.standing_update rfl rfl, serving.own⟩
    | create task id port packets =>
        simp only [Noc.turn, Except.ok.injEq, Prod.mk.injEq] at done
        rw [← done.2, hfCommCreate]
        simp only
        split
        · exact ⟨serving.standing_update rfl rfl, serving.own⟩
        · split
          · exact ⟨serving.standing_update rfl rfl, serving.own⟩
          · split
            · exact ⟨serving.standing_update rfl rfl, serving.own⟩
            · exact ⟨serving.standing_update rfl rfl, serving.own⟩
    | destroy task id => exact served.elim
    | advance task address => exact serving.advanced_own served.2.2.2 (advance_cases done)
    | kernel op => exact served.elim
  exact ⟨kept', both.1, both.2, fun task => serving.aimed_step (serving.seen served done task)⟩

end Noc

end Hellfire

import Hellfire.NocPorts

/-!
Conservation of the packet buffers over every run of the interrupt, of `hf_recv`, of
`hf_comm_create` and of `hf_comm_destroy`, as long as the calls for one queue keep apart.
-/

namespace Hellfire

open Machine

namespace CommCall

def concerns : CommCall → Option Nat
  | .createQueue making _ | .createPort making => some making.owner
  | .destroyDrain id | .destroyTest id | .destroyFree id _ | .destroyPort id => some id
  | _ => none

def creates : CommCall → Option Nat
  | .createQueue making _ => some making.owner
  | _ => none

def destroys : CommCall → Option Nat
  | .destroyDrain id | .destroyTest id | .destroyFree id _ | .destroyPort id => some id
  | _ => none

def ends : CommCall → Option Nat
  | .destroyFree id _ | .destroyPort id => some id
  | _ => none

def receives : CommCall → Bool
  | .recv call => call.point ≠ .returned
  | _ => false

end CommCall

namespace Noc

variable {noc : NocConfig}

def owns (core : Noc noc) (id : Nat) : Bool :=
  match core.queues (core.pktdrvTqueue id) with
  | none => false
  | some queue => queue.making.owner = id

/-- The interrupt for packets to ports other than 0, steps of `hf_recv` and `hf_comm_create`, and
of `hf_comm_destroy` for a queue that is there and whose task does not receive. -/
def exchanges : NocOp → Noc noc → Prop
  | .arrive packet, core => core.isr = none ∧ packet.flit pktTargetPort ≠ 0
  | .deliver, core => core.isr ≠ none
  | .recv task _, core => core.isr = none ∧ task < noc.maxTasks ∧ core.resting task = true ∧
      ∀ caller < noc.maxTasks, (core.calls caller).destroys ≠ some task
  | .create task _ _ _, core => core.isr = none ∧ task < noc.maxTasks ∧ core.resting task = true
  | .destroy task id, core => core.isr = none ∧ task < noc.maxTasks ∧ core.resting task = true ∧
      core.owns id.toNat = true ∧ (core.calls id.toNat).receives = false
  | .advance task address, core => core.isr = none ∧ task < noc.maxTasks ∧
      core.resting task = false ∧ (address = 0 ∨ core.queues address = none)
  | .kernel _, _ => False

/-- No packet gets into a queue that `hf_comm_destroy` has found empty, no task receives from a
queue that was destroyed, and no two calls create or destroy the queue of one task together. -/
def undisturbed : NocOp → Noc noc → Prop
  | .deliver, core => match core.isr with
      | none => True
      | some bufPtr => bufPtr.flit pktPayload = UInt16.ofNat (noc.nocPacketSize - 2) →
          core.alive (core.portSlot (bufPtr.flit pktTargetPort)) = true →
          ∀ caller < noc.maxTasks,
            (core.calls caller).ends ≠ some (core.portSlot (bufPtr.flit pktTargetPort))
  | .recv task _, core => core.pktdrvTqueue task = 0 ∨ core.owns task = true
  | .create _ id _ _, core => ∀ caller < noc.maxTasks, (core.calls caller).creates ≠ some id.toNat
  | .destroy _ id, core => ∀ caller < noc.maxTasks, (core.calls caller).concerns ≠ some id.toNat
  | _, _ => True

/-- Every buffer is in exactly one place: the pool, one queue, the interrupt or one call of
`hf_recv`; and every queue is the one that its task points to. -/
def Conserved (core : Noc noc) : Prop :=
  ∃ addresses, Listed core addresses (List.range noc.maxTasks) ∧
    (core.places addresses (List.range noc.maxTasks)).Perm
      ((List.range noc.nocPacketSlots).map some) ∧
    ∀ address queue, core.queues address = some queue →
      core.pktdrvTqueue queue.making.owner = address

def Fits (core : Noc noc) (task : Nat) : CommCall → Prop
  | .recv call => call.point = .returned ∨ core.owns task = true ∧
      (call.point.removes = true → core.cellsAt (core.pktdrvTqueue task) ≠ [])
  | .createQueue making _ => core.pktdrvTqueue making.owner = 0
  | .createPort making => core.owns making.owner = true
  | .destroyDrain id | .destroyTest id => core.owns id = true
  | .destroyFree id address =>
      address = core.pktdrvTqueue id ∧ core.owns id = true ∧ core.cellsAt address = []
  | .destroyPort id => core.pktdrvTqueue id ≠ 0
  | .idle | .returned _ => True

structure Kept (core : Noc noc) (addresses : List Nat) : Prop where
  listed : Listed core addresses (List.range noc.maxTasks)
  whole : (core.places addresses (List.range noc.maxTasks)).Perm
    ((List.range noc.nocPacketSlots).map some)
  owned : ∀ address queue, core.queues address = some queue →
    core.pktdrvTqueue queue.making.owner = address
  ports : ∀ id, core.pktdrvPorts id ≠ 0 → core.owns id = true ∨
    ∃ caller, core.calls caller = .destroyPort id
  fits : ∀ task, core.Fits task (core.calls task)
  alone : ∀ task task' id, (core.calls task).concerns = some id →
    (core.calls task').concerns = some id → task = task'
  apart : ∀ task id, (core.calls task).destroys = some id → (core.calls id).receives = false
  port : ∀ bufPtr, core.isr = some bufPtr → bufPtr.flit pktTargetPort ≠ 0

variable {core core' : Noc noc} {addresses : List Nat}

theorem owns_iff {id : Nat} : core.owns id = true ↔
    ∃ queue, core.queues (core.pktdrvTqueue id) = some queue ∧ queue.making.owner = id := by
  unfold owns
  cases core.queues (core.pktdrvTqueue id) with
  | none => simp
  | some queue => simp

theorem owns_congr {id : Nat} (tqueue : core'.pktdrvTqueue id = core.pktdrvTqueue id)
    (queues : (core'.queues (core.pktdrvTqueue id)).map CommQueue.making =
      (core.queues (core.pktdrvTqueue id)).map CommQueue.making) : core'.owns id = core.owns id := by
  have after : core'.owns id = ((core'.queues (core.pktdrvTqueue id)).map CommQueue.making).any
      fun making => making.owner = id := by
    unfold owns
    rw [tqueue]
    cases core'.queues (core.pktdrvTqueue id) with
    | none => rfl
    | some queue => rfl
  have before : core.owns id = ((core.queues (core.pktdrvTqueue id)).map CommQueue.making).any
      fun making => making.owner = id := by
    unfold owns
    cases core.queues (core.pktdrvTqueue id) with
    | none => rfl
    | some queue => rfl
  rw [after, before, queues]

theorem own_of_owns {id : Nat} {queue : CommQueue} (own : core.owns id = true)
    (there : core.queues (core.pktdrvTqueue id) = some queue) : queue.making.owner = id := by
  obtain ⟨found, stands, isOwner⟩ := owns_iff.mp own
  rw [there, Option.some.injEq] at stands
  rw [stands, isOwner]

theorem owns_distinct {id other : Nat} (own : core.owns id = true) (own' : core.owns other = true)
    (same : core.pktdrvTqueue id = core.pktdrvTqueue other) : id = other := by
  obtain ⟨queue, there, owner⟩ := owns_iff.mp own
  obtain ⟨queue', there', owner'⟩ := owns_iff.mp own'
  rw [same, there', Option.some.injEq] at there
  rw [← owner, ← owner', there]

theorem Kept.disjoint (kept : Kept core addresses) :
    Apart core addresses (List.range noc.maxTasks) := kept.whole.subperm

theorem Kept.owns_queueAt (kept : Kept core addresses) {id : Nat} (own : core.owns id = true) :
    ∃ queue, core.queueAt (core.pktdrvTqueue id) = .ok queue ∧ queue.making.owner = id := by
  obtain ⟨queue, there, owner⟩ := owns_iff.mp own
  have inside := (kept.listed.there _).mp (by rw [there]; simp)
  have nonzero : core.pktdrvTqueue id ≠ 0 := fun zero => kept.listed.nonzero (zero ▸ inside)
  exact ⟨queue, queueAt_ok.mpr ⟨nonzero, there⟩, owner⟩

theorem Kept.owns_receiving (kept : Kept core addresses) {task : Nat}
    (receives : (core.calls task).receives = true) : core.owns task = true := by
  have fits := kept.fits task
  cases call : core.calls task with
  | recv recvCall =>
      rw [call] at fits receives
      rcases fits with finished | ⟨own, _⟩
      · simp [CommCall.receives, finished] at receives
      · exact own
  | _ => simp [call, CommCall.receives] at receives

theorem Kept.niInit (kernel : Kernel noc.toConfig) : Kept (niInit kernel : Noc noc) [] := by
  obtain ⟨listed, places⟩ := niInit_places kernel
  refine ⟨listed, by rw [places], ?_, fun _ port => absurd rfl port, fun _ => trivial, ?_, ?_, ?_⟩
  · intro address queue there
    simp [Noc.niInit] at there
  · intro task task' id concerned
    simp [Noc.niInit, CommCall.concerns] at concerned
  · intro task id destroyed
    simp [Noc.niInit, CommCall.destroys] at destroyed
  · intro bufPtr running
    simp [Noc.niInit] at running

theorem Fits.frame {task : Nat} {call : CommCall} (fits : core.Fits task call)
    (tqueue : ∀ id, call.concerns = some id ∨ id = task ∧ call.receives = true →
      core'.pktdrvTqueue id = core.pktdrvTqueue id)
    (owns : ∀ id, call.concerns = some id ∨ id = task ∧ call.receives = true →
      core.owns id = true → core'.owns id = true)
    (filled : call.receives = true → core.cellsAt (core.pktdrvTqueue task) ≠ [] →
      core'.cellsAt (core.pktdrvTqueue task) ≠ [])
    (emptied : ∀ id, call = .destroyFree id (core.pktdrvTqueue id) →
      core.cellsAt (core.pktdrvTqueue id) = [] → core'.cellsAt (core.pktdrvTqueue id) = []) :
    core'.Fits task call := by
  cases call with
  | idle | returned code => trivial
  | recv recvCall =>
      rcases fits with finished | ⟨own, ready⟩
      · exact Or.inl finished
      · by_cases finished : recvCall.point = .returned
        · exact Or.inl finished
        · have receives : CommCall.receives (.recv recvCall) = true := by
            simp [CommCall.receives, finished]
          refine Or.inr ⟨owns task (Or.inr ⟨rfl, receives⟩) own, fun removes => ?_⟩
          rw [tqueue task (Or.inr ⟨rfl, receives⟩)]
          exact filled receives (ready removes)
  | createQueue making packets => exact (tqueue making.owner (Or.inl rfl)).trans fits
  | createPort making => exact owns making.owner (Or.inl rfl) fits
  | destroyDrain id | destroyTest id => exact owns id (Or.inl rfl) fits
  | destroyFree id address =>
      obtain ⟨rfl, own, empty⟩ := fits
      exact ⟨(tqueue id (Or.inl rfl)).symm, owns id (Or.inl rfl) own, emptied id rfl empty⟩
  | destroyPort id =>
      have same := tqueue id (Or.inl rfl)
      exact fun zero => fits (same.symm.trans zero)

theorem Fits.same {task : Nat} {call : CommCall} (fits : core.Fits task call)
    (tqueue : core'.pktdrvTqueue = core.pktdrvTqueue) (queues : core'.queues = core.queues) :
    core'.Fits task call := by
  have cells : ∀ address, core'.cellsAt address = core.cellsAt address :=
    fun address => cellsAt_congr (by rw [queues])
  refine fits.frame (fun _ _ => by rw [tqueue]) (fun id _ own => ?_) (fun _ filled => ?_)
    fun _ _ empty => ?_
  · have same : core'.owns id = core.owns id := owns_congr (by rw [tqueue]) (by rw [queues])
    rwa [same]
  · rwa [cells]
  · rwa [cells]

theorem owns_ring {address id : Nat} {queue : CommQueue} {ring : RingQueue Buffer queue.capacity}
    (there : core.queues address = some queue)
    (tqueue : core'.pktdrvTqueue = core.pktdrvTqueue)
    (queues : core'.queues = Function.update core.queues address (some { queue with ring })) :
    core'.owns id = core.owns id := by
  refine owns_congr (by rw [tqueue]) ?_
  rw [queues]
  by_cases here : core.pktdrvTqueue id = address
  · rw [here, Function.update_self, there]
    rfl
  · rw [Function.update_of_ne here]

theorem Fits.ring {task address : Nat} {call : CommCall} {queue : CommQueue}
    {ring : RingQueue Buffer queue.capacity} (fits : core.Fits task call)
    (there : core.queues address = some queue)
    (tqueue : core'.pktdrvTqueue = core.pktdrvTqueue)
    (queues : core'.queues = Function.update core.queues address (some { queue with ring }))
    (filled : call.receives = true → task = queue.making.owner → ring.contents ≠ [])
    (emptied : ∀ id place, call = .destroyFree id place → id ≠ queue.making.owner) :
    core'.Fits task call := by
  have owner : ∀ id, core.owns id = true → core.pktdrvTqueue id = address →
      id = queue.making.owner := by
    intro id own pointed
    obtain ⟨found, stands, isOwner⟩ := owns_iff.mp own
    rw [pointed, there, Option.some.injEq] at stands
    rw [← isOwner, stands]
  have elsewhere : ∀ other, other ≠ address → core'.cellsAt other = core.cellsAt other :=
    fun other away => cellsAt_congr (by rw [queues, Function.update_of_ne away])
  have here : core'.cellsAt address = ring.contents :=
    cellsAt_some (by rw [queues, Function.update_self])
  have whole := fits
  refine fits.frame (fun _ _ => by rw [tqueue]) (fun id _ own => (owns_ring there tqueue queues).trans own)
    (fun receives before => ?_) fun id isFree empty => ?_
  · by_cases pointed : core.pktdrvTqueue task = address
    · rw [pointed, here]
      refine filled receives (owner task ?_ pointed)
      cases call with
      | recv recvCall =>
          rcases whole with finished | ⟨own, _⟩
          · simp [CommCall.receives, finished] at receives
          · exact own
      | _ => simp [CommCall.receives] at receives
    · rwa [elsewhere _ pointed]
  · by_cases pointed : core.pktdrvTqueue id = address
    · rw [isFree] at whole
      exact absurd (owner id whole.2.1 pointed) (emptied id _ isFree)
    · rwa [elsewhere _ pointed]

structure Narrower (before after : CommCall) : Prop where
  concerns : ∀ id, after.concerns = some id → before.concerns = some id
  destroys : ∀ id, after.destroys = some id → before.destroys = some id
  receives : after.receives = true → before.receives = true

section Calls

variable {task : Nat} {call : CommCall}

theorem alone_update (kept : Kept core addresses)
    (calls : core'.calls = Function.update core.calls task call)
    (fresh : ∀ id, call.concerns = some id → ∀ other, other ≠ task →
      (core.calls other).concerns ≠ some id) :
    ∀ first second id, (core'.calls first).concerns = some id →
      (core'.calls second).concerns = some id → first = second := by
  intro first second id
  rw [calls]
  by_cases here : first = task
  · by_cases there : second = task
    · exact fun _ _ => here.trans there.symm
    · rw [here, Function.update_self, Function.update_of_ne there]
      exact fun concerned other => absurd other (fresh id concerned second there)
  · by_cases there : second = task
    · rw [there, Function.update_self, Function.update_of_ne here]
      exact fun other concerned => absurd other (fresh id concerned first here)
    · rw [Function.update_of_ne here, Function.update_of_ne there]
      exact kept.alone first second id

theorem apart_update (kept : Kept core addresses)
    (calls : core'.calls = Function.update core.calls task call)
    (destroyed : ∀ id, call.destroys = some id → id ≠ task → (core.calls id).receives = false)
    (same : call.destroys = some task → call.receives = false)
    (received : call.receives = true → ∀ other, other ≠ task →
      (core.calls other).destroys ≠ some task) :
    ∀ other id, (core'.calls other).destroys = some id → (core'.calls id).receives = false := by
  intro other id
  rw [calls]
  by_cases here : other = task
  · rw [here, Function.update_self]
    by_cases there : id = task
    · rw [there, Function.update_self]
      exact same
    · rw [Function.update_of_ne there]
      exact fun destroys => destroyed id destroys there
  · rw [Function.update_of_ne here]
    by_cases there : id = task
    · rw [there, Function.update_self]
      intro destroys
      by_contra receives
      exact received (by simpa using receives) other here destroys
    · rw [Function.update_of_ne there]
      exact kept.apart other id

theorem Narrower.alone (kept : Kept core addresses) (narrower : Narrower (core.calls task) call) :
    ∀ id, call.concerns = some id → ∀ other, other ≠ task →
      (core.calls other).concerns ≠ some id :=
  fun id concerned other away concerned' =>
    away (kept.alone other task id concerned' (narrower.concerns id concerned))

/-- A step of one call. Its own call fits the new state, and the other calls find there what they
relied on. -/
theorem Kept.going {lost : List (Option Nat)} (kept : Kept core addresses)
    (calls : core'.calls = Function.update core.calls task call)
    (narrower : Narrower (core.calls task) call)
    (placed : Placed core core' addresses (List.range noc.maxTasks) lost) (none : lost = [])
    (owned : ∀ address queue, core'.queues address = some queue →
      core'.pktdrvTqueue queue.making.owner = address)
    (ports : ∀ id, core'.pktdrvPorts id ≠ 0 → core'.owns id = true ∨
      ∃ caller, core'.calls caller = .destroyPort id)
    (fits : core'.Fits task call)
    (others : ∀ other, other ≠ task → core'.Fits other (core.calls other))
    (isr : core'.isr = core.isr) : ∃ addresses', Kept core' addresses' := by
  subst none
  obtain ⟨addresses', listed, moved⟩ := placed
  rw [List.append_nil] at moved
  refine ⟨addresses', listed, moved.trans kept.whole, owned, ports, fun other => ?_,
    alone_update kept calls (narrower.alone kept), apart_update kept calls ?_ ?_ ?_, ?_⟩
  · rw [calls]
    by_cases here : other = task
    · rw [here, Function.update_self]
      exact fits
    · rw [Function.update_of_ne here]
      exact others other here
  · exact fun id destroys _ => kept.apart task id (narrower.destroys id destroys)
  · intro destroys
    by_contra receives
    have before := narrower.receives (by simpa using receives)
    rw [kept.apart task task (narrower.destroys task destroys)] at before
    cases before
  · intro receives other _ destroys
    have before := narrower.receives receives
    rw [kept.apart other task destroys] at before
    cases before
  · rw [isr]
    exact kept.port

end Calls

theorem Kept.owned_ring {address : Nat} {queue : CommQueue} {ring : RingQueue Buffer queue.capacity}
    (kept : Kept core addresses) (there : core.queues address = some queue)
    (tqueue : core'.pktdrvTqueue = core.pktdrvTqueue)
    (queues : core'.queues = Function.update core.queues address (some { queue with ring })) :
    ∀ place found, core'.queues place = some found →
      core'.pktdrvTqueue found.making.owner = place := by
  intro place found stands
  rw [queues] at stands
  rw [tqueue]
  by_cases here : place = address
  · rw [here, Function.update_self, Option.some.injEq] at stands
    rw [here, ← stands]
    exact kept.owned address queue there
  · rw [Function.update_of_ne here] at stands
    exact kept.owned place found stands

theorem Kept.ports_keep {task : Nat} {call : CommCall} (kept : Kept core addresses)
    (owns : ∀ id, core.owns id = true → core'.owns id = true)
    (calls : core'.calls = Function.update core.calls task call)
    (staying : ∀ id, core.calls task ≠ .destroyPort id)
    (ports : core'.pktdrvPorts = core.pktdrvPorts) :
    ∀ id, core'.pktdrvPorts id ≠ 0 → core'.owns id = true ∨
      ∃ caller, core'.calls caller = .destroyPort id := by
  intro id port
  rw [ports] at port
  rcases kept.ports id port with own | ⟨caller, pending⟩
  · exact Or.inl (owns id own)
  · refine Or.inr ⟨caller, ?_⟩
    rw [calls, Function.update_of_ne, pending]
    rintro rfl
    exact staying id pending

theorem Kept.quiet {task : Nat} {call : CommCall} {lost : List (Option Nat)}
    (kept : Kept core addresses) (calls : core'.calls = Function.update core.calls task call)
    (staying : ∀ id, core.calls task ≠ .destroyPort id)
    (tqueue : core'.pktdrvTqueue = core.pktdrvTqueue) (queues : core'.queues = core.queues)
    (ports : core'.pktdrvPorts = core.pktdrvPorts)
    (placed : Placed core core' addresses (List.range noc.maxTasks) lost) (none : lost = [])
    (fits : core'.Fits task call) (narrower : Narrower (core.calls task) call)
    (isr : core'.isr = core.isr) : ∃ addresses', Kept core' addresses' := by
  have owns : ∀ id, core.owns id = true → core'.owns id = true := by
    intro id own
    have same : core'.owns id = core.owns id := owns_congr (by rw [tqueue]) (by rw [queues])
    rwa [same]
  refine kept.going calls narrower placed none ?_ (kept.ports_keep owns calls staying ports) fits
    (fun other _ => (kept.fits other).same tqueue queues) isr
  rw [queues, tqueue]
  exact kept.owned

theorem Kept.settled {task : Nat} {code : Int} {lost : List (Option Nat)}
    (kept : Kept core addresses)
    (calls : core'.calls = Function.update core.calls task (.returned code))
    (tqueue : core'.pktdrvTqueue = core.pktdrvTqueue) (queues : core'.queues = core.queues)
    (ports : ∀ id, core'.pktdrvPorts id ≠ 0 → core.owns id = true ∨
      ∃ caller, caller ≠ task ∧ core.calls caller = .destroyPort id)
    (placed : Placed core core' addresses (List.range noc.maxTasks) lost) (none : lost = [])
    (isr : core'.isr = core.isr) : ∃ addresses', Kept core' addresses' := by
  refine kept.going calls ⟨by simp [CommCall.concerns], by simp [CommCall.destroys],
    by simp [CommCall.receives]⟩ placed none (by rw [queues, tqueue]; exact kept.owned) ?_ trivial
    (fun other _ => (kept.fits other).same tqueue queues) isr
  intro id port
  rcases ports id port with own | ⟨caller, other, pending⟩
  · have same : core'.owns id = core.owns id := owns_congr (by rw [tqueue]) (by rw [queues])
    exact Or.inl (same.trans own)
  · refine Or.inr ⟨caller, ?_⟩
    rw [calls, Function.update_of_ne other, pending]

theorem Kept.created {task address : Nat} {making : Making} {packets : UInt16}
    {lost : List (Option Nat)} (kept : Kept core addresses)
    (call : core.calls task = .createQueue making packets) (absent : core.queues address = none)
    (calls : core'.calls = Function.update core.calls task (.createPort making))
    (tqueue : core'.pktdrvTqueue = Function.update core.pktdrvTqueue making.owner address)
    (queues : core'.queues = Function.update core.queues address (some (emptyQueue packets making)))
    (ports : core'.pktdrvPorts = core.pktdrvPorts)
    (placed : Placed core core' addresses (List.range noc.maxTasks) lost) (none : lost = [])
    (isr : core'.isr = core.isr) : ∃ addresses', Kept core' addresses' := by
  have null : core.pktdrvTqueue making.owner = 0 := by
    have fits := kept.fits task
    rwa [call] at fits
  have away : ∀ id, core.owns id = true → id ≠ making.owner ∧ core.pktdrvTqueue id ≠ address := by
    intro id own
    obtain ⟨queue, there, _⟩ := owns_iff.mp own
    constructor
    · rintro rfl
      rw [null] at there
      exact kept.listed.nonzero ((kept.listed.there 0).mp (by rw [there]; simp))
    · intro taken
      rw [taken, absent] at there
      cases there
  have elsewhere : ∀ place, place ≠ address → core'.queues place = core.queues place := by
    intro place other
    rw [queues, Function.update_of_ne other]
  have owns : ∀ id, core.owns id = true → core'.owns id = true := by
    intro id own
    obtain ⟨other, place⟩ := away id own
    have same : core'.owns id = core.owns id := by
      apply owns_congr
      · rw [tqueue, Function.update_of_ne other]
      · rw [elsewhere _ place]
    rwa [same]
  refine kept.going calls ⟨?_, ?_, ?_⟩ placed none ?_ (kept.ports_keep owns calls (by simp [call]) ports)
    ?_ ?_ isr
  · simp [call, CommCall.concerns]
  · simp [CommCall.destroys]
  · simp [CommCall.receives]
  · intro place found stands
    by_cases here : place = address
    · rw [here, queues, Function.update_self, Option.some.injEq] at stands
      rw [here, tqueue, ← stands]
      exact Function.update_self _ _ _
    · rw [elsewhere place here] at stands
      have pointed := kept.owned place found stands
      rw [tqueue, Function.update_of_ne, pointed]
      intro same
      rw [same, null] at pointed
      rw [← pointed] at stands
      exact kept.listed.nonzero ((kept.listed.there 0).mp (by rw [stands]; simp))
  · apply owns_iff.mpr
    refine ⟨emptyQueue packets making, ?_, rfl⟩
    rw [tqueue, Function.update_self, queues, Function.update_self]
  · intro other different
    refine (kept.fits other).frame (fun id used => ?_) (fun id _ => owns id) ?_ ?_
    · rw [tqueue, Function.update_of_ne]
      rintro rfl
      rcases used with concerned | ⟨rfl, receives⟩
      · exact different (kept.alone other task _ concerned (by rw [call]; rfl))
      · exact (away _ (kept.owns_receiving receives)).1 rfl
    · intro receives filled
      rwa [cellsAt_congr (elsewhere _ (away other (kept.owns_receiving receives)).2)]
    · intro id _ empty
      by_cases here : core.pktdrvTqueue id = address
      · rw [cellsAt_some (by rw [here, queues, Function.update_self])]
        rfl
      · rwa [cellsAt_congr (elsewhere _ here)]

theorem Kept.freed {task id place : Nat} {lost : List (Option Nat)} (kept : Kept core addresses)
    (call : core.calls task = .destroyFree id place) (present : place ≠ 0)
    (calls : core'.calls = Function.update core.calls task (.destroyPort id))
    (tqueue : core'.pktdrvTqueue = core.pktdrvTqueue)
    (queues : core'.queues = Function.update core.queues place none)
    (ports : core'.pktdrvPorts = core.pktdrvPorts)
    (placed : Placed core core' addresses (List.range noc.maxTasks) lost) (none : lost = [])
    (isr : core'.isr = core.isr) : ∃ addresses', Kept core' addresses' := by
  obtain ⟨pointed, own, empty⟩ : core.Fits task (.destroyFree id place) := call ▸ kept.fits task
  have elsewhere : ∀ other, other ≠ place → core'.queues other = core.queues other := by
    intro other away
    rw [queues, Function.update_of_ne away]
  have owns : ∀ other, other ≠ id → core.owns other = true → core'.owns other = true := by
    intro other different own'
    have away : core.pktdrvTqueue other ≠ place := by
      intro same
      exact different (owns_distinct own' own (same.trans pointed))
    have same : core'.owns other = core.owns other := by
      apply owns_congr
      · rw [tqueue]
      · rw [elsewhere _ away]
    rwa [same]
  refine kept.going calls ⟨?_, ?_, ?_⟩ placed none ?_ ?_ ?_ ?_ isr
  · simp [call, CommCall.concerns]
  · simp [call, CommCall.destroys]
  · simp [CommCall.receives]
  · intro other found stands
    by_cases here : other = place
    · rw [here, queues, Function.update_self] at stands
      cases stands
    · rw [elsewhere other here] at stands
      rw [tqueue]
      exact kept.owned other found stands
  · intro other port
    rw [ports] at port
    by_cases same : other = id
    · right
      refine ⟨task, ?_⟩
      rw [calls, Function.update_self, same]
    · rcases kept.ports other port with own' | ⟨caller, pending⟩
      · exact Or.inl (owns other same own')
      · refine Or.inr ⟨caller, ?_⟩
        rw [calls, Function.update_of_ne, pending]
        rintro rfl
        simp [call] at pending
  · change core'.pktdrvTqueue id ≠ 0
    rwa [tqueue, ← pointed]
  · intro other different
    refine (kept.fits other).frame (fun _ _ => by rw [tqueue]) (fun used isUsed => owns used ?_) ?_ ?_
    · rintro rfl
      rcases isUsed with concerned | ⟨rfl, receives⟩
      · exact different (kept.alone other task _ concerned (by rw [call]; rfl))
      · rw [kept.apart task _ (by rw [call]; rfl)] at receives
        cases receives
    · intro _ filled
      rwa [cellsAt_congr (elsewhere _ _)]
      intro here
      exact filled (by rw [here, empty])
    · intro used _ before
      by_cases here : core.pktdrvTqueue used = place
      · simp [cellsAt, queues, here]
      · rwa [cellsAt_congr (elsewhere _ here)]

theorem Kept.received {task : Nat} {call : RecvCall} {queue : CommQueue} {turn : RecvTurn noc queue.capacity}
    {lost : List (Option Nat)} (kept : Kept core addresses) (isRecv : core.calls task = .recv call)
    (unfinished : call.point ≠ .returned)
    (there : core.queueAt (core.pktdrvTqueue task) = .ok queue)
    (turned : call.step noc core.pktdrvQueue queue.ring = .ok turn)
    (calls : core'.calls = Function.update core.calls task (.recv turn.call))
    (tqueue : core'.pktdrvTqueue = core.pktdrvTqueue)
    (queues : core'.queues = Function.update core.queues (core.pktdrvTqueue task)
      (some { queue with ring := turn.queue }))
    (ports : core'.pktdrvPorts = core.pktdrvPorts)
    (placed : Placed core core' addresses (List.range noc.maxTasks) lost) (none : lost = [])
    (isr : core'.isr = core.isr) : ∃ addresses', Kept core' addresses' := by
  have fitsTask : core.Fits task (.recv call) := isRecv ▸ kept.fits task
  obtain ⟨own, ready⟩ := fitsTask.resolve_left unfinished
  obtain ⟨nonzero, stored⟩ := queueAt_ok.mp there
  rw [cellsAt_some stored] at ready
  obtain ⟨cells, next, isCells, stepped, _, _, queueEq, callEq⟩ :=
    recv_mailStep kept.listed kept.disjoint isRecv there turned ready
  have owner : queue.making.owner = task := own_of_owns own stored
  have receives : (core.calls task).receives = true := by
    simp [isRecv, CommCall.receives, unfinished]
  have owns : ∀ id, core.owns id = true → core'.owns id = true :=
    fun id own => (owns_ring stored tqueue queues).trans own
  refine kept.going calls ⟨by simp [CommCall.concerns], by simp [CommCall.destroys],
    fun _ => receives⟩ placed none (kept.owned_ring stored tqueue queues)
    (kept.ports_keep owns calls (by simp [isRecv]) ports) ?_ ?_ isr
  · refine Or.inr ⟨owns task own, fun removes => ?_⟩
    have nonempty := RecvCall.mailStep_ready stepped (by rwa [← callEq])
    rw [tqueue, cellsAt_some (by rw [queues, Function.update_self]), queueEq]
    simpa using nonempty
  · intro other away
    refine (kept.fits other).ring stored tqueue queues
      (fun _ same => absurd (same.trans owner) away) fun id place isFree same => ?_
    have destroyed := kept.apart other task (by rw [isFree, ← owner, ← same]; rfl)
    rw [receives] at destroyed
    cases destroyed

theorem Kept.drained {task id : Nat} {queue : CommQueue} {ring : RingQueue Buffer queue.capacity}
    {lost : List (Option Nat)} (kept : Kept core addresses) (call : core.calls task = .destroyDrain id)
    (there : core.queueAt (core.pktdrvTqueue id) = .ok queue)
    (calls : core'.calls = Function.update core.calls task (.destroyTest id))
    (tqueue : core'.pktdrvTqueue = core.pktdrvTqueue)
    (queues : core'.queues = Function.update core.queues (core.pktdrvTqueue id)
      (some { queue with ring }))
    (ports : core'.pktdrvPorts = core.pktdrvPorts)
    (placed : Placed core core' addresses (List.range noc.maxTasks) lost) (none : lost = [])
    (isr : core'.isr = core.isr) : ∃ addresses', Kept core' addresses' := by
  have own : core.Fits task (.destroyDrain id) := call ▸ kept.fits task
  obtain ⟨nonzero, stored⟩ := queueAt_ok.mp there
  have owner : queue.making.owner = id := own_of_owns own stored
  have owns : ∀ id, core.owns id = true → core'.owns id = true :=
    fun id own => (owns_ring stored tqueue queues).trans own
  refine kept.going calls ⟨by simp [call, CommCall.concerns], by simp [call, CommCall.destroys],
    by simp [CommCall.receives]⟩ placed none (kept.owned_ring stored tqueue queues)
    (kept.ports_keep owns calls (by simp [call]) ports) (owns id own) ?_ isr
  intro other away
  apply (kept.fits other).ring stored tqueue queues
  · intro receives same
    have resting := kept.apart task id (by rw [call]; rfl)
    rw [← owner, ← same, receives] at resting
    cases resting
  · intro other' place isFree same
    refine away (kept.alone other task id ?_ (by rw [call]; rfl))
    rw [isFree, ← owner, ← same]
    rfl

theorem Kept.tested {task id : Nat} {queue : CommQueue} {lost : List (Option Nat)}
    (kept : Kept core addresses) (call : core.calls task = .destroyTest id)
    (there : core.queueAt (core.pktdrvTqueue id) = .ok queue) (empty : queue.ring.contents = [])
    (calls : core'.calls =
      Function.update core.calls task (.destroyFree id (core.pktdrvTqueue id)))
    (tqueue : core'.pktdrvTqueue = core.pktdrvTqueue) (queues : core'.queues = core.queues)
    (ports : core'.pktdrvPorts = core.pktdrvPorts)
    (placed : Placed core core' addresses (List.range noc.maxTasks) lost) (none : lost = [])
    (isr : core'.isr = core.isr) : ∃ addresses', Kept core' addresses' := by
  have fitsTask : core.Fits task (.destroyTest id) := call ▸ kept.fits task
  have own : core'.owns id = true := by
    have same : core'.owns id = core.owns id := owns_congr (by rw [tqueue]) (by rw [queues])
    rw [same]
    exact fitsTask
  have cells : core'.cellsAt (core.pktdrvTqueue id) = [] := by
    have same : core'.cellsAt (core.pktdrvTqueue id) = core.cellsAt (core.pktdrvTqueue id) :=
      cellsAt_congr (by rw [queues])
    rw [same, cellsAt_some (queueAt_ok.mp there).2, empty]
  exact kept.quiet calls (by simp [call]) tqueue queues ports placed none
    ⟨by rw [tqueue], own, cells⟩ ⟨by simp [call, CommCall.concerns],
      by simp [call, CommCall.destroys], by simp [CommCall.receives]⟩ isr

/-- The last step of a call that writes one port: the task of the port has a queue of its own then,
or the port is cleared. -/
theorem Kept.portWritten {task id : Nat} {port : UInt16} {code : Int} {lost : List (Option Nat)}
    (kept : Kept core addresses) (owned : port ≠ 0 → core.owns id = true)
    (own : ∀ other, core.calls task = .destroyPort other → other = id)
    (calls : core'.calls = Function.update core.calls task (.returned code))
    (tqueue : core'.pktdrvTqueue = core.pktdrvTqueue) (queues : core'.queues = core.queues)
    (ports : core'.pktdrvPorts = Function.update core.pktdrvPorts id port)
    (placed : Placed core core' addresses (List.range noc.maxTasks) lost) (none : lost = [])
    (isr : core'.isr = core.isr) : ∃ addresses', Kept core' addresses' := by
  refine kept.settled calls tqueue queues (fun other used => ?_) placed none isr
  by_cases here : other = id
  · rw [ports, here, Function.update_self] at used
    exact Or.inl (here ▸ owned used)
  · rw [ports, Function.update_of_ne here] at used
    refine (kept.ports other used).imp_right ?_
    rintro ⟨caller, pending⟩
    refine ⟨caller, ?_, pending⟩
    rintro rfl
    exact here (own other pending)

theorem Kept.advanced {task address : Nat} {codes : List Int} (kept : Kept core addresses)
    (bound : task < noc.maxTasks) (busy : core.resting task = false)
    (fresh : address = 0 ∨ core.queues address = none)
    (advanced : Advanced core task address codes core') :
    (∀ code ∈ codes, code = 0) ∧ ∃ addresses', Kept core' addresses' := by
  have fitsTask := kept.fits task
  obtain ⟨zero, lost, placed, losing⟩ := advanced.placed kept.listed kept.disjoint
    (List.mem_range.mpr bound) (fun call queue isRecv there removes => by
      rw [isRecv] at fitsTask
      rcases fitsTask with finished | ⟨_, ready⟩
      · simp [finished, RecvPoint.removes] at removes
      · rw [← cellsAt_some (queueAt_ok.mp there).2]
        exact ready removes) fun _ _ _ => fresh
  have none : lost = [] := by
    by_contra more
    obtain ⟨id, place, queue, call, there, filled⟩ := losing more
    rw [call] at fitsTask
    obtain ⟨_, _, empty⟩ := fitsTask
    rw [cellsAt_some there] at empty
    exact filled empty
  refine ⟨zero, ?_⟩
  cases advanced with
  | idle call | returned call => simp [resting, call] at busy
  | @recv call queue turn isRecv there turned =>
      have unfinished : call.point ≠ .returned := by
        intro finished
        simp [resting, isRecv, finished] at busy
      exact kept.received isRecv unfinished there turned rfl rfl rfl rfl placed none rfl
  | @noMemory making packets call null =>
      rw [call] at fitsTask
      refine kept.quiet rfl (by simp [call]) ?_ rfl rfl placed none trivial
        ⟨by simp [CommCall.concerns], by simp [CommCall.destroys], by simp [CommCall.receives]⟩ rfl
      rw [null, ← show core.pktdrvTqueue making.owner = 0 from fitsTask]
      exact Function.update_eq_self _ _
  | @createQueue making packets call present =>
      exact kept.created call (fresh.resolve_left present) rfl rfl rfl rfl placed none rfl
  | @createPort making call =>
      rw [call] at fitsTask
      exact kept.portWritten (fun _ => fitsTask) (by simp [call]) rfl rfl rfl rfl placed none rfl
  | @drain id queue codes pool ring call there drained =>
      exact kept.drained call there rfl rfl rfl rfl placed none rfl
  | @keep id queue call there filled =>
      exact kept.quiet rfl (by simp [call]) rfl rfl rfl placed none trivial
        ⟨by simp [CommCall.concerns], by simp [CommCall.destroys], by simp [CommCall.receives]⟩ rfl
  | @test id queue call there empty =>
      exact kept.tested call there empty rfl rfl rfl rfl placed none rfl
  | @free id place queue call there =>
      exact kept.freed call (queueAt_ok.mp there).1 rfl rfl rfl rfl placed none rfl
  | @clearPort id call =>
      refine kept.portWritten (fun used => absurd rfl used) (fun other pending => ?_) rfl rfl rfl rfl placed
        none rfl
      rw [call, CommCall.destroyPort.injEq] at pending
      exact pending.symm

theorem Kept.interrupted {lost : List (Option Nat)} (kept : Kept core addresses)
    (calls : core'.calls = core.calls) (ports : core'.pktdrvPorts = core.pktdrvPorts)
    (placed : Placed core core' addresses (List.range noc.maxTasks) lost) (none : lost = [])
    (owned : ∀ address queue, core'.queues address = some queue →
      core'.pktdrvTqueue queue.making.owner = address)
    (owns : ∀ id, core.owns id = true → core'.owns id = true)
    (fits : ∀ task, core'.Fits task (core.calls task))
    (port : ∀ bufPtr, core'.isr = some bufPtr → bufPtr.flit pktTargetPort ≠ 0) :
    ∃ addresses', Kept core' addresses' := by
  subst none
  obtain ⟨addresses', listed, moved⟩ := placed
  rw [List.append_nil] at moved
  refine ⟨addresses', listed, moved.trans kept.whole, owned, ?_, ?_, ?_, ?_, port⟩
  · intro id used
    rw [ports] at used
    rw [calls]
    exact (kept.ports id used).imp_left (owns id)
  · rw [calls]
    exact fits
  · rw [calls]
    exact kept.alone
  · rw [calls]
    exact kept.apart

theorem Kept.arrived (kept : Kept core addresses) (packet : Packet) (idle : core.isr = none)
    (port : packet.flit pktTargetPort ≠ 0) : ∃ addresses', Kept (core.niFetch packet) addresses' := by
  have placed := niFetch_placed kept.listed kept.disjoint packet idle
  obtain ⟨buffers, stored⟩ := kept.disjoint.pool kept.listed
  obtain ⟨_, same⟩ | ⟨bufPtr, rest, pool, _, _, fetched⟩ := niFetch_cases packet stored
  · rw [same]
    exact ⟨addresses, kept⟩
  · rw [fetched] at placed ⊢
    refine kept.interrupted rfl rfl placed rfl kept.owned (fun _ own => own)
      (fun task => (kept.fits task).same rfl rfl) fun running isRunning => ?_
    simp only [Option.some.injEq] at isRunning
    rw [← isRunning]
    exact port

theorem Kept.addressed (kept : Kept core addresses) {bufPtr : Buffer} {k : Nat}
    (running : core.isr = some bufPtr) (slot : core.portSlot (bufPtr.flit pktTargetPort) = k)
    (bound : k < noc.maxTasks)
    (open' : ∀ caller < noc.maxTasks, (core.calls caller).ends ≠ some k) : core.owns k = true := by
  have port : core.pktdrvPorts (core.portSlot (bufPtr.flit pktTargetPort)) =
      bufPtr.flit pktTargetPort := portSlot_port (by rwa [slot])
  rw [slot] at port
  have used : core.pktdrvPorts k ≠ 0 := by
    rw [port]
    exact kept.port bufPtr running
  rcases kept.ports k used with own | ⟨caller, pending⟩
  · exact own
  · have calling := kept.listed.calling caller (by rw [pending]; simp)
    exact absurd (by rw [pending]; rfl) (open' caller (List.mem_range.mp calling))

theorem Kept.delivered {bufPtr : Buffer} (kept : Kept core addresses)
    (running : core.isr = some bufPtr) (calm : undisturbed .deliver core) :
    ∃ codes next, core.niDeliver bufPtr = .ok (codes, next) ∧ (∀ code ∈ codes, code = 0) ∧
      ∃ addresses', Kept next addresses' := by
  simp only [undisturbed, running] at calm
  have room := kept.disjoint.room kept.listed 0 (Or.inl (by rw [running]; simp))
  have delivered := niDeliver_delivered bufPtr room
  generalize outcome : core.niDeliver bufPtr = result at delivered
  cases delivered with
  | dropped refused returned =>
      obtain ⟨zero, placed⟩ := (Delivered.dropped refused returned).placed kept.listed running
      exact ⟨_, _, rfl, zero, kept.interrupted rfl rfl placed rfl kept.owned (fun _ own => own)
        (fun task => (kept.fits task).same rfl rfl) (by simp)⟩
  | @queued k queue ring slot bound live whole there space contents =>
      obtain ⟨zero, placed⟩ :=
        (Delivered.queued slot bound live whole there space contents).placed kept.listed running
      rw [slot] at calm
      have own := kept.addressed running slot bound (calm whole live)
      have stored := (queueAt_ok.mp there).2
      have owner := own_of_owns own stored
      refine ⟨_, _, rfl, zero, kept.interrupted rfl rfl placed rfl
        (kept.owned_ring stored rfl rfl) (fun id own => by rw [← own]; exact owns_ring stored rfl rfl)
        (fun task => (kept.fits task).ring stored rfl rfl (fun _ _ => by simp [contents]) ?_) (by simp)⟩
      intro id place isFree same
      have calling := kept.listed.calling task (by rw [isFree]; simp)
      refine calm whole live task (List.mem_range.mp calling) ?_
      rw [isFree, ← owner, ← same]
      rfl
  | @faulted k fault slot bound live whole there =>
      rw [slot] at calm
      obtain ⟨queue, found, _⟩ := kept.owns_queueAt (kept.addressed running slot bound (calm whole live))
      rw [there] at found
      cases found

theorem Kept.starting {task : Nat} {call : CommCall} (kept : Kept core addresses)
    (bound : task < noc.maxTasks) (resting : core.resting task = true)
    (held' : (core.setCall task call).heldBy task = [])
    (fits : core.Fits task call)
    (fresh : ∀ id, call.concerns = some id → ∀ other, (core.calls other).concerns ≠ some id)
    (destroyed : ∀ id, call.destroys = some id → (core.calls id).receives = false)
    (sending : ∀ id, call.destroys = some id → call.receives = false)
    (received : call.receives = true → ∀ other, (core.calls other).destroys ≠ some task) :
    ∃ addresses', Kept (core.setCall task call) addresses' := by
  have held : core.heldBy task = [] := by
    unfold Noc.resting at resting
    unfold heldBy
    cases isCall : core.calls task with
    | recv recvCall =>
        simp only [isCall, decide_eq_true_eq] at resting
        simp [resting, RecvPoint.held]
    | _ => rfl
  obtain ⟨addresses', listed, moved⟩ :=
    setCall_placed kept.listed (List.mem_range.mpr bound) held held'
  rw [List.append_nil] at moved
  refine ⟨addresses', listed, moved.trans kept.whole, kept.owned, ?_, fun other => ?_,
    alone_update kept rfl fun id concerned other _ => fresh id concerned other,
    apart_update kept rfl (fun id destroys _ => destroyed id destroys) (sending task)
      fun receives other _ => received receives other, kept.port⟩
  · intro id used
    refine (kept.ports id used).imp_right ?_
    rintro ⟨caller, pending⟩
    refine ⟨caller, ?_⟩
    rw [setCall_other, pending]
    rintro rfl
    simp [Noc.resting, pending] at resting
  · by_cases here : other = task
    · rw [here, setCall_same]
      exact fits.same rfl rfl
    · rw [setCall_other _ _ here]
      exact (kept.fits other).same rfl rfl

theorem Kept.returning {task : Nat} (kept : Kept core addresses) (bound : task < noc.maxTasks)
    (resting : core.resting task = true) (code : Int) :
    ∃ addresses', Kept (core.setCall task (.returned code)) addresses' :=
  kept.starting bound resting (heldBy_other fun recv => by rw [setCall_same]; simp) trivial
    (by simp [CommCall.concerns]) (by simp [CommCall.destroys]) (fun _ _ => rfl)
    (by simp [CommCall.receives])

theorem Kept.advances {task : Nat} (kept : Kept core addresses) (busy : core.resting task = false)
    (address : Nat) : ∃ codes next, core.advance task address = .ok (codes, next) := by
  have fits := kept.fits task
  unfold Noc.advance
  cases call : core.calls task with
  | idle | returned code => exact ⟨_, _, rfl⟩
  | recv recvCall =>
      rw [call] at fits
      have unfinished : recvCall.point ≠ .returned := by
        intro finished
        simp [resting, call, finished] at busy
      obtain ⟨own, ready⟩ := fits.resolve_left unfinished
      obtain ⟨queue, there, _⟩ := kept.owns_queueAt own
      obtain ⟨cells, isCells⟩ := kept.disjoint.queue kept.listed (core.pktdrvTqueue task)
      rw [isCells] at ready
      have callReady : recvCall.Ready cells := fun removes empty =>
        ready removes (by rw [empty]; rfl)
      obtain ⟨next, stepped⟩ := callReady.mailStep
      rw [cellsAt_some (queueAt_ok.mp there).2] at isCells
      have held : core.heldBy task = recvCall.point.held := by simp only [heldBy, call]
      obtain ⟨turn, done, _⟩ := RecvCall.step_mailStep core.pktdrvQueue queue.ring isCells
        (fun holds => kept.disjoint.room kept.listed task (Or.inr (by rwa [held]))) stepped
      simp only [there, done, bind, Except.bind]
      exact ⟨_, _, rfl⟩
  | createQueue making packets =>
      simp only
      split
      · exact ⟨_, _, rfl⟩
      · exact ⟨_, _, rfl⟩
  | createPort making => exact ⟨_, _, rfl⟩
  | destroyDrain id =>
      rw [call] at fits
      obtain ⟨queue, there, _⟩ := kept.owns_queueAt fits
      simp only [there, bind, Except.bind]
      exact ⟨_, _, rfl⟩
  | destroyTest id =>
      rw [call] at fits
      obtain ⟨queue, there, _⟩ := kept.owns_queueAt fits
      simp only [there, bind, Except.bind]
      split
      · exact ⟨_, _, rfl⟩
      · exact ⟨_, _, rfl⟩
  | destroyFree id place =>
      rw [call] at fits
      obtain ⟨rfl, own, _⟩ := fits
      obtain ⟨queue, there, _⟩ := kept.owns_queueAt own
      simp only [there, bind, Except.bind]
      exact ⟨_, _, rfl⟩
  | destroyPort id => exact ⟨_, _, rfl⟩

theorem Kept.unclaimed {id : Nat} (kept : Kept core addresses) (null : core.pktdrvTqueue id = 0)
    (unowned : core.owns id = false)
    (calm : ∀ caller < noc.maxTasks, (core.calls caller).creates ≠ some id) (caller : Nat) :
    (core.calls caller).concerns ≠ some id := by
  intro claimed
  have fits := kept.fits caller
  cases call : core.calls caller with
  | createQueue making packets =>
      have calling := kept.listed.calling caller (by rw [call]; simp)
      refine calm caller (List.mem_range.mp calling) ?_
      rw [call] at claimed ⊢
      exact claimed
  | idle | returned code | recv recvCall => simp [call, CommCall.concerns] at claimed
  | createPort making | destroyDrain other | destroyTest other =>
      rw [call] at fits claimed
      simp only [CommCall.concerns, Option.some.injEq] at claimed
      simp only [Fits, claimed, unowned, Bool.false_eq_true] at fits
  | destroyFree other place =>
      rw [call] at fits claimed
      simp only [CommCall.concerns, Option.some.injEq] at claimed
      simp only [Fits, claimed, unowned, Bool.false_eq_true, false_and, and_false] at fits
  | destroyPort other =>
      rw [call] at fits claimed
      simp only [CommCall.concerns, Option.some.injEq] at claimed
      rw [claimed] at fits
      exact fits null

theorem Kept.turn {op : NocOp} (kept : Kept core addresses) (admitted : exchanges op core)
    (calm : undisturbed op core) :
    ∃ codes next, core.turn op = .ok (codes, next) ∧ (∀ code ∈ codes, code = 0) ∧
      ∃ addresses', Kept next addresses' := by
  cases op with
  | arrive packet =>
      exact ⟨[], _, rfl, by simp, kept.arrived packet admitted.1 admitted.2⟩
  | deliver =>
      obtain ⟨bufPtr, running⟩ := Option.ne_none_iff_exists'.mp admitted
      simp only [Noc.turn, running]
      exact kept.delivered running calm
  | recv task channel =>
      obtain ⟨_, bound, resting, standing⟩ := admitted
      refine ⟨[], _, rfl, by simp, ?_⟩
      unfold hfRecv
      split
      · exact kept.returning bound resting _
      · rename_i present
        have own := calm.resolve_left present
        refine kept.starting bound resting (by simp [heldBy, RecvCall.start, RecvPoint.held])
          (Or.inr ⟨own, by simp [RecvCall.start, RecvPoint.removes]⟩) (by simp [CommCall.concerns])
          (by simp [CommCall.destroys]) (by simp [CommCall.destroys]) fun _ other destroys => ?_
        have calling := kept.listed.calling other (by rintro idle; simp [idle, CommCall.destroys] at destroys)
        exact standing other (List.mem_range.mp calling) destroys
  | create task id port packets =>
      obtain ⟨_, bound, resting⟩ := admitted
      refine ⟨[], _, rfl, by simp, ?_⟩
      unfold hfCommCreate
      simp only
      split
      · exact kept.returning bound resting _
      · split
        · exact kept.returning bound resting _
        · rename_i without
          split
          · exact kept.returning bound resting _
          · have null : core.pktdrvTqueue id.toNat = 0 := by simpa using without
            have unowned : core.owns id.toNat = false := by
              by_contra own
              obtain ⟨queue, there, _⟩ := kept.owns_queueAt (Bool.not_eq_false _ ▸ own)
              exact (queueAt_ok.mp there).1 null
            refine kept.starting bound resting (heldBy_other fun recv => by rw [setCall_same]; simp)
              null ?_ (by simp [CommCall.destroys]) (by simp [CommCall.destroys])
              (by simp [CommCall.receives])
            intro other concerned caller claimed
            obtain rfl : id.toNat = other := by simpa [CommCall.concerns] using concerned
            exact kept.unclaimed null unowned calm caller claimed
  | destroy task id =>
      obtain ⟨_, bound, resting, own, resting'⟩ := admitted
      refine ⟨[], _, rfl, by simp, ?_⟩
      unfold hfCommDestroy
      simp only
      split
      · exact kept.returning bound resting _
      · refine kept.starting bound resting (heldBy_other fun recv => by rw [setCall_same]; simp)
          own ?_ ?_ (fun _ _ => rfl) (by simp [CommCall.receives])
        · intro other concerned caller claimed
          obtain rfl : id.toNat = other := by simpa [CommCall.concerns] using concerned
          have calling := kept.listed.calling caller
            (by rintro idle; simp [idle, CommCall.concerns] at claimed)
          exact calm caller (List.mem_range.mp calling) claimed
        · intro other destroys
          obtain rfl : id.toNat = other := by simpa [CommCall.destroys] using destroys
          exact resting'
  | advance task address =>
      obtain ⟨_, bound, busy, fresh⟩ := admitted
      obtain ⟨codes, next, done⟩ := kept.advances busy address
      obtain ⟨zero, kept'⟩ := kept.advanced bound busy fresh (advance_cases done)
      exact ⟨codes, next, done, zero, kept'⟩
  | kernel op => exact admitted.elim

instance (op : NocOp) (core : Noc noc) : Decidable (exchanges op core) :=
  match op with
  | .arrive _ => inferInstanceAs (Decidable (core.isr = none ∧ _))
  | .deliver => inferInstanceAs (Decidable (core.isr ≠ none))
  | .recv task _ => inferInstanceAs (Decidable (core.isr = none ∧ _ ∧ _ ∧
      ∀ caller < noc.maxTasks, (core.calls caller).destroys ≠ some task))
  | .create _ _ _ _ => inferInstanceAs (Decidable (core.isr = none ∧ _ ∧ _))
  | .destroy _ _ => inferInstanceAs (Decidable (core.isr = none ∧ _ ∧ _ ∧ _ ∧ _))
  | .advance _ address => inferInstanceAs (Decidable (core.isr = none ∧ _ ∧ _ ∧
      (address = 0 ∨ core.queues address = none)))
  | .kernel _ => inferInstanceAs (Decidable False)

instance (op : NocOp) (core : Noc noc) : Decidable (undisturbed op core) :=
  match op with
  | .deliver => match running : core.isr with
      | none => .isTrue (by simp only [undisturbed, running])
      | some bufPtr => decidable_of_iff
          (bufPtr.flit pktPayload = UInt16.ofNat (noc.nocPacketSize - 2) →
            core.alive (core.portSlot (bufPtr.flit pktTargetPort)) = true →
            ∀ caller < noc.maxTasks,
              (core.calls caller).ends ≠ some (core.portSlot (bufPtr.flit pktTargetPort)))
          (by simp only [undisturbed, running])
  | .recv task _ => inferInstanceAs (Decidable (core.pktdrvTqueue task = 0 ∨ _))
  | .create _ id _ _ => inferInstanceAs (Decidable
      (∀ caller < noc.maxTasks, (core.calls caller).creates ≠ some id.toNat))
  | .destroy _ id => inferInstanceAs (Decidable
      (∀ caller < noc.maxTasks, (core.calls caller).concerns ≠ some id.toNat))
  | .arrive _ | .advance _ _ | .kernel _ => .isTrue trivial

/-- No buffer is lost or doubled in any run in which the calls for one queue keep apart, and every
queue that a buffer is put into without a look at the result takes it. -/
theorem buffers_conserved {kernel : Kernel noc.toConfig}
    (reached : Reaches step (fun op core => exchanges op core ∧ undisturbed op core)
      (niInit kernel) core) :
    core.Conserved ∧ ∀ op, exchanges op core → undisturbed op core →
      ∃ codes next, core.turn op = .ok (codes, next) ∧ ∀ code ∈ codes, code = 0 := by
  obtain ⟨addresses, kept⟩ : ∃ addresses, Kept core addresses := by
    refine reached.invariant (fun state => ∃ addresses, Kept state addresses)
      ⟨[], .niInit kernel⟩ ?_
    rintro op before after ⟨addresses, kept⟩ ⟨admitted, calm⟩ stepped
    obtain ⟨codes, turned⟩ := turn_of_step stepped
    obtain ⟨codes', next, done, _, kept'⟩ := kept.turn admitted calm
    rw [turned] at done
    cases done
    exact kept'
  refine ⟨⟨addresses, kept.listed, kept.whole, kept.owned⟩, fun op admitted calm => ?_⟩
  obtain ⟨codes, next, done, zero, _⟩ := kept.turn admitted calm
  exact ⟨codes, next, done, zero⟩

def workerCore (steps : List NocOp) : Noc smallNoc :=
  outcome step steps (niInit (Kernel.smallRun [.spawn Kernel.worker]))

def exchangeRun : List NocOp :=
  [.create 1 1 5 0, .advance 1 256, .advance 1 0, .recv 1 0, .arrive (incoming 5), .deliver,
    .advance 1 0, .advance 1 0]

theorem buffers_conserved_exchange :
    (workerCore exchangeRun).Conserved ∧ ∀ op, exchanges op (workerCore exchangeRun) →
      undisturbed op (workerCore exchangeRun) → ∃ codes next,
        (workerCore exchangeRun).turn op = .ok (codes, next) ∧ ∀ code ∈ codes, code = 0 :=
  buffers_conserved (outcome_reaches _ _ (by decide) (by decide))

def lossyRun : List NocOp :=
  [.create 1 1 5 0, .advance 1 256, .advance 1 0, .destroy 1 1, .advance 1 0, .advance 1 0,
    .arrive (incoming 5), .deliver, .advance 1 0]

theorem destroy_loses_buffer :
    ∃ (kernel : Kernel smallNoc.toConfig) (core : Noc smallNoc),
      Reaches step exchanges (niInit kernel) core ∧ ¬core.Conserved := by
  refine ⟨Kernel.smallRun [.spawn Kernel.worker], workerCore lossyRun,
    outcome_reaches _ _ (by decide) (by decide), ?_⟩
  rintro ⟨addresses, listed, whole, _⟩
  have none : addresses = [] := by
    rw [List.eq_nil_iff_forall_not_mem]
    intro address inside
    refine (listed.there address).mpr inside ?_
    have queues : (workerCore lossyRun).queues = Function.update (Function.update (Function.update
        (Function.update (fun _ => none) 256 _) 256 _) 256 _) 256 none := rfl
    rw [queues]
    by_cases here : address = 256
    · rw [here, Function.update_self]
    · simp [here]
  rw [none] at whole
  have three : ((workerCore lossyRun).places [] (List.range smallNoc.maxTasks)).length = 3 := by decide
  rw [whole.length_eq] at three
  exact absurd three (by decide)

end Noc

end Hellfire

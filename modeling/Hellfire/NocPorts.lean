import Hellfire.NocBuffers
import Hellfire.TaskSafety

/-!
Which incoming packets the interrupt handles safely, in every state that the calls of tasks
and earlier packets can lead to.
-/

namespace Hellfire

open Machine

namespace Noc

variable {noc : NocConfig}

def resting (core : Noc noc) (task : Nat) : Bool :=
  match core.calls task with
  | .idle | .returned _ => true
  | .recv call => call.point = .returned
  | _ => false

/-- The steps of `hf_spawn`, `hf_kill`, `hf_comm_create`, `hf_comm_destroy` and of the interrupt,
which nothing interrupts. `hf_malloc` gives out no address of a queue that is there. -/
def administers : NocOp → Noc noc → Prop
  | .arrive _, core => core.isr = none
  | .deliver, core => core.isr ≠ none
  | .recv _ _, _ => False
  | .create task _ _ _, core => core.isr = none ∧ task < noc.maxTasks ∧ core.resting task = true
  | .destroy task _, core => core.isr = none ∧ task < noc.maxTasks ∧ core.resting task = true
  | .advance task address, core => core.isr = none ∧ task < noc.maxTasks ∧
      (address = 0 ∨ core.queues address = none)
  | .kernel (.spawn _), core => core.isr = none
  | .kernel (.kill _ _), core => core.isr = none
  | .kernel _, _ => False

/-- The buffer goes back to the pool, or into a queue that is there and that was made for a live
task with the port of the packet. -/
def HandledSafely (core : Noc noc) (packet : Packet) : Prop :=
  ∃ codes after, core.niIsr packet = .ok (codes, after) ∧
    ((after.queues = core.queues ∧
        (slotsOf after.pktdrvQueue.contents).Perm (slotsOf core.pktdrvQueue.contents)) ∨
      ∃ id queue bufPtr, core.alive id = true ∧
        core.queues (core.pktdrvTqueue id) = some queue ∧
        queue.making = ⟨id, packet.flit pktTargetPort, core.lives id⟩ ∧ bufPtr.packet = packet ∧
        slotsOf core.pktdrvQueue.contents = some bufPtr.slot :: slotsOf after.pktdrvQueue.contents ∧
        after.cellsAt (core.pktdrvTqueue id) =
          core.cellsAt (core.pktdrvTqueue id) ++ [some bufPtr])

/-- The pool is empty, or the packet is refused, or the slot that its port leads to has the queue
that `hf_comm_create` made under this port for a task that still lives and that was not destroyed
since. -/
def Expected (core : Noc noc) (packet : Packet) : Prop :=
  core.pktdrvQueue.contents = [] ∨ core.Refused packet ∨
    ∃ id, core.alive id = true ∧
      core.pktdrvTqueue id = core.pktdrvTqueue (core.portSlot (packet.flit pktTargetPort)) ∧
      core.made id = some ⟨id, packet.flit pktTargetPort, core.lives id⟩

structure Recorded (core : Noc noc) (addresses : List Nat) : Prop where
  listed : Listed core addresses (List.range noc.maxTasks)
  apart : Apart core addresses (List.range noc.maxTasks)
  there : ∀ id making, core.made id = some making → making.owner = id ∧
    ∃ queue, core.queues (core.pktdrvTqueue id) = some queue ∧ queue.making = making
  recorded : ∀ id queue, core.queues (core.pktdrvTqueue id) = some queue →
    queue.making.owner = id → core.made id = some queue.making
  sending : ∀ task call, core.calls task ≠ .recv call

variable {core core' : Noc noc} {addresses : List Nat}

theorem Recorded.niInit (kernel : Kernel noc.toConfig) : Recorded (niInit kernel : Noc noc) [] := by
  obtain ⟨listed, places⟩ := niInit_places kernel
  refine ⟨listed, ?_, fun _ _ made => absurd made (by simp [Noc.niInit]), fun _ _ there => ?_,
    fun _ _ => by simp [Noc.niInit]⟩
  · rw [Apart, places]
  · simp [Noc.niInit] at there

theorem Apart.of_placed {tasks : List Nat} {lost : List (Option Nat)}
    (apart : Apart core addresses tasks) (placed : Placed core core' addresses tasks lost) :
    ∃ addresses', Listed core' addresses' tasks ∧ Apart core' addresses' tasks := by
  obtain ⟨addresses', listed, moved⟩ := placed
  have front : (core'.places addresses' tasks).Sublist (core'.places addresses' tasks ++ lost) :=
    List.sublist_append_left _ _
  exact ⟨addresses', listed, (front.subperm.trans moved.subperm).trans apart⟩

theorem Recorded.of_same {lost : List (Option Nat)} (kept : Recorded core addresses)
    (placed : Placed core core' addresses (List.range noc.maxTasks) lost)
    (tqueue : core'.pktdrvTqueue = core.pktdrvTqueue) (made : core'.made = core.made)
    (queues : ∀ address, (core'.queues address).map CommQueue.making =
      (core.queues address).map CommQueue.making)
    (sending : ∀ task call, core'.calls task ≠ .recv call) :
    ∃ addresses', Recorded core' addresses' := by
  obtain ⟨addresses', listed, apart⟩ := kept.apart.of_placed placed
  refine ⟨addresses', listed, apart, ?_, ?_, sending⟩
  · intro id making recorded
    rw [made] at recorded
    obtain ⟨owner, queue, there, same⟩ := kept.there id making recorded
    have after := queues (core.pktdrvTqueue id)
    rw [there, Option.map_some, same, Option.map_eq_some_iff] at after
    rw [tqueue]
    exact ⟨owner, after⟩
  · intro id queue there owner
    have before := queues (core.pktdrvTqueue id)
    rw [tqueue] at there
    rw [there, Option.map_some, eq_comm, Option.map_eq_some_iff] at before
    obtain ⟨old, stored, same⟩ := before
    rw [made, ← same]
    exact kept.recorded id old stored (by rw [same]; exact owner)

theorem Recorded.unmade {lost : List (Option Nat)} {owner : Nat} (kept : Recorded core addresses)
    (placed : Placed core core' addresses (List.range noc.maxTasks) lost)
    (tqueue : core'.pktdrvTqueue = Function.update core.pktdrvTqueue owner 0)
    (queues : core'.queues = core.queues) (made : core'.made = Function.update core.made owner none)
    (sending : ∀ task call, core'.calls task ≠ .recv call) :
    ∃ addresses', Recorded core' addresses' := by
  obtain ⟨addresses', listed, apart⟩ := kept.apart.of_placed placed
  refine ⟨addresses', listed, apart, ?_, ?_, sending⟩
  · intro id other recorded
    by_cases same : id = owner
    · simp [made, same] at recorded
    · rw [made, Function.update_of_ne same] at recorded
      rw [tqueue, queues, Function.update_of_ne same]
      exact kept.there id other recorded
  · intro id queue there isOwner
    by_cases same : id = owner
    · rw [queues, tqueue, same, Function.update_self] at there
      exact absurd ((kept.listed.there 0).mp (by rw [there]; simp)) kept.listed.nonzero
    · rw [queues, tqueue, Function.update_of_ne same] at there
      rw [made, Function.update_of_ne same]
      exact kept.recorded id queue there isOwner

theorem Recorded.created {lost : List (Option Nat)} {address : Nat} {making : Making}
    {packets : UInt16} (kept : Recorded core addresses)
    (placed : Placed core core' addresses (List.range noc.maxTasks) lost)
    (absent : core.queues address = none)
    (tqueue : core'.pktdrvTqueue = Function.update core.pktdrvTqueue making.owner address)
    (queues : core'.queues = Function.update core.queues address (some (emptyQueue packets making)))
    (made : core'.made = Function.update core.made making.owner (some making))
    (sending : ∀ task call, core'.calls task ≠ .recv call) :
    ∃ addresses', Recorded core' addresses' := by
  obtain ⟨addresses', listed, apart⟩ := kept.apart.of_placed placed
  refine ⟨addresses', listed, apart, ?_, ?_, sending⟩
  · intro id other recorded
    by_cases same : id = making.owner
    · rw [made, same, Function.update_self, Option.some.injEq] at recorded
      subst recorded
      refine ⟨same.symm, emptyQueue packets making, ?_, rfl⟩
      rw [tqueue, same, Function.update_self, queues, Function.update_self]
    · rw [made, Function.update_of_ne same] at recorded
      obtain ⟨owner, queue, there, isMaking⟩ := kept.there id other recorded
      refine ⟨owner, queue, ?_, isMaking⟩
      rw [tqueue, Function.update_of_ne same, queues, Function.update_of_ne, there]
      intro taken
      rw [taken, absent] at there
      cases there
  · intro id queue there owner
    by_cases same : id = making.owner
    · rw [tqueue, same, Function.update_self, queues, Function.update_self, Option.some.injEq] at there
      rw [made, same, Function.update_self, ← there]
      rfl
    · rw [tqueue, Function.update_of_ne same] at there
      rw [made, Function.update_of_ne same]
      by_cases taken : core.pktdrvTqueue id = address
      · rw [taken, queues, Function.update_self, Option.some.injEq] at there
        rw [← there] at owner
        exact absurd owner.symm same
      · rw [queues, Function.update_of_ne taken] at there
        exact kept.recorded id queue there owner

theorem Recorded.freed {lost : List (Option Nat)} {place : Nat} {queue : CommQueue}
    (kept : Recorded core addresses)
    (placed : Placed core core' addresses (List.range noc.maxTasks) lost)
    (stored : core.queues place = some queue)
    (tqueue : core'.pktdrvTqueue = core.pktdrvTqueue)
    (queues : core'.queues = Function.update core.queues place none)
    (made : core'.made = if core.pktdrvTqueue queue.making.owner = place then
      Function.update core.made queue.making.owner none else core.made)
    (sending : ∀ task call, core'.calls task ≠ .recv call) :
    ∃ addresses', Recorded core' addresses' := by
  obtain ⟨addresses', listed, apart⟩ := kept.apart.of_placed placed
  refine ⟨addresses', listed, apart, ?_, ?_, sending⟩
  · intro other making recorded
    have before : core.made other = some making ∧ core.pktdrvTqueue other ≠ place := by
      rw [made] at recorded
      split at recorded
      · rename_i pointed
        by_cases same : other = queue.making.owner
        · simp [same] at recorded
        · rw [Function.update_of_ne same] at recorded
          refine ⟨recorded, fun taken => same ?_⟩
          obtain ⟨owner, found, stands, isMaking⟩ := kept.there other making recorded
          rw [taken, stored, Option.some.injEq] at stands
          rw [← owner, ← isMaking, stands]
      · rename_i away
        refine ⟨recorded, fun taken => away ?_⟩
        obtain ⟨owner, found, stands, isMaking⟩ := kept.there other making recorded
        rw [taken, stored, Option.some.injEq] at stands
        rw [stands, isMaking, owner, taken]
    obtain ⟨owner, found, stands, isMaking⟩ := kept.there other making before.1
    refine ⟨owner, found, ?_, isMaking⟩
    rw [tqueue, queues, Function.update_of_ne before.2, stands]
  · intro other found stands owner
    rw [tqueue, queues] at stands
    have away : core.pktdrvTqueue other ≠ place := by
      rintro taken
      rw [taken, Function.update_self] at stands
      cases stands
    rw [Function.update_of_ne away] at stands
    have before := kept.recorded other found stands owner
    rw [made]
    split
    · rename_i pointed
      rw [Function.update_of_ne, before]
      rintro same
      rw [same] at away
      exact away pointed
    · exact before

theorem Recorded.advanced {task address : Nat} {codes : List Int} (kept : Recorded core addresses)
    (bound : task < noc.maxTasks) (fresh : address = 0 ∨ core.queues address = none)
    (advanced : Advanced core task address codes core') :
    ∃ addresses', Recorded core' addresses' := by
  obtain ⟨_, lost, placed, _⟩ := advanced.placed kept.listed kept.apart (List.mem_range.mpr bound)
    (fun call _ isRecv => absurd isRecv (kept.sending task call)) fun _ _ _ => fresh
  have sending : ∀ (state : Noc noc) call, (∀ recv, call ≠ .recv recv) → state.calls = core.calls →
      ∀ other recv, (state.setCall task call).calls other ≠ .recv recv := by
    intro state call notRecv same other recv
    by_cases here : other = task
    · rw [here, setCall_same]
      exact notRecv recv
    · rw [setCall_other _ _ here, same]
      exact kept.sending other recv
  cases advanced with
  | idle call | returned call => exact ⟨addresses, kept⟩
  | recv isRecv there turned => exact absurd isRecv (kept.sending task _)
  | createPort call | keep call there filled | test call there empty | clearPort call =>
      exact kept.of_same placed rfl rfl (fun _ => rfl) (sending _ _ (by simp) rfl)
  | @drain id queue codes pool ring call there drained =>
      obtain ⟨nonzero, stored⟩ := queueAt_ok.mp there
      refine kept.of_same placed rfl rfl (fun other => ?_) (sending _ _ (by simp) rfl)
      by_cases same : other = core.pktdrvTqueue id
      · simp [same, setCall, setRing, stored]
      · simp [same, setCall, setRing]
  | noMemory call null =>
      subst null
      exact kept.unmade placed rfl rfl rfl (sending _ _ (by simp) rfl)
  | createQueue call present =>
      exact kept.created placed (fresh.resolve_left present) rfl rfl rfl (sending _ _ (by simp) rfl)
  | free call there =>
      exact kept.freed placed (queueAt_ok.mp there).2 rfl rfl rfl (sending _ _ (by simp) rfl)

theorem turn_of_step {op : NocOp} (stepped : step op core = .ok core') :
    ∃ codes, core.turn op = .ok (codes, core') := by
  obtain ⟨⟨codes, after⟩, turned, rfl⟩ := ok_of_map stepped
  exact ⟨codes, turned⟩

theorem map_step {state : Type} {op : NocOp} {make : Noc noc → state} {result : state}
    (stepped : (step op core).map make = .ok result) :
    ∃ core' codes, core.turn op = .ok (codes, core') ∧ make core' = result := by
  obtain ⟨core', done, same⟩ := ok_of_map stepped
  obtain ⟨codes, turned⟩ := turn_of_step done
  exact ⟨core', codes, turned, same⟩

theorem setCall_placed {tasks : List Nat} (listed : Listed core addresses tasks) {task : Nat}
    {call : CommCall} (member : task ∈ tasks) (held : core.heldBy task = [])
    (held' : (core.setCall task call).heldBy task = []) :
    Placed core (core.setCall task call) addresses tasks [] :=
  .of_quiet listed member rfl rfl rfl (fun _ away => setCall_other _ _ away) held held'

theorem Recorded.setCall {task : Nat} {call : CommCall} (kept : Recorded core addresses)
    (bound : task < noc.maxTasks) (notRecv : ∀ recv, call ≠ .recv recv) :
    ∃ addresses', Recorded (core.setCall task call) addresses' := by
  have sending : ∀ other recv, (core.setCall task call).calls other ≠ .recv recv := by
    intro other recv
    by_cases here : other = task
    · rw [here, setCall_same]
      exact notRecv recv
    · rw [setCall_other _ _ here]
      exact kept.sending other recv
  refine kept.of_same (setCall_placed kept.listed (List.mem_range.mpr bound)
    (heldBy_other (kept.sending task)) (heldBy_other (sending task))) rfl rfl (fun _ => rfl) sending

theorem hfCommCreate_setCall (task : Nat) (id port packets : UInt16) (core : Noc noc) :
    ∃ call, (∀ recv, call ≠ .recv recv) ∧ core.hfCommCreate task id port packets =
      core.setCall task call := by
  unfold hfCommCreate
  simp only
  split
  · exact ⟨_, by simp, rfl⟩
  · split
    · exact ⟨_, by simp, rfl⟩
    · split
      · exact ⟨_, by simp, rfl⟩
      · exact ⟨_, by simp, rfl⟩

theorem hfCommDestroy_setCall (task : Nat) (id : UInt16) (core : Noc noc) :
    ∃ call, (∀ recv, call ≠ .recv recv) ∧ core.hfCommDestroy task id = core.setCall task call := by
  unfold hfCommDestroy
  simp only
  split
  · exact ⟨_, by simp, rfl⟩
  · exact ⟨_, by simp, rfl⟩

theorem Recorded.kernelStep {op : KernelOp} (kept : Recorded core addresses)
    (stepped : core.kernelStep op = .ok core') : ∃ addresses', Recorded core' addresses' := by
  unfold Noc.kernelStep at stepped
  cases done : core.kernel.perform op with
  | error halt => simp [done] at stepped
  | ok kernel =>
      simp only [done, Except.ok.injEq] at stepped
      subst stepped
      have sending : ∀ task call, (if (kernel.krnlTcb task).ptask = 0 then CommCall.idle
          else core.calls task) ≠ .recv call := by
        intro task call
        split
        · simp
        · exact kept.sending task call
      refine ⟨addresses, ⟨kept.listed.distinct, kept.listed.there, kept.listed.nonzero,
        kept.listed.callers, ?_⟩, ?_, kept.there, kept.recorded, sending⟩
      · intro task calling
        refine kept.listed.calling task fun idle => calling ?_
        simp [idle]
      · have same : ∀ task, Noc.heldBy ({ core with
            kernel
            calls := fun id => if (kernel.krnlTcb id).ptask = 0 then .idle else core.calls id
            lives := fun id =>
              if (core.kernel.krnlTcb id).ptask = 0 ∧ (kernel.krnlTcb id).ptask ≠ 0 then
                core.lives id + 1
              else core.lives id } : Noc noc) task = core.heldBy task := by
          intro task
          rw [heldBy_other (kept.sending task), heldBy_other (sending task)]
        have apart := kept.apart
        unfold Apart places at apart ⊢
        simp only [same]
        exact apart

theorem Recorded.step {op : NocOp} (kept : Recorded core addresses) (admitted : administers op core)
    (stepped : step op core = .ok core') : ∃ addresses', Recorded core' addresses' := by
  obtain ⟨codes, turned⟩ := turn_of_step stepped
  cases op with
  | arrive packet =>
      simp only [turn, Except.ok.injEq, Prod.mk.injEq] at turned
      obtain ⟨_, rfl⟩ := turned
      have placed := niFetch_placed kept.listed kept.apart packet admitted
      obtain ⟨buffers, stored⟩ := kept.apart.pool kept.listed
      obtain ⟨_, same⟩ | ⟨bufPtr, rest, pool, _, _, fetched⟩ := niFetch_cases packet stored
      · rw [same]
        exact ⟨addresses, kept⟩
      · rw [fetched] at placed ⊢
        exact kept.of_same placed rfl rfl (fun _ => rfl) kept.sending
  | deliver =>
      obtain ⟨bufPtr, running⟩ := Option.ne_none_iff_exists'.mp admitted
      simp only [turn, running] at turned
      have delivered := niDeliver_delivered bufPtr (kept.apart.room kept.listed 0 (Or.inl admitted))
      rw [turned] at delivered
      have placed := (delivered.placed kept.listed running).2
      cases delivered with
      | dropped refused returned => exact kept.of_same placed rfl rfl (fun _ => rfl) kept.sending
      | @queued k queue ring slot bound live whole there space contents =>
          obtain ⟨nonzero, stored⟩ := queueAt_ok.mp there
          refine kept.of_same placed rfl rfl (fun other => ?_) kept.sending
          by_cases same : other = core.pktdrvTqueue k
          · simp [same, setRing, stored]
          · simp [same, setRing]
  | recv task channel => exact admitted.elim
  | create task id port packets =>
      simp only [turn, Except.ok.injEq, Prod.mk.injEq] at turned
      obtain ⟨call, notRecv, same⟩ := hfCommCreate_setCall task id port packets core
      rw [← turned.2, same]
      exact kept.setCall admitted.2.1 notRecv
  | destroy task id =>
      simp only [turn, Except.ok.injEq, Prod.mk.injEq] at turned
      obtain ⟨call, notRecv, same⟩ := hfCommDestroy_setCall task id core
      rw [← turned.2, same]
      exact kept.setCall admitted.2.1 notRecv
  | advance task address => exact kept.advanced admitted.2.1 admitted.2.2 (advance_cases turned)
  | kernel op =>
      simp only [turn] at turned
      cases done : core.kernelStep op with
      | error fault => simp [done, Except.map] at turned
      | ok after =>
          simp only [done, Except.map, Except.ok.injEq, Prod.mk.injEq] at turned
          rw [← turned.2]
          exact kept.kernelStep done

theorem Recorded.niIsr_cases (kept : Recorded core addresses) (idle : core.isr = none)
    (packet : Packet) :
    (core.pktdrvQueue.contents = [] ∧ core.niIsr packet = .ok ([], core)) ∨
      ∃ bufPtr rest pool, core.pktdrvQueue.contents = some bufPtr :: rest ∧ pool.contents = rest ∧
        Delivered { core with pktdrvQueue := pool, isr := some { bufPtr with packet } }
          { bufPtr with packet } (core.niIsr packet) := by
  obtain ⟨buffers, stored⟩ := kept.apart.pool kept.listed
  obtain ⟨rfl, same⟩ | ⟨bufPtr, rest, pool, rfl, remaining, fetched⟩ := niFetch_cases packet stored
  · refine Or.inl ⟨stored, ?_⟩
    simp only [niIsr, same, idle]
  · refine Or.inr ⟨bufPtr, rest.map some, pool, stored, remaining, ?_⟩
    have short := (kept.apart.near kept.listed 0 0).length_le
    simp only [near, stored, slotsOf, List.length_append, List.length_map, List.length_cons,
      List.length_range] at short
    simp only [niIsr, fetched]
    exact niDeliver_delivered _ (by simp only [remaining, List.length_map]; omega)

theorem not_refused {packet : Packet} {k : Nat}
    (atSlot : core.portSlot (packet.flit pktTargetPort) = k) (bound : k < noc.maxTasks)
    (live : core.alive k = true)
    (whole : packet.flit pktPayload = UInt16.ofNat (noc.nocPacketSize - 2))
    (space : ∀ queue, core.queueAt (core.pktdrvTqueue k) = .ok queue →
      queue.ring.contents.length < queue.capacity) : ¬core.Refused packet := by
  unfold Refused
  rw [atSlot, live]
  rintro (other | missing | dead | ⟨queue, there, full⟩)
  · exact other whole
  · omega
  · cases dead
  · have := space queue there
    omega

/-- An incoming packet is handled safely exactly if it is dropped before or by the queue, or its
port leads to the queue that was made for a live task under this port. -/
theorem Recorded.handledSafely (kept : Recorded core addresses) (idle : core.isr = none)
    (packet : Packet) : core.HandledSafely packet ↔ core.Expected packet := by
  rcases kept.niIsr_cases idle packet with ⟨empty, done⟩ |
    ⟨bufPtr, rest, pool, stored, remaining, delivered⟩
  · exact ⟨fun _ => Or.inl empty, fun _ => ⟨[], core, done, Or.inl ⟨rfl, List.Perm.refl _⟩⟩⟩
  · have notEmpty : core.pktdrvQueue.contents ≠ [] := by simp [stored]
    generalize outcome : core.niIsr packet = result at delivered
    cases delivered with
    | @dropped full refused returned =>
        refine ⟨fun _ => Or.inr (Or.inl refused), fun _ => ⟨[0], _, outcome, Or.inl ⟨rfl, ?_⟩⟩⟩
        simp only [returned, stored, remaining, slotsOf, List.map_append, List.map_cons,
          Option.map_some, List.map_nil]
        exact List.perm_append_singleton _ _
    | @queued k queue ring slot bound live whole there space contents =>
        have atSlot : core.portSlot (packet.flit pktTargetPort) = k := slot
        have here : core.queues (core.pktdrvTqueue k) = some queue := (queueAt_ok.mp there).2
        constructor
        · rintro ⟨codes, after, done, safe⟩
          rw [outcome] at done
          cases done
          refine Or.inr (Or.inr ?_)
          rcases safe with ⟨same, _⟩ | ⟨id, found, other, lives, foundAt, making, _, _, cells⟩
          · have changed := congrFun same (core.pktdrvTqueue k)
            simp only [setRing, Function.update_self, here, Option.some.injEq] at changed
            have sameRing := congrArg (fun found => found.ring.contents.length) changed
            simp [contents] at sameRing
          · have pointed : core.pktdrvTqueue id = core.pktdrvTqueue k := by
              by_contra away
              have unchanged : Noc.cellsAt ({ Noc.setRing { core with
                    pktdrvQueue := pool, isr := some { bufPtr with packet } }
                  (core.pktdrvTqueue k) queue ring with isr := none } : Noc noc)
                  (core.pktdrvTqueue id) = core.cellsAt (core.pktdrvTqueue id) :=
                cellsAt_congr (Function.update_of_ne away _ _)
              rw [unchanged] at cells
              have longer := congrArg List.length cells
              simp at longer
            have made := kept.recorded id found foundAt (by rw [making])
            exact ⟨id, lives, by rw [pointed, atSlot], by rw [made, making]⟩
        · rintro (empty | refused | ⟨id, lives, pointed, made⟩)
          · exact absurd empty notEmpty
          · refine absurd refused (not_refused atSlot bound live whole fun found stands => ?_)
            rw [(Except.ok.injEq _ _ ▸ stands.symm.trans there : found = queue)]
            exact space
          · rw [atSlot] at pointed
            obtain ⟨_, found, foundAt, making⟩ := kept.there id _ made
            rw [pointed, here, Option.some.injEq] at foundAt
            subst foundAt
            refine ⟨[], _, outcome, Or.inr ⟨id, queue, { bufPtr with packet }, lives, ?_, making, rfl,
              ?_, ?_⟩⟩
            · rw [pointed, here]
            · simp [stored, remaining, slotsOf, setRing]
            · rw [pointed, cellsAt_some here]
              exact (cellsAt_some (Function.update_self _ _ _)).trans contents
    | @faulted k fault slot bound live whole there =>
        have atSlot : core.portSlot (packet.flit pktTargetPort) = k := slot
        have missing : core.queueAt (core.pktdrvTqueue k) = .error fault := there
        constructor
        · rintro ⟨codes, after, done, _⟩
          rw [outcome] at done
          cases done
        · rintro (empty | refused | ⟨id, lives, pointed, made⟩)
          · exact absurd empty notEmpty
          · refine absurd refused (not_refused atSlot bound live whole fun found stands => ?_)
            rw [missing] at stands
            cases stands
          · rw [atSlot] at pointed
            obtain ⟨_, found, foundAt, _⟩ := kept.there id _ made
            rw [pointed] at foundAt
            have inside := (kept.listed.there _).mp (by rw [foundAt]; simp)
            have nonzero : core.pktdrvTqueue k ≠ 0 := fun zero => kept.listed.nonzero (zero ▸ inside)
            rw [queueAt_ok.mpr ⟨nonzero, foundAt⟩] at missing
            cases missing

instance (op : NocOp) (core : Noc noc) : Decidable (administers op core) :=
  match op with
  | .arrive _ => inferInstanceAs (Decidable (core.isr = none))
  | .deliver => inferInstanceAs (Decidable (core.isr ≠ none))
  | .recv _ _ => inferInstanceAs (Decidable False)
  | .create _ _ _ _ => inferInstanceAs (Decidable (core.isr = none ∧ _ ∧ _))
  | .destroy _ _ => inferInstanceAs (Decidable (core.isr = none ∧ _ ∧ _))
  | .advance _ address =>
      inferInstanceAs (Decidable (core.isr = none ∧ _ ∧ (address = 0 ∨ core.queues address = none)))
  | .kernel (.spawn _) => inferInstanceAs (Decidable (core.isr = none))
  | .kernel (.kill _ _) => inferInstanceAs (Decidable (core.isr = none))
  | .kernel (.block _) | .kernel (.resume _) | .kernel (.delay _ _) | .kernel (.yield _)
  | .kernel (.dispatch _) | .kernel (.schedlock _) => inferInstanceAs (Decidable False)

section SmallCore

def smallNoc : NocConfig where
  toConfig := Kernel.twoTasks
  cpuId := 0
  nocWidth := 2
  nocPacketSize := 9
  nocPacketSlots := 4
  header := by decide
  payload := by decide
  slots := by decide

def smallStart : Noc smallNoc := niInit Kernel.smallBoot

def smallCore (steps : List NocOp) : Noc smallNoc := outcome step steps smallStart

def incoming (port : UInt16) : Packet := ⟨[0, 7, 0, 0, port, 1, 1, 0, 0], ⟨0, 0, 0⟩⟩

end SmallCore

/-- Every incoming packet is handled safely exactly if it is dropped, or its port leads to a queue
that was made for a live task under this port and not destroyed since. -/
theorem incoming_packet_handled {kernel : Kernel noc.toConfig}
    (reached : Reaches step administers (niInit kernel) core) (idle : core.isr = none)
    (packet : Packet) : core.HandledSafely packet ↔ core.Expected packet := by
  obtain ⟨addresses, kept⟩ : ∃ addresses, Recorded core addresses := by
    refine reached.invariant (fun state => ∃ addresses, Recorded state addresses)
      ⟨[], .niInit kernel⟩ ?_
    rintro op before after ⟨addresses, kept⟩ admitted stepped
    exact kept.step admitted stepped
  exact kept.handledSafely idle packet

theorem incoming_packet_handled_created :
    (smallCore [.kernel (.spawn Kernel.worker), .create 1 1 5 0, .advance 1 256,
      .advance 1 0]).HandledSafely (incoming 5) := by
  have reached : Reaches step administers smallStart (smallCore [.kernel (.spawn Kernel.worker),
      .create 1 1 5 0, .advance 1 256, .advance 1 0]) :=
    outcome_reaches _ _ (by decide) (by decide)
  exact (incoming_packet_handled reached (by decide) (incoming 5)).mpr
    (Or.inr (Or.inr ⟨1, by decide, by decide, by decide⟩))

/-- A packet for port 0 leads to the idle task, which has no queue. -/
theorem port_zero_faults :
    smallStart.niIsr (incoming 0) = .error .nullQueue ∧
      ∃ core packet, Reaches step administers smallStart core ∧ core.isr = none ∧
        ¬core.HandledSafely packet := by
  have faults : smallStart.niIsr (incoming 0) = .error .nullQueue := rfl
  refine ⟨faults, smallStart, incoming 0, .start, rfl, ?_⟩
  rintro ⟨codes, after, done, _⟩
  rw [faults] at done
  cases done

end Noc

end Hellfire

import Hellfire.NocConservation

/-!
What `hf_comm_destroy` leaves behind. It frees the queue of a task and clears its port, but the
pointer in `pktdrv_tqueue` stays.
-/

namespace Hellfire

open Machine

namespace Noc

variable {noc : NocConfig}

/-- Every task makes one call after the other, and no two calls create or destroy the queue of one
task together. -/
def separate : NocOp → Noc noc → Prop
  | .recv task _, core => task < noc.maxTasks ∧ core.resting task = true
  | .create task id _ _, core | .destroy task id, core =>
      task < noc.maxTasks ∧ core.resting task = true ∧
        ∀ caller < noc.maxTasks, (core.calls caller).concerns ≠ some id.toNat
  | .arrive _, _ | .deliver, _ | .advance _ _, _ | .kernel _, _ => True

instance (op : NocOp) (core : Noc noc) : Decidable (separate op core) :=
  match op with
  | .recv _ _ => inferInstanceAs (Decidable (_ ∧ _))
  | .create _ _ _ _ => inferInstanceAs (Decidable (_ ∧ _ ∧ _))
  | .destroy _ _ => inferInstanceAs (Decidable (_ ∧ _ ∧ _))
  | .arrive _ | .deliver | .advance _ _ | .kernel _ => inferInstanceAs (Decidable True)

/-- A call that has freed the queue of a slot finds the pointer of the slot unchanged, and no queue
of the slot behind it. -/
def Unlinks (core : Noc noc) : CommCall → Prop
  | .destroyFree id address => address = core.pktdrvTqueue id ∧ address ≠ 0
  | .destroyPort id => core.pktdrvTqueue id ≠ 0 ∧
      ∀ queue, core.queues (core.pktdrvTqueue id) = some queue → queue.making.owner ≠ id
  | _ => True

structure Separated (core : Noc noc) : Prop where
  callers : ∀ task, noc.maxTasks ≤ task → core.calls task = .idle
  alone : ∀ task task' id, (core.calls task).concerns = some id →
    (core.calls task').concerns = some id → task = task'
  unlinks : ∀ task, core.Unlinks (core.calls task)

variable {core next : Noc noc}

theorem Separated.niInit (kernel : Kernel noc.toConfig) : Separated (niInit kernel : Noc noc) :=
  ⟨fun _ _ => rfl, fun _ _ _ concerned => by simp [Noc.niInit, CommCall.concerns] at concerned,
    fun _ => trivial⟩

theorem Unlinks.frame {call : CommCall} (unlinks : core.Unlinks call)
    (pointer : ∀ id, call.concerns = some id → next.pktdrvTqueue id = core.pktdrvTqueue id)
    (queues : ∀ address queue', next.queues address = some queue' →
      call.concerns = some queue'.making.owner →
        ∃ queue, core.queues address = some queue ∧ queue.making = queue'.making) :
    next.Unlinks call := by
  cases call with
  | destroyFree id address => exact ⟨unlinks.1.trans (pointer id rfl).symm, unlinks.2⟩
  | destroyPort id =>
      have same := pointer id rfl
      refine ⟨by rw [same]; exact unlinks.1, fun queue' there owner => ?_⟩
      obtain ⟨queue, there', making⟩ := queues _ queue' there (by rw [owner]; rfl)
      rw [same] at there'
      exact unlinks.2 queue there' (by rw [making, owner])
  | _ => trivial

theorem Separated.step_of (kept : core.Separated) (task : Nat)
    (others : ∀ other, other ≠ task → next.calls other = core.calls other ∨ next.calls other = .idle)
    (bound : noc.maxTasks ≤ task → next.calls task = .idle)
    (fresh : ∀ id, (next.calls task).concerns = some id → (core.calls task).concerns = some id ∨
      ∀ caller, (core.calls caller).concerns ≠ some id)
    (pointer : ∀ id, (core.calls task).concerns ≠ some id →
      next.pktdrvTqueue id = core.pktdrvTqueue id)
    (queues : ∀ address queue', next.queues address = some queue' →
      (core.calls task).concerns = some queue'.making.owner ∨
        ∃ queue, core.queues address = some queue ∧ queue.making = queue'.making)
    (own : next.Unlinks (next.calls task)) : next.Separated := by
  have older : ∀ other id, other ≠ task → (next.calls other).concerns = some id →
      (core.calls other).concerns = some id := by
    intro other id away concerned
    rcases others other away with same | idle
    · rwa [same] at concerned
    · simp [idle, CommCall.concerns] at concerned
  have apart : ∀ other id, other ≠ task → (next.calls other).concerns = some id →
      (next.calls task).concerns ≠ some id := by
    intro other id away concerned concerned'
    rcases fresh id concerned' with before | none
    · exact away (kept.alone other task id (older other id away concerned) before)
    · exact none other (older other id away concerned)
  refine ⟨?_, ?_, ?_⟩
  · intro other outside
    by_cases here : other = task
    · rw [here] at outside ⊢
      exact bound outside
    · rcases others other here with same | idle
      · rw [same]
        exact kept.callers other outside
      · exact idle
  · intro first second id concerned concerned'
    by_cases here : first = task
    · by_cases here' : second = task
      · rw [here, here']
      · rw [here] at concerned
        exact absurd concerned (apart second id here' concerned')
    · by_cases here' : second = task
      · rw [here'] at concerned'
        exact absurd concerned' (apart first id here concerned)
      · exact kept.alone first second id (older first id here concerned)
          (older second id here' concerned')
  · intro other
    by_cases here : other = task
    · rw [here]
      exact own
    · rcases others other here with same | idle
      · rw [same]
        have different : ∀ id, (core.calls other).concerns = some id →
            (core.calls task).concerns ≠ some id :=
          fun id concerned concerned' => here (kept.alone other task id concerned concerned')
        refine (kept.unlinks other).frame (fun id concerned => pointer id (different id concerned)) ?_
        intro address queue' there concerned
        exact (queues address queue' there).resolve_left (different _ concerned)
      · rw [idle]
        trivial

theorem Separated.quiet (kept : core.Separated)
    (calls : ∀ task, next.calls task = core.calls task ∨ next.calls task = .idle)
    (pointer : next.pktdrvTqueue = core.pktdrvTqueue)
    (queues : ∀ address queue', next.queues address = some queue' →
      ∃ queue, core.queues address = some queue ∧ queue.making = queue'.making) :
    next.Separated := by
  have same : ∀ id, next.pktdrvTqueue id = core.pktdrvTqueue id := fun id => by rw [pointer]
  refine kept.step_of 0 (fun other _ => calls other) (fun outside => ?_) (fun id concerned => ?_)
    (fun id _ => same id) (fun address queue' there => Or.inr (queues address queue' there)) ?_
  · rcases calls 0 with unchanged | idle
    · rw [unchanged]
      exact kept.callers 0 outside
    · exact idle
  · rcases calls 0 with unchanged | idle
    · exact Or.inl (unchanged ▸ concerned)
    · simp [idle, CommCall.concerns] at concerned
  · rcases calls 0 with unchanged | idle
    · rw [unchanged]
      exact (kept.unlinks 0).frame (fun id _ => same id)
        fun address queue' there _ => queues address queue' there
    · rw [idle]
      trivial

theorem updated_some {queues : Nat → Option CommQueue} {address other : Nat}
    {entry : Option CommQueue} {queue : CommQueue}
    (standing : Function.update queues address entry other = some queue) :
    other = address ∧ entry = some queue ∨ queues other = some queue := by
  by_cases here : other = address
  · rw [here, Function.update_self] at standing
    exact Or.inl ⟨here, standing⟩
  · rw [Function.update_of_ne here] at standing
    exact Or.inr standing

theorem setRing_making {address : Nat} {queue : CommQueue} {ring : RingQueue Buffer queue.capacity}
    (there : core.queueAt address = .ok queue) : ∀ other queue',
      (core.setRing address queue ring).queues other = some queue' →
        ∃ before, core.queues other = some before ∧ before.making = queue'.making := by
  intro other queue' standing
  have updated : Function.update core.queues address (some { queue with ring }) other = some queue' :=
    standing
  rcases updated_some updated with ⟨rfl, entry⟩ | before
  · rw [← Option.some.inj entry]
    exact ⟨queue, (queueAt_ok.mp there).2, rfl⟩
  · exact ⟨queue', before, rfl⟩

theorem Separated.setCall {task : Nat} {call : CommCall} (kept : core.Separated)
    (bound : task < noc.maxTasks) (same : next.calls = core.calls)
    (fresh : ∀ id, call.concerns = some id → (core.calls task).concerns = some id ∨
      ∀ caller, (core.calls caller).concerns ≠ some id)
    (pointer : ∀ id, (core.calls task).concerns ≠ some id →
      next.pktdrvTqueue id = core.pktdrvTqueue id)
    (queues : ∀ address queue', next.queues address = some queue' →
      (core.calls task).concerns = some queue'.making.owner ∨
        ∃ queue, core.queues address = some queue ∧ queue.making = queue'.making)
    (own : next.Unlinks call) : (next.setCall task call).Separated := by
  refine kept.step_of task (fun other away => ?_) (fun outside => by omega) (fun id concerned => ?_)
    pointer queues ?_
  · rw [setCall_other _ _ away, same]
    exact Or.inl rfl
  · rw [setCall_same] at concerned
    exact fresh id concerned
  · rw [setCall_same]
    exact own

theorem Separated.advanced {task address : Nat} {codes : List Int} (kept : core.Separated)
    (advanced : Advanced core task address codes next) : next.Separated := by
  have inside : core.calls task ≠ .idle → task < noc.maxTasks := by
    intro busy
    by_contra outside
    exact busy (kept.callers task (Nat.le_of_not_lt outside))
  have unchanged : ∀ address queue', core.queues address = some queue' →
      (core.calls task).concerns = some queue'.making.owner ∨
        ∃ queue, core.queues address = some queue ∧ queue.making = queue'.making :=
    fun _ queue' standing => Or.inr ⟨queue', standing, rfl⟩
  have ring : ∀ {address : Nat} {queue : CommQueue} {ring : RingQueue Buffer queue.capacity},
      core.queueAt address = .ok queue → ∀ other queue',
        (core.setRing address queue ring).queues other = some queue' →
          (core.calls task).concerns = some queue'.making.owner ∨
            ∃ before, core.queues other = some before ∧ before.making = queue'.making :=
    fun there other queue' standing => Or.inr (setRing_making there other queue' standing)
  cases advanced with
  | idle | returned => exact kept
  | @recv call queue turn isCall there stepped =>
      exact kept.setCall (inside (by simp [isCall])) rfl nofun (fun _ _ => rfl) (ring there) trivial
  | @noMemory making packets isCall =>
      refine kept.setCall (inside (by simp [isCall])) rfl nofun (fun id away => ?_) unchanged trivial
      rw [isCall] at away
      exact Function.update_of_ne (fun same => away (by rw [same]; rfl)) _ _
  | @createQueue making packets isCall =>
      refine kept.setCall (inside (by simp [isCall])) rfl (fun id concerned => ?_) (fun id away => ?_)
        (fun other queue' standing => ?_) trivial
      · exact Or.inl (by rw [isCall]; exact concerned)
      · rw [isCall] at away
        exact Function.update_of_ne (fun same => away (by rw [same]; rfl)) _ _
      · rcases updated_some standing with ⟨_, entry⟩ | before
        · rw [← Option.some.inj entry, isCall]
          exact Or.inl rfl
        · exact unchanged other queue' before
  | createPort isCall | keep isCall =>
      exact kept.setCall (inside (by simp [isCall])) rfl nofun (fun _ _ => rfl) unchanged trivial
  | clearPort isCall =>
      exact kept.setCall (inside (by simp [isCall])) rfl nofun (fun _ _ => rfl) unchanged trivial
  | @drain id queue codes pool ring' isCall there =>
      refine kept.setCall (inside (by simp [isCall])) rfl (fun other concerned => ?_) (fun _ _ => rfl)
        (ring there) trivial
      exact Or.inl (by rw [isCall]; exact concerned)
  | @test id queue isCall there =>
      refine kept.setCall (inside (by simp [isCall])) rfl (fun other concerned => ?_) (fun _ _ => rfl)
        unchanged ⟨rfl, (queueAt_ok.mp there).1⟩
      exact Or.inl (by rw [isCall]; exact concerned)
  | @free id place queue isCall there =>
      obtain ⟨atPointer, nonzero⟩ : core.Unlinks (.destroyFree id place) := isCall ▸ kept.unlinks task
      refine kept.setCall (inside (by simp [isCall])) rfl (fun other concerned => ?_) (fun _ _ => rfl)
        (fun other queue' standing => ?_) ⟨fun null => nonzero (atPointer.trans null), ?_⟩
      · exact Or.inl (by rw [isCall]; exact concerned)
      · rcases updated_some standing with ⟨_, entry⟩ | before
        · cases entry
        · exact unchanged other queue' before
      · intro queue' standing
        have gone : Function.update core.queues place none (core.pktdrvTqueue id) = some queue' :=
          standing
        rw [← atPointer, Function.update_self] at gone
        cases gone

theorem Separated.starts {task : Nat} {call : CommCall} (kept : core.Separated)
    (bound : task < noc.maxTasks) (unlinks : core.Unlinks call)
    (free : ∀ id, call.concerns = some id → ∀ caller < noc.maxTasks,
      (core.calls caller).concerns ≠ some id) : (core.setCall task call).Separated := by
  refine kept.setCall bound rfl (fun id concerned => Or.inr fun caller => ?_) (fun _ _ => rfl)
    (fun _ queue' standing => Or.inr ⟨queue', standing, rfl⟩) unlinks
  by_cases inside : caller < noc.maxTasks
  · exact free id concerned caller inside
  · simp [kept.callers caller (Nat.le_of_not_lt inside), CommCall.concerns]

theorem hfRecv_starts (task : Nat) (channel : UInt16) (core : Noc noc) :
    ∃ call, core.hfRecv task channel = core.setCall task call ∧
      core.Unlinks call ∧ call.concerns = none := by
  unfold hfRecv
  split
  · exact ⟨_, rfl, trivial, rfl⟩
  · exact ⟨_, rfl, trivial, rfl⟩

theorem hfCommCreate_starts (task : Nat) (id port packets : UInt16) (core : Noc noc) :
    ∃ call, core.hfCommCreate task id port packets = core.setCall task call ∧
      core.Unlinks call ∧
      ∀ other, call.concerns = some other → other = id.toNat ∧ core.pktdrvTqueue id.toNat = 0 := by
  unfold hfCommCreate
  simp only
  split
  · exact ⟨_, rfl, trivial, by simp [CommCall.concerns]⟩
  · split
    · exact ⟨_, rfl, trivial, by simp [CommCall.concerns]⟩
    · rename_i null
      split
      · exact ⟨_, rfl, trivial, by simp [CommCall.concerns]⟩
      · refine ⟨_, rfl, trivial, fun other concerned => ?_⟩
        simp only [CommCall.concerns, Option.some.injEq] at concerned
        exact ⟨concerned.symm, by simpa using null⟩

theorem hfCommDestroy_starts (task : Nat) (id : UInt16) (core : Noc noc) :
    ∃ call, core.hfCommDestroy task id = core.setCall task call ∧
      core.Unlinks call ∧ call.creates = none ∧
      ∀ other, call.concerns = some other → other = id.toNat := by
  unfold hfCommDestroy
  simp only
  split
  · exact ⟨_, rfl, trivial, rfl, by simp [CommCall.concerns]⟩
  · refine ⟨_, rfl, trivial, rfl, fun other concerned => ?_⟩
    simp only [CommCall.concerns, Option.some.injEq] at concerned
    exact concerned.symm

theorem niDeliver_frame {bufPtr : Buffer} {codes : List Int}
    (done : core.niDeliver bufPtr = .ok (codes, next)) :
    next.calls = core.calls ∧ next.pktdrvTqueue = core.pktdrvTqueue ∧
      ∀ address queue', next.queues address = some queue' →
        ∃ queue, core.queues address = some queue ∧ queue.making = queue'.making := by
  have drops : ∀ {after : Noc noc}, core.niDrop bufPtr = (codes, after) →
      after.calls = core.calls ∧ after.pktdrvTqueue = core.pktdrvTqueue ∧
        ∀ address queue', after.queues address = some queue' →
          ∃ queue, core.queues address = some queue ∧ queue.making = queue'.making := by
    intro after dropped
    simp only [niDrop, Prod.mk.injEq] at dropped
    rw [← dropped.2]
    exact ⟨rfl, rfl, fun _ queue' standing => ⟨queue', standing, rfl⟩⟩
  unfold niDeliver at done
  simp only at done
  split at done
  · exact drops (Except.ok.inj done)
  · split at done
    · obtain ⟨queue, there, done⟩ := ok_of_bind done
      split at done
      · exact drops (Except.ok.inj done)
      · obtain ⟨_, rfl⟩ := Prod.mk.inj (Except.ok.inj done)
        exact ⟨rfl, rfl, setRing_making there⟩
    · exact drops (Except.ok.inj done)

theorem kernelStep_frame {op : KernelOp} (done : core.kernelStep op = .ok next) :
    (∀ task, next.calls task = core.calls task ∨ next.calls task = .idle) ∧
      next.pktdrvTqueue = core.pktdrvTqueue ∧ next.queues = core.queues := by
  unfold kernelStep at done
  cases performed : core.kernel.perform op with
  | error halt => simp [performed] at done
  | ok kernel =>
      simp only [performed, Except.ok.injEq] at done
      rw [← done]
      refine ⟨fun task => ?_, rfl, rfl⟩
      simp only
      split
      · exact Or.inr rfl
      · exact Or.inl rfl

theorem niFetch_frame (packet : Packet) (core : Noc noc) :
    (core.niFetch packet).calls = core.calls ∧ (core.niFetch packet).pktdrvTqueue = core.pktdrvTqueue ∧
      (core.niFetch packet).queues = core.queues := by
  unfold niFetch
  split
  · exact ⟨rfl, rfl, rfl⟩
  · exact ⟨rfl, rfl, rfl⟩

inductive Stepped (core : Noc noc) : NocOp → Noc noc → Prop
  | quiet {op next} (calls : ∀ task, next.calls task = core.calls task ∨ next.calls task = .idle)
      (pointer : next.pktdrvTqueue = core.pktdrvTqueue)
      (queues : ∀ address queue', next.queues address = some queue' →
        ∃ queue, core.queues address = some queue ∧ queue.making = queue'.making) :
      Stepped core op next
  | recv {task channel call} (unlinks : core.Unlinks call) (nothing : call.concerns = none) :
      Stepped core (.recv task channel) (core.setCall task call)
  | create {task id port packets call} (unlinks : core.Unlinks call)
      (only : ∀ other, call.concerns = some other →
        other = id.toNat ∧ core.pktdrvTqueue id.toNat = 0) :
      Stepped core (.create task id port packets) (core.setCall task call)
  | destroy {task id call} (unlinks : core.Unlinks call) (nothing : call.creates = none)
      (only : ∀ other, call.concerns = some other → other = id.toNat) :
      Stepped core (.destroy task id) (core.setCall task call)
  | advance {task address codes next} : Advanced core task address codes next →
      Stepped core (.advance task address) next

theorem step_cases {op : NocOp} (stepped : step op core = .ok next) : Stepped core op next := by
  obtain ⟨codes, turned⟩ := turn_of_step stepped
  cases op with
  | arrive packet =>
      simp only [turn, Except.ok.injEq, Prod.mk.injEq] at turned
      obtain ⟨calls, pointer, queues⟩ := niFetch_frame packet core
      rw [← turned.2]
      refine .quiet (fun task => Or.inl (by rw [calls])) pointer fun _ queue' standing => ?_
      rw [queues] at standing
      exact ⟨queue', standing, rfl⟩
  | deliver =>
      cases running : core.isr with
      | none =>
          simp only [turn, running, Except.ok.injEq, Prod.mk.injEq] at turned
          rw [← turned.2]
          exact .quiet (fun _ => Or.inl rfl) rfl fun _ queue' standing => ⟨queue', standing, rfl⟩
      | some bufPtr =>
          simp only [turn, running] at turned
          obtain ⟨calls, pointer, queues⟩ := niDeliver_frame turned
          exact .quiet (fun task => Or.inl (by rw [calls])) pointer queues
  | recv task channel =>
      simp only [turn, Except.ok.injEq, Prod.mk.injEq] at turned
      obtain ⟨call, same, unlinks, nothing⟩ := hfRecv_starts task channel core
      rw [← turned.2, same]
      exact .recv unlinks nothing
  | create task id port packets =>
      simp only [turn, Except.ok.injEq, Prod.mk.injEq] at turned
      obtain ⟨call, same, unlinks, only⟩ := hfCommCreate_starts task id port packets core
      rw [← turned.2, same]
      exact .create unlinks only
  | destroy task id =>
      simp only [turn, Except.ok.injEq, Prod.mk.injEq] at turned
      obtain ⟨call, same, unlinks, nothing, only⟩ := hfCommDestroy_starts task id core
      rw [← turned.2, same]
      exact .destroy unlinks nothing only
  | advance task address => exact .advance (advance_cases turned)
  | kernel op =>
      simp only [turn] at turned
      obtain ⟨after, done, same⟩ := ok_of_map turned
      obtain ⟨_, rfl⟩ := Prod.mk.inj same
      obtain ⟨calls, pointer, queues⟩ := kernelStep_frame done
      refine .quiet calls pointer fun _ queue' standing => ?_
      rw [queues] at standing
      exact ⟨queue', standing, rfl⟩

theorem Separated.step {op : NocOp} (kept : core.Separated) (admitted : separate op core)
    (stepped : Noc.step op core = .ok next) : next.Separated := by
  cases step_cases stepped with
  | quiet calls pointer queues => exact kept.quiet calls pointer queues
  | recv unlinks nothing =>
      exact kept.starts admitted.1 unlinks fun id concerned => by simp [nothing] at concerned
  | create unlinks only =>
      exact kept.starts admitted.1 unlinks fun other concerned =>
        (only other concerned).1 ▸ admitted.2.2
  | destroy unlinks _ only =>
      exact kept.starts admitted.1 unlinks fun other concerned => only other concerned ▸ admitted.2.2
  | advance advanced => exact kept.advanced advanced

structure Stale (core : Noc noc) (id : Nat) : Prop where
  pointer : core.pktdrvTqueue id ≠ 0
  creates : ∀ task, (core.calls task).creates ≠ some id

theorem concerns_of_creates {call : CommCall} {id : Nat} (creates : call.creates = some id) :
    call.concerns = some id := by
  cases call with
  | createQueue making packets => exact creates
  | _ => cases creates

theorem Stale.setCall {task id : Nat} {call : CommCall} (stale : core.Stale id)
    (same : next.calls = core.calls) (pointer : next.pktdrvTqueue id = core.pktdrvTqueue id)
    (different : call.creates ≠ some id) : (next.setCall task call).Stale id := by
  refine ⟨fun null => stale.pointer (pointer.symm.trans null), fun other => ?_⟩
  by_cases here : other = task
  · rw [here, setCall_same]
    exact different
  · rw [setCall_other _ _ here, same]
    exact stale.creates other

theorem Stale.quiet {id : Nat} (stale : core.Stale id)
    (calls : ∀ task, next.calls task = core.calls task ∨ next.calls task = .idle)
    (pointer : next.pktdrvTqueue = core.pktdrvTqueue) : next.Stale id := by
  refine ⟨by rw [pointer]; exact stale.pointer, fun task => ?_⟩
  rcases calls task with same | idle
  · rw [same]
    exact stale.creates task
  · simp [idle, CommCall.creates]

theorem Stale.advanced {task address id : Nat} {codes : List Int} (stale : core.Stale id)
    (advanced : Advanced core task address codes next) : next.Stale id := by
  have other : ∀ making packets, core.calls task = .createQueue making packets →
      id ≠ making.owner := by
    intro making packets isCall same
    have := stale.creates task
    simp [isCall, CommCall.creates, same] at this
  cases advanced with
  | idle | returned => exact stale
  | noMemory isCall => exact stale.setCall rfl (Function.update_of_ne (other _ _ isCall) _ _) nofun
  | createQueue isCall => exact stale.setCall rfl (Function.update_of_ne (other _ _ isCall) _ _) nofun
  | recv | createPort | drain | keep | test | free | clearPort => exact stale.setCall rfl rfl nofun

theorem Stale.step {op : NocOp} {id : Nat} (stale : core.Stale id)
    (stepped : Noc.step op core = .ok next) : next.Stale id := by
  cases step_cases stepped with
  | quiet calls pointer => exact stale.quiet calls pointer
  | recv _ nothing =>
      exact stale.setCall rfl rfl fun creates => by simp [concerns_of_creates creates] at nothing
  | create _ only =>
      refine stale.setCall rfl rfl fun creates => ?_
      obtain ⟨rfl, null⟩ := only id (concerns_of_creates creates)
      exact stale.pointer null
  | destroy _ nothing => exact stale.setCall rfl rfl (by simp [nothing])
  | advance advanced => exact stale.advanced advanced

structure Stuck (core : Noc noc) (id : UInt16) : Prop where
  recv : ∀ channel, (core.hfRecv id.toNat channel).calls id.toNat = .recv (.start channel)
  recvprobe : ∀ code, core.hfRecvprobe id.toNat = .ok code → code ≠ errCommUnfeasible
  send : ∀ call, (core.hfSend id.toNat call).1 = errOk
  create : ∀ caller port packets, (core.hfCommCreate caller id port packets).calls caller =
    .returned (if noc.maxTasks ≤ id.toNat ∨ core.alive id.toNat = false then errInvalidId
      else errCommUnfeasible)
  uses : core.queues (core.pktdrvTqueue id.toNat) = none →
    core.hfRecvprobe id.toNat = .error .destroyedQueue ∧ ∀ channel address,
      step (.advance id.toNat address) (core.hfRecv id.toNat channel) = .error .destroyedQueue

theorem Stale.recvprobe {id : Nat} (stale : core.Stale id) {code : Int}
    (probed : core.hfRecvprobe id = .ok code) : code ≠ errCommUnfeasible := by
  rw [hfRecvprobe, if_neg stale.pointer] at probed
  obtain ⟨queue, _, probed⟩ := ok_of_bind probed
  split at probed
  · rw [← Except.ok.inj probed]
    decide
  · split at probed
    · rw [← Except.ok.inj probed]
      decide
    · split at probed
      · rw [← Except.ok.inj probed]
        decide
      · rw [← Except.ok.inj probed, errCommUnfeasible]
        omega

theorem Stale.uses {id : Nat} (stale : core.Stale id)
    (gone : core.queues (core.pktdrvTqueue id) = none) :
    core.hfRecvprobe id = .error .destroyedQueue ∧ ∀ channel address,
      Noc.step (.advance id address) (core.hfRecv id channel) = .error .destroyedQueue := by
  have freed : core.queueAt (core.pktdrvTqueue id) = .error .destroyedQueue := by
    rw [queueAt, if_neg stale.pointer, gone]
  refine ⟨?_, fun channel address => ?_⟩
  · rw [hfRecvprobe, if_neg stale.pointer, freed]
    rfl
  · rw [hfRecv_started stale.pointer]
    have missing : (core.setCall id (.recv (.start channel))).queueAt
        ((core.setCall id (.recv (.start channel))).pktdrvTqueue id) = .error .destroyedQueue := freed
    simp only [Noc.step, turn, advance, setCall_same, missing, bind, Except.bind, Except.map]

theorem Stale.stuck {id : UInt16} (stale : core.Stale id.toNat) : core.Stuck id where
  recv channel := by rw [hfRecv_started stale.pointer, setCall_same]
  recvprobe _ probed := stale.recvprobe probed
  send call := by rw [hfSend, if_neg stale.pointer]
  create caller port packets := by
    unfold hfCommCreate
    simp only [ne_eq, stale.pointer, not_false_eq_true, if_true]
    split
    · exact setCall_same _ _ _
    · exact setCall_same _ _ _
  uses gone := stale.uses gone

/-- When `hf_comm_destroy` has returned for a slot, its pointer leads to no queue of the slot, and
from then on the calls for this slot go by the pointer in every later state. -/
theorem destroyed_queue_stays {kernel : Kernel noc.toConfig}
    (reached : Reaches step separate (niInit kernel) core) (task address : Nat) (id : UInt16)
    (ending : core.calls task = .destroyPort id.toNat)
    (stepped : step (.advance task address) core = .ok next) :
    next.calls task = .returned errOk ∧
      (∀ queue, next.queues (next.pktdrvTqueue id.toNat) = some queue →
        queue.making.owner ≠ id.toNat) ∧
      ∀ later, Reaches step (fun _ _ => True) next later → later.Stuck id := by
  have kept : core.Separated := by
    refine reached.invariant Separated (.niInit kernel) ?_
    intro op before after separated admitted done
    exact separated.step admitted done
  obtain ⟨present, others⟩ : core.Unlinks (.destroyPort id.toNat) := ending ▸ kept.unlinks task
  obtain ⟨codes, turned⟩ := turn_of_step stepped
  simp only [turn, advance, ending, Except.ok.injEq, Prod.mk.injEq] at turned
  obtain ⟨_, rfl⟩ := turned
  have stale : Stale (({ core with
      pktdrvPorts := Function.update core.pktdrvPorts id.toNat 0 } : Noc noc).setCall task
        (.returned errOk)) id.toNat := by
    refine ⟨present, fun other => ?_⟩
    by_cases here : other = task
    · simp [here, setCall_same, CommCall.creates]
    · rw [setCall_other _ _ here]
      intro creates
      exact here (kept.alone other task id.toNat (concerns_of_creates creates) (by rw [ending]; rfl))
  refine ⟨setCall_same _ _ _, others, fun later after => ?_⟩
  have still := after.invariant (fun state => state.Stale id.toNat) stale
    fun op before state stays _ done => stays.step done
  exact still.stuck

def destroyRun : List NocOp :=
  [.create 1 1 5 0, .advance 1 256, .advance 1 0, .destroy 1 1, .advance 1 0, .advance 1 0,
    .advance 1 0]

def destroyedCore : Noc smallNoc := workerCore (destroyRun ++ [.advance 1 0])

theorem destroyed_queue_stays_worker :
    destroyedCore.calls 1 = .returned errOk ∧
      (∀ queue, destroyedCore.queues (destroyedCore.pktdrvTqueue 1) = some queue →
        queue.making.owner ≠ 1) ∧
      ∀ later, Reaches step (fun _ _ => True) destroyedCore later → later.Stuck 1 := by
  have reached : Reaches step separate (niInit (Kernel.smallRun [.spawn Kernel.worker]))
      (workerCore destroyRun) := outcome_reaches _ _ (by decide) (by decide)
  have stepped : step (.advance 1 0) (workerCore destroyRun) = .ok destroyedCore := rfl
  exact destroyed_queue_stays reached 1 0 1 (by decide) stepped

/-- After `hf_comm_create(1, 5, 0)` and `hf_comm_destroy(1)` the task goes on to receive from the
queue that was freed, and no queue can be created for it, though port 6 is free. -/
theorem recreate_refused :
    Reaches step separate (niInit (Kernel.smallRun [.spawn Kernel.worker])) destroyedCore ∧
      destroyedCore.calls 1 = .returned errOk ∧ destroyedCore.alive 1 = true ∧
      (destroyedCore.hfRecv 1 0).calls 1 ≠ .returned errCommUnfeasible ∧
      step (.advance 1 0) (destroyedCore.hfRecv 1 0) = .error .destroyedQueue ∧
      destroyedCore.portSlot 6 = smallNoc.maxTasks ∧
      (destroyedCore.hfCommCreate 1 1 6 0).calls 1 = .returned errCommUnfeasible := by
  have reached : Reaches step separate (niInit (Kernel.smallRun [.spawn Kernel.worker]))
      (workerCore (destroyRun ++ [.advance 1 0])) := outcome_reaches _ _ (by decide) (by decide)
  exact ⟨reached, by decide, by decide, by decide, rfl, by decide, by decide⟩

end Noc

end Hellfire

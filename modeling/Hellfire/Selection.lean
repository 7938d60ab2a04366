import Hellfire.Schedulability

/-!
Which task a single call of `sched_rma`, `sched_rr` and `sched_lottery` selects, and what
else it changes.
-/

namespace Hellfire

namespace Kernel

variable {config : Config}

def MayRun (entry : TcbEntry) : Prop := entry.state ≠ .blocked ∧ 0 < entry.capacityRem

theorem rtEligible_iff (entry : TcbEntry) : rtEligible entry = true ↔ MayRun entry := by
  simp [rtEligible, MayRun]

/-- The entry of a queued task after one call: the budget of the selected task is charged before
the reload that is due when `deadline_rem` gets to 0. -/
def accounted (selected : Bool) (entry : TcbEntry) : TcbEntry :=
  let left := if selected then entry.capacityRem - 1 else entry.capacityRem
  let due : Bool := entry.deadlineRem - 1 = 0
  { entry with
    rtjobs := if selected then entry.rtjobs + 1 else entry.rtjobs
    deadlineRem := if due then entry.period else entry.deadlineRem - 1
    capacityRem := if due then entry.capacity else left
    deadlineMisses := if due && 0 < left then entry.deadlineMisses + 1 else entry.deadlineMisses }

theorem rtTick_eq (selected : Bool) (entry : TcbEntry) :
    rtTick selected entry = accounted selected entry := by
  by_cases reload : entry.deadlineRem - 1 = 0
  · cases selected <;> simp [rtTick, rtAccount, accounted, reload]
  · cases selected <;> simp [rtTick, rtAccount, accounted, reload]

/-- `sched_rma` selects a task of least period among those that may run. -/
theorem schedRma_rate_monotonic (kernel : Kernel config) (tasks : List Nat)
    (stored : kernel.krnlRtQueue.contents = tasks.map some) (distinct : tasks.Nodup)
    (named : ∀ task ∈ tasks, (kernel.krnlTcb task).id = task ∧ task ≠ 0) :
    ∃ (sorted : List Nat) (id : Nat) (after : Kernel config), kernel.schedRma = .ok (id, after) ∧
      after.krnlRtQueue.contents = sorted.map some ∧ sorted.Perm tasks ∧
      sorted.Pairwise (fun first second =>
        (kernel.krnlTcb first).period ≤ (kernel.krnlTcb second).period) ∧
      ((id = 0 ∧ ∀ task ∈ tasks, ¬MayRun (kernel.krnlTcb task)) ∨
        (id ∈ tasks ∧ MayRun (kernel.krnlTcb id) ∧ ∀ task ∈ tasks, MayRun (kernel.krnlTcb task) →
          (kernel.krnlTcb id).period ≤ (kernel.krnlTcb task).period)) ∧
      (∀ slot, after.krnlTcb slot =
        if slot ∈ tasks then accounted (slot = id) (kernel.krnlTcb slot)
        else kernel.krnlTcb slot) ∧
      RtFrame kernel after := by
  obtain ⟨sorted, after, ticked, perm, ordered, ends, frame, _, entries⟩ :=
    kernel.schedRma_ticks tasks stored distinct named
  have byPeriod : sorted.Pairwise fun first second =>
      (kernel.krnlTcb first).period ≤ (kernel.krnlTcb second).period :=
    ordered.imp fun {_ _} le => UInt16.le_iff_toNat_le.mpr le
  refine ⟨sorted, _, after, ticked, ends, perm, byPeriod, ?_, ?_, frame⟩
  · cases found : firstEligible kernel.krnlTcb sorted with
    | none =>
        refine Or.inl ⟨rfl, fun task member may => ?_⟩
        have idle := List.find?_eq_none.mp found task (perm.mem_iff.mpr member)
        exact idle ((rtEligible_iff _).mpr may)
    | some id =>
        obtain ⟨runs, before, after, split, skipped⟩ := List.find?_eq_some_iff_append.mp found
        refine Or.inr ⟨perm.mem_iff.mp (List.mem_of_find?_eq_some found),
          (rtEligible_iff _).mp runs, fun task member may => ?_⟩
        have position := perm.mem_iff.mpr member
        rw [split] at position byPeriod
        rcases List.mem_append.mp position with earlier | later
        · have refused := skipped task earlier
          rw [(rtEligible_iff _).mpr may] at refused
          cases refused
        · rcases List.mem_cons.mp later with rfl | behind
          · exact UInt16.le_refl _
          · exact (List.pairwise_cons.mp (List.pairwise_append.mp byPeriod).2.1).1 task behind
  · intro slot
    rw [entries]
    by_cases member : slot ∈ tasks
    · rw [if_pos member, if_pos member, rtTick_eq]
      congr 1
      have nonzero := (named slot member).2
      cases firstEligible kernel.krnlTcb sorted with
      | none => simp [nonzero]
      | some id => simp [eq_comm]
    · rw [if_neg member, if_neg member]

/-- The task with the shorter period is selected, from behind the other one. -/
theorem schedRma_rate_monotonic_samplers :
    ∃ after, sampling.schedRma = .ok (2, after) ∧ after.krnlRtQueue.contents = [some 2, some 1] ∧
      (after.krnlTcb 1).capacityRem = sampler.capacity ∧
      (after.krnlTcb 2).capacityRem = quickSampler.capacity - 1 := by
  obtain ⟨sorted, id, after, ran, stored, perm, ordered, chosen, entries, _⟩ :=
    sampling.schedRma_rate_monotonic [1, 2] (by decide) (by decide) (by decide)
  have first : MayRun (sampling.krnlTcb 1) := (rtEligible_iff _).mp (by decide)
  have second : MayRun (sampling.krnlTcb 2) := (rtEligible_iff _).mp (by decide)
  have selected : id = 2 := by
    rcases chosen with ⟨_, none⟩ | ⟨member, _, least⟩
    · exact absurd first (none 1 (by decide))
    · rcases List.mem_pair.mp member with rfl | rfl
      · exact absurd (least 2 (by decide) second) (by decide)
      · rfl
  subst selected
  have places : sorted = [2, 1] := by
    obtain ⟨head, last, rfl⟩ := List.length_eq_two.mp perm.length_eq
    have lower := List.pairwise_pair.mp ordered
    rcases List.mem_pair.mp (perm.subset List.mem_cons_self) with rfl | rfl
    · rcases List.mem_pair.mp (perm.subset (List.mem_cons_of_mem _ List.mem_cons_self)) with rfl | rfl
      · exact absurd perm (by decide)
      · exact absurd lower (by decide)
    · rcases List.mem_pair.mp (perm.subset (List.mem_cons_of_mem _ List.mem_cons_self)) with rfl | rfl
      · rfl
      · exact absurd perm (by decide)
  refine ⟨after, ran, ?_, ?_, ?_⟩
  · rw [stored, places]
    rfl
  · rw [entries]
    decide
  · rw [entries]
    decide

/-- `sched_rr` takes the first task that is not BLOCKED, and `sched_lottery` the one at the
ticket's position among those, counted in as many laps as it takes. -/
theorem schedRr_schedLottery_turn (kernel : Kernel config) (tasks : List Nat)
    (stored : kernel.krnlRunQueue.contents = tasks.map some) (some_task : 0 < kernel.krnlTasks)
    (present : ∃ slot ∈ tasks, kernel.blocked slot = false) :
    TurnsTo kernel tasks 0 kernel.schedRr ∧
      ∀ random, TurnsTo kernel tasks
        (random % kernel.krnlTasks.toNat % tasks.countP kernel.unblocked)
        (kernel.schedLottery random) := by
  have ready : ∃ slot ∈ tasks, kernel.unblocked slot = true := by
    simpa only [unblocked_eq_true] using present
  exact ⟨kernel.schedRr_turns tasks stored ready,
    fun random => kernel.schedLottery_turns random tasks stored some_task ready⟩

theorem schedRr_schedLottery_turn_worker :
    TurnsTo (smallRun [.spawn worker]) [0, 1] 0 (smallRun [.spawn worker]).schedRr ∧
      TurnsTo (smallRun [.spawn worker]) [0, 1] 1 ((smallRun [.spawn worker]).schedLottery 3) := by
  obtain ⟨first, drawn⟩ := (smallRun [.spawn worker]).schedRr_schedLottery_turn [0, 1] (by decide)
    (by decide) ⟨0, by decide, by decide⟩
  exact ⟨first, drawn 3⟩

end Kernel

end Hellfire

import Hellfire.TaskSafety

/-!
The slots that `hf_kill` writes. It clears the saved context of the killed task through
`krnl_task->id`, after it has set that field to -1.
-/

namespace Hellfire

open Machine

namespace Kernel

variable {config : Config}

/-- `clearEntry` with the indices that its statements use into `krnl_tcb`, those of `_set_task_sp`
and `_set_task_tp` included. -/
def clearEntryIndexed (id : Nat) (kernel : Kernel config) : List Nat × Kernel config :=
  let kernel := ({ kernel with krnlTask := id }).modify id fun entry =>
    { entry with id := noId, ptask := 0 }
  let spTask := (kernel.krnlTcb id).id
  let kernel := kernel.setTaskSp spTask 0
  let tpTask := (kernel.krnlTcb id).id
  let kernel := kernel.setTaskTp tpTask 0
  let kernel := kernel.modify id fun entry => { entry with state := .idle }
  ([id, spTask, tpTask, id], { kernel with krnlTasks := kernel.krnlTasks - 1 })

theorem clearEntryIndexed_eq (kernel : Kernel config) (id : Nat) :
    (kernel.clearEntryIndexed id).2 = kernel.clearEntry id := rfl

theorem clearEntryIndexed_wild (kernel : Kernel config) {id : Nat} (bound : id < config.maxTasks) :
    (kernel.clearEntryIndexed id).1 = [id, noId, noId, id] := by
  have other := Ne.symm (noId_ne bound)
  simp [clearEntryIndexed, setTaskSp, modify_other _ _ other]

theorem noId_outside : config.maxTasks ≤ noId := config.representable

/-- A call that indexes the task table inside its bounds, changes no other slot, and clears the
saved stack pointer and entry point of its own. -/
def KillsOnly (around : Surroundings) (id : Nat) (kernel : Kernel config) : Prop :=
  (∀ index ∈ (kernel.clearEntryIndexed id).1, index < config.maxTasks) ∧
    ∀ code after, kernel.hfKill around id = .ok (code, after) →
      (∀ slot, slot ≠ id → after.krnlTcb slot = kernel.krnlTcb slot) ∧
        (after.krnlTcb id).contextSp = 0 ∧ (after.krnlTcb id).contextTp = 0

/-- A call that returns leaves the saved context of the killed task as it was and writes behind
the end of the table instead. -/
structure WildWrite (kernel after : Kernel config) (id : Nat) : Prop where
  contextSp : (after.krnlTcb id).contextSp = (kernel.krnlTcb id).contextSp
  contextTp : (after.krnlTcb id).contextTp = (kernel.krnlTcb id).contextTp
  wild : (after.krnlTcb noId).contextSp = 0 ∧ (after.krnlTcb noId).contextTp = 0
  others : ∀ slot, slot ≠ id → slot ≠ noId → after.krnlTcb slot = kernel.krnlTcb slot

theorem clearEntry_wild {kernel after : Kernel config} {id : Nat} (bound : id < config.maxTasks)
    (entries : after.krnlTcb = (kernel.clearEntry id).krnlTcb) : WildWrite kernel after id := by
  have own := kernel.clearEntry_same bound
  refine ⟨?_, ?_, ?_, ?_⟩
  · rw [entries, own]
  · rw [entries, own]
  · rw [entries, kernel.clearEntry_other bound (noId_ne bound)]
    simp
  · intro slot other inside
    rw [entries, kernel.clearEntry_other bound other, if_neg inside, if_neg inside]

theorem hfKill_never_only {start kernel : Kernel config} (booted : start.Booted)
    (reached : Reaches perform (fun op _ => op.taskGiven) start kernel) {id : Nat}
    (alive : kernel.live id = true) (nonzero : id ≠ 0) (around : Surroundings) :
    ¬kernel.KillsOnly around id ∧ noId ∈ (kernel.clearEntryIndexed id).1 ∧
      ∀ code after, kernel.hfKill around id = .ok (code, after) → WildWrite kernel after id := by
  obtain ⟨run, rt, delay, partition⟩ := reachable_partition booted reached
  have member := (partition.members id).mpr alive
  have bound := partition.bound member
  have wild : noId ∈ (kernel.clearEntryIndexed id).1 := by
    rw [kernel.clearEntryIndexed_wild bound]
    simp
  refine ⟨?_, wild, ?_⟩
  · rintro ⟨inside, _⟩
    exact absurd (inside noId wild) (Nat.not_lt.mpr noId_outside)
  · intro code after killed
    rw [← List.append_assoc] at member
    rcases List.mem_append.mp member with queued | delayed
    · obtain ⟨next, kills, _, entries, _⟩ := partition.hfKill_present around nonzero queued
      rw [kills] at killed
      cases killed
      exact clearEntry_wild bound entries
    · rw [partition.hfKill_delayed around delayed] at killed
      cases killed

theorem hfKill_never_only_worker : ¬(smallRun [.spawn worker]).KillsOnly undisturbed 1 :=
  (hfKill_never_only smallBoot_booted (smallRun_reaches [.spawn worker] (by decide) rfl) (by decide)
    (by decide) undisturbed).1

/-- The killed worker keeps its stack pointer and its entry point. -/
theorem killed_context_remains :
    ∃ start kernel after : Kernel twoTasks, start.Booted ∧
      Reaches perform (fun op _ => op.taskGiven) start kernel ∧ kernel.live 1 = true ∧
      kernel.hfKill undisturbed 1 = .ok (some errOk, after) ∧
      (kernel.clearEntryIndexed 1).1 = [1, 65535, 65535, 1] ∧ (after.krnlTcb 1).contextTp = 2 ∧
      ¬kernel.KillsOnly undisturbed 1 := by
  refine ⟨smallBoot, smallRun [.spawn worker], smallRun [.spawn worker, .kill undisturbed 1],
    smallBoot_booted, smallRun_reaches _ (by decide) rfl, by decide, rfl, by decide, by decide, ?_⟩
  rintro ⟨_, clears⟩
  have cleared := (clears (some errOk) (smallRun [.spawn worker, .kill undisturbed 1]) rfl).2.2
  exact absurd cleared (by decide)

end Kernel

end Hellfire

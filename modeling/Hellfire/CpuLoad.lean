import Mathlib.Algebra.Order.BigOperators.Group.List
import Mathlib.Algebra.Order.Group.Nat
import Hellfire.PriorityTurns

/-!
`hf_cpuload` of `sys/kernel/processor.c`: the job counter of a task as a percentage of the jobs
of the tasks that are not BLOCKED, in the 32-bit arithmetic of the source.
-/

namespace Hellfire

open Machine

def TcbEntry.jobs (entry : TcbEntry) : UInt32 :=
  if entry.period ≠ 0 then entry.rtjobs else entry.bgjobs

namespace Kernel

variable {config : Config}

-- `s` is an `int32_t`, but it is added to and divided by as an unsigned word.
def jobsLoop (kernel : Kernel config) : Nat → Nat → Int32 → Int32
  | 0, _, s => s
  | fuel + 1, i, s =>
      if (kernel.krnlTcb i).ptask ≠ 0 then
        if (kernel.krnlTcb i).state ≠ .blocked then
          jobsLoop kernel fuel (i + 1) (s.toUInt32 + (kernel.krnlTcb i).jobs).toInt32
        else jobsLoop kernel fuel (i + 1) s
      else jobsLoop kernel fuel (i + 1) s

def hfCpuload (id : Nat) (kernel : Kernel config) : Option Int :=
  let s := kernel.jobsLoop config.maxTasks 0 0
  if id < config.maxTasks then
    if (kernel.krnlTcb id).ptask ≠ 0 then
      if s = 0 then none
      else some ((kernel.krnlTcb id).jobs * 100 / s.toUInt32).toInt32.toInt
    else some errInvalidId
  else some errInvalidId

def jobsOf (kernel : Kernel config) (slot : Nat) : Nat :=
  if kernel.live slot = true ∧ kernel.blocked slot = false then (kernel.krnlTcb slot).jobs.toNat
  else 0

def totalJobs (kernel : Kernel config) : Nat :=
  ((List.range config.maxTasks).map kernel.jobsOf).sum

theorem jobsLoop_sum (kernel : Kernel config) (fuel : Nat) : ∀ (i : Nat) (s : Int32),
    i + fuel = config.maxTasks →
    (kernel.jobsLoop fuel i s).toUInt32.toNat =
      (s.toUInt32.toNat + ((List.range' i fuel).map kernel.jobsOf).sum) % 4294967296 := by
  induction fuel with
  | zero =>
      intro i s _
      simp only [jobsLoop, List.range'_zero, List.map_nil, List.sum_nil, Nat.add_zero]
      exact (Nat.mod_eq_of_lt s.toUInt32.toNat_lt).symm
  | succ fuel ih =>
      intro i s remaining
      have inside : i < config.maxTasks := by omega
      rw [List.range'_succ, List.map_cons, List.sum_cons]
      by_cases alive : (kernel.krnlTcb i).ptask = 0
      · have idle : kernel.jobsOf i = 0 := by simp [jobsOf, live, alive]
        simp only [jobsLoop, alive, ne_eq, not_true_eq_false, if_false, idle, Nat.zero_add]
        exact ih (i + 1) s (by omega)
      · by_cases halted : (kernel.krnlTcb i).state = .blocked
        · have idle : kernel.jobsOf i = 0 := by simp [jobsOf, blocked, halted]
          simp only [jobsLoop, alive, halted, ne_eq, not_true_eq_false, not_false_eq_true, if_false,
            if_true, idle, Nat.zero_add]
          exact ih (i + 1) s (by omega)
        · have counted : kernel.jobsOf i = (kernel.krnlTcb i).jobs.toNat := by
            simp [jobsOf, live, blocked, inside, alive, halted]
          simp only [jobsLoop, alive, halted, ne_eq, not_false_eq_true, if_true, counted]
          rw [ih (i + 1) _ (by omega)]
          have added : (s.toUInt32 + (kernel.krnlTcb i).jobs).toInt32.toUInt32.toNat =
              (s.toUInt32.toNat + (kernel.krnlTcb i).jobs.toNat) % 4294967296 :=
            UInt32.toNat_add _ _
          rw [added, Nat.mod_add_mod, Nat.add_assoc]

theorem jobsLoop_total (kernel : Kernel config) :
    (kernel.jobsLoop config.maxTasks 0 0).toUInt32.toNat = kernel.totalJobs % 4294967296 := by
  rw [kernel.jobsLoop_sum config.maxTasks 0 0 (Nat.zero_add _), totalJobs, List.range_eq_range']
  exact congrArg (· % 4294967296) (Nat.zero_add _)

/-- The sum is not zero as a word, and neither the product nor the sum is wrapped so far that the
counter of the task exceeds the sum. -/
def Accountable (kernel : Kernel config) (id : Nat) : Prop :=
  kernel.totalJobs % 4294967296 ≠ 0 ∧
    (kernel.krnlTcb id).jobs.toNat * 100 % 4294967296 < 101 * (kernel.totalJobs % 4294967296)

theorem toInt32_percentage (word : UInt32) :
    (0 ≤ word.toInt32.toInt ∧ word.toInt32.toInt ≤ 100) ↔ word.toNat ≤ 100 := by
  have bound := word.toNat_lt
  have same : word.toInt32.toInt = word.toBitVec.toInt := rfl
  have value : word.toBitVec.toNat = word.toNat := rfl
  rw [same, BitVec.toInt_eq_toNat_cond, value]
  split
  · omega
  · omega

theorem jobsOf_le_total (kernel : Kernel config) {id : Nat} (alive : kernel.live id = true)
    (ready : kernel.blocked id = false) : (kernel.krnlTcb id).jobs.toNat ≤ kernel.totalJobs := by
  have inside : id < config.maxTasks := by
    simp only [live, Bool.and_eq_true, decide_eq_true_eq] at alive
    exact alive.1
  have own : kernel.jobsOf id = (kernel.krnlTcb id).jobs.toNat := by
    rw [jobsOf, if_pos ⟨alive, ready⟩]
  rw [← own]
  exact List.le_sum_of_mem (List.mem_map_of_mem (List.mem_range.mpr inside))

/-- `hf_cpuload` returns a percentage exactly for the accountable tasks, which include every task
that is not BLOCKED while the sum fits its word. -/
theorem hfCpuload_percentage (kernel : Kernel config) (id : Nat) (alive : kernel.live id = true) :
    ((∃ n, kernel.hfCpuload id = some n ∧ 0 ≤ n ∧ n ≤ 100) ↔ kernel.Accountable id) ∧
      (kernel.blocked id = false → 0 < kernel.totalJobs → kernel.totalJobs < 4294967296 →
        kernel.Accountable id) := by
  have facts := alive
  simp only [live, Bool.and_eq_true, decide_eq_true_eq] at facts
  obtain ⟨inside, task⟩ := facts
  constructor
  · have sum := kernel.jobsLoop_total
    have zero : kernel.jobsLoop config.maxTasks 0 0 = 0 ↔ kernel.totalJobs % 4294967296 = 0 := by
      rw [← sum]
      constructor
      · intro none
        rw [none]
        rfl
      · intro none
        have word : (kernel.jobsLoop config.maxTasks 0 0).toUInt32 = 0 := UInt32.toNat_inj.mp none
        exact Int32.toBitVec_inj.mp (congrArg UInt32.toBitVec word)
    simp only [hfCpuload, if_pos inside, if_pos task, Accountable]
    by_cases none : kernel.jobsLoop config.maxTasks 0 0 = 0
    · rw [if_pos none]
      simp [zero.mp none]
    · rw [if_neg none]
      have positive : kernel.totalJobs % 4294967296 ≠ 0 := fun same => none (zero.mpr same)
      have quotient : ((kernel.krnlTcb id).jobs * 100 /
          (kernel.jobsLoop config.maxTasks 0 0).toUInt32).toNat =
            (kernel.krnlTcb id).jobs.toNat * 100 % 4294967296 / (kernel.totalJobs % 4294967296) := by
        rw [UInt32.toNat_div, UInt32.toNat_mul, sum]
        rfl
      have exact_bound : (kernel.krnlTcb id).jobs.toNat * 100 % 4294967296 /
            (kernel.totalJobs % 4294967296) ≤ 100 ↔
          (kernel.krnlTcb id).jobs.toNat * 100 % 4294967296 <
            101 * (kernel.totalJobs % 4294967296) := by
        rw [← Nat.lt_succ_iff, Nat.div_lt_iff_lt_mul (Nat.pos_of_ne_zero positive)]
      constructor
      · rintro ⟨n, same, low, high⟩
        rw [← Option.some.inj same] at low high
        have percentage := (toInt32_percentage _).mp ⟨low, high⟩
        rw [quotient] at percentage
        exact ⟨positive, exact_bound.mp percentage⟩
      · rintro ⟨_, below⟩
        refine ⟨_, rfl, (toInt32_percentage _).mpr ?_⟩
        rw [quotient]
        exact exact_bound.mpr below
  · intro ready some_job fits
    have least := kernel.jobsOf_le_total alive ready
    have whole := Nat.mod_eq_of_lt fits
    have product := Nat.mod_le ((kernel.krnlTcb id).jobs.toNat * 100) 4294967296
    refine ⟨?_, ?_⟩
    · omega
    · omega

section SmallSystem

def workerBusy : Kernel twoTasks :=
  outcome prioritized [.spawn worker, .schedPriorityrr, .schedPriorityrr, .schedPriorityrr]
    smallBoot

theorem hfCpuload_percentage_worker :
    ∃ n, workerBusy.hfCpuload 1 = some n ∧ 0 ≤ n ∧ n ≤ 100 := by
  obtain ⟨exact_when, ready⟩ := workerBusy.hfCpuload_percentage 1 (by decide)
  exact exact_when.mpr (ready (by decide) (by decide) (by decide))

/-- Once the worker is BLOCKED its two jobs are measured against the one of the idle task. -/
theorem blocked_task_loads_twice :
    ∃ start kernel : Kernel twoTasks, start.Booted ∧
      Reaches prioritized (fun op _ => op.basic) start kernel ∧
      0 < kernel.totalJobs ∧ kernel.live 1 = true ∧ kernel.hfCpuload 1 = some 200 := by
  have allowed : ∀ op ∈ [PriorityOp.spawn worker, .schedPriorityrr, .schedPriorityrr,
      .schedPriorityrr, .block 1], op.basic := by decide
  refine ⟨smallBoot, (workerBusy.hfBlock 1).2, smallBoot_booted, ?_, by decide, by decide, by decide⟩
  exact execute_reaches [.spawn worker, .schedPriorityrr, .schedPriorityrr, .schedPriorityrr,
    .block 1] _ _ .start (fun op member _ => allowed op member) rfl

end SmallSystem

end Kernel

end Hellfire

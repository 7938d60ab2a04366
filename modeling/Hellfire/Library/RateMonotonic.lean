import Mathlib.Algebra.BigOperators.Group.Finset.Piecewise
import Mathlib.Algebra.Order.BigOperators.Group.Finset

/-!
Rate monotonic scheduling of periodic budgets, one tick at a time. The tasks of a
level are those with a period no longer than a given one; the time demand of a
level that fits into a window shows that the level is idle again before the window
ends, counted from any instant at which it was idle.
-/

namespace RateMonotonic

open Finset

variable {ι : Type}

structure TaskSet (ι : Type) where
  tasks : Finset ι
  period : ι → Nat
  capacity : ι → Nat

structure Budgets (ι : Type) where
  budget : ι → Nat
  untilReload : ι → Nat

def level (set : TaskSet ι) (task : ι) : Finset ι :=
  set.tasks.filter fun other => set.period other ≤ set.period task

theorem mem_level {set : TaskSet ι} {task other : ι} :
    other ∈ level set task ↔ other ∈ set.tasks ∧ set.period other ≤ set.period task := by
  simp [level]

def demand (set : TaskSet ι) (task : ι) (window : Nat) : Nat :=
  ∑ other ∈ level set task,
    (window + set.period other - 1) / set.period other * set.capacity other

structure Highest (set : TaskSet ι) (chosen : Option ι) (state : Budgets ι) : Prop where
  pending : ∀ task, chosen = some task → task ∈ set.tasks ∧ 0 < state.budget task
  urgent : ∀ task ∈ set.tasks, 0 < state.budget task →
    ∃ other, chosen = some other ∧ set.period other ≤ set.period task

def Counting (set : TaskSet ι) (state : Budgets ι) : Prop :=
  ∀ task ∈ set.tasks, 0 < state.untilReload task ∧ state.untilReload task ≤ set.period task

structure Since (set : TaskSet ι) (task : ι) (window elapsed : Nat) (releases : ι → Nat)
    (state : Budgets ι) : Prop where
  inside : elapsed < window
  spaced : ∀ other ∈ level set task,
    releases other * set.period other ≤ elapsed + state.untilReload other
  work : ∑ other ∈ level set task, state.budget other + elapsed ≤
    ∑ other ∈ level set task, releases other * set.capacity other
  released : 0 < state.budget task → set.period task ≤ elapsed + state.untilReload task

def Bounded (set : TaskSet ι) (task : ι) (window : Nat) (state : Budgets ι) : Prop :=
  ∃ elapsed releases, Since set task window elapsed releases state

theorem releases_le {set : TaskSet ι} {task : ι} {window elapsed : Nat} {releases : ι → Nat}
    {state : Budgets ι} (counting : Counting set state)
    (since : Since set task window elapsed releases state) :
    ∑ other ∈ level set task, releases other * set.capacity other ≤ demand set task window := by
  apply Finset.sum_le_sum
  intro other member
  obtain ⟨positive, bounded⟩ := counting other (mem_level.mp member).1
  have spaced := since.spaced other member
  have inside := since.inside
  apply Nat.mul_le_mul_right
  rw [Nat.le_div_iff_mul_le (by omega)]
  omega

theorem Bounded.congr {set : TaskSet ι} {task : ι} {window : Nat} {state state' : Budgets ι}
    (member : task ∈ set.tasks) (bounded : Bounded set task window state)
    (same : ∀ other ∈ set.tasks, state'.budget other = state.budget other ∧
      state'.untilReload other = state.untilReload other) : Bounded set task window state' := by
  obtain ⟨elapsed, releases, since⟩ := bounded
  refine ⟨elapsed, releases, since.inside, ?_, ?_, ?_⟩
  · intro other inLevel
    rw [(same other (mem_level.mp inLevel).1).2]
    exact since.spaced other inLevel
  · rw [Finset.sum_congr rfl fun other inLevel => (same other (mem_level.mp inLevel).1).1]
    exact since.work
  · rw [(same task member).1, (same task member).2]
    exact since.released

theorem Bounded.start {set : TaskSet ι} {task : ι} {window : Nat} {state : Budgets ι}
    (positive : 0 < window) (member : task ∈ set.tasks)
    (full : ∀ other ∈ set.tasks, state.budget other = set.capacity other ∧
      state.untilReload other = set.period other) : Bounded set task window state := by
  refine ⟨0, fun _ => 1, positive, ?_, ?_, ?_⟩
  · intro other inLevel
    rw [(full other (mem_level.mp inLevel).1).2]
    omega
  · rw [Nat.add_zero]
    apply Finset.sum_le_sum
    intro other inLevel
    rw [(full other (mem_level.mp inLevel).1).1]
    omega
  · intro _
    rw [(full task member).2]
    omega

variable [DecidableEq ι]

def charge (chosen : Option ι) (state : Budgets ι) (task : ι) : Nat :=
  if chosen = some task then state.budget task - 1 else state.budget task

def tick (set : TaskSet ι) (chosen : Option ι) (state : Budgets ι) : Budgets ι where
  budget task := if state.untilReload task = 1 then set.capacity task else charge chosen state task
  untilReload task :=
    if state.untilReload task = 1 then set.period task else state.untilReload task - 1

theorem Counting.tick {set : TaskSet ι} {chosen : Option ι} {state : Budgets ι}
    (counting : Counting set state) : Counting set (tick set chosen state) := by
  intro task member
  obtain ⟨positive, bounded⟩ := counting task member
  simp only [RateMonotonic.tick]
  split
  · omega
  · omega

theorem charge_add {set : TaskSet ι} {chosen : Option ι} {state : Budgets ι}
    (highest : Highest set chosen state) (task : ι) :
    charge chosen state task + (if chosen = some task then 1 else 0) = state.budget task := by
  unfold charge
  split
  · rename_i picked
    have := (highest.pending task picked).2
    omega
  · rfl

theorem sum_charge {set : TaskSet ι} {state : Budgets ι} {task picked : ι}
    (highest : Highest set (some picked) state) (member : picked ∈ level set task) :
    ∑ other ∈ level set task, charge (some picked) state other + 1 =
      ∑ other ∈ level set task, state.budget other := by
  have one : ∑ other ∈ level set task, (if some picked = some other then 1 else 0) = 1 := by
    simp [member]
  rw [← Finset.sum_congr rfl fun other _ => charge_add highest other, Finset.sum_add_distrib, one]

section Step

variable {set : TaskSet ι} {task : ι} {window : Nat} {chosen : Option ι} {state : Budgets ι}

theorem idle_tick (counting : Counting set state)
    (member : task ∈ set.tasks) (positive : 0 < window)
    (idle : ∑ other ∈ level set task, charge chosen state other = 0) :
    Since set task window 0 (fun other => if state.untilReload other = 1 then 1 else 0)
      (tick set chosen state) := by
  have empty : ∀ other ∈ level set task, charge chosen state other = 0 :=
    Finset.sum_eq_zero_iff.mp idle
  refine ⟨positive, ?_, ?_, ?_⟩
  · intro other inLevel
    have bounds := counting other (mem_level.mp inLevel).1
    simp only [tick]
    split
    · omega
    · omega
  · rw [Nat.add_zero]
    apply Finset.sum_le_sum
    intro other inLevel
    simp only [tick, empty other inLevel]
    split
    · omega
    · omega
  · intro waiting
    have own : task ∈ level set task := mem_level.mpr ⟨member, Nat.le_refl _⟩
    simp only [tick, empty task own] at waiting ⊢
    split at waiting
    · rename_i reload
      rw [if_pos reload]
      omega
    · omega

theorem busy_charge (highest : Highest set chosen state)
    (busy : ∑ other ∈ level set task, charge chosen state other ≠ 0) :
    ∑ other ∈ level set task, charge chosen state other + 1 =
      ∑ other ∈ level set task, state.budget other := by
  obtain ⟨other, inLevel, left⟩ := Finset.exists_ne_zero_of_sum_ne_zero busy
  obtain ⟨known, shorter⟩ := mem_level.mp inLevel
  have waiting : 0 < state.budget other := by
    have := charge_add highest other
    omega
  obtain ⟨picked, chose, urgent⟩ := highest.urgent other known waiting
  subst chose
  exact sum_charge highest
    (mem_level.mpr ⟨(highest.pending picked rfl).1, urgent.trans shorter⟩)

theorem busy_inside {elapsed : Nat} {releases : ι → Nat} (counting : Counting set state)
    (highest : Highest set chosen state) (fits : demand set task window ≤ window)
    (since : Since set task window elapsed releases state)
    (busy : ∑ other ∈ level set task, charge chosen state other ≠ 0) : elapsed + 1 < window := by
  have charged := busy_charge highest busy
  have bound := releases_le counting since
  have work := since.work
  have inside := since.inside
  omega

theorem busy_tick {elapsed : Nat} {releases : ι → Nat} (counting : Counting set state)
    (highest : Highest set chosen state) (fits : demand set task window ≤ window)
    (member : task ∈ set.tasks) (since : Since set task window elapsed releases state)
    (busy : ∑ other ∈ level set task, charge chosen state other ≠ 0) :
    Since set task window (elapsed + 1)
      (fun other => releases other + if state.untilReload other = 1 then 1 else 0)
      (tick set chosen state) := by
  refine ⟨busy_inside counting highest fits since busy, ?_, ?_, ?_⟩
  · intro other inLevel
    have bounds := counting other (mem_level.mp inLevel).1
    have spaced := since.spaced other inLevel
    simp only [tick]
    split
    · rename_i reload
      rw [Nat.add_mul, Nat.one_mul]
      omega
    · rw [Nat.add_zero]
      omega
  · have reloads : ∑ other ∈ level set task, (tick set chosen state).budget other ≤
        ∑ other ∈ level set task, (charge chosen state other +
          (if state.untilReload other = 1 then 1 else 0) * set.capacity other) := by
      apply Finset.sum_le_sum
      intro other _
      simp only [tick]
      split
      · omega
      · omega
    have charged := busy_charge highest busy
    have work := since.work
    simp only [Nat.add_mul, Finset.sum_add_distrib] at reloads ⊢
    omega
  · intro waiting
    have bounds := counting task member
    simp only [tick] at waiting ⊢
    split at waiting
    · rename_i reload
      rw [if_pos reload]
      omega
    · rename_i reload
      rw [if_neg reload]
      have before : 0 < state.budget task := by
        have := charge_add highest task
        omega
      have := since.released before
      omega

/-- Between two idle instants the work of a level grows by its demand and shrinks with every
tick, so the bound on the level is kept. -/
theorem Bounded.tick (counting : Counting set state) (highest : Highest set chosen state)
    (fits : demand set task window ≤ window) (member : task ∈ set.tasks)
    (bounded : Bounded set task window state) : Bounded set task window (tick set chosen state) := by
  obtain ⟨elapsed, releases, since⟩ := bounded
  by_cases idle : ∑ other ∈ level set task, charge chosen state other = 0
  · exact ⟨_, _, idle_tick counting member (Nat.zero_lt_of_lt since.inside) idle⟩
  · exact ⟨_, _, busy_tick counting highest fits member since idle⟩

theorem Bounded.no_miss (counting : Counting set state) (highest : Highest set chosen state)
    (fits : demand set task window ≤ window) (short : window ≤ set.period task)
    (member : task ∈ set.tasks) (bounded : Bounded set task window state)
    (reload : state.untilReload task = 1) : charge chosen state task = 0 := by
  obtain ⟨elapsed, releases, since⟩ := bounded
  by_contra late
  have own : task ∈ level set task := mem_level.mpr ⟨member, Nat.le_refl _⟩
  have busy : ∑ other ∈ level set task, charge chosen state other ≠ 0 := by
    intro idle
    exact late (Finset.sum_eq_zero_iff.mp idle task own)
  have inside := busy_inside counting highest fits since busy
  have before : 0 < state.budget task := by
    have := charge_add highest task
    omega
  have released := since.released before
  omega

end Step

end RateMonotonic

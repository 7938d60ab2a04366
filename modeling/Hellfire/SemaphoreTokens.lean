import Hellfire.Semaphore

/-!
A semaphore as its callers see it: a number of calls of `hf_semwait` that may still return.
Every run of tasks over `sys/sync/semaphore.c` is a run of this one.
-/

namespace Hellfire

namespace Tokens

open Machine SemWorld

def hfSemwait (semaphore : Nat) : Option Nat :=
  match semaphore with
  | 0 => none
  | semaphore + 1 => some semaphore

def hfSempost (semaphore : Nat) : Nat := semaphore + 1

inductive Call
  | wait
  | post
deriving DecidableEq, Repr

def call : Call → Nat → Except Unit Nat
  | .wait, semaphore =>
      match hfSemwait semaphore with
      | none => .error ()
      | some rest => .ok rest
  | .post, semaphore => .ok (hfSempost semaphore)

theorem hfSemwait_none {semaphore : Nat} (waits : hfSemwait semaphore = none) : semaphore = 0 := by
  cases semaphore with
  | zero => rfl
  | succ semaphore => cases waits

section Refinement

variable {config : Config} {world after : SemWorld config} {tasks : List Nat} {value : Int}

def remaining (value : Int) (world : SemWorld config) : Int := value + world.posts - world.passed

theorem remaining_covers (counted : Counted value world tasks) :
    max 0 world.count + world.system.pending.length ≤ remaining value world := by
  have count := counted.count
  have asleep := counted.asleep
  have passed := counted.passed
  unfold remaining
  omega

/-- A step of the kernel is a post, the return of a wait, or nothing that the callers can tell. -/
theorem perform_cases (counted : Counted value world tasks) {op : SemOp}
    (ready : possible op world) (spared : spares op world)
    (stepped : perform op world = .ok after) :
    (after.posts = world.posts + 1 ∧ after.passed = world.passed) ∨
      (0 < remaining value world ∧ after.posts = world.posts ∧ after.passed = world.passed + 1) ∨
      (after.posts = world.posts ∧ after.passed = world.passed) := by
  have covers := remaining_covers counted
  cases op with
  | wait =>
      rcases wait_cases counted.sane ready with ⟨through, done⟩ | ⟨_, kernel, queue, done, _⟩
      · rw [counted.down] at through
        rw [done, Except.ok.injEq] at stepped
        subst stepped
        exact Or.inr (Or.inl ⟨by omega, rfl, rfl⟩)
      · rw [done, Except.ok.injEq] at stepped
        subst stepped
        exact Or.inr (Or.inr ⟨rfl, rfl⟩)
  | post =>
      rcases post_cases counted.sane with
        ⟨_, done⟩ | ⟨_, _, failed⟩ | ⟨_, task, rest, queue, _, done, _⟩
      · rw [done, Except.ok.injEq] at stepped
        subst stepped
        exact Or.inl ⟨rfl, rfl⟩
      · rw [failed] at stepped
        cases stepped
      · rw [done, Except.ok.injEq] at stepped
        subst stepped
        exact Or.inl ⟨rfl, rfl⟩
  | yield around =>
      obtain ⟨kernel, rfl, _⟩ := yield_cases counted.sane ready stepped
      exact Or.inr (Or.inr ⟨rfl, rfl⟩)
  | leave =>
      simp only [perform, Except.ok.injEq] at stepped
      subst stepped
      have owed := List.length_pos_of_mem (counted.sane.left ready).1
      exact Or.inr (Or.inl ⟨by omega, rfl, rfl⟩)
  | call op =>
      obtain ⟨kernel, rfl, _⟩ := call_cases counted.sane ready spared stepped
      exact Or.inr (Or.inr ⟨rfl, rfl⟩)

structure Refined (value : Int) (world : SemWorld config) (calls : List Call) : Prop where
  ran : execute call calls value.toNat = .ok (remaining value world).toNat
  posts : calls.count .post = world.posts
  passed : calls.count .wait = world.passed

theorem Refined.perform {calls : List Call} (refined : Refined value world calls)
    (counted : Counted value world tasks) {op : SemOp} (ready : possible op world)
    (spared : spares op world) (stepped : perform op world = .ok after) :
    ∃ calls', Refined value after calls' := by
  have covers := remaining_covers counted
  rcases perform_cases counted ready spared stepped with
    ⟨posts, passed⟩ | ⟨positive, posts, passed⟩ | ⟨posts, passed⟩
  · refine ⟨calls ++ [.post], execute_snoc refined.ran ?_, ?_, ?_⟩
    · simp only [call, hfSempost, remaining, posts, passed, Except.ok.injEq] at covers ⊢
      omega
    · simp [refined.posts, posts]
    · simp [refined.passed, passed]
  · refine ⟨calls ++ [.wait], execute_snoc refined.ran ?_, ?_, ?_⟩
    · have one : (remaining value world).toNat = (remaining value after).toNat + 1 := by
        simp only [remaining, posts, passed] at positive ⊢
        omega
      rw [one]
      rfl
    · simp [refined.posts, posts]
    · simp [refined.passed, passed]
  · refine ⟨calls, ?_, ?_, ?_⟩
    · simpa only [remaining, posts, passed] using refined.ran
    · rw [refined.posts, posts]
    · rw [refined.passed, passed]

end Refinement

section Runs

variable {config : Config} {boot kernel : Kernel config} {semaphore : Semaphore config}
  {world : SemWorld config} {value : Int}

theorem opened_counted (booted : boot.Booted)
    (ran : Reaches Kernel.perform (fun op _ => op.taskGiven) boot kernel)
    (small : value < 2147483648)
    (initialised : Semaphore.hfSeminit (some (.create config.maxTasks config.addressable)) value =
      (errOk, some semaphore)) :
    0 ≤ value ∧ Counted value (opened kernel semaphore) [] := by
  obtain ⟨sane, count, nonnegative⟩ := opened_sane booted ran initialised
  refine ⟨nonnegative, sane, ?_, ?_, ?_, ?_⟩
  all_goals simp only [opened, WaitSystem.opened, List.length_nil, count]
  all_goals omega

/-- Every run of tasks over a semaphore of the kernel is a run of a number, with the same
posts and the same returns. -/
theorem semaphore_refined (booted : boot.Booted)
    (ran : Reaches Kernel.perform (fun op _ => op.taskGiven) boot kernel)
    (small : value < 2147483648)
    (initialised : Semaphore.hfSeminit (some (.create config.maxTasks config.addressable)) value =
      (errOk, some semaphore))
    (reached : Reaches perform
      (fun op state => possible op state ∧ spares op state ∧ inRange value op state)
      (opened kernel semaphore) world) :
    ∃ calls, Refined value world calls := by
  have invariant : ∃ tasks calls, Counted value world tasks ∧ Refined value world calls := by
    refine reached.invariant
      (fun state => ∃ tasks calls, Counted value state tasks ∧ Refined value state calls) ?_ ?_
    · obtain ⟨_, counted⟩ := opened_counted booted ran small initialised
      refine ⟨[], [], counted, ?_, rfl, rfl⟩
      simp [execute, remaining, opened]
    · rintro op before after ⟨tasks, calls, counted, refined⟩ ⟨ready, spared, fits⟩ stepped
      obtain ⟨tasks', counted'⟩ := counted.perform ready spared fits stepped
      obtain ⟨calls', refined'⟩ := refined.perform counted ready spared stepped
      exact ⟨tasks', calls', counted', refined'⟩
  obtain ⟨_, calls, _, refined⟩ := invariant
  exact ⟨calls, refined⟩

theorem semaphore_refined_handover : ∃ calls, Refined 0 (semRun 0 handover) calls := by
  have reached : Reaches perform
      (fun op state => possible op state ∧ spares op state ∧ inRange 0 op state)
      (opened Kernel.threeBoot (semOf 0)) (semRun 0 handover) :=
    outcome_reaches handover _ (by decide +kernel) (by decide +kernel)
  exact semaphore_refined Kernel.threeBoot_booted .start (by decide) (semOf_initialised (by decide)) reached

end Runs

end Tokens

end Hellfire

import Mathlib.Logic.Basic

/-!
Machines that take one operation at a time: runs that collect replies, with the
simulation rule that relates two of them, and the states reached by runs whose
steps may fail, with the rule for invariants.
-/

namespace Machine

variable {ι σ τ ο ε : Type}

theorem ok_of_map {ran : Except ε σ} {make : σ → τ} {result : τ} (done : ran.map make = .ok result) :
    ∃ value, ran = .ok value ∧ make value = result := by
  cases ran with
  | error failure => cases done
  | ok value => exact ⟨value, rfl, Except.ok.inj done⟩

theorem ok_of_bind {ran : Except ε σ} {next : σ → Except ε τ} {result : τ}
    (done : ran >>= next = .ok result) : ∃ value, ran = .ok value ∧ next value = .ok result := by
  cases ran with
  | error failure => cases done
  | ok value => exact ⟨value, rfl, done⟩

theorem ok_of_noted {ran : Except ε σ} (note : σ → τ) {after : σ} {noted : τ}
    (done : (ran >>= fun next => .ok (next, note next)) = .ok (after, noted)) :
    ran = .ok after ∧ noted = note after := by
  obtain ⟨next, performed, same⟩ := ok_of_bind done
  obtain ⟨rfl, rfl⟩ := Prod.mk.inj (Except.ok.inj same)
  exact ⟨performed, rfl⟩

/-- The computation returns a value that passes the test. -/
def passes (ran : Except ε σ) (test : σ → Bool) : Bool :=
  match ran with
  | .error _ => false
  | .ok value => test value

theorem ok_of_passes {ran : Except ε σ} {test : σ → Bool} (passed : passes ran test = true) :
    ∃ value, ran = .ok value ∧ test value = true := by
  cases ran with
  | error failure => cases passed
  | ok value => exact ⟨value, rfl, passed⟩

def replies (step : ι → σ → ο × σ) : List ι → σ → List ο × σ
  | [], state => ([], state)
  | operation :: rest, state =>
      let (reply, next) := step operation state
      let (others, final) := replies step rest next
      (reply :: others, final)

theorem replies_simulate (step : ι → σ → ο × σ) (step' : ι → τ → ο × τ) (related : σ → τ → Prop)
    (preserved : ∀ operation state state', related state state' →
      (step operation state).1 = (step' operation state').1 ∧
        related (step operation state).2 (step' operation state').2) :
    ∀ operations state state', related state state' →
      (replies step operations state).1 = (replies step' operations state').1 ∧
        related (replies step operations state).2 (replies step' operations state').2 := by
  intro operations
  induction operations with
  | nil => exact fun _ _ start => ⟨rfl, start⟩
  | cons operation rest ih =>
      intro state state' start
      obtain ⟨reply, next⟩ := preserved operation state state' start
      obtain ⟨others, final⟩ := ih _ _ next
      exact ⟨by simp only [replies, reply, others], final⟩

theorem replies_append (step : ι → σ → ο × σ) (first second : List ι) (state : σ) :
    replies step (first ++ second) state =
      ((replies step first state).1 ++ (replies step second (replies step first state).2).1,
        (replies step second (replies step first state).2).2) := by
  induction first generalizing state with
  | nil => rfl
  | cons operation rest ih => simp only [List.cons_append, replies, ih]

inductive Reaches (step : ι → σ → Except ε σ) (allowed : ι → σ → Prop) (start : σ) : σ → Prop
  | start : Reaches step allowed start start
  | next {operation state state'} : Reaches step allowed start state →
      allowed operation state → step operation state = .ok state' →
      Reaches step allowed start state'

theorem Reaches.invariant {step : ι → σ → Except ε σ} {allowed : ι → σ → Prop}
    {start state : σ} (reached : Reaches step allowed start state) (holds : σ → Prop)
    (initial : holds start)
    (preserved : ∀ operation before after, holds before → allowed operation before →
      step operation before = .ok after → holds after) : holds state := by
  induction reached with
  | start => exact initial
  | next _ admitted stepped ih => exact preserved _ _ _ ih admitted stepped

theorem Reaches.mono {step : ι → σ → Except ε σ} {allowed weaker : ι → σ → Prop} {start state : σ}
    (reached : Reaches step allowed start state)
    (weakens : ∀ operation state, allowed operation state → weaker operation state) :
    Reaches step weaker start state := by
  induction reached with
  | start => exact .start
  | next _ admitted stepped ih => exact .next ih (weakens _ _ admitted) stepped

def execute (step : ι → σ → Except ε σ) : List ι → σ → Except ε σ
  | [], state => .ok state
  | operation :: rest, state =>
      match step operation state with
      | .ok next => execute step rest next
      | .error failure => .error failure

/-- The state after a list of operations, or the start when one of them fails. -/
def outcome (step : ι → σ → Except ε σ) (operations : List ι) (start : σ) : σ :=
  match execute step operations start with
  | .ok final => final
  | .error _ => start

theorem execute_reaches {step : ι → σ → Except ε σ} {allowed : ι → σ → Prop} {start : σ}
    (operations : List ι) : ∀ before after, Reaches step allowed start before →
      (∀ operation ∈ operations, ∀ state, allowed operation state) →
      execute step operations before = .ok after → Reaches step allowed start after := by
  induction operations with
  | nil =>
      intro before after reached _ done
      simp only [execute, Except.ok.injEq] at done
      exact done ▸ reached
  | cons operation rest ih =>
      intro before after reached admitted done
      simp only [execute] at done
      split at done
      · rename_i next stepped
        have first := admitted operation List.mem_cons_self before
        exact ih next after (.next reached first stepped)
          (fun later member => admitted later (List.mem_cons_of_mem _ member)) done
      · cases done

theorem execute_snoc {step : ι → σ → Except ε σ} {operations : List ι} {last : ι}
    {start before after : σ} (ran : execute step operations start = .ok before)
    (stepped : step last before = .ok after) :
    execute step (operations ++ [last]) start = .ok after := by
  induction operations generalizing start with
  | nil =>
      simp only [execute, Except.ok.injEq] at ran
      subst ran
      simp [execute, stepped]
  | cons first rest ih =>
      simp only [execute] at ran
      simp only [List.cons_append, execute]
      split at ran
      · exact ih ran
      · cases ran

section Checked

variable (step : ι → σ → Except ε σ) (allowed : ι → σ → Prop)
  [∀ operation state, Decidable (allowed operation state)]

def admits : List ι → σ → Bool
  | [], _ => true
  | operation :: rest, state =>
      allowed operation state && match step operation state with
        | .ok next => admits rest next
        | .error _ => true

variable {step allowed}

theorem admits_reaches {start : σ} (operations : List ι) :
    ∀ before after, Reaches step allowed start before → admits step allowed operations before = true →
      execute step operations before = .ok after → Reaches step allowed start after := by
  induction operations with
  | nil =>
      intro before after reached _ done
      simp only [execute, Except.ok.injEq] at done
      exact done ▸ reached
  | cons operation rest ih =>
      intro before after reached admitted done
      simp only [admits, Bool.and_eq_true, decide_eq_true_eq] at admitted
      obtain ⟨first, later⟩ := admitted
      cases stepped : step operation before with
      | error failure => simp [execute, stepped] at done
      | ok next =>
          simp only [execute, stepped] at later done
          exact ih next after (.next reached first stepped) later done

theorem outcome_reaches (operations : List ι) (start : σ)
    (admitted : admits step allowed operations start = true)
    (succeeds : (execute step operations start).isOk = true) :
    Reaches step allowed start (outcome step operations start) := by
  cases done : execute step operations start with
  | error failure => simp [done, Except.isOk, Except.toBool] at succeeds
  | ok final =>
      have last : outcome step operations start = final := by simp [outcome, done]
      rw [last]
      exact admits_reaches operations _ _ .start admitted done

end Checked

end Machine

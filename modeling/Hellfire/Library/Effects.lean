import Mathlib.Order.Defs.Unbundled

/-!
What a run of stateful code can do to the state, as a relation between the states before and after it.
A run that fails does nothing.
-/

namespace Effects

section Runs

variable {σ α β : Type} {code : StateT σ Option α} {next : α → StateT σ Option β}

theorem run_bind_some {before after : σ} {value : β}
    (ran : (code >>= next).run before = some (value, after)) :
    ∃ first between, code.run before = some (first, between) ∧
      (next first).run between = some (value, after) := by
  rw [StateT.run_bind] at ran
  obtain ⟨⟨first, between⟩, started, ended⟩ := Option.bind_eq_some_iff.mp ran
  exact ⟨first, between, started, ended⟩

end Runs

section Within

variable {σ α β : Type} {R : σ → σ → Prop}

def Within (R : σ → σ → Prop) (code : StateT σ Option α) : Prop :=
  ∀ before value after, code.run before = some (value, after) → R before after

variable {code : StateT σ Option α} {next : α → StateT σ Option β}

theorem Within.mono {Q : σ → σ → Prop} (within : Within R code)
    (weaker : ∀ before after, R before after → Q before after) : Within Q code :=
  fun before value after ran => weaker before after (within before value after ran)

theorem within_failure : Within R (failure : StateT σ Option α) := by
  intro before value after ran
  exact absurd ran (Option.some_ne_none _).symm

theorem within_ite {condition : Prop} [Decidable condition] {yes no : StateT σ Option α}
    (first : Within R yes) (second : Within R no) : Within R (if condition then yes else no) := by
  split
  · exact first
  · exact second

variable [IsPreorder σ R]

theorem within_pure (value : α) : Within R (pure value : StateT σ Option α) := by
  intro before result after ran
  obtain ⟨-, rfl⟩ := Prod.mk.inj (Option.some.inj ran)
  exact refl_of R before

theorem Within.bind (first : Within R code) (later : ∀ value, Within R (next value)) :
    Within R (code >>= next) := by
  intro before value after ran
  obtain ⟨result, between, started, ended⟩ := run_bind_some ran
  exact trans_of R (first before result between started) (later result between value after ended)

theorem within_get : Within R (get : StateT σ Option σ) := by
  intro before value after ran
  obtain ⟨-, rfl⟩ := Prod.mk.inj (Option.some.inj ran)
  exact refl_of R _

end Within

end Effects

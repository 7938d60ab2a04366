import Mathlib.Order.Basic

/-!
A `while` loop over a state, cut off after a number of turns.
-/

namespace Loops

variable {σ : Type} {guard : σ → Prop} [DecidablePred guard] {body : σ → σ}

def whileLoop (guard : σ → Prop) [DecidablePred guard] (body : σ → σ) : Nat → σ → Option σ
  | 0, state => if guard state then none else some state
  | turns + 1, state => if guard state then whileLoop guard body turns (body state) else some state

theorem whileLoop_exit {state : σ} (stops : ¬guard state) (turns : Nat) :
    whileLoop guard body turns state = some state := by
  cases turns with
  | zero => rw [whileLoop, if_neg stops]
  | succ turns => rw [whileLoop, if_neg stops]

theorem whileLoop_turn {state : σ} (continues : guard state) (turns : Nat) :
    whileLoop guard body (turns + 1) state = whileLoop guard body turns (body state) := by
  rw [whileLoop, if_pos continues]

theorem whileLoop_ends {inv : Nat → σ → Prop}
    (step : ∀ left state, inv left state → guard state → ∃ after < left, inv after (body state)) :
    ∀ {left turns state}, inv left state → left ≤ turns →
      ∃ final after, whileLoop guard body turns state = some final ∧ inv after final ∧ ¬guard final := by
  intro left turns
  induction turns generalizing left with
  | zero =>
      intro state holds enough
      by_cases continues : guard state
      · obtain ⟨after, less, _⟩ := step left state holds continues
        omega
      · exact ⟨state, left, whileLoop_exit continues 0, holds, continues⟩
  | succ turns ih =>
      intro state holds enough
      by_cases continues : guard state
      · obtain ⟨after, less, kept⟩ := step left state holds continues
        rw [whileLoop_turn continues]
        exact ih kept (by omega)
      · exact ⟨state, left, whileLoop_exit continues _, holds, continues⟩

theorem whileLoop_keeps {inv : σ → Prop}
    (step : ∀ state, inv state → guard state → inv (body state)) {turns : Nat} {final : σ} :
    ∀ {state}, inv state → whileLoop guard body turns state = some final →
      inv final ∧ ¬guard final := by
  induction turns with
  | zero =>
      intro state holds ends
      by_cases continues : guard state
      · rw [whileLoop, if_pos continues] at ends
        cases ends
      · rw [whileLoop_exit continues] at ends
        cases ends
        exact ⟨holds, continues⟩
  | succ turns ih =>
      intro state holds ends
      by_cases continues : guard state
      · rw [whileLoop_turn continues] at ends
        exact ih (step state holds continues) ends
      · rw [whileLoop_exit continues] at ends
        cases ends
        exact ⟨holds, continues⟩

theorem whileLoop_diverges (inv : σ → Prop) (runs : ∀ state, inv state → guard state)
    (step : ∀ state, inv state → inv (body state)) :
    ∀ {turns state}, inv state → whileLoop guard body turns state = none := by
  intro turns
  induction turns with
  | zero =>
      intro state holds
      rw [whileLoop, if_pos (runs state holds)]
  | succ turns ih =>
      intro state holds
      rw [whileLoop_turn (runs state holds)]
      exact ih (step state holds)

end Loops

import Mathlib.Algebra.Order.Field.Basic
import Mathlib.Tactic.FieldSimp
import Mathlib.Tactic.Linarith
import Mathlib.Tactic.NormNum
import Mathlib.Tactic.Positivity
import Mathlib.Tactic.Ring

/-!
Heron's iteration for a square root, with steps that are rounded downward. Distances from the root
are factors of it.
-/

namespace Heron

variable {K : Type} [Field K] [LinearOrder K] [IsStrictOrderedRing K]

def step (square guess : K) : K := (guess + square / guess) / 2

structure Rounded (square slack guess after : K) : Prop where
  lower : step square guess - slack ≤ after
  upper : after ≤ step square guess

structure Within (root least most guess : K) : Prop where
  lower : least * root ≤ guess
  upper : guess ≤ most * root

variable {root slack least most bound guess after : K}

theorem root_le_step (positive : 0 < guess) : root ≤ step (root * root) guess := by
  have square := sq_nonneg (guess - root)
  have scaled : guess * (2 * step (root * root) guess) = guess * guess + root * root := by
    unfold step
    field_simp
  nlinarith

theorem add_inv_le {a b : K} (positiveA : 0 < a) (positiveB : 0 < b)
    (sides : (a - b) * (a * b - 1) ≤ 0) : a + 1 / a ≤ b + 1 / b := by
  have difference : a + 1 / a - (b + 1 / b) = (a - b) * (a * b - 1) / (a * b) := by
    field_simp
    ring
  rw [← sub_nonpos, difference]
  exact div_nonpos_of_nonpos_of_nonneg sides (by positivity)

/-- The sum with the inverse is convex, so the ends of an interval bound it. -/
theorem add_inv_le_of_ends {a : K} (leastPositive : 0 < least) (lower : least ≤ a)
    (upper : a ≤ most) (left : least + 1 / least ≤ bound) (right : most + 1 / most ≤ bound) :
    a + 1 / a ≤ bound := by
  have positive : 0 < a := lt_of_lt_of_le leastPositive lower
  have mostPositive : 0 < most := lt_of_lt_of_le positive upper
  by_cases below : a * least ≤ 1
  · refine (add_inv_le positive leastPositive ?_).trans left
    exact mul_nonpos_of_nonneg_of_nonpos (by linarith) (by linarith)
  · refine (add_inv_le positive mostPositive ?_).trans right
    have further : a * least ≤ a * most := mul_le_mul_of_nonneg_left (by linarith) positive.le
    exact mul_nonpos_of_nonpos_of_nonneg (by linarith) (by linarith)

theorem step_le (positive : 0 < root) (leastPositive : 0 < least)
    (within : Within root least most guess) (left : least + 1 / least ≤ 2 * bound)
    (right : most + 1 / most ≤ 2 * bound) : step (root * root) guess ≤ bound * root := by
  have lower : least ≤ guess / root := (le_div_iff₀ positive).mpr within.lower
  have upper : guess / root ≤ most := (div_le_iff₀ positive).mpr within.upper
  have guessPositive : 0 < guess := lt_of_lt_of_le (by positivity) within.lower
  have factor := add_inv_le_of_ends leastPositive lower upper left right
  have scaled : step (root * root) guess = root * (guess / root + 1 / (guess / root)) / 2 := by
    unfold step
    field_simp
  rw [scaled]
  nlinarith

theorem Within.next (within : Within root least most guess)
    (rounded : Rounded (root * root) slack guess after) (positive : 0 < root)
    (leastPositive : 0 < least) (bound loss : K) (left : least + 1 / least ≤ 2 * bound)
    (right : most + 1 / most ≤ 2 * bound) (small : slack ≤ loss * root) :
    Within root (1 - loss) bound after := by
  have guessPositive : 0 < guess := lt_of_lt_of_le (by positivity) within.lower
  constructor
  · have above : root ≤ step (root * root) guess := root_le_step guessPositive
    have := rounded.lower
    linarith
  · exact rounded.upper.trans (step_le positive leastPositive within left right)

section Run

variable {guesses : ℕ → K} (positive : 0 < root) (small : slack ≤ root / 300)
  (rounded : ∀ k, Rounded (root * root) slack (guesses k) (guesses (k + 1)))

include positive small rounded

theorem Within.halved {turns : ℕ} (start : Within root (1 / 2) (2 ^ turns + 1) (guesses 0)) :
    ∀ k, k ≤ turns → Within root (1 / 2) (2 ^ (turns - k) + 1) (guesses k) := by
  intro k
  induction k with
  | zero => exact fun _ => start
  | succ k ih =>
      intro more
      have before := ih (by omega)
      have double : (2 : K) ^ (turns - k) = 2 * 2 ^ (turns - (k + 1)) := by
        rw [← pow_succ']
        congr 1
        omega
      have least : (1 : K) ≤ 2 ^ (turns - (k + 1)) := one_le_pow₀ (by norm_num)
      have inverse : 1 / ((2 : K) ^ (turns - k) + 1) ≤ 1 := by
        rw [div_le_one (by positivity)]
        linarith
      have closer := before.next (rounded k) positive (by norm_num)
        (2 ^ (turns - (k + 1)) + 1) (1 / 300) (by norm_num; linarith) (by linarith) (by linarith)
      have lower := closer.lower
      exact ⟨by nlinarith, closer.upper⟩

theorem Within.near {turns : ℕ} (start : Within root (1 / 2) (2 ^ turns + 1) (guesses 0)) :
    ∀ k, turns + 3 ≤ k → Within root (299 / 300) (1001 / 1000) (guesses k) := by
  have once := (Within.halved positive small rounded start turns le_rfl).next (rounded turns)
    positive (by norm_num) (5 / 4) (1 / 300) (by norm_num) (by norm_num) (by linarith)
  have twice := once.next (rounded (turns + 1)) positive (by norm_num) (41 / 40) (1 / 300)
    (by norm_num) (by norm_num) (by linarith)
  intro k late
  induction k, late using Nat.le_induction with
  | base =>
      have third := twice.next (rounded (turns + 2)) positive (by norm_num) (1001 / 1000) (1 / 300)
        (by norm_num) (by norm_num) (by linarith)
      norm_num at third ⊢
      exact third
  | succ k _ ih =>
      have later := ih.next (rounded k) positive (by norm_num) (1001 / 1000) (1 / 300)
        (by norm_num) (by norm_num) (by linarith)
      norm_num at later ⊢
      exact later

end Run

end Heron

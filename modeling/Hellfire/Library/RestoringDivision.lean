import Mathlib.Algebra.Order.Ring.Nat
import Mathlib.Tactic.Ring

/-!
Restoring division on numbers: the bits of the quotient are decided from the top, and each one that
is set takes the shifted divisor off what is left.
-/

namespace RestoringDivision

variable {total divisor place num res : Nat}

structure Divided (total divisor place num res : Nat) : Prop where
  small : num < divisor * 2 ^ place
  kept : num + res * divisor = total
  decided : 2 ^ place ∣ res

theorem Divided.start (small : total < divisor * 2 ^ place) : Divided total divisor place total 0 :=
  ⟨small, by omega, Nat.dvd_zero _⟩

theorem Divided.skip (divided : Divided total divisor (place + 1) num res)
    (less : num < divisor * 2 ^ place) : Divided total divisor place num res :=
  ⟨less, divided.kept, (pow_dvd_pow 2 (Nat.le_succ place)).trans divided.decided⟩

theorem Divided.take (divided : Divided total divisor (place + 1) num res)
    (enough : divisor * 2 ^ place ≤ num) :
    Divided total divisor place (num - divisor * 2 ^ place) (res + 2 ^ place) := by
  refine ⟨?_, ?_, ?_⟩
  · have small := divided.small
    rw [pow_succ, ← Nat.mul_assoc] at small
    omega
  · have kept := divided.kept
    have spread : (res + 2 ^ place) * divisor = res * divisor + divisor * 2 ^ place := by ring
    rw [spread]
    omega
  · exact Nat.dvd_add ((pow_dvd_pow 2 (Nat.le_succ place)).trans divided.decided) (Nat.dvd_refl _)

theorem Divided.res_le (divided : Divided total divisor place num res) (positive : 0 < divisor) :
    res ≤ total :=
  calc
    res ≤ res * divisor := Nat.le_mul_of_pos_right res positive
    _ ≤ num + res * divisor := Nat.le_add_left _ _
    _ = total := divided.kept

theorem Divided.finish (divided : Divided total divisor 0 num res) :
    res = total / divisor ∧ num = total % divisor := by
  have small : num < divisor := by simpa using divided.small
  rw [← divided.kept]
  constructor
  · rw [Nat.add_mul_div_right _ _ (by omega), Nat.div_eq_of_lt small, Nat.zero_add]
  · rw [Nat.add_mul_mod_self_right, Nat.mod_eq_of_lt small]

theorem or_eq_add (decided : 2 ^ (place + 1) ∣ res) : res ||| 2 ^ place = res + 2 ^ place := by
  obtain ⟨count, rfl⟩ := decided
  exact (Nat.two_pow_add_eq_or_of_lt (Nat.pow_lt_pow_right (by decide) (Nat.lt_succ_self place)) count).symm

end RestoringDivision

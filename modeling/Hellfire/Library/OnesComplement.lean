import Mathlib.Data.Nat.ModEq

/-!
Sums with end-around carry: what is above the base is added at its low end. Folding a sum
keeps it modulo the base less one, and the complement of a folded sum closes it.
-/

namespace OnesComplement

variable {base : Nat}

def fold (base : Nat) : Nat → Nat → Nat
  | 0, sum => sum
  | turns + 1, sum => if sum < base then sum else fold base turns (sum % base + sum / base)

theorem carry_modEq (sum : Nat) : sum % base + sum / base ≡ sum [MOD base - 1] := by
  cases base with
  | zero => simp [Nat.ModEq]
  | succ less =>
      have one : less + 1 ≡ 1 [MOD less] := by
        simp [Nat.ModEq]
      calc sum % (less + 1) + sum / (less + 1)
          = sum % (less + 1) + 1 * (sum / (less + 1)) := by rw [Nat.one_mul]
        _ ≡ sum % (less + 1) + (less + 1) * (sum / (less + 1)) [MOD less] :=
            Nat.ModEq.add_left _ (one.symm.mul_right _)
        _ = sum := Nat.mod_add_div _ _

theorem fold_modEq (turns : Nat) : ∀ sum, fold base turns sum ≡ sum [MOD base - 1] := by
  induction turns with
  | zero => exact fun _ => Nat.ModEq.refl _
  | succ turns ih =>
      intro sum
      rw [fold]
      split
      · exact Nat.ModEq.refl _
      · exact (ih _).trans (carry_modEq sum)

theorem fold_pos (turns : Nat) : ∀ sum, 0 < sum → 0 < fold base turns sum := by
  induction turns with
  | zero => exact fun _ positive => positive
  | succ turns ih =>
      intro sum positive
      rw [fold]
      split
      · exact positive
      · apply ih
        by_contra zero
        obtain ⟨low, high⟩ := Nat.add_eq_zero_iff.mp (Nat.eq_zero_of_not_pos zero)
        have whole := Nat.mod_add_div sum base
        rw [low, high] at whole
        simp only [Nat.mul_zero, Nat.add_zero] at whole
        omega

theorem fold_lt {sum : Nat} (positive : 0 < base) (small : sum < base * base) :
    fold base 2 sum < base := by
  have low := Nat.mod_lt sum positive
  have high : sum / base < base := Nat.div_lt_of_lt_mul small
  rw [fold]
  split
  · assumption
  · rw [fold]
    split
    · assumption
    · rename_i above
      have quotient : (sum % base + sum / base) / base = 1 := by
        apply Nat.div_eq_of_lt_le
        · omega
        · omega
      have remainder := Nat.mod_add_div (sum % base + sum / base) base
      rw [quotient] at remainder
      rw [fold, quotient]
      omega

theorem fold_eq_last_iff {sum : Nat} (wide : 1 < base) (positive : 0 < sum)
    (small : sum < base * base) : fold base 2 sum = base - 1 ↔ base - 1 ∣ sum := by
  have below := fold_lt (show 0 < base by omega) small
  have nonzero := @fold_pos base 2 sum positive
  have same := @fold_modEq base 2 sum
  constructor
  · intro last
    rw [last] at same
    exact (Nat.modEq_zero_iff_dvd.mp (same.symm.trans (by simp [Nat.ModEq])))
  · intro divides
    obtain ⟨times, whole⟩ := Nat.modEq_zero_iff_dvd.mp (same.trans (Nat.modEq_zero_iff_dvd.mpr divides))
    have once : times = 1 := by
      rcases Nat.lt_trichotomy times 1 with none | one | more
      · have empty : times = 0 := by omega
        rw [empty, Nat.mul_zero] at whole
        omega
      · exact one
      · have twice : (base - 1) * 2 ≤ (base - 1) * times := Nat.mul_le_mul_left _ more
        omega
    rw [whole, once, Nat.mul_one]

/-- What makes a folded sum the largest digit, up to the two ways of writing zero. -/
theorem add_dvd_iff {sum digit : Nat} (wide : 1 < base) (positive : 0 < sum)
    (small : sum < base * base) (isDigit : digit < base) (nonzero : 0 < digit) :
    base - 1 ∣ sum + digit ↔
      digit = base - 1 - fold base 2 sum ∨ digit = base - 1 ∧ base - 1 ∣ sum := by
  have below := fold_lt (show 0 < base by omega) small
  have least := @fold_pos base 2 sum positive
  have last := fold_eq_last_iff wide positive small
  have folded : base - 1 ∣ sum + digit ↔ base - 1 ∣ fold base 2 sum + digit := by
    rw [← Nat.modEq_zero_iff_dvd, ← Nat.modEq_zero_iff_dvd]
    have same := Nat.ModEq.add_right digit (@fold_modEq base 2 sum)
    exact ⟨fun zero => same.trans zero, fun zero => same.symm.trans zero⟩
  rw [folded, ← last]
  constructor
  · rintro ⟨times, whole⟩
    rcases Nat.lt_trichotomy times 1 with none | rfl | more
    · obtain rfl : times = 0 := by omega
      omega
    · omega
    · have twice : (base - 1) * 2 ≤ (base - 1) * times := Nat.mul_le_mul_left _ more
      omega
  · rintro (complement | ⟨top, whole⟩)
    · exact ⟨1, by omega⟩
    · exact ⟨2, by omega⟩

theorem fold_add_complement {sum : Nat} (positive : 0 < sum) (wide : 1 < base)
    (small : sum + base ≤ base * base) :
    fold base 2 (sum + (base - 1 - fold base 2 sum)) = base - 1 := by
  have below := fold_lt (show 0 < base by omega) (show sum < base * base by omega)
  rw [fold_eq_last_iff wide (by omega) (by omega), ← Nat.modEq_zero_iff_dvd]
  calc sum + (base - 1 - fold base 2 sum)
      ≡ fold base 2 sum + (base - 1 - fold base 2 sum) [MOD base - 1] :=
        Nat.ModEq.add_right _ (fold_modEq 2 sum).symm
    _ = base - 1 := by omega
    _ ≡ 0 [MOD base - 1] := by simp [Nat.ModEq]

end OnesComplement

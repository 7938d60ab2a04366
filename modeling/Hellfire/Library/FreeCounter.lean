import Mathlib.Algebra.Ring.Nat
import Mathlib.Order.Monotone.Basic

/-!
A free-running counter of `w` bits that is read now and then: what two readings tell about
the time between them.
-/

namespace FreeCounter

structure Counter (w : Nat) where
  start : BitVec w
  time : Nat → Nat
  first : time 0 = 0
  forward : ∀ k, time k ≤ time (k + 1)

namespace Counter

variable {w : Nat} (counter : Counter w)

def position (k : Nat) : Nat := counter.start.toNat + counter.time k

def reading (k : Nat) : BitVec w := BitVec.ofNat w (counter.position k)

/-- How often the counter has wrapped around by a reading. -/
def laps (k : Nat) : Nat := counter.position k / 2 ^ w

def Sampled : Prop := ∀ k, counter.laps (k + 1) ≤ counter.laps k + 1

def everyStep (start : BitVec w) : Counter w where
  start := start
  time := id
  first := rfl
  forward _ := Nat.le_succ _

theorem position_split (k : Nat) :
    2 ^ w * counter.laps k + (counter.reading k).toNat = counter.position k := by
  rw [reading, BitVec.toNat_ofNat]
  exact Nat.div_add_mod _ _

theorem time_mono : Monotone counter.time := monotone_nat_of_le_succ counter.forward

theorem position_mono : Monotone counter.position :=
  fun _ _ before => Nat.add_le_add_left (counter.time_mono before) _

theorem laps_mono : Monotone counter.laps :=
  fun _ _ before => Nat.div_le_div_right (counter.position_mono before)

theorem laps_zero_of {k : Nat} (below : counter.position k < 2 ^ w) : counter.laps k = 0 :=
  Nat.div_eq_of_lt below

@[simp] theorem position_first : counter.position 0 = counter.start.toNat := by
  rw [position, counter.first, Nat.add_zero]

@[simp] theorem laps_first : counter.laps 0 = 0 :=
  counter.laps_zero_of (by rw [position_first]; exact counter.start.isLt)

theorem everyStep_sampled (start : BitVec w) : (everyStep start).Sampled := by
  intro k
  have grows : (everyStep start).position (k + 1) ≤ (everyStep start).position k + 2 ^ w := by
    have one : 1 ≤ 2 ^ w := Nat.one_le_two_pow
    simp only [position, everyStep, id]
    omega
  calc (everyStep start).laps (k + 1) ≤ ((everyStep start).position k + 2 ^ w) / 2 ^ w :=
        Nat.div_le_div_right grows
    _ = (everyStep start).laps k + 1 := Nat.add_div_right _ (Nat.two_pow_pos w)

variable {counter}

theorem laps_lt_of_reading_lt {j k : Nat} (before : j ≤ k)
    (smaller : counter.reading k < counter.reading j) : counter.laps j < counter.laps k := by
  have first := counter.position_split j
  have second := counter.position_split k
  have later := counter.position_mono before
  have less : (counter.reading k).toNat < (counter.reading j).toNat := smaller
  by_contra same
  have equal : counter.laps k = counter.laps j :=
    Nat.le_antisymm (Nat.not_lt.mp same) (counter.laps_mono before)
  rw [equal] at second
  omega

theorem near_iff_of_next_lap {j k : Nat} (next : counter.laps k = counter.laps j + 1) :
    counter.position k < counter.position j + 2 ^ w ↔ counter.reading k < counter.reading j := by
  have first := counter.position_split j
  have second := counter.position_split k
  rw [next, Nat.mul_add, Nat.mul_one] at second
  rw [BitVec.lt_def]
  omega

theorem position_lt_of_same_lap {j k : Nat} (same : counter.laps k = counter.laps j) :
    counter.position k < counter.position j + 2 ^ w := by
  have first := counter.position_split j
  have second := counter.position_split k
  have small := (counter.reading k).isLt
  rw [same] at second
  omega

theorem laps_le_of_near {j k : Nat} (near : counter.position k < counter.position j + 2 ^ w) :
    counter.laps k ≤ counter.laps j + 1 := by
  calc counter.laps k ≤ (counter.position j + 2 ^ w) / 2 ^ w := Nat.div_le_div_right near.le
    _ = counter.laps j + 1 := Nat.add_div_right _ (Nat.two_pow_pos w)

theorem reading_lt_iff {j k : Nat} (before : j ≤ k)
    (near : counter.position k < counter.position j + 2 ^ w) :
    counter.reading k < counter.reading j ↔ counter.laps k = counter.laps j + 1 := by
  constructor
  · intro smaller
    exact Nat.le_antisymm (laps_le_of_near near) (laps_lt_of_reading_lt before smaller)
  · intro next
    exact (near_iff_of_next_lap next).mp near

theorem reading_sub_of_same_lap {j k : Nat} (same : counter.laps k = counter.laps j)
    (before : j ≤ k) : (counter.reading k - counter.reading j).toNat =
      counter.time k - counter.time j := by
  have first := counter.position_split j
  have second := counter.position_split k
  have later := counter.position_mono before
  simp only [position] at first second later
  rw [same] at second
  have order : counter.reading j ≤ counter.reading k := by
    rw [BitVec.le_def]
    omega
  rw [BitVec.toNat_sub_of_le order]
  omega

end Counter

end FreeCounter

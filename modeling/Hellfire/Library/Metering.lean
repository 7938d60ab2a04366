import Mathlib.Algebra.Order.Group.Nat
import Mathlib.Data.List.Count

/-!
A budget that is reloaded every `period` ticks, the first time after an offset of its
own, and how much of it can be used in the windows of `period` ticks that are counted
from the start.
-/

namespace Metering

structure Meter where
  left : Nat
  untilReload : Nat
deriving DecidableEq, Repr

variable {capacity period : Nat}

def Meter.tick (capacity period : Nat) (used : Bool) (meter : Meter) : Meter :=
  if meter.untilReload = 1 then ⟨capacity, period⟩
  else ⟨if used then meter.left - 1 else meter.left, meter.untilReload - 1⟩

inductive Metered (capacity period : Nat) (start : Meter) : List Bool → Meter → Prop
  | start : Metered capacity period start [] start
  | tick {log meter} (used : Bool) : Metered capacity period start log meter →
      (used = true → 0 < meter.left) →
      Metered capacity period start (log ++ [used]) (meter.tick capacity period used)

/-- The uses in the ticks `number * period + 1` to `(number + 1) * period`. -/
def windowUse (period : Nat) (log : List Bool) (number : Nat) : Nat :=
  ((log.drop (number * period)).take period).count true

theorem windowUse_le_period (log : List Bool) (number : Nat) :
    windowUse period log number ≤ period :=
  List.count_le_length.trans (List.length_take_le _ _)

theorem Meter.tick_counting {meter : Meter} (used : Bool) (positive : 0 < period)
    (counting : 0 < meter.untilReload) : 0 < (meter.tick capacity period used).untilReload := by
  by_cases last : meter.untilReload = 1
  · rw [Meter.tick, if_pos last]
    exact positive
  · rw [Meter.tick, if_neg last]
    simp only
    omega

theorem Metered.counting {start meter : Meter} {log : List Bool} (positive : 0 < period)
    (run : Metered capacity period start log meter) (given : 0 < start.untilReload) :
    0 < meter.untilReload := by
  induction run with
  | start => exact given
  | tick used _ _ ih => exact Meter.tick_counting used positive ih

structure Aligned (capacity period : Nat) (log : List Bool) (meter : Meter) : Prop where
  counting : 0 < meter.untilReload
  reload : period ∣ log.length + meter.untilReload
  spent : ∃ since ≤ log.length, period ∣ since ∧
    (log.drop since).count true + meter.left ≤ capacity

theorem Aligned.tick {log : List Bool} {meter : Meter} {used : Bool} (positive : 0 < period)
    (aligned : Aligned capacity period log meter) (pending : used = true → 0 < meter.left) :
    Aligned capacity period (log ++ [used]) (meter.tick capacity period used) := by
  have counting := aligned.counting
  have reload := aligned.reload
  by_cases last : meter.untilReload = 1
  · rw [last] at reload
    rw [Meter.tick, if_pos last]
    refine ⟨positive, ?_, log.length + 1, by simp, reload, ?_⟩
    · rw [List.length_append, List.length_singleton]
      exact Nat.dvd_add reload (Nat.dvd_refl period)
    · rw [List.drop_of_length_le (by simp)]
      simp
  · rw [Meter.tick, if_neg last]
    obtain ⟨since, old, whole, spent⟩ := aligned.spent
    refine ⟨by simp only; omega, ?_, since, by simp; omega, whole, ?_⟩
    · rw [List.length_append, List.length_singleton]
      have same : log.length + 1 + (meter.untilReload - 1) = log.length + meter.untilReload := by
        omega
      rwa [same]
    · rw [List.drop_append_of_le_length old, List.count_append]
      cases used with
      | false => simpa using spent
      | true =>
          have one := pending rfl
          simp only [List.count_singleton_self, if_true]
          omega

theorem Aligned.window {log : List Bool} {meter : Meter} {used : Bool}
    (aligned : Aligned capacity period log meter) (pending : used = true → 0 < meter.left)
    (number : Nat) (bounded : windowUse period log number ≤ capacity) :
    windowUse period (log ++ [used]) number ≤ capacity := by
  unfold windowUse at bounded ⊢
  rcases Nat.lt_or_ge log.length (number * period) with before | begun
  · rw [List.drop_of_length_le (by simp; omega)]
    simp
  · obtain ⟨since, old, ⟨reloads, whole⟩, spent⟩ := aligned.spent
    rw [List.drop_append_of_le_length begun]
    by_cases complete : period ≤ (log.drop (number * period)).length
    · rw [List.take_append_of_le_length complete]
      exact bounded
    · rw [List.length_drop] at complete
      -- The window is the current one, and it began at the last reload or later.
      have later : since ≤ number * period := by
        rw [whole, Nat.mul_comm number]
        refine Nat.mul_le_mul_left period (Nat.le_of_lt_succ ?_)
        refine Nat.lt_of_mul_lt_mul_left (a := period) ?_
        rw [← whole, Nat.mul_succ, Nat.mul_comm period]
        omega
      have inside : ((log.drop (number * period)).count true) ≤ (log.drop since).count true :=
        (List.drop_sublist_drop_left log later).count_le true
      have taken : ((log.drop (number * period) ++ [used]).take period).count true ≤
          (log.drop (number * period)).count true + [used].count true := by
        rw [← List.count_append]
        exact (List.take_sublist _ _).count_le true
      cases used with
      | false =>
          have none : [false].count true = 0 := rfl
          omega
      | true =>
          have one : [true].count true = 1 := rfl
          have pending := pending rfl
          omega

theorem Metered.window_le {offset : Nat} {log : List Bool} {meter : Meter}
    (run : Metered capacity period ⟨capacity, offset⟩ log meter) (positive : 0 < period)
    (given : 0 < offset) (whole : period ∣ offset) (number : Nat) :
    windowUse period log number ≤ capacity := by
  have kept : Aligned capacity period log meter ∧ windowUse period log number ≤ capacity := by
    induction run with
    | start =>
        refine ⟨⟨given, by simpa using whole, 0, Nat.le_refl _, Nat.dvd_zero _, ?_⟩, ?_⟩
        · simp
        · simp [windowUse]
    | tick used _ pending ih =>
        exact ⟨ih.1.tick positive pending, ih.1.window pending number ih.2⟩
  exact kept.2

def drained (capacity period : Nat) (ready : Bool) : Nat → Meter → List Bool
  | 0, _ => []
  | ticks + 1, meter =>
      let used := ready && decide (0 < meter.left)
      used :: drained capacity period ready ticks (meter.tick capacity period used)

def leftOver (capacity period : Nat) (ready : Bool) : Nat → Meter → Meter
  | 0, meter => meter
  | ticks + 1, meter => leftOver capacity period ready ticks
      (meter.tick capacity period (ready && decide (0 < meter.left)))

theorem drained_length (ready : Bool) (ticks : Nat) : ∀ meter,
    (drained capacity period ready ticks meter).length = ticks := by
  induction ticks with
  | zero => exact fun _ => rfl
  | succ ticks ih => exact fun meter => by rw [drained, List.length_cons, ih]

theorem leftOver_idle (ticks : Nat) : ∀ meter, ticks < meter.untilReload →
    leftOver capacity period false ticks meter = ⟨meter.left, meter.untilReload - ticks⟩ := by
  induction ticks with
  | zero => exact fun _ _ => rfl
  | succ ticks ih =>
      intro meter short
      have more : meter.untilReload ≠ 1 := by omega
      rw [leftOver, Bool.false_and, Meter.tick, if_neg more, ih _ (by simp only; omega)]
      simp only [Bool.false_eq_true, if_false, Meter.mk.injEq, true_and]
      omega

theorem drained_count (ticks : Nat) : ∀ meter, ticks ≤ meter.untilReload →
    (drained capacity period true ticks meter).count true = min ticks meter.left := by
  induction ticks with
  | zero => simp [drained]
  | succ ticks ih =>
      intro meter short
      rw [drained, Bool.true_and, List.count_cons]
      by_cases last : meter.untilReload = 1
      · have once : ticks = 0 := by omega
        subst once
        by_cases some_left : 0 < meter.left
        · simp only [drained, some_left, decide_true, List.count_nil, beq_self_eq_true, if_true]
          omega
        · have empty : meter.left = 0 := by omega
          simp [drained, empty]
      · have rest := ih (meter.tick capacity period (0 < meter.left)) (by
          simp only [Meter.tick, if_neg last]
          omega)
        rw [rest, Meter.tick, if_neg last]
        by_cases some_left : 0 < meter.left
        · simp only [some_left, decide_true, if_true, beq_self_eq_true]
          omega
        · have empty : meter.left = 0 := by omega
          simp [empty]

theorem drained_reload (ready : Bool) (ticks : Nat) : ∀ meter, 0 < meter.untilReload →
    drained capacity period ready (meter.untilReload + ticks) meter =
      drained capacity period ready meter.untilReload meter ++
        drained capacity period ready ticks ⟨capacity, period⟩ := by
  suffices general : ∀ count meter, meter.untilReload = count + 1 →
      drained capacity period ready (count + 1 + ticks) meter =
        drained capacity period ready (count + 1) meter ++
          drained capacity period ready ticks ⟨capacity, period⟩ by
    intro meter counting
    obtain ⟨count, same⟩ : ∃ count, meter.untilReload = count + 1 :=
      ⟨meter.untilReload - 1, by omega⟩
    rw [same]
    exact general count meter same
  intro count
  induction count with
  | zero =>
      intro meter same
      have last : meter.untilReload = 1 := by omega
      rw [Nat.add_right_comm, drained, drained, drained, Meter.tick, if_pos last, Nat.zero_add,
        List.singleton_append]
  | succ count ih =>
      intro meter same
      have more : meter.untilReload ≠ 1 := by omega
      rw [Nat.add_right_comm, drained, drained, List.cons_append, ← ih]
      simp only [Meter.tick, if_neg more]
      omega

theorem drained_overruns {offset : Nat} (some_budget : 0 < capacity) (below : capacity < period)
    (inside : 0 < offset) (early : offset < period) :
    capacity < (drained capacity period true period ⟨capacity, offset⟩).count true := by
  obtain ⟨rest, whole⟩ := Nat.exists_eq_add_of_lt early
  have split : drained capacity period true period ⟨capacity, offset⟩ =
      drained capacity period true offset ⟨capacity, offset⟩ ++
        drained capacity period true (rest + 1) ⟨capacity, period⟩ := by
    rw [← drained_reload true (rest + 1) ⟨capacity, offset⟩ inside]
    simp only
    congr 1
  have tail : rest + 1 ≤ period := by omega
  rw [split, List.count_append, drained_count offset _ (Nat.le_refl _),
    drained_count (rest + 1) _ tail]
  simp only
  omega

end Metering

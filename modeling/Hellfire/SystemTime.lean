import Hellfire.HalCore

/-!
The system time over any number of calls of `_read_us`: it follows the counter as long as no
wrap-around falls between the reading that a call compares and its last one.
-/

namespace Hellfire.HfRiscv

open FreeCounter

def after (speed : Speed) (counter : Counter 32) : Nat → TimeState
  | 0 => .initial
  | calls + 1 => (readUs speed counter (after speed counter calls)).2

/-- What the call returns that follows the given number of calls. -/
def returned (speed : Speed) (counter : Counter 32) (calls : Nat) : Dword :=
  (readUs speed counter (after speed counter calls)).1

/-- The call finds that the counter is below `tref`, and increments the upper word. -/
def TimeState.increments (counter : Counter 32) (state : TimeState) : Bool :=
  readcounter counter state.compared < state.tref

def increments (speed : Speed) (counter : Counter 32) : Nat → Nat
  | 0 => 0
  | calls + 1 =>
      increments speed counter calls + if (after speed counter calls).increments counter then 1 else 0

structure Follows (speed : Speed) (counter : Counter 32) (calls : Nat) : Prop where
  ordered : ∀ j, j + 1 < calls → returned speed counter j ≤ returned speed counter (j + 1)
  counted : ∀ j < calls,
    increments speed counter (j + 1) = counter.laps ((after speed counter (j + 1)).reads - 1)

/-- No wrap-around falls between the reading that a call compares and its last one, and the
compared one is near the reading that the call before has kept; the first call has kept none. -/
structure Clean (counter : Counter 32) (state : TimeState) : Prop where
  whole : counter.laps (state.compared + 2) = counter.laps state.compared
  first : state.reads = 0 → counter.laps state.compared = 0
  near : state.reads ≠ 0 →
    counter.position state.compared < counter.position (state.reads - 2) + 2 ^ 32

/-- The counter wraps around at most once from the end of a call to the end of the next. -/
def WrapsOnce (speed : Speed) (counter : Counter 32) : Prop :=
  ∀ calls, counter.laps ((after speed counter (calls + 1)).reads - 1) ≤
    counter.laps ((after speed counter calls).reads - 1) + 1

variable {speed : Speed} {counter : Counter 32}

theorem reads_le_compared (state : TimeState) : state.reads ≤ state.compared := by
  rw [TimeState.compared]
  split
  · exact Nat.le_succ _
  · exact Nat.le_refl _

theorem after_tval2 (calls : Nat) : (after speed counter calls).tval2 =
    BitVec.ofNat 32 (increments speed counter calls) := by
  induction calls with
  | zero => rfl
  | succ calls ih =>
      rw [after, increments, readUs]
      simp only [TimeState.increments, decide_eq_true_eq]
      split
      · rw [ih, BitVec.ofNat_add]
        rfl
      · rw [ih, Nat.add_zero]

theorem after_tref (calls : Nat) : (after speed counter (calls + 1)).tref =
    counter.reading ((after speed counter (calls + 1)).reads - 2) := rfl

theorem returned_toNat (speed : Speed) (counter : Counter 32) (calls : Nat) :
    (returned speed counter calls).toNat =
      (2 ^ 32 * (increments speed counter (calls + 1) % 2 ^ 32) +
        (counter.reading ((after speed counter (calls + 1)).reads - 1)).toNat) /
          (speed.cycles / 1000000) := by
  have upper : (after speed counter (calls + 1)).tval2 =
      BitVec.ofNat 32 (increments speed counter (calls + 1)) := after_tval2 (calls + 1)
  have representable := speed.representable
  have unit := Nat.div_le_self speed.cycles 1000000
  have low := (counter.reading ((after speed counter (calls + 1)).reads - 1)).isLt
  have high : increments speed counter (calls + 1) % 2 ^ 32 < 2 ^ 32 := Nat.mod_lt _ (by decide)
  have value : returned speed counter calls =
      (((after speed counter (calls + 1)).tval2.setWidth 64 <<< 32) +
        (counter.reading ((after speed counter (calls + 1)).reads - 1)).setWidth 64) /
          BitVec.ofNat 64 (speed.cycles / 1000000) := rfl
  rw [value, upper]
  simp only [BitVec.toNat_udiv, BitVec.toNat_add, BitVec.toNat_shiftLeft, BitVec.toNat_setWidth,
    BitVec.toNat_ofNat, Nat.shiftLeft_eq]
  congr 1
  · omega
  · omega

structure Kept (speed : Speed) (counter : Counter 32) (calls : Nat) : Prop where
  counted : increments speed counter calls = counter.laps ((after speed counter calls).reads - 1)
  kept : counter.laps ((after speed counter calls).reads - 2) =
    counter.laps ((after speed counter calls).reads - 1)

theorem kept_initial (speed : Speed) (counter : Counter 32) : Kept speed counter 0 :=
  ⟨(Counter.laps_first counter).symm, rfl⟩

theorem first_call_keeps_upper (speed : Speed) (counter : Counter 32) :
    (after speed counter 0).increments counter = false :=
  decide_eq_false (Nat.not_lt_zero _)

theorem reads_ne_zero (calls : Nat) : (after speed counter (calls + 1)).reads ≠ 0 :=
  Nat.succ_ne_zero _

theorem increments_iff (calls : Nat) :
    (after speed counter (calls + 1)).increments counter = true ↔
      counter.reading (after speed counter (calls + 1)).compared <
        counter.reading ((after speed counter (calls + 1)).reads - 2) := by
  rw [← after_tref]
  exact decide_eq_true_iff

theorem kept_before_compared (state : TimeState) : state.reads - 2 ≤ state.compared :=
  (Nat.sub_le _ _).trans (reads_le_compared state)

theorem Kept.next {calls : Nat} (kept : Kept speed counter calls)
    (clean : Clean counter (after speed counter calls)) : Kept speed counter (calls + 1) := by
  refine ⟨?_, ?_⟩
  · have last : (after speed counter (calls + 1)).reads - 1 =
        (after speed counter calls).compared + 2 := rfl
    rw [last, clean.whole, increments, kept.counted, ← kept.kept]
    cases calls with
    | zero =>
        rw [clean.first rfl, first_call_keeps_upper]
        exact Counter.laps_first counter
    | succ calls =>
        have near := clean.near (reads_ne_zero calls)
        have before := kept_before_compared (after speed counter (calls + 1))
        have lap := Counter.reading_lt_iff before near
        rw [← increments_iff] at lap
        by_cases wrapped : (after speed counter (calls + 1)).increments counter = true
        · rw [if_pos wrapped, lap.mp wrapped]
        · rw [if_neg wrapped]
          have limit := Counter.laps_le_of_near near
          have grows := counter.laps_mono before
          have other : ¬counter.laps (after speed counter (calls + 1)).compared =
              counter.laps ((after speed counter (calls + 1)).reads - 2) + 1 :=
            fun next => wrapped (lap.mpr next)
          omega
  · exact Nat.le_antisymm (counter.laps_mono (Nat.le_succ _))
      (clean.whole.le.trans (counter.laps_mono (Nat.le_succ _)))

theorem Kept.clean {calls : Nat} (kept : Kept speed counter calls)
    (counted : increments speed counter (calls + 1) =
      counter.laps ((after speed counter (calls + 1)).reads - 1)) :
    Clean counter (after speed counter calls) := by
  have last : (after speed counter (calls + 1)).reads - 1 =
      (after speed counter calls).compared + 2 := rfl
  rw [last, increments, kept.counted, ← kept.kept] at counted
  have within := counter.laps_mono (Nat.le_add_right (after speed counter calls).compared 2)
  have before := kept_before_compared (after speed counter calls)
  have grows := counter.laps_mono before
  cases calls with
  | zero =>
      rw [first_call_keeps_upper] at counted
      have none : counter.laps ((after speed counter 0).compared + 2) = 0 :=
        counted.symm.trans (Counter.laps_first counter)
      rw [none] at within
      exact ⟨none.trans (Nat.le_zero.mp within).symm, fun _ => Nat.le_zero.mp within,
        fun called => absurd rfl called⟩
  | succ calls =>
      by_cases wrapped : (after speed counter (calls + 1)).increments counter = true
      · rw [if_pos wrapped] at counted
        have smaller := (increments_iff calls).mp wrapped
        have later := Counter.laps_lt_of_reading_lt before smaller
        have next : counter.laps (after speed counter (calls + 1)).compared =
            counter.laps ((after speed counter (calls + 1)).reads - 2) + 1 := by omega
        exact ⟨by omega, fun none => absurd none (reads_ne_zero calls),
          fun _ => (Counter.near_iff_of_next_lap next).mpr smaller⟩
      · rw [if_neg wrapped] at counted
        exact ⟨by omega, fun none => absurd none (reads_ne_zero calls),
          fun _ => Counter.position_lt_of_same_lap (by omega)⟩

theorem kept_of_clean {calls : Nat} (clean : ∀ j < calls, Clean counter (after speed counter j)) :
    Kept speed counter calls := by
  induction calls with
  | zero => exact kept_initial speed counter
  | succ calls ih =>
      have before := ih fun j earlier => clean j (Nat.lt_succ_of_lt earlier)
      exact before.next (clean calls (Nat.lt_succ_self calls))

theorem clean_of_counted {calls : Nat}
    (counted : ∀ j < calls, increments speed counter (j + 1) =
      counter.laps ((after speed counter (j + 1)).reads - 1)) :
    ∀ j < calls, Clean counter (after speed counter j) := by
  induction calls with
  | zero => exact fun j none => absurd none (Nat.not_lt_zero j)
  | succ calls ih =>
      have earlier := ih fun j before => counted j (Nat.lt_succ_of_lt before)
      intro j within
      rcases Nat.lt_succ_iff_lt_or_eq.mp within with before | rfl
      · exact earlier j before
      · exact (kept_of_clean earlier).clean (counted j within)

theorem returned_of_kept {calls : Nat} (kept : Kept speed counter (calls + 1))
    (small : counter.laps ((after speed counter (calls + 1)).reads - 1) < 2 ^ 32) :
    (returned speed counter calls).toNat =
      counter.position ((after speed counter (calls + 1)).reads - 1) / (speed.cycles / 1000000) := by
  rw [returned_toNat, kept.counted, Nat.mod_eq_of_lt small, counter.position_split]

theorem overflow_runs_back {calls : Nat} (first : Kept speed counter (calls + 1))
    (second : Kept speed counter (calls + 2))
    (ordered : returned speed counter calls ≤ returned speed counter (calls + 1))
    (small : counter.laps ((after speed counter (calls + 1)).reads - 1) < 2 ^ 32) :
    counter.laps ((after speed counter (calls + 2)).reads - 1) < 2 ^ 32 := by
  by_contra large
  have fast := speed.fast
  have representable := speed.representable
  have unit := Nat.div_le_self speed.cycles 1000000
  have step : increments speed counter (calls + 2) ≤ increments speed counter (calls + 1) + 1 := by
    rw [increments]
    split <;> omega
  have lap := first.counted
  have next := second.counted
  have last : increments speed counter (calls + 2) = 2 ^ 32 := by omega
  have low := (counter.reading ((after speed counter (calls + 2)).reads - 1)).isLt
  have split := counter.position_split ((after speed counter (calls + 1)).reads - 1)
  have quotients : counter.position ((after speed counter (calls + 1)).reads - 1) /
      (speed.cycles / 1000000) ≤
        (counter.reading ((after speed counter (calls + 2)).reads - 1)).toNat /
          (speed.cycles / 1000000) := by
    have values := BitVec.le_def.mp ordered
    rw [returned_of_kept first small, returned_toNat, last, Nat.mod_self, Nat.mul_zero,
      Nat.zero_add] at values
    exact values
  -- The time before the overflow is close to `2 ^ 64`, and the time after it is below `2 ^ 32`.
  have bound : counter.position ((after speed counter (calls + 1)).reads - 1) <
      (counter.reading ((after speed counter (calls + 2)).reads - 1)).toNat +
        speed.cycles / 1000000 := by
    have positive : 0 < speed.cycles / 1000000 := by omega
    have above := Nat.lt_mul_div_succ
      (counter.position ((after speed counter (calls + 1)).reads - 1)) positive
    have below := Nat.mul_div_le
      (counter.reading ((after speed counter (calls + 2)).reads - 1)).toNat (speed.cycles / 1000000)
    have scaled := Nat.mul_le_mul_left (speed.cycles / 1000000) quotients
    rw [Nat.mul_add, Nat.mul_one] at above
    omega
  omega

/-- The time follows the counter in a number of calls when all of them are clean and the
upper word does not overflow, and only then. -/
theorem readUs_follows_iff (speed : Speed) (counter : Counter 32) (calls : Nat) :
    Follows speed counter calls ↔ ∀ j < calls, Clean counter (after speed counter j) ∧
      counter.laps ((after speed counter (j + 1)).reads - 1) < 2 ^ 32 := by
  constructor
  · intro follows
    have clean := clean_of_counted follows.counted
    have kept : ∀ j ≤ calls, Kept speed counter j := fun j within =>
      kept_of_clean fun i before => clean i (by omega)
    intro j within
    refine ⟨clean j within, ?_⟩
    induction j with
    | zero =>
        have none : increments speed counter 1 = 0 := by
          rw [increments, first_call_keeps_upper]
          rfl
        rw [← (kept 1 within).counted, none]
        decide
    | succ j ih =>
        exact overflow_runs_back (kept (j + 1) (by omega)) (kept (j + 2) within)
          (follows.ordered j within) (ih (by omega))
  · intro conditions
    have kept : ∀ j ≤ calls, Kept speed counter j := fun j within =>
      kept_of_clean fun i before => (conditions i (by omega)).1
    refine ⟨fun j within => ?_, fun j within => (kept (j + 1) within).counted⟩
    rw [BitVec.le_def, returned_of_kept (kept (j + 1) (by omega)) (conditions j (by omega)).2,
      returned_of_kept (kept (j + 2) within) (conditions (j + 1) within).2]
    refine Nat.div_le_div_right (counter.position_mono ?_)
    have later := reads_le_compared (after speed counter (j + 1))
    have reads : (after speed counter (j + 1 + 1)).reads =
        (after speed counter (j + 1)).compared + 3 := rfl
    omega

theorem everyStep_wrapsOnce (speed : Speed) (start : Word) :
    WrapsOnce speed (Counter.everyStep start) := by
  intro calls
  refine Counter.laps_le_of_near ?_
  have few : (after speed (Counter.everyStep start) calls).compared ≤
      (after speed (Counter.everyStep start) calls).reads + 1 := by
    rw [TimeState.compared]
    split
    · exact Nat.le_refl _
    · exact Nat.le_succ _
  have reads : (after speed (Counter.everyStep start) (calls + 1)).reads =
      (after speed (Counter.everyStep start) calls).compared + 3 := rfl
  simp only [Counter.position, Counter.everyStep, id] at few reads ⊢
  omega

/-- The counter is read at each of its steps and wraps around in the second call, after the
reading that is compared: the second time is 0. -/
theorem readUs_runs_back : ¬∀ (speed : Speed) (counter : Counter 32) (calls : Nat),
    WrapsOnce speed counter → Follows speed counter calls := by
  intro all
  have follows := all ⟨25000000, by decide, by decide⟩
    (Counter.everyStep (BitVec.ofNat 32 (2 ^ 32 - 5))) 2 (everyStep_wrapsOnce _ _)
  exact absurd (follows.ordered 0 (by decide)) (by decide)

end Hellfire.HfRiscv

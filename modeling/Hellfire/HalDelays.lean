import Hellfire.HalCore

/-!
How long the delays wait. Without a wrap-around the loop counts every cycle; at a wrap-around
it adds `CPU_SPEED` where `2 ^ 32` belongs, and the delay is too short.
-/

namespace Hellfire.HfRiscv

open Loops FreeCounter

def Waits (run : Counter 32 → Word → Nat → Option DelayState) (cyclesPerUnit : Nat) (start : Word)
    (units : Word) : Prop :=
  ∀ counter : Counter 32, counter.start = start → counter.Sampled →
    ∀ turns final, run counter units turns = some final →
      units.toNat * cyclesPerUnit ≤ counter.time (final.reads - 1)

namespace DelayState

variable {speed : Speed} {counter : Counter 32} {cyclesPerUnit units : Word} {state : DelayState}

def counted (cyclesPerUnit : Word) (state : DelayState) : Nat :=
  state.passed.toNat * cyclesPerUnit.toNat + state.delta.toNat

structure Running (cyclesPerUnit : Word) (counter : Counter 32) (state : DelayState) : Prop where
  read : 1 ≤ state.reads
  last : state.last = counter.reading (state.reads - 1)
  rest : state.delta < cyclesPerUnit

/-- A `delta` below a unit is its own remainder, so both branches of the turn compute this. -/
theorem turn_eq : turn speed cyclesPerUnit counter state =
    { last := counter.reading state.reads
      delta := (state.delta + elapsed speed (counter.reading state.reads) state.last) % cyclesPerUnit
      passed := state.passed +
        (state.delta + elapsed speed (counter.reading state.reads) state.last) / cyclesPerUnit
      reads := state.reads + 1 } := by
  unfold turn
  simp only
  split
  · rfl
  · rename_i short
    have below : state.delta + elapsed speed (counter.reading state.reads) state.last <
        cyclesPerUnit := BitVec.not_le.mp short
    have quotient : (state.delta + elapsed speed (counter.reading state.reads) state.last) /
        cyclesPerUnit = 0 := BitVec.udiv_eq_zero_iff_eq_zero_or_lt.mpr (.inr below)
    have kept : state.passed + 0 = state.passed := BitVec.add_zero _
    rw [quotient, BitVec.umod_eq_of_lt below, kept]

theorem Running.unit (running : Running cyclesPerUnit counter state) : 0 < cyclesPerUnit.toNat :=
  Nat.lt_of_le_of_lt (Nat.zero_le _) (BitVec.lt_def.mp running.rest)

theorem Running.turn (running : Running cyclesPerUnit counter state) :
    Running cyclesPerUnit counter (turn speed cyclesPerUnit counter state) := by
  rw [turn_eq]
  exact ⟨Nat.le_add_left 1 _, rfl, BitVec.umod_lt _ (BitVec.lt_def.mpr running.unit)⟩

theorem turn_counts {gain : Nat}
    (gained : (elapsed speed (counter.reading state.reads) state.last).toNat = gain)
    (small : state.delta.toNat + gain < 2 ^ 32)
    (room : state.passed.toNat + (state.delta.toNat + gain) / cyclesPerUnit.toNat < 2 ^ 32) :
    (turn speed cyclesPerUnit counter state).counted cyclesPerUnit =
      state.counted cyclesPerUnit + gain := by
  have whole : (state.delta + elapsed speed (counter.reading state.reads) state.last).toNat =
      state.delta.toNat + gain := by
    rw [BitVec.toNat_add, gained, Nat.mod_eq_of_lt small]
  rw [turn_eq, counted, counted]
  simp only [BitVec.toNat_add, BitVec.toNat_udiv, BitVec.toNat_umod] at whole ⊢
  rw [whole, Nat.mod_eq_of_lt room, Nat.add_mul, Nat.add_assoc, Nat.mul_comm (_ / _),
    Nat.div_add_mod, Nat.add_assoc]

structure Exact (cyclesPerUnit : Word) (counter : Counter 32) (state : DelayState) : Prop
    extends Running cyclesPerUnit counter state where
  exact : counter.position (state.reads - 1) < 2 ^ 32 →
    state.counted cyclesPerUnit = counter.time (state.reads - 1)

theorem elapsed_same_lap {j k : Nat} (before : j ≤ k) (same : counter.laps k = counter.laps j) :
    (elapsed speed (counter.reading k) (counter.reading j)).toNat =
      counter.time k - counter.time j := by
  have forward : ¬counter.reading k < counter.reading j := fun smaller =>
    absurd (Counter.laps_lt_of_reading_lt before smaller) (by omega)
  rw [elapsed, if_neg forward, Counter.reading_sub_of_same_lap same before]

theorem Exact.turn (exact : Exact cyclesPerUnit counter state) :
    Exact cyclesPerUnit counter (turn speed cyclesPerUnit counter state) := by
  refine ⟨exact.toRunning.turn, ?_⟩
  have read := exact.read
  have reads : (DelayState.turn speed cyclesPerUnit counter state).reads - 1 = state.reads := by
    rw [turn_eq]
    rfl
  rw [reads]
  intro below
  have before : counter.time (state.reads - 1) ≤ counter.time state.reads :=
    counter.time_mono (Nat.sub_le _ _)
  have below_now := below
  simp only [Counter.position] at below_now
  have below_then : counter.position (state.reads - 1) < 2 ^ 32 :=
    Nat.lt_of_le_of_lt (counter.position_mono (Nat.sub_le _ _)) below
  have same : counter.laps state.reads = counter.laps (state.reads - 1) := by
    rw [counter.laps_zero_of below, counter.laps_zero_of below_then]
  have counted_then := exact.exact below_then
  have gained : (elapsed speed (counter.reading state.reads) (counter.reading (state.reads - 1))).toNat =
      counter.time state.reads - counter.time (state.reads - 1) :=
    elapsed_same_lap (Nat.sub_le state.reads 1) same
  rw [← exact.last] at gained
  have passed : state.passed.toNat ≤ state.passed.toNat * cyclesPerUnit.toNat :=
    Nat.le_mul_of_pos_right _ exact.unit
  have sum := counted_then
  rw [counted] at sum
  rw [turn_counts gained (by omega) ?_, counted_then]
  · omega
  · have quotient := Nat.div_le_self
      (state.delta.toNat + (counter.time state.reads - counter.time (state.reads - 1)))
      cyclesPerUnit.toNat
    omega

theorem elapsed_everyStep (speed : Speed) (start : Word) (k : Nat) :
    (elapsed speed ((Counter.everyStep start).reading (k + 1))
        ((Counter.everyStep start).reading k)).toNat + speed.cycles * (Counter.everyStep start).laps k =
      1 + speed.cycles * (Counter.everyStep start).laps (k + 1) := by
  have representable := speed.representable
  have next : (Counter.everyStep start).position (k + 1) =
      (Counter.everyStep start).position k + 1 := rfl
  have before := (Counter.everyStep start).position_split k
  have after := (Counter.everyStep start).position_split (k + 1)
  have small := ((Counter.everyStep start).reading (k + 1)).isLt
  have small_then := ((Counter.everyStep start).reading k).isLt
  rw [next] at after
  by_cases same : (Counter.everyStep start).laps (k + 1) = (Counter.everyStep start).laps k
  · rw [elapsed_same_lap (Nat.le_succ k) same, same]
    simp only [Counter.everyStep, id]
    omega
  · have wrapped : (Counter.everyStep start).laps (k + 1) = (Counter.everyStep start).laps k + 1 := by
      have limit := Counter.everyStep_sampled start k
      have grows := (Counter.everyStep start).laps_mono (Nat.le_succ k)
      omega
    rw [wrapped] at after ⊢
    have last : ((Counter.everyStep start).reading k).toNat = 2 ^ 32 - 1 := by omega
    have first : ((Counter.everyStep start).reading (k + 1)).toNat = 0 := by omega
    have smaller : (Counter.everyStep start).reading (k + 1) < (Counter.everyStep start).reading k := by
      rw [BitVec.lt_def, last, first]
      decide
    have gained : (elapsed speed ((Counter.everyStep start).reading (k + 1))
        ((Counter.everyStep start).reading k)).toNat = speed.cycles + 1 := by
      rw [elapsed, if_pos smaller, BitVec.toNat_add, BitVec.toNat_sub, BitVec.toNat_ofNat, last, first]
      omega
    rw [gained, Nat.mul_add, Nat.mul_one]
    omega

structure Ahead (speed : Speed) (cyclesPerUnit units start : Word) (left : Nat)
    (state : DelayState) : Prop extends Running cyclesPerUnit (Counter.everyStep start) state where
  early : state.reads - 1 + left = units.toNat * cyclesPerUnit.toNat
  unfinished : 0 < left
  ahead : state.counted cyclesPerUnit =
    state.reads - 1 + speed.cycles * (Counter.everyStep start).laps (state.reads - 1)

theorem Ahead.continues {start : Word} {left : Nat}
    (ahead : Ahead speed cyclesPerUnit units start left state)
    (crosses : 2 ^ 32 < start.toNat + units.toNat * cyclesPerUnit.toNat)
    (goes : state.passed < units) : 1 < left := by
  have early := ahead.early
  have counted := ahead.ahead
  have short : state.counted cyclesPerUnit < units.toNat * cyclesPerUnit.toNat := by
    have next : (state.passed.toNat + 1) * cyclesPerUnit.toNat ≤ units.toNat * cyclesPerUnit.toNat :=
      Nat.mul_le_mul_right _ goes
    have rest := BitVec.lt_def.mp ahead.rest
    rw [Nat.add_mul, Nat.one_mul] at next
    rw [DelayState.counted]
    omega
  by_cases none : (Counter.everyStep start).laps (state.reads - 1) = 0
  · have below : start.toNat + (state.reads - 1) < 2 ^ 32 :=
      Nat.lt_of_div_eq_zero (Nat.two_pow_pos 32) none
    omega
  · have fast := speed.fast
    have gain : speed.cycles ≤ speed.cycles * (Counter.everyStep start).laps (state.reads - 1) :=
      Nat.le_mul_of_pos_right _ (Nat.pos_of_ne_zero none)
    omega

theorem Ahead.turn {start : Word} {left : Nat}
    (ahead : Ahead speed cyclesPerUnit units start left state)
    (short : cyclesPerUnit.toNat ≤ speed.cycles)
    (room : units.toNat + speed.cycles / cyclesPerUnit.toNat < 2 ^ 32)
    (crosses : 2 ^ 32 < start.toNat + units.toNat * cyclesPerUnit.toNat)
    (goes : state.passed < units) :
    Ahead speed cyclesPerUnit units start (left - 1)
      (DelayState.turn speed cyclesPerUnit (Counter.everyStep start) state) := by
  have more := ahead.continues crosses goes
  have early := ahead.early
  obtain ⟨k, read⟩ : ∃ k, state.reads = k + 1 := ⟨state.reads - 1, by have := ahead.read; omega⟩
  have last := ahead.last
  have counted := ahead.ahead
  rw [read, Nat.add_sub_cancel] at early last counted
  have after : (DelayState.turn speed cyclesPerUnit (Counter.everyStep start) state).reads - 1 =
      k + 1 := by
    rw [turn_eq]
    exact read
  have gained := elapsed_everyStep speed start k
  generalize gain : (elapsed speed ((Counter.everyStep start).reading (k + 1))
    ((Counter.everyStep start).reading k)).toNat = amount at gained
  have most : amount ≤ 1 + speed.cycles := by
    have step := Nat.mul_le_mul_left speed.cycles (Counter.everyStep_sampled start k)
    rw [Nat.mul_add, Nat.mul_one] at step
    omega
  rw [← last, ← read] at gain
  have rest := BitVec.lt_def.mp ahead.rest
  have representable := speed.representable
  have quotient : (state.delta.toNat + amount) / cyclesPerUnit.toNat ≤
      speed.cycles / cyclesPerUnit.toNat + 1 := by
    rw [← Nat.add_div_right _ ahead.unit]
    exact Nat.div_le_div_right (by omega)
  have behind := BitVec.lt_def.mp goes
  have total : (DelayState.turn speed cyclesPerUnit (Counter.everyStep start) state).counted
      cyclesPerUnit = state.counted cyclesPerUnit + amount :=
    turn_counts gain (by omega) (by omega)
  refine ⟨ahead.toRunning.turn, ?_, by omega, ?_⟩
  · rw [after]
    omega
  · rw [after, total, counted]
    omega

theorem returns_early (speed : Speed) {start : Word} (positive : 0 < cyclesPerUnit.toNat)
    (short : cyclesPerUnit.toNat ≤ speed.cycles)
    (room : units.toNat + speed.cycles / cyclesPerUnit.toNat < 2 ^ 32)
    (crosses : 2 ^ 32 < start.toNat + units.toNat * cyclesPerUnit.toNat) :
    ∃ turns final, delay speed cyclesPerUnit (Counter.everyStep start) units turns = some final ∧
      final.reads - 1 < units.toNat * cyclesPerUnit.toNat := by
  have small := start.isLt
  have first : Ahead speed cyclesPerUnit units start (units.toNat * cyclesPerUnit.toNat)
      ⟨(Counter.everyStep start).reading 0, 0, 0, 1⟩ := by
    refine ⟨⟨Nat.le_refl 1, rfl, BitVec.lt_def.mpr positive⟩, Nat.zero_add _, by omega, ?_⟩
    rw [Nat.sub_self, Counter.laps_first, counted]
    simp
  obtain ⟨final, left, ends, ahead, _⟩ := whileLoop_ends
    (fun left state ahead goes => ⟨left - 1, Nat.sub_lt ahead.unfinished Nat.one_pos,
      ahead.turn short room crosses goes⟩) first (Nat.le_refl _)
  have early := ahead.early
  have unfinished := ahead.unfinished
  exact ⟨_, final, ends, by omega⟩

theorem delay_waits {start : Word} (positive : 0 < cyclesPerUnit.toNat)
    (fits : start.toNat + units.toNat * cyclesPerUnit.toNat ≤ 2 ^ 32) :
    Waits (fun counter units => delay speed cyclesPerUnit counter units) cyclesPerUnit.toNat start
      units := by
  intro counter starts _ turns final ends
  have first : Exact cyclesPerUnit counter ⟨counter.reading 0, 0, 0, 1⟩ := by
    refine ⟨⟨Nat.le_refl 1, rfl, BitVec.lt_def.mpr positive⟩, fun _ => ?_⟩
    rw [Nat.sub_self, counter.first, counted]
    simp
  obtain ⟨exact, stops⟩ := whileLoop_keeps (fun state exact _ => exact.turn) first ends
  by_contra early
  have short := Nat.not_le.mp early
  have below : counter.position (final.reads - 1) < 2 ^ 32 := by
    rw [Counter.position, starts]
    omega
  have all := exact.exact below
  have done : units.toNat ≤ final.passed.toNat := BitVec.not_lt.mp stops
  have whole : units.toNat * cyclesPerUnit.toNat ≤ final.passed.toNat * cyclesPerUnit.toNat :=
    Nat.mul_le_mul_right _ done
  rw [counted] at all
  omega

end DelayState

theorem waits_iff {speed : Speed} {run : Counter 32 → Word → Nat → Option DelayState}
    {cyclesPerUnit : Word} {cycles : Nat}
    (unit : run = fun counter units => delay speed cyclesPerUnit counter units)
    (whole : cyclesPerUnit.toNat = cycles) (positive : 0 < cycles) (short : cycles ≤ speed.cycles)
    (start units : Word) :
    (start.toNat + units.toNat * cycles ≤ 2 ^ 32 → Waits run cycles start units) ∧
      (units.toNat + speed.cycles / cycles < 2 ^ 32 → Waits run cycles start units →
        start.toNat + units.toNat * cycles ≤ 2 ^ 32) := by
  subst unit whole
  refine ⟨DelayState.delay_waits positive, fun room waits => ?_⟩
  by_contra crosses
  obtain ⟨turns, final, ends, early⟩ :=
    DelayState.returns_early speed positive short room (Nat.not_le.mp crosses)
  exact absurd (waits _ rfl (Counter.everyStep_sampled start) turns final ends) (Nat.not_le.mpr early)

theorem Speed.unit_toNat (speed : Speed) (parts : Nat) :
    (BitVec.ofNat 32 (speed.cycles / parts)).toNat = speed.cycles / parts := by
  have representable := speed.representable
  have part := Nat.div_le_self speed.cycles parts
  rw [BitVec.toNat_ofNat]
  exact Nat.mod_eq_of_lt (by omega)

/-- Both delays wait long enough when the counter reaches its end no sooner, and otherwise they
can return early. -/
theorem delays_wait_before_wrap (speed : Speed) (start amount : Word) :
    ((start.toNat + amount.toNat * (speed.cycles / 1000) ≤ 2 ^ 32 →
        Waits (delayMs speed) (speed.cycles / 1000) start amount) ∧
      (amount.toNat + 1002 ≤ 2 ^ 32 → Waits (delayMs speed) (speed.cycles / 1000) start amount →
        start.toNat + amount.toNat * (speed.cycles / 1000) ≤ 2 ^ 32)) ∧
    (start.toNat + amount.toNat * (speed.cycles / 1000000) ≤ 2 ^ 32 →
        Waits (delayUs speed) (speed.cycles / 1000000) start amount) ∧
      (amount.toNat + 2000000 ≤ 2 ^ 32 →
        Waits (delayUs speed) (speed.cycles / 1000000) start amount →
        start.toNat + amount.toNat * (speed.cycles / 1000000) ≤ 2 ^ 32) := by
  have fast := speed.fast
  have ms := waits_iff (rfl : delayMs speed = _) (speed.unit_toNat 1000) (by omega)
    (Nat.div_le_self _ _) start amount
  have us := waits_iff (rfl : delayUs speed = _) (speed.unit_toNat 1000000) (by omega)
    (Nat.div_le_self _ _) start amount
  refine ⟨⟨ms.1, fun room => ms.2 ?_⟩, us.1, fun room => us.2 ?_⟩
  · have few : speed.cycles / (speed.cycles / 1000) < 1002 :=
      Nat.div_lt_of_lt_mul (by omega)
    omega
  · have few : speed.cycles / (speed.cycles / 1000000) < 2000000 :=
      Nat.div_lt_of_lt_mul (by omega)
    omega

/-- At 25 MHz a delay of half a second that starts one cycle before the counter wraps around
returns after that cycle. -/
theorem delay_returns_early :
    ¬∀ (speed : Speed) (start msec : Word), Waits (delayMs speed) (speed.cycles / 1000) start msec := by
  intro all
  have early := all ⟨25000000, by decide, by decide⟩ (BitVec.ofNat 32 (2 ^ 32 - 1)) 500
    (Counter.everyStep _) rfl (Counter.everyStep_sampled _) 1
    ⟨0, 1, 1000, 2⟩ (by decide)
  exact absurd early (by decide)

end Hellfire.HfRiscv

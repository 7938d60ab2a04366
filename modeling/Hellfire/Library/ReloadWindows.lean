import Hellfire.Library.Metering

/-!
The reloads of a metered budget: when they come, how much is used between two of them, and
whether something was left over.
-/

namespace Metering

/-- One tick of a meter: whether the budget was used, whether it was reloaded at the end, and
whether something was left at that moment. -/
structure Beat where
  used : Bool
  reloaded : Bool
  missed : Bool
deriving DecidableEq, Repr

def Meter.beat (used : Bool) (meter : Meter) : Beat where
  used
  reloaded := meter.untilReload = 1
  missed := meter.untilReload = 1 ∧ 0 < if used = true then meter.left - 1 else meter.left

inductive Beats (capacity period : Nat) (start : Meter) : List Beat → Meter → Prop
  | start : Beats capacity period start [] start
  | tick {log meter} (used : Bool) : Beats capacity period start log meter →
      (used = true → 0 < meter.left) →
      Beats capacity period start (log ++ [meter.beat used]) (meter.tick capacity period used)

variable {capacity period offset : Nat} {log : List Beat} {meter : Meter}

def reloadsAt (offset period tick : Nat) : Prop := ∃ number, tick = offset + number * period

structure Timed (offset period : Nat) (log : List Beat) (meter : Meter) : Prop where
  counting : 0 < meter.untilReload
  bounded : meter.untilReload ≤ max period offset
  next : reloadsAt offset period (log.length + meter.untilReload)
  none : ∀ tick, log.length < tick → tick < log.length + meter.untilReload →
    ¬reloadsAt offset period tick
  timing : ∀ index beat, log[index]? = some beat →
    (beat.reloaded = true ↔ reloadsAt offset period (index + 1))

theorem Timed.start (positive : 0 < offset) : Timed offset period [] ⟨capacity, offset⟩ := by
  refine ⟨positive, Nat.le_max_right _ _, ⟨0, by simp⟩, ?_, by simp⟩
  rintro tick _ early ⟨number, same⟩
  simp only [List.length_nil, Nat.zero_add] at early
  omega

theorem Timed.tick (timed : Timed offset period log meter) (positive : 0 < period) (used : Bool) :
    Timed offset period (log ++ [meter.beat used]) (meter.tick capacity period used) := by
  have counting := timed.counting
  have reload : (meter.beat used).reloaded = true ↔ reloadsAt offset period (log.length + 1) := by
    simp only [Meter.beat, decide_eq_true_eq]
    constructor
    · intro last
      have next := timed.next
      rwa [last] at next
    · intro due
      by_contra more
      exact timed.none (log.length + 1) (by omega) (by omega) due
  have timing : ∀ index beat, (log ++ [meter.beat used])[index]? = some beat →
      (beat.reloaded = true ↔ reloadsAt offset period (index + 1)) := by
    intro index beat found
    rcases Nat.lt_or_ge index log.length with old | new
    · rw [List.getElem?_append_left old] at found
      exact timed.timing index beat found
    · rw [List.getElem?_append_right new] at found
      obtain ⟨inside, same⟩ := List.getElem?_eq_some_iff.mp found
      have last : index = log.length := by
        simp only [List.length_singleton] at inside
        omega
      subst last
      simp only [Nat.sub_self, List.getElem_cons_zero] at same
      rw [← same]
      exact reload
  have length : (log ++ [meter.beat used]).length = log.length + 1 := by simp
  by_cases last : meter.untilReload = 1
  · obtain ⟨number, next⟩ := timed.next
    rw [last] at next
    rw [Meter.tick, if_pos last]
    refine ⟨positive, Nat.le_max_left _ _, ⟨number + 1, ?_⟩, ?_, timing⟩
    · rw [length, Nat.succ_mul]
      simp only
      omega
    · rintro tick late early ⟨other, same⟩
      rw [length] at late early
      simp only at early
      -- A reload strictly between two consecutive ones would have a number between theirs.
      have above : number < other := by
        by_contra below
        have least := Nat.mul_le_mul_right period (Nat.not_lt.mp below)
        omega
      have steps := Nat.mul_le_mul_right period above
      rw [Nat.succ_mul] at steps
      omega
  · rw [Meter.tick, if_neg last]
    refine ⟨by simp only; omega, ?_, ?_, ?_, timing⟩
    · have bounded := timed.bounded
      simp only
      omega
    · obtain ⟨number, next⟩ := timed.next
      refine ⟨number, ?_⟩
      rw [length]
      simp only
      omega
    · intro tick late early
      rw [length] at late early
      simp only at early
      exact timed.none tick (by omega) (by omega)

def Fresh (before : List Beat) : Prop :=
  before = [] ∨ ∃ last, before.getLast? = some last ∧ last.reloaded = true

structure Since (capacity : Nat) (log before current : List Beat) (meter : Meter) : Prop where
  split : log = before ++ current
  fresh : Fresh before
  running : ∀ beat ∈ current, beat.reloaded = false
  spent : current.countP Beat.used + meter.left = capacity

section Windows

variable {before current : List Beat}

theorem Since.tick {used : Bool} (since : Since capacity log before current meter)
    (pending : used = true → 0 < meter.left) :
    ∃ before' current', Since capacity (log ++ [meter.beat used]) before' current'
      (meter.tick capacity period used) := by
  by_cases last : meter.untilReload = 1
  · refine ⟨log ++ [meter.beat used], [], (List.append_nil _).symm, Or.inr ⟨meter.beat used, by simp, ?_⟩,
      by simp, ?_⟩
    · simp [Meter.beat, last]
    · rw [Meter.tick, if_pos last]
      simp
  · refine ⟨before, current ++ [meter.beat used], ?_, since.fresh, ?_, ?_⟩
    · rw [since.split, List.append_assoc]
    · intro beat member
      rcases List.mem_append.mp member with old | new
      · exact since.running beat old
      · rw [List.mem_singleton.mp new]
        simp [Meter.beat, last]
    · have spent := since.spent
      rw [Meter.tick, if_neg last, List.countP_append, List.countP_singleton]
      cases used with
      | false => simpa [Meter.beat] using spent
      | true =>
          have one := pending rfl
          simp only [Meter.beat, if_true]
          omega

theorem Since.covers {first rest : List Beat} (since : Since capacity log before current meter)
    (split : log = first ++ rest) (running : ∀ beat ∈ rest, beat.reloaded = false) :
    ∃ earlier, first = before ++ earlier ∧ current = earlier ++ rest := by
  have joined : before ++ current = first ++ rest := since.split.symm.trans split
  rcases List.append_eq_append_iff.mp joined with ⟨earlier, front, back⟩ | ⟨later, front, back⟩
  · exact ⟨earlier, front, back⟩
  · rcases List.eq_nil_or_concat later with none | ⟨others, last, more⟩
    · subst none
      exact ⟨[], by simpa using front.symm, by simpa using back.symm⟩
    · rcases since.fresh with empty | ⟨final, found, reloaded⟩
      · rw [empty] at front
        have none := (List.append_eq_nil_iff.mp front.symm).2
        rw [more] at none
        simp at none
      · have same : final = last := by
          rw [front, more] at found
          simpa using found.symm
        have idle := running last (by simp [back, more])
        rw [← same, reloaded] at idle
        cases idle

theorem Since.unique {first rest : List Beat} (since : Since capacity log before current meter)
    (split : log = first ++ rest) (fresh : Fresh first)
    (running : ∀ beat ∈ rest, beat.reloaded = false) : rest = current := by
  obtain ⟨earlier, front, back⟩ := since.covers split running
  rcases List.eq_nil_or_concat earlier with none | ⟨others, last, more⟩
  · rw [back, none, List.nil_append]
  · rcases fresh with empty | ⟨final, found, reloaded⟩
    · rw [empty] at front
      have none := (List.append_eq_nil_iff.mp front.symm).2
      rw [more] at none
      simp at none
    · have same : final = last := by
        rw [front, more] at found
        simpa using found.symm
      have idle := since.running last (by simp [back, more])
      rw [← same, reloaded] at idle
      cases idle

structure Windows (capacity : Nat) (log : List Beat) : Prop where
  bounded : ∀ first window rest, log = first ++ window ++ rest →
    (∀ beat ∈ window.dropLast, beat.reloaded = false) → window.countP Beat.used ≤ capacity
  missed : ∀ first window beat rest, log = first ++ window ++ beat :: rest → Fresh first →
    (∀ other ∈ window, other.reloaded = false) →
    (beat.missed = true ↔ beat.reloaded = true ∧ (window ++ [beat]).countP Beat.used < capacity)

theorem Windows.start : Windows capacity [] := by
  refine ⟨?_, ?_⟩
  · intro first window rest split _
    have empty := (List.append_eq_nil_iff.mp (List.append_eq_nil_iff.mp split.symm).1).2
    simp [empty]
  · intro first window beat rest split
    simp at split

theorem Windows.tick {used : Bool} (windows : Windows capacity log)
    (since : Since capacity log before current meter) (pending : used = true → 0 < meter.left) :
    Windows capacity (log ++ [meter.beat used]) := by
  have spent := since.spent
  have counted : [meter.beat used].countP Beat.used ≤ meter.left := by
    rw [List.countP_singleton]
    cases used with
    | false => simp [Meter.beat]
    | true => exact pending rfl
  constructor
  · intro first window rest split running
    rcases List.eq_nil_or_concat rest with none | ⟨others, last, more⟩
    · rcases List.eq_nil_or_concat window with empty | ⟨earlier, final, whole⟩
      · simp [empty]
      · rw [none, List.append_nil, whole, List.concat_eq_append, ← List.append_assoc] at split
        obtain ⟨front, tail⟩ := List.append_inj' split rfl
        rw [whole, List.concat_eq_append, List.dropLast_concat] at running
        obtain ⟨skipped, _, back⟩ := since.covers front running
        rw [whole, List.concat_eq_append, ← tail, List.countP_append]
        rw [back, List.countP_append] at spent
        omega
    · rw [more, List.concat_eq_append, ← List.append_assoc] at split
      exact windows.bounded first window others (List.append_inj' split rfl).1 running
  · intro first window beat rest split fresh running
    rcases List.eq_nil_or_concat rest with none | ⟨others, last, more⟩
    · rw [none] at split
      obtain ⟨front, tail⟩ := List.append_inj' split rfl
      have same := List.singleton_inj.mp tail
      have whole := since.unique front fresh running
      rw [← same, whole, List.countP_append, List.countP_singleton]
      simp only [Meter.beat, decide_eq_true_eq]
      rw [List.countP_singleton] at counted
      simp only [Meter.beat] at counted
      cases used with
      | false =>
          simp only [Bool.false_eq_true, if_false]
          omega
      | true =>
          simp only [if_true] at counted ⊢
          omega
    · rw [more, List.concat_eq_append, ← List.cons_append, ← List.append_assoc] at split
      exact windows.missed first window beat others (List.append_inj' split rfl).1 fresh running

end Windows

theorem Beats.windows (run : Beats capacity period ⟨capacity, offset⟩ log meter)
    (positive : 0 < period) (given : 0 < offset) :
    Timed offset period log meter ∧ Windows capacity log ∧
      ∃ before current, Since capacity log before current meter := by
  induction run with
  | start =>
      refine ⟨.start given, .start, [], [], rfl, Or.inl rfl, by simp, ?_⟩
      simp
  | tick used _ pending ih =>
      obtain ⟨timed, windows, before, current, since⟩ := ih
      exact ⟨timed.tick positive used, windows.tick since pending, since.tick pending⟩

theorem Beats.left_le (run : Beats capacity period ⟨capacity, offset⟩ log meter)
    (positive : 0 < period) (given : 0 < offset) : meter.left ≤ capacity := by
  obtain ⟨_, _, before, current, since⟩ := run.windows positive given
  have spent := since.spent
  omega

end Metering

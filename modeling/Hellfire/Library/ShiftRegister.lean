import Mathlib.Data.BitVec
import Mathlib.Data.List.Basic
import Mathlib.Logic.Function.Iterate

/-!
Shift registers with feedback, which take the bits of a message at the top. A turn is linear, and it
forgets nothing where the lowest bit of the polynomial is set; so messages that differ in a short
window only never leave the register in the same state.
-/

namespace ShiftRegister

variable {width : Nat}

def select (vector : BitVec width) (bit : Bool) : BitVec width := if bit then vector else 0

def turn (poly register : BitVec width) : BitVec width := register <<< 1 ^^^ select poly register.msb

def onTop (bit : Bool) : BitVec width := select (BitVec.twoPow width (width - 1)) bit

def feed (poly register : BitVec width) (bit : Bool) : BitVec width := turn poly (register ^^^ onTop bit)

def feedAll (poly register : BitVec width) (bits : List Bool) : BitVec width :=
  bits.foldl (feed poly) register

def placed : List Bool → BitVec width
  | [] => 0
  | bit :: bits => onTop bit ^^^ placed bits >>> 1

variable (poly : BitVec width) (register other : BitVec width)

theorem turn_zero : turn poly 0 = 0 := by
  simp [turn, select]

theorem select_xor (vector : BitVec width) (a b : Bool) :
    select vector (a ^^ b) = select vector a ^^^ select vector b := by
  cases a <;> cases b <;> simp [select]

theorem turn_xor : turn poly (register ^^^ other) = turn poly register ^^^ turn poly other := by
  unfold turn
  rw [BitVec.shiftLeft_xor_distrib, BitVec.msb_xor, select_xor]
  ac_rfl

/-- The lowest bit of the polynomial tells whether a bit was shifted out. -/
theorem eq_zero_of_turn {poly register : BitVec width} (odd : poly.getLsbD 0 = true)
    (zero : turn poly register = 0) : register = 0 := by
  have kept : register.msb = false := by
    by_contra out
    have lowest := congrArg (fun vector => vector.getLsbD 0) zero
    simp [turn, select, eq_true_of_ne_false out, odd] at lowest
  have shifted : register <<< 1 = 0 := by
    simpa [turn, select, kept] using zero
  refine BitVec.eq_of_getLsbD_eq fun place inside => ?_
  by_cases last : place + 1 < width
  · have next : (register <<< 1).getLsbD (place + 1) = register.getLsbD place := by
      rw [BitVec.getLsbD_shiftLeft]
      simp [last]
    rw [← next, shifted]
    simp
  · have top : place = width - 1 := by omega
    rw [BitVec.msb_eq_getLsbD_last, ← top] at kept
    simpa using kept

theorem eq_zero_of_turns {poly : BitVec width} (odd : poly.getLsbD 0 = true) :
    ∀ (count : Nat) {register : BitVec width}, (turn poly)^[count] register = 0 → register = 0 := by
  intro count
  induction count with
  | zero => intro register zero; exact zero
  | succ count ih =>
      intro register zero
      exact eq_zero_of_turn odd (ih zero)

theorem feed_xor (a b : Bool) :
    feed poly (register ^^^ other) (a ^^ b) = feed poly register a ^^^ feed poly other b := by
  unfold feed onTop
  rw [← turn_xor, select_xor]
  congr 1
  ac_rfl

theorem feedAll_append (front back : List Bool) :
    feedAll poly register (front ++ back) = feedAll poly (feedAll poly register front) back :=
  List.foldl_append

theorem feedAll_xor : ∀ {xs ys : List Bool} (register other : BitVec width), xs.length = ys.length →
    feedAll poly (register ^^^ other) (List.zipWith xor xs ys) =
      feedAll poly register xs ^^^ feedAll poly other ys := by
  intro xs
  induction xs with
  | nil =>
      intro ys register other same
      obtain rfl := List.length_eq_zero_iff.mp same.symm
      rfl
  | cons x xs ih =>
      intro ys register other same
      cases ys with
      | nil => cases same
      | cons y ys =>
          have rest := ih (feed poly register x) (feed poly other y) (Nat.succ.inj same)
          rw [← feed_xor] at rest
          exact rest

theorem feedAll_clear : ∀ {bits : List Bool} {register : BitVec width}, (∀ bit ∈ bits, bit = false) →
    feedAll poly register bits = (turn poly)^[bits.length] register := by
  intro bits
  induction bits with
  | nil => intro register _; rfl
  | cons bit bits ih =>
      intro register clear
      obtain rfl := clear bit (List.mem_cons_self ..)
      have first : feed poly register false = turn poly register := by simp [feed, onTop, select]
      change feedAll poly (feed poly register false) bits = _
      rw [first, ih fun bit member => clear bit (List.mem_cons_of_mem _ member)]
      rfl

theorem getMsbD_onTop (bit : Bool) (place : Nat) :
    (onTop bit : BitVec width).getMsbD place = (decide (place < width) && decide (place = 0) && bit) := by
  cases bit with
  | false => simp [onTop, select]
  | true =>
      simp only [onTop, select, if_true, BitVec.getMsbD_twoPow, Bool.and_true]
      grind

theorem getMsbD_placed : ∀ (bits : List Bool) (place : Nat),
    (placed bits : BitVec width).getMsbD place = (decide (place < width) && bits[place]?.getD false) := by
  intro bits
  induction bits with
  | nil => intro place; simp [placed]
  | cons bit bits ih =>
      intro place
      rw [placed, BitVec.getMsbD_xor, getMsbD_onTop, BitVec.getMsbD_ushiftRight]
      cases place with
      | zero => simp
      | succ place =>
          rw [Nat.add_sub_cancel, ih]
          simp
          grind

theorem placed_down_up {bits : List Bool} (short : bits.length < width) :
    (placed bits : BitVec width) >>> 1 <<< 1 = placed bits := by
  refine BitVec.eq_of_getMsbD_eq fun place inside => ?_
  rw [BitVec.getMsbD_shiftLeft, BitVec.getMsbD_ushiftRight, Nat.add_sub_cancel, getMsbD_placed]
  by_cases lowest : place + 1 < width
  · simp [lowest]
  · have past : bits[place]? = none := List.getElem?_eq_none (by omega)
    simp [past]

theorem turn_placed_down {bits : List Bool} (short : bits.length < width) :
    turn poly (placed bits >>> 1) = placed bits := by
  have clear : ((placed bits : BitVec width) >>> 1).msb = false := by
    rw [BitVec.msb, BitVec.getMsbD_ushiftRight]
    simp
  rw [turn, placed_down_up short, clear]
  simp [select]

theorem turns_placed : ∀ {bits : List Bool} (register : BitVec width), bits.length ≤ width →
    (turn poly)^[bits.length] (register ^^^ placed bits) = feedAll poly register bits := by
  intro bits
  induction bits with
  | nil => intro register _; simp [placed, feedAll]
  | cons bit bits ih =>
      intro register short
      have first : turn poly (register ^^^ placed (bit :: bits)) = feed poly register bit ^^^ placed bits := by
        rw [placed, ← BitVec.xor_assoc, turn_xor, turn_placed_down poly short]
        rfl
      change (turn poly)^[bits.length] (turn poly (register ^^^ placed (bit :: bits))) =
        feedAll poly (feed poly register bit) bits
      rw [first]
      exact ih _ (Nat.le_of_succ_le short)

structure Burst {α : Type} (window : Nat) (xs ys : List α) : Prop where
  same : xs.length = ys.length
  differ : xs ≠ ys
  inside : ∃ start, ∀ place, xs[place]? ≠ ys[place]? → start ≤ place ∧ place < start + window

theorem differ_iff {xs ys : List Bool} (same : xs.length = ys.length) (place : Nat) :
    xs[place]? ≠ ys[place]? ↔ (List.zipWith xor xs ys)[place]? = some true := by
  rw [List.getElem?_zipWith]
  by_cases inside : place < xs.length
  · have insideY : place < ys.length := same ▸ inside
    rw [List.getElem?_eq_getElem inside, List.getElem?_eq_getElem insideY]
    cases xs[place] <;> cases ys[place] <;> decide
  · rw [List.getElem?_eq_none (Nat.le_of_not_lt inside), List.getElem?_eq_none (by omega)]
    simp

theorem clear_of_window {bits : List Bool} {start window : Nat}
    (inside : ∀ place, bits[place]? = some true → start ≤ place ∧ place < start + window) :
    (∀ bit ∈ bits.take start, bit = false) ∧ ∀ bit ∈ (bits.drop start).drop window, bit = false := by
  constructor
  · intro bit member
    obtain ⟨place, at_place⟩ := List.mem_iff_getElem?.mp member
    cases bit with
    | false => rfl
    | true =>
        rw [List.getElem?_take] at at_place
        split at at_place
        · have := inside place at_place
          omega
        · cases at_place
  · intro bit member
    obtain ⟨place, at_place⟩ := List.mem_iff_getElem?.mp member
    cases bit with
    | false => rfl
    | true =>
        rw [List.getElem?_drop, List.getElem?_drop] at at_place
        have := inside _ at_place
        omega

theorem clear_of_feedAll {poly : BitVec width} (odd : poly.getLsbD 0 = true) {bits : List Bool}
    (short : bits.length ≤ width) (zero : feedAll poly 0 bits = 0) : ∀ bit ∈ bits, bit = false := by
  have fed := turns_placed poly 0 short
  have start : 0 ^^^ placed bits = (placed bits : BitVec width) := BitVec.zero_xor
  rw [start, zero] at fed
  have empty := eq_zero_of_turns odd _ fed
  intro bit member
  obtain ⟨place, at_place⟩ := List.mem_iff_getElem?.mp member
  have inside : place < bits.length := (List.getElem?_eq_some_iff.mp at_place).1
  have top : (placed bits : BitVec width).getMsbD place = _ := getMsbD_placed bits place
  rw [empty, at_place] at top
  simpa [show place < width by omega] using top.symm

theorem clear_of_feedAll_window {poly : BitVec width} (odd : poly.getLsbD 0 = true) {bits : List Bool}
    {start : Nat} (inside : ∀ place, bits[place]? = some true → start ≤ place ∧ place < start + width)
    (zero : feedAll poly 0 bits = 0) (place : Nat) : bits[place]? ≠ some true := by
  obtain ⟨front, back⟩ := clear_of_window inside
  have split : bits = bits.take start ++ ((bits.drop start).take width ++ (bits.drop start).drop width) := by
    rw [List.take_append_drop, List.take_append_drop]
  have idle : feedAll poly 0 (bits.take start) = 0 := by
    rw [feedAll_clear poly front, Function.iterate_fixed (turn_zero poly)]
  rw [split, feedAll_append, feedAll_append, idle, feedAll_clear poly back] at zero
  have middle := clear_of_feedAll odd (List.length_take_le ..) (eq_zero_of_turns odd _ zero)
  intro set
  have range := inside place set
  have found : ((bits.drop start).take width)[place - start]? = some true := by
    rw [List.getElem?_take, if_pos (by omega), List.getElem?_drop, Nat.add_sub_cancel' range.1, set]
  exact absurd (middle true (List.mem_iff_getElem?.mpr ⟨_, found⟩)) (by decide)

/-- A burst that fits the register is seen at the end of any message, from any start. -/
theorem feedAll_ne_of_burst {poly : BitVec width} (odd : poly.getLsbD 0 = true) {xs ys : List Bool}
    (burst : Burst width xs ys) (register : BitVec width) :
    feedAll poly register xs ≠ feedAll poly register ys := by
  intro equal
  obtain ⟨start, inside⟩ := burst.inside
  have zero : feedAll poly 0 (List.zipWith xor xs ys) = 0 := by
    have difference := feedAll_xor poly register register burst.same
    rwa [equal, BitVec.xor_self, BitVec.xor_self] at difference
  have none := clear_of_feedAll_window odd
    (fun place set => inside place ((differ_iff burst.same place).mpr set)) zero
  refine burst.differ (List.ext_getElem? fun place => ?_)
  by_contra differs
  exact none place ((differ_iff burst.same place).mp differs)

end ShiftRegister

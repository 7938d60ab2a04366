import Mathlib.Data.Nat.Digits.Lemmas
import Mathlib.Tactic.Ring

/-!
Numerals: the digits of a number in a base, with one digit for zero, and the number that a list of
digits denotes.
-/

namespace Numerals

variable {base number : Nat}

def lowDigits (base number : Nat) : List Nat := number % base :: base.digits (number / base)

def numeral (base number : Nat) : List Nat := (lowDigits base number).reverse

def value (base : Nat) (digits : List Nat) : Nat := digits.foldl (fun number digit => number * base + digit) 0

theorem lowDigits_eq_digits (wide : 1 < base) (nonzero : number ≠ 0) :
    lowDigits base number = base.digits number :=
  (Nat.digits_def' wide (Nat.pos_of_ne_zero nonzero)).symm

theorem lowDigits_zero : lowDigits base 0 = [0] := by
  simp [lowDigits]

theorem value_append (digits : List Nat) (digit : Nat) :
    value base (digits ++ [digit]) = value base digits * base + digit := by
  rw [value, List.foldl_append]
  rfl

theorem value_reverse (digits : List Nat) : value base digits.reverse = Nat.ofDigits base digits := by
  induction digits with
  | nil => rfl
  | cons digit digits ih =>
      rw [List.reverse_cons, value_append, ih, Nat.ofDigits_cons]
      ring

theorem value_numeral (base number : Nat) : value base (numeral base number) = number := by
  rw [numeral, value_reverse, lowDigits, Nat.ofDigits_cons, Nat.ofDigits_digits]
  exact Nat.mod_add_div ..

theorem lowDigits_lt (wide : 1 < base) {digit : Nat} (member : digit ∈ lowDigits base number) :
    digit < base := by
  rcases List.mem_cons.mp member with rfl | higher
  · exact Nat.mod_lt _ (by omega)
  · exact Nat.digits_lt_base wide higher

theorem numeral_lt (wide : 1 < base) {digit : Nat} (member : digit ∈ numeral base number) : digit < base :=
  lowDigits_lt wide (List.mem_reverse.mp member)

theorem numeral_cons (wide : 1 < base) (number : Nat) :
    ∃ digit digits, numeral base number = digit :: digits ∧ digit < base := by
  cases listed : numeral base number with
  | nil => simp [numeral, lowDigits] at listed
  | cons digit digits => exact ⟨digit, digits, rfl, numeral_lt wide (listed ▸ List.mem_cons_self ..)⟩

theorem length_lowDigits_le_iff (wide : 1 < base) {most : Nat} (some : 0 < most) :
    (lowDigits base number).length ≤ most ↔ number < base ^ most := by
  obtain ⟨rest, rfl⟩ := Nat.exists_eq_succ_of_ne_zero some.ne'
  rw [lowDigits, List.length_cons, Nat.succ_le_succ_iff, Nat.digits_length_le_iff wide, pow_succ,
    Nat.div_lt_iff_lt_mul (by omega)]

theorem head_numeral (wide : 1 < base) (nonzero : number ≠ 0) : (numeral base number).head? ≠ some 0 := by
  have listed : base.digits number ≠ [] := Nat.digits_ne_nil_iff_ne_zero.mpr nonzero
  rw [numeral, lowDigits_eq_digits wide nonzero, List.head?_reverse, List.getLast?_eq_some_getLast listed]
  intro zero
  exact Nat.getLast_digit_ne_zero base nonzero (Option.some.inj zero)

section Taken

variable {taken : List Nat} {rest left : Nat}

structure Taken (base number : Nat) (taken : List Nat) (rest left : Nat) : Prop where
  digits : taken ++ base.digits rest = lowDigits base number
  remain : (base.digits rest).length = left

theorem Taken.none (wide : 1 < base) (nonzero : number ≠ 0) :
    Taken base number [] number (base.digits number).length :=
  ⟨(lowDigits_eq_digits wide nonzero).symm, rfl⟩

theorem Taken.first : Taken base number [number % base] (number / base) (base.digits (number / base)).length :=
  ⟨rfl, rfl⟩

theorem Taken.next (wide : 1 < base) (nonzero : rest ≠ 0) (before : Taken base number taken rest left) :
    ∃ after < left, Taken base number (taken ++ [rest % base]) (rest / base) after := by
  have split := Nat.digits_def' wide (Nat.pos_of_ne_zero nonzero)
  refine ⟨(base.digits (rest / base)).length, ?_, ?_, rfl⟩
  · rw [← before.remain, split]
    exact Nat.lt_succ_self _
  · rw [← before.digits, split, List.append_assoc]
    rfl

theorem Taken.all (done : Taken base number taken 0 left) : taken = lowDigits base number := by
  rw [← done.digits, Nat.digits_zero, List.append_nil]

theorem Taken.length_le (before : Taken base number taken rest left) :
    taken.length ≤ (lowDigits base number).length := by
  rw [← before.digits, List.length_append]
  exact Nat.le_add_right ..

end Taken

section Expansion

variable {numerator denominator count : Nat}

def places (base : Nat) : Nat → Nat → List Nat
  | 0, _ => []
  | count + 1, number => places base count (number / base) ++ [number % base]

theorem length_places : ∀ count number, (places base count number).length = count := by
  intro count
  induction count with
  | zero =>
      intro number
      rfl
  | succ count ih =>
      intro number
      rw [places, List.length_append, ih, List.length_singleton]

theorem places_lt (positive : 0 < base) {digit : Nat} : ∀ {count number : Nat},
    digit ∈ places base count number → digit < base := by
  intro count
  induction count with
  | zero =>
      intro number member
      cases member
  | succ count ih =>
      intro number member
      rcases List.mem_append.mp member with higher | last
      · exact ih higher
      · rw [List.mem_singleton.mp last]
        exact Nat.mod_lt _ positive

theorem value_places : ∀ count number, value base (places base count number) = number % base ^ count := by
  intro count
  induction count with
  | zero =>
      intro number
      rw [pow_zero, Nat.mod_one]
      rfl
  | succ count ih =>
      intro number
      rw [places, value_append, ih, pow_succ', Nat.mod_mul]
      ring

theorem places_succ (positive : 0 < base) (numerator denominator count : Nat) :
    places base (count + 1) (numerator * base ^ (count + 1) / denominator) =
      places base count (numerator * base ^ count / denominator) ++
        [numerator * base ^ count % denominator * base / denominator % base] := by
  have shifted : numerator * base ^ (count + 1) = numerator * base ^ count * base := by ring
  rw [places, shifted, Nat.div_div_eq_div_mul, Nat.mul_div_mul_right _ _ positive]
  congr 2
  -- The digit comes from what is left of the fraction alone.
  rcases Nat.eq_zero_or_pos denominator with rfl | some
  · simp
  · have split : numerator * base ^ count * base =
        numerator * base ^ count % denominator * base +
          denominator * (base * (numerator * base ^ count / denominator)) := by
      conv_lhs => rw [← Nat.mod_add_div (numerator * base ^ count) denominator]
      ring
    rw [split, Nat.add_mul_div_left _ _ some, Nat.add_mul_mod_self_left]

structure Expansion (base numerator denominator count : Nat) (whole fraction : List Nat) : Prop where
  digits : ∀ digit ∈ whole ++ fraction, digit < base
  plain : whole.head? = some 0 → whole = [0]
  some : whole ≠ []
  whole_value : value base whole = numerator / denominator
  length : fraction.length = count
  fraction_value : value base fraction = numerator % denominator * base ^ count / denominator

theorem expansion (wide : 1 < base) (positive : 0 < denominator) :
    Expansion base numerator denominator count (numeral base (numerator / denominator))
      (places base count (numerator % denominator * base ^ count / denominator)) := by
  refine ⟨?_, ?_, ?_, value_numeral .., length_places .., ?_⟩
  · intro digit member
    rcases List.mem_append.mp member with before | behind
    · exact numeral_lt wide before
    · exact places_lt (by omega) behind
  · intro zero
    by_cases none : numerator / denominator = 0
    · rw [none, numeral, lowDigits_zero]
      rfl
    · exact absurd zero (head_numeral wide none)
  · obtain ⟨digit, digits, listed, _⟩ := numeral_cons wide (numerator / denominator)
    rw [listed]
    exact List.cons_ne_nil digit digits
  · rw [value_places, Nat.mod_eq_of_lt]
    rw [Nat.div_lt_iff_lt_mul positive, Nat.mul_comm (base ^ count)]
    exact Nat.mul_lt_mul_of_pos_right (Nat.mod_lt _ positive) (Nat.pow_pos (by omega))

end Expansion

end Numerals

import Hellfire.Itoa

/-!
Results of `strtol` on the text of `itoa`: it reads eight digits and their end, and does not see the
end of a longer text.
-/

namespace Hellfire

open ByteMemory Loops Numerals

theorem strtolDigit_digitByte :
    ∀ digit < 36, strtolDigit (promoted (digitByte digit)) = some (BitVec.ofNat 32 digit) := by decide

theorem strtolDigit_zero : strtolDigit (promoted 0) = none := by decide

section Loop

variable {memory : Memory} (base : Word)

theorem strtolLoop_ends {digits : List Nat} : ∀ {turns s : Nat} (value : Word),
    (∀ digit ∈ digits, digit < 36) → holdsString memory s (digitBytes digits) = true → digits.length < turns →
      strtolLoop memory base turns s value = (s + digits.length + 1, wordValue base value digits) := by
  induction digits with
  | nil =>
      intro turns s value _ holds enough
      obtain ⟨turns, rfl⟩ := Nat.exists_eq_succ_of_ne_zero enough.ne'
      rw [strtolLoop, holdsString_nil.mp holds, strtolDigit_zero]
      rfl
  | cons digit digits ih =>
      intro turns s value small holds enough
      obtain ⟨turns, rfl⟩ := Nat.exists_eq_succ_of_ne_zero (Nat.ne_zero_of_lt enough)
      obtain ⟨first, rest⟩ := holdsString_cons.mp holds
      rw [List.length_cons] at enough
      rw [strtolLoop, first, strtolDigit_digitByte digit (small digit (List.mem_cons_self ..))]
      simp only []
      rw [ih _ (fun other member => small other (List.mem_cons_of_mem _ member)) rest (by omega),
        List.length_cons]
      refine Prod.ext ?_ rfl
      simp only []
      omega

theorem strtolLoop_limit {digits : List Nat} : ∀ {turns s : Nat} (value : Word),
    (∀ digit ∈ digits, digit < 36) → holdsString memory s (digitBytes digits) = true →
      turns ≤ digits.length → (strtolLoop memory base turns s value).1 = s + turns := by
  induction digits with
  | nil =>
      intro turns s value _ _ short
      obtain rfl : turns = 0 := Nat.le_zero.mp short
      rfl
  | cons digit digits ih =>
      intro turns s value small holds short
      obtain ⟨first, rest⟩ := holdsString_cons.mp holds
      cases turns with
      -- The limit ends the loop without a look at the character behind.
      | zero => rfl
      | succ turns =>
          rw [strtolLoop, first, strtolDigit_digitByte digit (small digit (List.mem_cons_self ..))]
          simp only []
          rw [ih _ (fun other member => small other (List.mem_cons_of_mem _ member)) rest
            (Nat.le_of_succ_le_succ short)]
          omega

end Loop

theorem eq_zero_of_digitByte : ∀ digit < 36, digitByte digit = byteOf '0' → digit = 0 := by decide

section Read

variable {memory : Memory} {s number : Nat} {base i : Word}

theorem numeral_plain (accepted : ItoaBase base)
    (holds : holdsString memory s (digitBytes (numeral base.toNat number)) = true) :
    memory s ≠ byteOf '-' ∧ ¬(memory s = byteOf '0' ∧ memory (s + 1) = byteOf 'x') := by
  obtain ⟨digit, digits, listed, below⟩ := numeral_cons accepted.lower number
  have small : digit < 36 := below.trans_le accepted.upper
  rw [listed] at holds
  obtain ⟨first, rest⟩ := holdsString_cons.mp holds
  rw [first]
  refine ⟨(digitByte_plain digit small).2, ?_⟩
  rintro ⟨zero, next⟩
  -- Only the numeral of zero starts with a zero, and its next character is the end.
  have none : number = 0 := by
    by_contra nonzero
    have head := head_numeral accepted.lower nonzero
    rw [listed, eq_zero_of_digitByte digit small zero] at head
    exact head rfl
  subst none
  rw [numeral, lowDigits_zero] at listed
  obtain ⟨_, rfl⟩ := List.cons.inj listed
  rw [holdsString_nil.mp rest] at next
  exact absurd next (by decide)

def strtolDigits (memory : Memory) (base : Word) (neg : Bool) (s : Nat) : Word × Nat :=
  let (s, value) := strtolLoop memory base 9 s 0
  (if neg then -value else value, s - 1)

theorem strtol_nonneg (accepted : ItoaBase base)
    (holds : holdsString memory s (digitBytes (numeral base.toNat number)) = true) :
    strtol memory s base = strtolDigits memory base false s := by
  obtain ⟨notMinus, notHex⟩ := numeral_plain accepted holds
  unfold strtol
  simp only [if_neg notMinus, if_neg notHex]
  rfl

theorem strtol_neg (accepted : ItoaBase base) (minus : memory s = byteOf '-')
    (holds : holdsString memory (s + 1) (digitBytes (numeral base.toNat number)) = true) :
    strtol memory s base = strtolDigits memory base true (s + 1) := by
  obtain ⟨_, notHex⟩ := numeral_plain accepted holds
  unfold strtol
  simp only [if_pos minus, if_neg notHex]
  rfl

theorem strtolDigits_short (accepted : ItoaBase base) (neg : Bool)
    (holds : holdsString memory s (digitBytes (numeral base.toNat number)) = true)
    (short : (numeral base.toNat number).length ≤ 8) :
    strtolDigits memory base neg s =
      (if neg then -BitVec.ofNat 32 number else BitVec.ofNat 32 number,
        s + (numeral base.toNat number).length) := by
  unfold strtolDigits
  rw [strtolLoop_ends base 0 (fun _ member => accepted.digit_lt member) holds (by omega), wordValue_eq,
    value_numeral]
  rfl

theorem strtolDigits_long (accepted : ItoaBase base) (neg : Bool)
    (holds : holdsString memory s (digitBytes (numeral base.toNat number)) = true)
    (long : 9 ≤ (numeral base.toNat number).length) : (strtolDigits memory base neg s).2 = s + 8 := by
  unfold strtolDigits
  have stop := strtolLoop_limit base 0 (fun _ member => accepted.digit_lt member) holds long
  simp only [stop]
  rfl

theorem strtol_intText (accepted : ItoaBase base)
    (holds : holdsString memory s (intText base.toNat i.toInt) = true) :
    ((numeral base.toNat i.toInt.natAbs).length ≤ 8 →
        strtol memory s base = (i, s + (intText base.toNat i.toInt).length)) ∧
      (9 ≤ (numeral base.toNat i.toInt.natAbs).length →
        (strtol memory s base).2 < s + (intText base.toNat i.toInt).length) := by
  have value := ofNat_natAbs i
  by_cases negative : i.toInt < 0
  · rw [intText_neg negative] at holds ⊢
    obtain ⟨minus, digits⟩ := holdsString_cons.mp holds
    rw [strtol_neg accepted minus digits, List.length_cons, digitBytes, List.length_map]
    rw [if_pos negative] at value
    constructor
    · intro short
      rw [strtolDigits_short accepted true digits short, if_pos rfl, value]
      refine Prod.ext rfl ?_
      simp only []
      omega
    · intro long
      rw [strtolDigits_long accepted true digits long]
      omega
  · rw [intText_nonneg negative] at holds ⊢
    rw [strtol_nonneg accepted holds, digitBytes, List.length_map]
    rw [if_neg negative] at value
    constructor
    · intro short
      rw [strtolDigits_short accepted false holds short, if_neg (by decide), value]
    · intro long
      rw [strtolDigits_long accepted false holds long]
      omega

end Read

structure ReadsBack (memory : Memory) (s : Nat) (base i : Word) : Prop where
  value : (strtol memory s base).1 = i
  stop : EndsAt memory s (strtol memory s base).2

theorem strtol_itoa_iff {base : Word} (accepted : ItoaBase base) (memory : Memory) (i : Word) (s : Nat) :
    (∃ memory', itoa memory i s base = some memory' ∧ ReadsBack memory' s base i) ↔
      i.toInt.natAbs < base.toNat ^ 8 := by
  have ended := intText_ended accepted i.toInt
  have holds := holdsString_writeBytes memory s ended
  have stops := holdsString_endsAt ended holds
  obtain ⟨short, long⟩ := strtol_intText accepted holds
  have digits : (numeral base.toNat i.toInt.natAbs).length ≤ 8 ↔ i.toInt.natAbs < base.toNat ^ 8 := by
    rw [numeral, List.length_reverse]
    exact length_lowDigits_le_iff accepted.lower (by decide)
  rw [itoa_eq accepted, ← digits]
  constructor
  · rintro ⟨memory', written, read⟩
    obtain rfl := Option.some.inj written
    -- With nine digits the end is put before the zero, whatever the value is.
    by_contra more
    have early := long (Nat.lt_of_not_le more)
    have same := read.stop.unique stops
    omega
  · intro fits
    refine ⟨_, rfl, ?_, ?_⟩
    · rw [short fits]
    · rw [short fits]
      exact stops

theorem strtol_itoa_minus : ((-42 : Word).toInt.natAbs < (10 : Word).toNat ^ 8) ∧
    ∃ memory', itoa (fun _ => 0) (-42) 100 10 = some memory' ∧ ReadsBack memory' 100 10 (-42) :=
  ⟨by decide, (strtol_itoa_iff ⟨by decide, by decide⟩ (fun _ => 0) (-42) 100).mpr (by decide)⟩

/-- The nine digits of a hundred million are one too many. -/
theorem strtol_cuts_itoa : ¬∀ (base : Word), ItoaBase base → ∀ (memory : Memory) (i : Word) (s : Nat),
    ∃ memory', itoa memory i s base = some memory' ∧ ReadsBack memory' s base i := by
  intro claimed
  obtain ⟨memory', written, read⟩ := claimed 10 ⟨by decide, by decide⟩ (fun _ => 0) 100000000 0
  have cut : (itoa (fun _ => 0) 100000000 0 10).all
      (fun memory' => memory' (strtol memory' 0 10).2 ≠ 0) = true := by decide
  rw [written, Option.all_some, decide_eq_true_eq] at cut
  exact cut read.stop.zero

end Hellfire

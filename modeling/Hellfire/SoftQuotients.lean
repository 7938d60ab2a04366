import Hellfire.Library.RestoringDivision
import Hellfire.SoftProducts

/-!
Results of the division routines: the loops end, the quotients are exact, and so are the remainders
but for the sign that `__moddi3` gives them.
-/

namespace Hellfire

open Loops RestoringDivision

namespace DivState

variable {width : Nat}

structure Raised (total divisor : BitVec width) (left : Nat) (state : DivState width) : Prop where
  num_eq : state.num = total
  res_eq : state.res = 0
  shifted : ∃ place, left + place + 1 = width ∧ state.bit.toNat = 2 ^ place ∧
    state.den.toNat = divisor.toNat * 2 ^ place

structure Lowered (total divisor left : Nat) (state : DivState width) : Prop where
  bit_eq : state.bit.toNat = 2 ^ left / 2
  den_eq : state.den.toNat = divisor * 2 ^ left / 2
  divided : Divided total divisor left state.num.toNat state.res.toNat

/-- How a bit that is not set yet enters the quotient. -/
def Joins (join : BitVec width → BitVec width → BitVec width) : Prop :=
  ∀ res bit place, 2 ^ (place + 1) ∣ res.toNat → bit.toNat = 2 ^ place →
    res.toNat + 2 ^ place < 2 ^ width → (join res bit).toNat = res.toNat + 2 ^ place

theorem joins_or : Joins (fun res bit : BitVec width => res ||| bit) := by
  intro res bit place decided bit_eq _
  rw [BitVec.toNat_or, bit_eq, or_eq_add decided]

theorem joins_add : Joins (fun res bit : BitVec width => res + bit) := by
  intro res bit place _ bit_eq fits
  rw [BitVec.toNat_add, bit_eq, Nat.mod_eq_of_lt fits]

theorem toNat_doubled {value : BitVec width} {number : Nat} (is : value.toNat = number)
    (fits : number * 2 < 2 ^ width) : (value <<< 1).toNat = number * 2 := by
  rw [BitVec.toNat_shiftLeft, Nat.shiftLeft_eq, is, pow_one, Nat.mod_eq_of_lt fits]

theorem toNat_halved {value : BitVec width} : (value >>> 1).toNat = value.toNat / 2 := by
  rw [BitVec.toNat_ushiftRight, Nat.shiftRight_eq_div_pow, pow_one]

theorem Raised.step {total divisor : BitVec width} (nonzero : divisor ≠ 0) (left : Nat)
    (state : DivState width) (raised : Raised total divisor left state)
    (room : state.den.toNat * 2 < 2 ^ width) :
    ∃ after < left, Raised total divisor after state.raise := by
  obtain ⟨place, places, bit_eq, den_eq⟩ := raised.shifted
  have positive : 1 ≤ divisor.toNat :=
    Nat.pos_of_ne_zero fun zero => nonzero (BitVec.eq_of_toNat_eq zero)
  have bit_le : 2 ^ place ≤ state.den.toNat := by
    rw [den_eq]
    exact Nat.le_mul_of_pos_left _ positive
  have doubled : 2 ^ place * 2 < 2 ^ width := (Nat.mul_le_mul_right 2 bit_le).trans_lt room
  have further : place + 1 < width :=
    (Nat.pow_lt_pow_iff_right (by decide)).mp ((pow_succ 2 place).trans_lt doubled)
  refine ⟨left - 1, by omega, raised.num_eq, raised.res_eq, place + 1, by omega, ?_, ?_⟩
  · exact toNat_doubled bit_eq doubled
  · rw [pow_succ, ← Nat.mul_assoc, ← den_eq]
    exact toNat_doubled rfl room

theorem Lowered.step {total divisor : Nat} (positive : 0 < divisor) (fits : total < 2 ^ width)
    {join : BitVec width → BitVec width → BitVec width} (joins : Joins join) (left : Nat)
    (state : DivState width) (lowered : Lowered total divisor left state) (continues : state.bit ≠ 0) :
    ∃ after < left, Lowered total divisor after (state.lower join) := by
  cases left with
  | zero => exact absurd (BitVec.eq_of_toNat_eq lowered.bit_eq) continues
  | succ left =>
      have bit_eq : state.bit.toNat = 2 ^ left := by
        rw [lowered.bit_eq, pow_succ, Nat.mul_div_cancel _ (by decide)]
      have den_eq : state.den.toNat = divisor * 2 ^ left := by
        rw [lowered.den_eq, pow_succ, ← Nat.mul_assoc, Nat.mul_div_cancel _ (by decide)]
      refine ⟨left, Nat.lt_succ_self left, ?_, ?_, ?_⟩
      · simp only [lower]
        split <;> rw [toNat_halved, bit_eq]
      · simp only [lower]
        split <;> rw [toNat_halved, den_eq]
      · simp only [lower]
        split
        · rename_i enough
          rw [BitVec.le_def, den_eq] at enough
          have taken := lowered.divided.take enough
          rw [BitVec.toNat_sub_of_le (by rwa [BitVec.le_def, den_eq]), den_eq,
            joins _ _ left lowered.divided.decided bit_eq ((taken.res_le positive).trans_lt fits)]
          exact taken
        · rename_i less
          rw [BitVec.le_def, den_eq] at less
          exact lowered.divided.skip (by omega)

theorem divide_spec (guard : DivState width → Prop) [DecidablePred guard] {turns : Nat}
    (enough : width ≤ turns) (wide : 0 < width) (total : BitVec width) {divisor : BitVec width}
    (nonzero : divisor ≠ 0)
    (room : ∀ state, guard state → state.den.toNat * 2 < 2 ^ width)
    (high : ∀ left state, Raised total divisor left state → ¬guard state →
      total.toNat < state.den.toNat * 2)
    {join : BitVec width → BitVec width → BitVec width} (joins : Joins join) :
    ∃ raised final, whileLoop guard raise turns ⟨total, divisor, 1, 0⟩ = some raised ∧
      whileLoop (fun state => state.bit ≠ 0) (lower join) turns raised = some final ∧
      final.res = total / divisor ∧ final.num = total % divisor := by
  have positive : 0 < divisor.toNat :=
    Nat.pos_of_ne_zero fun zero => nonzero (BitVec.eq_of_toNat_eq zero)
  have start : Raised total divisor (width - 1) ⟨total, divisor, 1, 0⟩ := by
    refine ⟨rfl, rfl, 0, by omega, ?_, by simp⟩
    simp only [BitVec.ofNat_eq_ofNat, BitVec.toNat_ofNat, pow_zero]
    exact Nat.mod_eq_of_lt (Nat.one_lt_two_pow (by omega))
  obtain ⟨raised, left, first, holds, stops⟩ := whileLoop_ends
    (fun left state holds continues => holds.step nonzero left state (room state continues)) start
    (show width - 1 ≤ turns by omega)
  obtain ⟨place, places, bit_eq, den_eq⟩ := holds.shifted
  have lowered : Lowered total.toNat divisor.toNat (place + 1) raised := by
    refine ⟨?_, ?_, ?_⟩
    · rw [bit_eq, pow_succ, Nat.mul_div_cancel _ (by decide)]
    · rw [den_eq, pow_succ, ← Nat.mul_assoc, Nat.mul_div_cancel _ (by decide)]
    · rw [holds.num_eq, holds.res_eq]
      refine Divided.start ?_
      rw [pow_succ, ← Nat.mul_assoc, ← den_eq]
      exact high left raised holds stops
  obtain ⟨final, rest, second, finished, done⟩ := whileLoop_ends
    (Lowered.step positive total.isLt joins) lowered (show place + 1 ≤ turns by omega)
  have last : rest = 0 := by
    have empty := finished.bit_eq
    rw [not_not.mp done] at empty
    cases rest with
    | zero => rfl
    | succ rest =>
        rw [pow_succ, Nat.mul_div_cancel _ (by decide)] at empty
        exact absurd empty.symm (Nat.pow_pos (by decide)).ne'
  subst last
  obtain ⟨quotient, remainder⟩ := finished.divided.finish
  exact ⟨raised, final, first, second, BitVec.eq_of_toNat_eq quotient, BitVec.eq_of_toNat_eq remainder⟩

theorem Raised.nonzero {total divisor : BitVec width} (nonzero : divisor ≠ 0) {left : Nat}
    {state : DivState width} (raised : Raised total divisor left state) :
    0 < state.den.toNat ∧ state.bit ≠ 0 := by
  obtain ⟨place, _, bit_eq, den_eq⟩ := raised.shifted
  have positive : 0 < divisor.toNat :=
    Nat.pos_of_ne_zero fun zero => nonzero (BitVec.eq_of_toNat_eq zero)
  have power : 0 < 2 ^ place := Nat.pow_pos (by decide)
  constructor
  · rw [den_eq]
    exact Nat.mul_pos positive power
  · intro zero
    rw [zero] at bit_eq
    exact absurd bit_eq.symm power.ne'

end DivState

theorem and_top_eq_zero (den : Word) : den &&& ((1 : Word) <<< 31) = 0 ↔ den.toNat < 2 ^ 31 := by
  have top : (1 : Word) <<< 31 = BitVec.twoPow 32 31 := by decide
  have last : den.getLsbD 31 = decide (2 ^ 31 ≤ den.toNat) :=
    (BitVec.msb_eq_getLsbD_last den).symm.trans (BitVec.msb_eq_decide den)
  rw [top, BitVec.and_twoPow, last]
  by_cases high : 2 ^ 31 ≤ den.toNat
  · simp only [high, decide_true, if_true]
    exact ⟨fun zero => absurd zero (by decide), fun low => absurd low (Nat.not_lt.mpr high)⟩
  · simp only [high, decide_false, Bool.false_eq_true, if_false]
    exact ⟨fun _ => Nat.not_le.mp high, fun _ => rfl⟩

theorem zero_sle_iff (den : Dword) : (0 : Dword).sle den = true ↔ den.toNat < 2 ^ 63 := by
  change (0#64).sle den = true ↔ _
  rw [BitVec.zero_sle_eq_not_msb, BitVec.msb_eq_decide]
  simp

theorem udivmodsi4_eq (num : Word) {den : Word} (nonzero : den ≠ 0) (modwanted : Word) :
    udivmodsi4 num den modwanted = some (if modwanted ≠ 0 then num % den else num / den) := by
  obtain ⟨raised, final, first, second, quotient, remainder⟩ :=
    DivState.divide_spec
      (fun state => state.den < state.num ∧ state.bit ≠ 0 ∧ state.den &&& ((1 : Word) <<< 31) = 0)
      (Nat.le_refl 32) (by decide) num nonzero
      (fun state continues => by
        have := (and_top_eq_zero state.den).mp continues.2.2
        omega)
      (fun left state holds stops => by
        obtain ⟨positive, set⟩ := holds.nonzero nonzero
        rw [← holds.num_eq]
        by_cases less : state.den < state.num
        · have top := mt (and_top_eq_zero state.den).mpr fun clear => stops ⟨less, set, clear⟩
          have := state.num.isLt
          omega
        · rw [BitVec.lt_def] at less
          omega)
      DivState.joins_or
  unfold udivmodsi4
  rw [first, Option.bind_eq_bind, Option.bind_some, second, Option.bind_some, quotient, remainder]
  rfl

theorem udivmoddi4_eq (num : Dword) {den : Dword} (nonzero : den ≠ 0) :
    udivmoddi4 num den = some (num / den, num % den) := by
  obtain ⟨raised, final, first, second, quotient, remainder⟩ :=
    DivState.divide_spec (fun state => (0 : Dword).sle state.den) (Nat.le_refl 64) (by decide) num
      nonzero
      (fun state continues => by
        have := (zero_sle_iff state.den).mp continues
        omega)
      (fun left state holds stops => by
        have := mt (zero_sle_iff state.den).mpr stops
        have := num.isLt
        omega)
      DivState.joins_add
  unfold udivmoddi4
  rw [if_neg nonzero, first, Option.bind_eq_bind, Option.bind_some, second, Option.bind_some, quotient,
    remainder]
  rfl

theorem slt_zero_eq {width : Nat} (x : BitVec width) : x.slt 0 = x.msb := BitVec.slt_zero_eq_msb

theorem neg_ne_zero_of {width : Nat} {x : BitVec width} (nonzero : x ≠ 0) : -x ≠ 0 := by
  intro zero
  exact nonzero (BitVec.neg_eq_zero_iff.mp zero)

theorem divsi3_eq (a : Word) {b : Word} (nonzero : b ≠ 0) : divsi3 a b = some (a.sdiv b) := by
  unfold divsi3
  rw [BitVec.sdiv_eq, slt_zero_eq, slt_zero_eq]
  cases a.msb <;> cases b.msb
  · simp [udivmodsi4_eq _ nonzero]
  · simp [udivmodsi4_eq _ (neg_ne_zero_of nonzero)]
  · simp [udivmodsi4_eq _ nonzero]
  · simp [udivmodsi4_eq _ (neg_ne_zero_of nonzero)]

theorem modsi3_eq (a : Word) {b : Word} (nonzero : b ≠ 0) : modsi3 a b = some (a.srem b) := by
  unfold modsi3
  rw [BitVec.srem_eq, slt_zero_eq, slt_zero_eq]
  cases a.msb <;> cases b.msb
  · simp [udivmodsi4_eq _ nonzero]
  · simp [udivmodsi4_eq _ (neg_ne_zero_of nonzero)]
  · simp [udivmodsi4_eq _ nonzero]
  · simp [udivmodsi4_eq _ (neg_ne_zero_of nonzero)]

theorem divdi3_eq (num : Dword) {den : Dword} (nonzero : den ≠ 0) :
    divdi3 num den = some (num.sdiv den) := by
  unfold divdi3
  rw [BitVec.sdiv_eq, slt_zero_eq, slt_zero_eq]
  cases num.msb <;> cases den.msb
  · simp [udivmoddi4_eq _ nonzero]
  · simp [udivmoddi4_eq _ (neg_ne_zero_of nonzero)]
  · simp [udivmoddi4_eq _ nonzero]
  · simp [udivmoddi4_eq _ (neg_ne_zero_of nonzero)]

theorem moddi3_eq (num : Dword) {den : Dword} (nonzero : den ≠ 0) :
    moddi3 num den = some (if den.msb then -num.srem den else num.srem den) := by
  unfold moddi3
  rw [BitVec.srem_eq, slt_zero_eq, slt_zero_eq]
  cases num.msb <;> cases den.msb
  · simp [udivmoddi4_eq _ nonzero]
  · simp [udivmoddi4_eq _ (neg_ne_zero_of nonzero)]
  · simp [udivmoddi4_eq _ nonzero]
  · simp [udivmoddi4_eq _ (neg_ne_zero_of nonzero)]

theorem sdiv_eq_ofInt {width : Nat} (a b : BitVec width) :
    a.sdiv b = BitVec.ofInt width (a.toInt.tdiv b.toInt) :=
  BitVec.eq_of_toInt_eq (by rw [BitVec.toInt_sdiv, BitVec.toInt_ofInt])

theorem softQuotients_exact {b : Word} {den : Dword} (nonzero : b ≠ 0) (wideNonzero : den ≠ 0) (a : Word)
    (num : Dword) :
    udivmodsi4 a b 0 = some (a / b) ∧ (∀ modwanted ≠ 0, udivmodsi4 a b modwanted = some (a % b)) ∧
      udivmoddi4 num den = some (num / den, num % den) ∧
      divsi3 a b = some (BitVec.ofInt 32 (a.toInt.tdiv b.toInt)) ∧
      (∃ rest, modsi3 a b = some rest ∧ rest.toInt = a.toInt.tmod b.toInt) ∧
      divdi3 num den = some (BitVec.ofInt 64 (num.toInt.tdiv den.toInt)) := by
  refine ⟨?_, ?_, udivmoddi4_eq num wideNonzero, ?_, ?_, ?_⟩
  · exact udivmodsi4_eq a nonzero 0
  · intro modwanted wanted
    rw [udivmodsi4_eq a nonzero, if_pos wanted]
  · rw [divsi3_eq a nonzero, sdiv_eq_ofInt]
  · exact ⟨a.srem b, modsi3_eq a nonzero, BitVec.toInt_srem a b⟩
  · rw [divdi3_eq num wideNonzero, sdiv_eq_ofInt]

theorem softQuotients_exact_intMin :
    divsi3 (BitVec.intMin 32) (-1) = some (BitVec.intMin 32) ∧
      divdi3 (BitVec.intMin 64) (-1) = some (BitVec.intMin 64) := by
  have exactly := softQuotients_exact (show (-1 : Word) ≠ 0 by decide) (show (-1 : Dword) ≠ 0 by decide)
    (BitVec.intMin 32) (BitVec.intMin 64)
  exact ⟨exactly.2.2.2.1, exactly.2.2.2.2.2⟩

structure DivisionAgrees (num den quotient rest : Dword) : Prop where
  joined : num = quotient * den + rest
  sign : rest = 0 ∨ rest.slt 0 = num.slt 0

theorem sdiv_mul_add_srem {width : Nat} (num den : BitVec width) :
    num = num.sdiv den * den + num.srem den := by
  have rest : num.srem den = BitVec.ofInt width (num.toInt.tmod den.toInt) := by
    rw [← BitVec.toInt_srem, BitVec.ofInt_toInt]
  have divisor : den = BitVec.ofInt width den.toInt := BitVec.ofInt_toInt.symm
  calc
    num = BitVec.ofInt width num.toInt := BitVec.ofInt_toInt.symm
    _ = BitVec.ofInt width (num.toInt.tdiv den.toInt * den.toInt + num.toInt.tmod den.toInt) := by
      rw [Int.mul_comm, Int.mul_tdiv_add_tmod]
    _ = num.sdiv den * den + num.srem den := by
      rw [BitVec.ofInt_add, BitVec.ofInt_mul, ← sdiv_eq_ofInt, ← rest, ← divisor]

theorem srem_sign (num den : Dword) : num.srem den = 0 ∨ (num.srem den).slt 0 = num.slt 0 := by
  by_cases zero : num.srem den = 0
  · exact Or.inl zero
  · refine Or.inr ?_
    have set : decide (num.srem den ≠ 0) = true := decide_eq_true zero
    rw [slt_zero_eq, slt_zero_eq, BitVec.msb_srem, set, Bool.and_true]

/-- A remainder is smaller than a word, so it differs from its negation. -/
theorem neg_srem_ne {num den : Dword} (nonzero : den ≠ 0) (rest : num.srem den ≠ 0) :
    -num.srem den ≠ num.srem den := by
  intro same
  have positive : den.toInt ≠ 0 := fun zero => nonzero (BitVec.eq_of_toInt_eq zero)
  have small : (num.srem den).toInt.natAbs < den.toInt.natAbs := by
    rw [BitVec.toInt_srem, Int.natAbs_tmod]
    exact Nat.mod_lt _ (Int.natAbs_pos.mpr positive)
  have lower := BitVec.le_toInt den
  have upper := BitVec.toInt_lt (x := den)
  have notZero : (num.srem den).toNat ≠ 0 := fun zero => rest (BitVec.eq_of_toNat_eq zero)
  have half := congrArg BitVec.toNat same
  have value := BitVec.toInt_eq_toNat_cond (num.srem den)
  rw [BitVec.toNat_neg] at half
  split at value <;> omega

theorem moddi3_agrees_iff {den : Dword} (nonzero : den ≠ 0) (num : Dword) :
    (∃ quotient rest, divdi3 num den = some quotient ∧ moddi3 num den = some rest ∧
        DivisionAgrees num den quotient rest) ↔
      0 < den.toInt ∨ den.toInt ∣ num.toInt := by
  have joined := sdiv_mul_add_srem num den
  rw [divdi3_eq num nonzero, moddi3_eq num nonzero]
  cases sign : den.msb with
  | false =>
      have positive : 0 < den.toInt := by
        have kept := BitVec.toInt_nonneg_of_msb_false sign
        have : den.toInt ≠ 0 := fun zero => nonzero (BitVec.eq_of_toInt_eq zero)
        omega
      simp only [Bool.false_eq_true, if_false, positive, true_or, iff_true]
      exact ⟨_, _, rfl, rfl, joined, srem_sign num den⟩
  | true =>
      have negative : ¬0 < den.toInt := Int.not_lt.mpr (BitVec.toInt_neg_of_msb_true sign).le
      simp only [if_true, negative, false_or]
      constructor
      · rintro ⟨quotient, rest, divided, remained, agrees⟩
        obtain rfl := Option.some.inj divided
        obtain rfl := Option.some.inj remained
        by_contra rests
        have notZero : num.srem den ≠ 0 := by
          intro zero
          have value := BitVec.toInt_srem num den
          rw [zero] at value
          exact rests (Int.dvd_iff_tmod_eq_zero.mpr value.symm)
        exact neg_srem_ne nonzero notZero (add_left_cancel (agrees.joined.symm.trans joined))
      · intro divides
        have zero : num.srem den = 0 := BitVec.srem_zero_of_dvd divides
        rw [zero] at joined ⊢
        exact ⟨_, _, rfl, rfl, joined, Or.inl rfl⟩

theorem moddi3_agrees_seven :
    ∃ quotient rest, divdi3 (-7) 2 = some quotient ∧ moddi3 (-7) 2 = some rest ∧
      DivisionAgrees (-7) 2 quotient rest :=
  (moddi3_agrees_iff (show (2 : Dword) ≠ 0 by decide) (-7)).mpr (Or.inl (by decide))

theorem moddi3_disagrees : ¬∀ num den : Dword, den ≠ 0 →
    ∃ quotient rest, divdi3 num den = some quotient ∧ moddi3 num den = some rest ∧
      DivisionAgrees num den quotient rest := by
  intro agree
  obtain ⟨quotient, rest, divided, remained, agrees⟩ := agree 7 (-2) (by decide)
  rw [divdi3_eq 7 (by decide)] at divided
  rw [moddi3_eq 7 (by decide)] at remained
  obtain rfl := Option.some.inj divided
  obtain rfl := Option.some.inj remained
  exact absurd agrees.joined (by decide)

end Hellfire

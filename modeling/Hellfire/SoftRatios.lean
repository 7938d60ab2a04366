import Hellfire.Library.Loops
import Hellfire.SoftRounding

/-!
Products and quotients of single precision numbers: in the range of the normal numbers a
product is 33/64 of a place off at most, and a quotient half a place.
-/

namespace Hellfire

open BinaryFloats Format Loops

namespace SoftArithmetic

section Results

theorem range_significand {q : ℚ} {exponent : ℤ} (range : NormalRange (q * 2 ^ (exponent - 150)))
    (positive : 0 < q) :
    2 ^ 24 ≤ q * 2 ^ exponent ∧ q * 2 ^ exponent ≤ (2 ^ 24 - 1) * 2 ^ (254 : ℤ) := by
  obtain ⟨low, high⟩ := range
  have unit : (0 : ℚ) < 2 ^ (-150 : ℤ) := zpow_pos two_pos _
  have power : |q * 2 ^ (exponent - 150)| = q * 2 ^ exponent * 2 ^ (-150 : ℤ) := by
    rw [sub_eq_add_neg, zpow_add₀ two_ne_zero, ← mul_assoc]
    apply abs_of_pos
    exact mul_pos (mul_pos positive (zpow_pos two_pos _)) unit
  have lowest : (2 : ℚ) ^ (-126 : ℤ) = 2 ^ 24 * 2 ^ (-150 : ℤ) := by norm_num
  have highest : (2 : ℚ) ^ (104 : ℤ) = 2 ^ (254 : ℤ) * 2 ^ (-150 : ℤ) := by
    rw [← zpow_add₀ two_ne_zero]
    norm_num
  rw [power, lowest] at low
  rw [power, highest, ← mul_assoc] at high
  exact ⟨le_of_mul_le_mul_right low unit, le_of_mul_le_mul_right high unit⟩

theorem exponent_pos {q : ℚ} {exponent : ℤ} (low : 2 ^ 24 ≤ q * 2 ^ exponent) (positive : 0 < q)
    (small : q < 2 ^ 24) : 0 < exponent := by
  by_contra none
  have power : (2 : ℚ) ^ exponent ≤ 1 := zpow_le_one_of_nonpos₀ one_le_two (by omega)
  nlinarith

theorem exponent_le {q : ℚ} {exponent : ℤ}
    (high : q * 2 ^ exponent ≤ (2 ^ 24 - 1) * 2 ^ (254 : ℤ)) (large : (2 ^ 24 - 1) / 2 < q) :
    exponent ≤ 254 := by
  by_contra more
  have power : (2 : ℚ) ^ (255 : ℤ) ≤ 2 ^ exponent := zpow_le_zpow_right₀ one_le_two (by omega)
  have double : (2 : ℚ) ^ (255 : ℤ) = 2 * 2 ^ (254 : ℤ) := by
    rw [← zpow_one_add₀ two_ne_zero]
    norm_num
  have unit : (0 : ℚ) < 2 ^ (254 : ℤ) := zpow_pos two_pos _
  rw [double] at power
  nlinarith

variable {s e m : Word} {sign : Bool} {q places : ℚ}

theorem packed_significand (s_eq : s.toNat = sign.toNat * 2 ^ 31) (low : 2 ^ 23 ≤ m.toNat)
    (high : m.toNat < 2 ^ 24) (error : |(m.toNat : ℚ) - q| ≤ places) (large : (2 ^ 24 - 1) / 2 < q)
    (small : q < 2 ^ 24) (range : NormalRange (q * 2 ^ (e.toInt - 150))) :
    Near places (pack s e (m &&& ~~~hidden)) ((if sign then -1 else 1) * (q * 2 ^ (e.toInt - 150))) := by
  have positive : 0 < q := lt_trans (by norm_num) large
  obtain ⟨lowest, highest⟩ := range_significand range positive
  have least := exponent_pos lowest positive small
  have most := exponent_le highest large
  have whole : (e.toNat : ℤ) = e.toInt := by
    rw [BitVec.toInt_eq_toNat_cond] at least ⊢
    split at least <;> omega
  apply packed_near s_eq (by omega) (by omega) low high
  rw [whole, ← sub_mul, abs_mul, abs_of_pos (zpow_pos two_pos _ : (0 : ℚ) < 2 ^ (e.toInt - 150))]
  exact mul_le_mul_of_nonneg_right error (zpow_nonneg zero_le_two _)

theorem packed_carried (s_eq : s.toNat = sign.toNat * 2 ^ 31) (low : 2 ^ 23 ≤ m.toNat)
    (high : m.toNat ≤ 2 ^ 24) (above : (m.toNat : ℚ) - q ≤ 1 / 2) (below : q - m.toNat ≤ 33 / 64)
    (large : 2 ^ 23 ≤ q) (inside : e.toInt < 2 ^ 31 - 1) (range : NormalRange (q * 2 ^ (e.toInt - 150))) :
    Near (33 / 64)
      (let (m, e) := if m &&& (hidden <<< 1) ≠ 0 then (m >>> 1, e + 1) else (m, e)
       pack s e (m &&& ~~~hidden))
      ((if sign then -1 else 1) * (q * 2 ^ (e.toInt - 150))) := by
  have place : hidden <<< 1 = (1 <<< 24 : Word) := by decide
  simp only [place, bit_ne_zero_iff m 24 (by decide)]
  split
  · rename_i carries
    have full : (m.toNat : ℚ) = 2 ^ 24 := by exact_mod_cast (by omega : m.toNat = 2 ^ 24)
    have halved : (m >>> 1).toNat = 2 ^ 23 := by
      rw [BitVec.toNat_ushiftRight, Nat.shiftRight_eq_div_pow]
      omega
    have cast : ((m >>> 1).toNat : ℚ) = 2 ^ 23 := by exact_mod_cast halved
    have next : (e + 1).toInt = e.toInt + 1 := by
      have least := BitVec.le_toInt e
      have one : (1 : Word).toInt = 1 := rfl
      rw [BitVec.toInt_add, one]
      apply Int.bmod_eq_of_le
      · omega
      · omega
    have same : q * 2 ^ (e.toInt - 150) = q / 2 * 2 ^ ((e + 1).toInt - 150) := by
      have power : e.toInt + 1 - 150 = 1 + (e.toInt - 150) := by ring
      rw [next, power, zpow_add₀ two_ne_zero, zpow_one]
      ring
    rw [same] at range ⊢
    apply packed_significand s_eq halved.ge (by omega) _ _ _ range
    · rw [cast, abs_le]
      constructor
      · linarith
      · linarith
    · linarith
    · linarith
  · rename_i short
    have notFull : m.toNat < 2 ^ 24 := by omega
    have cast : (m.toNat : ℚ) ≤ 2 ^ 24 - 1 := by
      have whole : m.toNat + 1 ≤ 2 ^ 24 := notFull
      have whole' : (m.toNat : ℚ) + 1 ≤ 2 ^ 24 := by exact_mod_cast whole
      linarith
    apply packed_significand s_eq low notFull _ _ _ range
    · rw [abs_le]
      constructor
      · linarith
      · linarith
    · linarith
    · linarith

end Results

section Products

variable {a1 a2 : Word}

theorem toNat_signs (a1 a2 : Word) : (signOf a1 ^^^ signOf a2).toNat =
    (xor (decide (single.Negative a1.toNat)) (decide (single.Negative a2.toNat))).toNat * 2 ^ 31 := by
  have sign (a : Word) : signOf a = if single.Negative a.toNat then signbit else 0 := by
    have mask : signbit = BitVec.twoPow 32 31 := rfl
    have bit := signOf_ne_zero_iff a
    split
    · rename_i negative
      have some := bit.mpr negative
      rw [signOf, mask, BitVec.and_twoPow] at some ⊢
      split at some
      · rename_i set
        rw [if_pos set]
      · exact absurd rfl some
    · rename_i positive
      by_contra some
      exact positive (bit.mp some)
  rw [sign a1, sign a2]
  by_cases negative1 : single.Negative a1.toNat
  · by_cases negative2 : single.Negative a2.toNat
    · simp [negative1, negative2]
    · simp [negative1, negative2, signbit]
  · by_cases negative2 : single.Negative a2.toNat
    · simp [negative1, negative2, signbit]
    · simp [negative1, negative2]

def highWord (m1 m2 : Nat) : Nat :=
  m1 / 2 ^ 8 * (m2 / 2 ^ 8) + m1 % 2 ^ 8 * (m2 / 2 ^ 8) / 2 ^ 8 + m2 % 2 ^ 8 * (m1 / 2 ^ 8) / 2 ^ 8

theorem highWord_bounds (m1 m2 : Nat) :
    2 ^ 16 * highWord m1 m2 ≤ m1 * m2 ∧ m1 * m2 < 2 ^ 16 * (highWord m1 m2 + 3) := by
  obtain ⟨a, b, m1_eq, b_lt⟩ : ∃ a b, m1 = 2 ^ 8 * a + b ∧ b < 2 ^ 8 :=
    ⟨m1 / 2 ^ 8, m1 % 2 ^ 8, by omega, by omega⟩
  obtain ⟨c, d, m2_eq, d_lt⟩ : ∃ c d, m2 = 2 ^ 8 * c + d ∧ d < 2 ^ 8 :=
    ⟨m2 / 2 ^ 8, m2 % 2 ^ 8, by omega, by omega⟩
  have upper1 : m1 / 2 ^ 8 = a := by omega
  have lower1 : m1 % 2 ^ 8 = b := by omega
  have upper2 : m2 / 2 ^ 8 = c := by omega
  have lower2 : m2 % 2 ^ 8 = d := by omega
  have product : m1 * m2 = 2 ^ 16 * (a * c) + 2 ^ 8 * (b * c) + 2 ^ 8 * (d * a) + b * d := by
    rw [m1_eq, m2_eq]
    ring
  have least : b * d < 2 ^ 8 * 2 ^ 8 := Nat.mul_lt_mul'' b_lt d_lt
  rw [highWord, upper1, lower1, upper2, lower2, product]
  omega

theorem mantOf_bounds (a : Word) : 2 ^ 23 ≤ (mantOf a).toNat ∧ (mantOf a).toNat < 2 ^ 24 := by
  have small : single.fraction a.toNat < 2 ^ 23 := single.fraction_lt _
  rw [toNat_mantOf]
  omega

theorem toNat_product (a1 a2 : Word) :
    ((mantOf a1).sshiftRight 8 * (mantOf a2).sshiftRight 8 +
      ((mantOf a1 &&& 0xff) * (mantOf a2).sshiftRight 8).sshiftRight 8 +
      ((mantOf a2 &&& 0xff) * (mantOf a1).sshiftRight 8).sshiftRight 8).toNat =
      highWord (mantOf a1).toNat (mantOf a2).toNat := by
  have bounds1 := mantOf_bounds a1
  have bounds2 := mantOf_bounds a2
  have upper (a : Word) : ((mantOf a).sshiftRight 8).toNat = (mantOf a).toNat / 2 ^ 8 := by
    have bounds := mantOf_bounds a
    exact toNat_sshiftRight_of_lt (by omega) 8
  have lower (a : Word) : (mantOf a &&& 0xff).toNat = (mantOf a).toNat % 2 ^ 8 := by
    rw [BitVec.toNat_and]
    exact Nat.and_two_pow_sub_one_eq_mod _ 8
  have cross (a b : Word) (small : (mantOf b).toNat < 2 ^ 24) :
      (((mantOf a &&& 0xff) * (mantOf b).sshiftRight 8).sshiftRight 8).toNat =
        (mantOf a).toNat % 2 ^ 8 * ((mantOf b).toNat / 2 ^ 8) / 2 ^ 8 := by
    have below : (mantOf a).toNat % 2 ^ 8 * ((mantOf b).toNat / 2 ^ 8) < 2 ^ 8 * 2 ^ 16 :=
      Nat.mul_lt_mul'' (by omega) (by omega)
    have product : ((mantOf a &&& 0xff) * (mantOf b).sshiftRight 8).toNat =
        (mantOf a).toNat % 2 ^ 8 * ((mantOf b).toNat / 2 ^ 8) := by
      rw [BitVec.toNat_mul, lower, upper]
      exact Nat.mod_eq_of_lt (by omega)
    rw [toNat_sshiftRight_of_lt (by omega) 8, product]
  have whole := highWord_bounds (mantOf a1).toNat (mantOf a2).toNat
  have large : (mantOf a1).toNat * (mantOf a2).toNat < 2 ^ 24 * 2 ^ 24 :=
    Nat.mul_lt_mul'' bounds1.2 bounds2.2
  have fits : highWord (mantOf a1).toNat (mantOf a2).toNat < 2 ^ 32 := by omega
  rw [BitVec.toNat_add, BitVec.toNat_add, BitVec.toNat_mul, upper, upper, cross a1 a2 bounds2.2,
    cross a2 a1 bounds1.2, Nat.mod_add_mod, Nat.add_assoc, Nat.mod_add_mod, ← Nat.add_assoc]
  exact Nat.mod_eq_of_lt fits

theorem product_rounded {product cut result places : Nat} (which : places = 5 ∨ places = 6)
    (low : 2 ^ 16 * cut ≤ product) (high : product < 2 ^ 16 * (cut + 3))
    (long : 2 ^ (23 + places) ≤ cut / 4) (short : cut / 4 < 2 ^ (24 + places))
    (is : result = (cut / 4 + 2 ^ (places - 1)) / 2 ^ places) :
    2 ^ 23 ≤ result ∧ result ≤ 2 ^ 24 ∧ (result : ℚ) - product / 2 ^ (18 + places) ≤ 1 / 2 ∧
      product / 2 ^ (18 + places) - (result : ℚ) ≤ 33 / 64 ∧
        (2 : ℚ) ^ 23 ≤ product / 2 ^ (18 + places) := by
  have positive : (0 : ℚ) < 2 ^ (18 + places) := pow_pos two_pos _
  have whole : 2 ^ 23 ≤ result ∧ result ≤ 2 ^ 24 ∧
      2 * (result * 2 ^ (18 + places)) ≤ 2 * product + 2 ^ (18 + places) ∧
      64 * product ≤ (64 * result + 33) * 2 ^ (18 + places) ∧ 2 ^ 23 * 2 ^ (18 + places) ≤ product := by
    rcases which with rfl | rfl
    · omega
    · omega
  obtain ⟨least, most, above, below, large⟩ := whole
  refine ⟨least, most, ?_, ?_, ?_⟩
  · rw [sub_le_iff_le_add, ← sub_le_iff_le_add', le_div_iff₀ positive]
    have above' : (2 * (result * 2 ^ (18 + places)) : ℚ) ≤ 2 * product + 2 ^ (18 + places) := by
      exact_mod_cast above
    linarith
  · rw [sub_le_iff_le_add, div_le_iff₀ positive]
    have below' : (64 * product : ℚ) ≤ (64 * result + 33) * 2 ^ (18 + places) := by
      exact_mod_cast below
    linarith
  · rw [le_div_iff₀ positive]
    exact_mod_cast large

theorem sign_xor (negative1 negative2 : Prop) [Decidable negative1] [Decidable negative2] :
    (if (xor (decide negative1) (decide negative2)) then -1 else 1 : ℚ) =
      (if negative1 then -1 else 1) * (if negative2 then -1 else 1) := by
  by_cases is1 : negative1
  · by_cases is2 : negative2
    · simp [is1, is2]
    · simp [is1, is2]
  · by_cases is2 : negative2
    · simp [is1, is2]
    · simp [is1, is2]

theorem toInt_product_exp (a1 a2 : Word) : (expOf a1 - excess + expOf a2).toInt =
    (single.exponent a1.toNat : ℤ) - 126 + single.exponent a2.toNat := by
  have small1 := exponent_lt a1
  have small2 := exponent_lt a2
  have bias : excess.toInt = 126 := by decide
  have difference : (expOf a1 - excess).toInt = (single.exponent a1.toNat : ℤ) - 126 := by
    rw [BitVec.toInt_sub, toInt_expOf, bias]
    apply Int.bmod_eq_of_le
    · omega
    · omega
  rw [BitVec.toInt_add, difference, toInt_expOf]
  apply Int.bmod_eq_of_le
  · omega
  · omega

theorem product_value (normal1 : 0 < single.exponent a1.toNat) (normal2 : 0 < single.exponent a2.toNat)
    (places : Nat) {exponent : ℤ} (is : exponent =
      (single.exponent a1.toNat : ℤ) - 126 + single.exponent a2.toNat - 6 + places) :
    single.value a1.toNat * single.value a2.toNat =
      (if (xor (decide (single.Negative a1.toNat)) (decide (single.Negative a2.toNat))) then -1 else 1) *
        (((mantOf a1).toNat * (mantOf a2).toNat : Nat) / 2 ^ (18 + places) * 2 ^ (exponent - 150)) := by
  have scale : (2 : ℚ) ^ (exponent - 150) = 2 ^ (18 + places) *
      (2 ^ ((single.exponent a1.toNat : ℤ) - 150) * 2 ^ ((single.exponent a2.toNat : ℤ) - 150)) := by
    rw [← zpow_natCast, ← zpow_add₀ two_ne_zero, ← zpow_add₀ two_ne_zero, is]
    have power : (single.exponent a1.toNat : ℤ) - 126 + single.exponent a2.toNat - 6 + places - 150 =
        ((18 + places : Nat) : ℤ) +
          ((single.exponent a1.toNat : ℤ) - 150 + ((single.exponent a2.toNat : ℤ) - 150)) := by
      push_cast
      ring
    rw [power]
  have nonzero : (2 : ℚ) ^ (18 + places) ≠ 0 := pow_ne_zero _ two_ne_zero
  rw [value_significand normal1, value_significand normal2, sign_xor, scale, toNat_mantOf, toNat_mantOf,
    ← mul_assoc (_ / _ : ℚ), div_mul_cancel₀ _ nonzero, Nat.cast_mul]
  ring

theorem product_packed (normal1 : 0 < single.exponent a1.toNat) (normal2 : 0 < single.exponent a2.toNat)
    (range : NormalRange (single.value a1.toNat * single.value a2.toNat)) {result exp : Word}
    {places : Nat} (which : places = 5 ∨ places = 6)
    (exp_eq : exp.toInt =
      (single.exponent a1.toNat : ℤ) - 126 + single.exponent a2.toNat - 6 + places)
    (long : 2 ^ (23 + places) ≤ highWord (mantOf a1).toNat (mantOf a2).toNat / 4)
    (short : highWord (mantOf a1).toNat (mantOf a2).toNat / 4 < 2 ^ (24 + places))
    (result_eq : result.toNat =
      (highWord (mantOf a1).toNat (mantOf a2).toNat / 4 + 2 ^ (places - 1)) / 2 ^ places) :
    Near (33 / 64)
      (let (m, e) := if result &&& (hidden <<< 1) ≠ 0 then (result >>> 1, exp + 1) else (result, exp)
       pack (signOf a1 ^^^ signOf a2) e (m &&& ~~~hidden))
      (single.value a1.toNat * single.value a2.toNat) := by
  have small1 := exponent_lt a1
  have small2 := exponent_lt a2
  obtain ⟨low, high⟩ := highWord_bounds (mantOf a1).toNat (mantOf a2).toNat
  obtain ⟨least, most, above, below, large⟩ := product_rounded which low high long short result_eq
  have valued := product_value normal1 normal2 places exp_eq
  rw [valued] at range ⊢
  apply packed_carried (toNat_signs a1 a2) least most above below large
  · omega
  · unfold NormalRange at *
    rw [abs_mul, abs_sign, one_mul] at range
    exact range

theorem mulsf3_normal (ordinary1 : Ordinary a1) (ordinary2 : Ordinary a2) (some1 : a1 ≠ 0) (some2 : a2 ≠ 0)
    (range : NormalRange (single.value a1.toNat * single.value a2.toNat)) :
    Near (33 / 64) (mulsf3 a1 a2) (single.value a1.toNat * single.value a2.toNat) := by
  have normal1 := (ordinary1.resolve_left some1).1
  have normal2 := (ordinary2.resolve_left some2).1
  have bounds := highWord_bounds (mantOf a1).toNat (mantOf a2).toNat
  have bounds1 := mantOf_bounds a1
  have bounds2 := mantOf_bounds a2
  have least : 2 ^ 23 * 2 ^ 23 ≤ (mantOf a1).toNat * (mantOf a2).toNat := Nat.mul_le_mul bounds1.1 bounds2.1
  have most : (mantOf a1).toNat * (mantOf a2).toNat < 2 ^ 24 * 2 ^ 24 :=
    Nat.mul_lt_mul'' bounds1.2 bounds2.2
  have product := toNat_product a1 a2
  have longest : 2 ^ 30 ≤ highWord (mantOf a1).toNat (mantOf a2).toNat := by
    have upper : 2 ^ 15 * 2 ^ 15 ≤ (mantOf a1).toNat / 2 ^ 8 * ((mantOf a2).toNat / 2 ^ 8) :=
      Nat.mul_le_mul (by omega) (by omega)
    rw [highWord]
    omega
  have exponents := toInt_product_exp a1 a2
  have neither : ¬(a1 = 0 ∨ a2 = 0) := not_or.mpr ⟨some1, some2⟩
  rw [mulsf3, if_neg neither]
  dsimp only
  have place : (0x20000000 : Word) = 1 <<< 29 := by decide
  generalize (mantOf a1).sshiftRight 8 * (mantOf a2).sshiftRight 8 +
      ((mantOf a1 &&& 0xff) * (mantOf a2).sshiftRight 8).sshiftRight 8 +
      ((mantOf a2 &&& 0xff) * (mantOf a1).sshiftRight 8).sshiftRight 8 = sum at product ⊢
  have cut : (sum >>> 2).toNat = highWord (mantOf a1).toNat (mantOf a2).toNat / 4 := by
    rw [BitVec.toNat_ushiftRight, Nat.shiftRight_eq_div_pow, product]
  by_cases long : sum >>> 2 &&& 0x20000000 ≠ 0
  · rw [if_pos long]
    rw [place, bit_ne_zero_iff _ 29 (by decide), cut] at long
    apply product_packed normal1 normal2 range (Or.inr rfl)
    · rw [exponents]
      norm_num
    · omega
    · omega
    · have half : (0x20 : Word).toNat = 32 := rfl
      rw [BitVec.toNat_ushiftRight, Nat.shiftRight_eq_div_pow, BitVec.toNat_add, cut, half]
      omega
  · rw [if_neg long]
    rw [place, bit_ne_zero_iff _ 29 (by decide), cut] at long
    apply product_packed normal1 normal2 range (Or.inl rfl)
    · have one : (1 : Word).toInt = 1 := rfl
      have small1 := exponent_lt a1
      have small2 := exponent_lt a2
      rw [BitVec.toInt_sub, exponents, one, Int.bmod_eq_of_le (by omega) (by omega)]
      push_cast
      ring
    · omega
    · omega
    · have half : (0x10 : Word).toNat = 16 := rfl
      rw [BitVec.toNat_ushiftRight, Nat.shiftRight_eq_div_pow, BitVec.toNat_add, cut, half]
      omega

/-- A product in the range of the normal numbers comes out right but for 33/64 of its last place. -/
theorem mulsf3_near (ordinary1 : Ordinary a1) (ordinary2 : Ordinary a2)
    (range : single.value a1.toNat * single.value a2.toNat = 0 ∨
      NormalRange (single.value a1.toNat * single.value a2.toNat)) :
    Near (33 / 64) (mulsf3 a1 a2) (single.value a1.toNat * single.value a2.toNat) := by
  by_cases some : a1 = 0 ∨ a2 = 0
  · have zero : single.value a1.toNat * single.value a2.toNat = 0 := by
      rcases some with none | none
      · rw [none, value_zero_word, zero_mul]
      · rw [none, value_zero_word, mul_zero]
    rw [zero, mulsf3, if_pos some]
    exact near_self (Or.inl rfl) (by norm_num) value_zero_word
  · rw [not_or] at some
    apply mulsf3_normal ordinary1 ordinary2 some.1 some.2
    apply range.resolve_left
    intro zero
    rcases mul_eq_zero.mp zero with none | none
    · exact value_ne_zero (ordinary1.resolve_left some.1).1 none
    · exact value_ne_zero (ordinary2.resolve_left some.2).1 none

theorem mulsf3_near_small : Near (33 / 64) (mulsf3 0x40400000 0x3f000000) (3 * (1 / 2)) := by
  have product := mulsf3_near (by decide : Ordinary 0x40400000) (by decide : Ordinary 0x3f000000)
  rw [value_three, value_half] at product
  exact product (Or.inr (normalRange_of_le (by norm_num) (by norm_num)))

end Products

section Quotients

variable {turns : Nat} {a1 a2 divisor : Word}

def Divided (numerator : Nat) (divisor : Word) (left : Nat) (state : DivisionState) : Prop :=
  ∃ found quotient, found + left = 25 ∧ state.result.toNat = quotient * 2 ^ left ∧
    state.mask.toNat = 2 ^ left / 2 ∧
    numerator * 2 ^ found = 2 * quotient * divisor.toNat + state.rest.toNat ∧
    state.rest.toNat < 2 * divisor.toNat

theorem Divided.step {numerator : Nat} (fits : divisor.toNat < 2 ^ 24) (small : numerator < 2 * divisor.toNat)
    (left : Nat) (state : DivisionState) (divided : Divided numerator divisor left state)
    (continues : state.mask ≠ 0) : ∃ after < left, Divided numerator divisor after (state.turn divisor) := by
  obtain ⟨found, quotient, places, result_eq, mask_eq, whole, below⟩ := divided
  have nonzero : state.mask.toNat ≠ 0 := fun none => continues (BitVec.eq_of_toNat_eq none)
  obtain ⟨after, rfl⟩ : ∃ after, left = after + 1 := by
    cases left with
    | zero => exact absurd mask_eq nonzero
    | succ after => exact ⟨after, rfl⟩
  have mask_eq : state.mask.toNat = 2 ^ after := by
    rw [mask_eq, pow_succ, Nat.mul_div_cancel _ (by decide)]
  have last : 2 ^ after ≤ 2 ^ 24 := Nat.pow_le_pow_right (by decide) (by omega)
  have halved : (state.mask.sshiftRight 1).toNat = 2 ^ after / 2 := by
    rw [toNat_sshiftRight_of_lt (by omega) 1, mask_eq, pow_one]
  have compare : divisor.sle state.rest = true ↔ divisor.toNat ≤ state.rest.toNat := by
    rw [BitVec.sle_iff_toInt_le, BitVec.toInt_eq_toNat_of_lt (by omega), BitVec.toInt_eq_toNat_of_lt (by omega),
      Nat.cast_le]
  have doubled (x : Word) (bound : x.toNat < 2 ^ 31) : (x <<< 1).toNat = 2 * x.toNat := by
    rw [BitVec.toNat_shiftLeft, Nat.shiftLeft_eq]
    omega
  refine ⟨after, Nat.lt_succ_self _, ?_⟩
  unfold DivisionState.turn
  simp only [compare]
  split
  · rename_i fitsIn
    have rest_eq : (state.rest - divisor).toNat = state.rest.toNat - divisor.toNat := by
      rw [BitVec.toNat_sub]
      omega
    refine ⟨found + 1, 2 * quotient + 1, by omega, ?_, halved, ?_, ?_⟩
    · have joined : quotient * 2 ^ (after + 1) ||| 2 ^ after = quotient * 2 ^ (after + 1) + 2 ^ after := by
        rw [Nat.mul_comm, ← Nat.two_pow_add_eq_or_of_lt (Nat.pow_lt_pow_right (by decide) (by omega))]
      rw [BitVec.toNat_or, result_eq, mask_eq, joined]
      ring
    · change numerator * 2 ^ (found + 1) = _ + ((state.rest - divisor) <<< 1).toNat
      rw [doubled _ (by omega), rest_eq, pow_succ, ← Nat.mul_assoc, whole]
      have cancel : state.rest.toNat - divisor.toNat + divisor.toNat = state.rest.toNat :=
        Nat.sub_add_cancel fitsIn
      nlinarith
    · change ((state.rest - divisor) <<< 1).toNat < _
      rw [doubled _ (by omega), rest_eq]
      omega
  · rename_i tooLarge
    refine ⟨found + 1, 2 * quotient, by omega, ?_, halved, ?_, ?_⟩
    · rw [result_eq]
      ring
    · change numerator * 2 ^ (found + 1) = _ + (state.rest <<< 1).toNat
      rw [doubled _ (by omega), pow_succ, ← Nat.mul_assoc, whole]
      ring
    · change (state.rest <<< 1).toNat < _
      rw [doubled _ (by omega)]
      omega

theorem quotient_found (enough : 25 ≤ turns) {numerator : Word} (fits : divisor.toNat < 2 ^ 24)
    (small : numerator.toNat < 2 * divisor.toNat) :
    ∃ final, whileLoop (fun state => state.mask ≠ 0) (DivisionState.turn divisor) turns
        ⟨numerator, 0, 0x1000000⟩ = some final ∧
      final.result.toNat * divisor.toNat ≤ numerator.toNat * 2 ^ 24 ∧
      numerator.toNat * 2 ^ 24 < (final.result.toNat + 1) * divisor.toNat := by
  have start : Divided numerator.toNat divisor 25 ⟨numerator, 0, 0x1000000⟩ :=
    ⟨0, 0, by decide, by simp, by simp, by simp, small⟩
  obtain ⟨final, left, looped, ⟨found, quotient, places, result_eq, mask_eq, whole, below⟩, stopped⟩ :=
    whileLoop_ends (Divided.step fits small) start enough
  have none : left = 0 := by
    have zero : final.mask = 0 := not_not.mp stopped
    rw [zero] at mask_eq
    cases left with
    | zero => rfl
    | succ after =>
        rw [pow_succ, Nat.mul_div_cancel _ (by decide)] at mask_eq
        exact absurd mask_eq.symm (Nat.pow_pos (by decide)).ne'
  obtain rfl : found = 25 := by omega
  rw [none, pow_zero, Nat.mul_one] at result_eq
  rw [Nat.mul_assoc] at whole
  refine ⟨final, looped, ?_, ?_⟩
  · rw [result_eq]
    omega
  · rw [result_eq, Nat.succ_mul]
    omega

theorem quotient_rounded {numerator divisor quotient : Nat} (positive : 0 < divisor) (fits : divisor < 2 ^ 24)
    (large : divisor ≤ numerator) (small : numerator < 2 * divisor)
    (low : quotient * divisor ≤ numerator * 2 ^ 24) (high : numerator * 2 ^ 24 < (quotient + 1) * divisor) :
    2 ^ 23 ≤ (quotient + 1) / 2 ∧ (quotient + 1) / 2 < 2 ^ 24 ∧ quotient < 2 ^ 25 ∧
      |(((quotient + 1) / 2 : Nat) : ℚ) - numerator * 2 ^ 23 / divisor| ≤ 1 / 2 ∧
        (2 ^ 24 - 1) / 2 < (numerator * 2 ^ 23 / divisor : ℚ) ∧ (numerator * 2 ^ 23 / divisor : ℚ) < 2 ^ 24 := by
  have some : (0 : ℚ) < divisor := by exact_mod_cast positive
  have long : 2 ^ 24 ≤ quotient := by
    by_contra short
    have few : quotient + 1 ≤ 2 ^ 24 := by omega
    have bound := Nat.mul_le_mul_right divisor few
    nlinarith
  have most : quotient + 1 < 2 ^ 25 := by
    by_contra many
    have bound := Nat.mul_le_mul_right divisor (by omega : 2 ^ 25 - 1 ≤ quotient)
    omega
  have lowQ : (quotient * divisor : ℚ) ≤ numerator * 2 ^ 24 := by exact_mod_cast low
  have highQ : (numerator * 2 ^ 24 : ℚ) < (quotient + 1) * divisor := by exact_mod_cast high
  have largeQ : (divisor : ℚ) ≤ numerator := by exact_mod_cast large
  have smallQ : (numerator : ℚ) < 2 * divisor := by exact_mod_cast small
  have half : ((quotient : ℚ)) ≤ 2 * ((quotient + 1) / 2 : Nat) ∧
      (2 * ((quotient + 1) / 2 : Nat) : ℚ) ≤ quotient + 1 := by
    constructor
    · exact_mod_cast (by omega : quotient ≤ 2 * ((quotient + 1) / 2))
    · exact_mod_cast (by omega : 2 * ((quotient + 1) / 2) ≤ quotient + 1)
  refine ⟨by omega, by omega, by omega, ?_, ?_, ?_⟩
  · rw [abs_le]
    constructor
    · rw [le_sub_iff_add_le, ← le_sub_iff_add_le', div_le_iff₀ some]
      nlinarith
    · rw [sub_le_iff_le_add, ← sub_le_iff_le_add', le_div_iff₀ some]
      nlinarith
  · rw [lt_div_iff₀ some]
    linarith
  · rw [div_lt_iff₀ some]
    linarith

theorem quotient_value (normal1 : 0 < single.exponent a1.toNat) (normal2 : 0 < single.exponent a2.toNat)
    (raised : Nat) {exponent : ℤ} (is : exponent =
      (single.exponent a1.toNat : ℤ) - single.exponent a2.toNat + 127 - raised) :
    single.value a1.toNat / single.value a2.toNat =
      (if (xor (decide (single.Negative a1.toNat)) (decide (single.Negative a2.toNat))) then -1 else 1) *
        (((mantOf a1).toNat * 2 ^ raised : Nat) * 2 ^ 23 / (mantOf a2).toNat * 2 ^ (exponent - 150)) := by
  have bounds := mantOf_bounds a2
  have nonzero : ((mantOf a2).toNat : ℚ) ≠ 0 := by
    rw [Nat.cast_ne_zero]
    omega
  have scale : (2 : ℚ) ^ ((single.exponent a1.toNat : ℤ) - 150) =
      2 ^ raised * 2 ^ 23 * 2 ^ (exponent - 150) * 2 ^ ((single.exponent a2.toNat : ℤ) - 150) := by
    rw [← zpow_natCast, ← zpow_natCast, ← zpow_add₀ two_ne_zero, ← zpow_add₀ two_ne_zero,
      ← zpow_add₀ two_ne_zero, is]
    have power : (raised : ℤ) + (23 : Nat) + ((single.exponent a1.toNat : ℤ) -
        single.exponent a2.toNat + 127 - raised - 150) + ((single.exponent a2.toNat : ℤ) - 150) =
        (single.exponent a1.toNat : ℤ) - 150 := by
      push_cast
      ring
    rw [power]
  have place : (2 : ℚ) ^ ((single.exponent a2.toNat : ℤ) - 150) ≠ 0 := zpow_ne_zero _ two_ne_zero
  rw [value_significand normal1, value_significand normal2, sign_xor, scale]
  rw [← toNat_mantOf, ← toNat_mantOf]
  by_cases negative : single.Negative a2.toNat
  · simp only [negative, if_true]
    push_cast
    field_simp
  · simp only [negative, if_false]
    push_cast
    field_simp

theorem quotient_packed (normal1 : 0 < single.exponent a1.toNat) (normal2 : 0 < single.exponent a2.toNat)
    (range : NormalRange (single.value a1.toNat / single.value a2.toNat)) (enough : 25 ≤ turns)
    {numerator exp : Word} (raised : Nat)
    (numerator_eq : numerator.toNat = (mantOf a1).toNat * 2 ^ raised)
    (exp_eq : (exp + 1).toInt =
      (single.exponent a1.toNat : ℤ) - single.exponent a2.toNat + 127 - raised)
    (large : (mantOf a2).toNat ≤ numerator.toNat) (small : numerator.toNat < 2 * (mantOf a2).toNat) :
    ∃ result, (do
        let divided ← whileLoop (fun state => state.mask ≠ 0) (DivisionState.turn (mantOf a2)) turns
          ⟨numerator, 0, 0x1000000⟩
        return pack (signOf a1 ^^^ signOf a2) (exp + 1)
          ((divided.result + 1).sshiftRight 1 &&& ~~~hidden)) = some result ∧
      Near (1 / 2) result (single.value a1.toNat / single.value a2.toNat) := by
  have bounds := mantOf_bounds a2
  obtain ⟨final, looped, low, high⟩ := quotient_found enough bounds.2 small
  obtain ⟨least, most, short, error, above, below⟩ :=
    quotient_rounded (by omega) bounds.2 large small low high
  have valued := quotient_value normal1 normal2 raised exp_eq
  have rounded : ((final.result + 1).sshiftRight 1).toNat = (final.result.toNat + 1) / 2 := by
    have one : (1 : Word).toNat = 1 := rfl
    have sum : (final.result + 1).toNat = final.result.toNat + 1 := by
      rw [BitVec.toNat_add, one]
      omega
    rw [toNat_sshiftRight_of_lt (by omega) 1, sum, pow_one]
  refine ⟨_, by rw [looped]; rfl, ?_⟩
  rw [← numerator_eq] at valued
  rw [valued] at range ⊢
  apply packed_significand (toNat_signs a1 a2) (by omega) (by omega) _ above below
  · unfold NormalRange at *
    rw [abs_mul, abs_sign, one_mul] at range
    exact range
  · rw [rounded]
    exact error

theorem toInt_quotient_exp (a1 a2 : Word) : (expOf a1 - expOf a2 + excess).toInt =
    (single.exponent a1.toNat : ℤ) - single.exponent a2.toNat + 126 := by
  have small1 := exponent_lt a1
  have small2 := exponent_lt a2
  have bias : excess.toInt = 126 := by decide
  have difference : (expOf a1 - expOf a2).toInt =
      (single.exponent a1.toNat : ℤ) - single.exponent a2.toNat := by
    rw [BitVec.toInt_sub, toInt_expOf, toInt_expOf]
    apply Int.bmod_eq_of_le
    · omega
    · omega
  rw [BitVec.toInt_add, difference, bias]
  apply Int.bmod_eq_of_le
  · omega
  · omega

theorem mant_lt_iff (a1 a2 : Word) :
    (mantOf a1).slt (mantOf a2) ↔ (mantOf a1).toNat < (mantOf a2).toNat := by
  have bounds1 := mantOf_bounds a1
  have bounds2 := mantOf_bounds a2
  rw [BitVec.slt_iff_toInt_lt, BitVec.toInt_eq_toNat_of_lt (by omega), BitVec.toInt_eq_toNat_of_lt (by omega),
    Nat.cast_lt]

theorem toNat_mant_doubled (a : Word) : (mantOf a <<< 1).toNat = (mantOf a).toNat * 2 ^ 1 := by
  have bounds := mantOf_bounds a
  rw [BitVec.toNat_shiftLeft, Nat.shiftLeft_eq]
  omega

theorem divsf3_ends (enough : 25 ≤ turns) (a1 a2 : Word) : ∃ result, divsf3 turns a1 a2 = some result := by
  have bounds1 := mantOf_bounds a1
  have bounds2 := mantOf_bounds a2
  rw [divsf3]
  dsimp only
  by_cases zero2 : a2 = 0
  · rw [if_pos zero2]
    exact ⟨_, rfl⟩
  rw [if_neg zero2]
  by_cases zero1 : a1 = 0
  · rw [if_pos zero1]
    exact ⟨0, rfl⟩
  rw [if_neg zero1]
  by_cases less : (mantOf a1).slt (mantOf a2)
  · rw [if_pos less]
    rw [mant_lt_iff] at less
    have doubled := toNat_mant_doubled a1
    obtain ⟨final, looped, _⟩ :=
      quotient_found enough bounds2.2 (show (mantOf a1 <<< 1).toNat < _ by omega)
    exact ⟨_, by rw [looped]; rfl⟩
  · rw [if_neg less]
    obtain ⟨final, looped, _⟩ := quotient_found enough bounds2.2 (show (mantOf a1).toNat < _ by omega)
    exact ⟨_, by rw [looped]; rfl⟩

theorem divsf3_ordinary (enough : 25 ≤ turns) (ordinary1 : Ordinary a1) (ordinary2 : Ordinary a2)
    (nonzero : a2 ≠ 0) (range : single.value a1.toNat / single.value a2.toNat = 0 ∨
      NormalRange (single.value a1.toNat / single.value a2.toNat)) :
    ∃ result, divsf3 turns a1 a2 = some result ∧
      Near (1 / 2) result (single.value a1.toNat / single.value a2.toNat) := by
  have normal2 := (ordinary2.resolve_left nonzero).1
  rw [divsf3]
  dsimp only
  rw [if_neg nonzero]
  by_cases none1 : a1 = 0
  · rw [if_pos none1]
    refine ⟨0, rfl, near_self (Or.inl rfl) (by norm_num) ?_⟩
    rw [none1, value_zero_word, zero_div]
  rw [if_neg none1]
  have normal1 := (ordinary1.resolve_left none1).1
  have inside : NormalRange (single.value a1.toNat / single.value a2.toNat) := by
    apply range.resolve_left
    intro zero
    exact (div_ne_zero (value_ne_zero normal1) (value_ne_zero normal2)) zero
  have bounds1 := mantOf_bounds a1
  have bounds2 := mantOf_bounds a2
  have exponents := toInt_quotient_exp a1 a2
  have small1 := exponent_lt a1
  have small2 := exponent_lt a2
  have one : (1 : Word).toInt = 1 := rfl
  by_cases less : (mantOf a1).slt (mantOf a2)
  · rw [if_pos less]
    rw [mant_lt_iff] at less
    have doubled := toNat_mant_doubled a1
    apply quotient_packed normal1 normal2 inside enough 1 doubled
    · rw [BitVec.sub_add_cancel, exponents]
      push_cast
      ring
    · omega
    · omega
  · rw [if_neg less]
    rw [mant_lt_iff] at less
    apply quotient_packed normal1 normal2 inside enough 0 (Nat.mul_one _).symm
    · rw [BitVec.toInt_add, exponents, one, Int.bmod_eq_of_le (by omega) (by omega)]
      push_cast
      ring
    · omega
    · omega

/-- The function always returns. A quotient of ordinary operands that is zero or in the range of the
normal numbers comes out right but for half its last place. -/
theorem divsf3_near (enough : 25 ≤ turns) (a1 a2 : Word) :
    ∃ result, divsf3 turns a1 a2 = some result ∧ (Ordinary a1 → Ordinary a2 → a2 ≠ 0 →
      single.value a1.toNat / single.value a2.toNat = 0 ∨
        NormalRange (single.value a1.toNat / single.value a2.toNat) →
      Near (1 / 2) result (single.value a1.toNat / single.value a2.toNat)) := by
  obtain ⟨result, done⟩ := divsf3_ends enough a1 a2
  refine ⟨result, done, fun ordinary1 ordinary2 nonzero range => ?_⟩
  obtain ⟨same, done', near⟩ := divsf3_ordinary enough ordinary1 ordinary2 nonzero range
  rwa [Option.some.inj (done.symm.trans done')]

theorem divsf3_near_small : ∃ result, divsf3 25 0x40400000 0x3f000000 = some result ∧
    Near (1 / 2) result (3 / (1 / 2)) := by
  obtain ⟨result, done, near⟩ := divsf3_near (le_refl 25) 0x40400000 0x3f000000
  refine ⟨result, done, ?_⟩
  rw [value_three, value_half] at near
  exact near (by decide) (by decide) (by decide) (Or.inr (normalRange_of_le (by norm_num) (by norm_num)))

end Quotients

end SoftArithmetic

end Hellfire

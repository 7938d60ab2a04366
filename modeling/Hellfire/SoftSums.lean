import Mathlib.Data.Rat.Floor
import Hellfire.SoftRounding

/-!
Sums and differences of single precision numbers: whatever the operands and their signs are,
a sum in the range of the normal numbers comes out with an error of 17/32 of a place at most.
-/

namespace Hellfire

open BinaryFloats Format Loops

namespace SoftArithmetic

namespace AddState

def Raised (number : Nat) (exp : Word) (left : Nat) (state : AddState) : Prop :=
  ∃ added, added + left = 29 ∧ state.exp = exp - BitVec.ofNat 32 added ∧
    state.mant.toNat = number * 2 ^ added ∧ state.mant.toNat < 2 ^ 31 ∧
    (added = 0 ∨ state.mant.toNat < 2 ^ 30)

theorem up_guard (x : Word) : x &&& 0xe0000000 = 0 ↔ x.toNat < 2 ^ 29 := and_upper_eq_zero_iff x 29

theorem Raised.step {number : Nat} {exp : Word} (positive : 0 < number) (left : Nat) (state : AddState)
    (raised : Raised number exp left state) (continues : state.mant &&& 0xe0000000 = 0) :
    ∃ after < left, Raised number exp after state.up := by
  obtain ⟨added, places, exp_eq, mant_eq, _, _⟩ := raised
  have small := (up_guard state.mant).mp continues
  have room : added < 29 := by
    apply (Nat.pow_lt_pow_iff_right (by decide : 1 < 2)).mp
    exact (Nat.le_mul_of_pos_left _ positive).trans_lt (mant_eq ▸ small)
  have doubled : state.up.mant.toNat = 2 * state.mant.toNat := by
    simp only [up]
    rw [BitVec.toNat_shiftLeft, Nat.shiftLeft_eq]
    omega
  refine ⟨left - 1, by omega, added + 1, by omega, ?_, ?_, by omega, Or.inr (by omega)⟩
  · simp only [up]
    rw [exp_eq]
    apply BitVec.eq_of_toNat_eq
    have one : (1 : Word).toNat = 1 := rfl
    simp only [BitVec.toNat_sub, BitVec.toNat_ofNat, one]
    omega
  · rw [doubled, mant_eq, pow_succ]
    ring

theorem down_of_lt {state : AddState} (small : state.mant.toNat < 2 ^ 30) : state.down = state := by
  have clear : ¬ state.mant &&& (1 <<< 30) ≠ 0 := by
    rw [bit_ne_zero_iff _ _ (by decide)]
    omega
  rw [down, if_neg clear]

theorem down_of_ge {state : AddState} (small : state.mant.toNat < 2 ^ 31)
    (large : 2 ^ 30 ≤ state.mant.toNat) :
    state.down.mant.toNat = state.mant.toNat / 2 ∧ state.down.exp = state.exp + 1 := by
  have set : state.mant &&& (1 <<< 30) ≠ 0 := by
    rw [bit_ne_zero_iff _ _ (by decide)]
    omega
  rw [down, if_pos set]
  exact ⟨toNat_sshiftRight_of_lt small 1, rfl⟩

theorem round_mant {state : AddState} (small : state.mant.toNat < 2 ^ 30) :
    state.round.exp = state.exp ∧ (state.round.mant.toNat = state.mant.toNat + 31 ∨
      state.round.mant.toNat = state.mant.toNat + 32) := by
  refine ⟨rfl, ?_⟩
  simp only [round]
  split
  · right
    rw [BitVec.toNat_add]
    exact Nat.mod_eq_of_lt (show state.mant.toNat + 32 < 2 ^ 32 by omega)
  · left
    rw [BitVec.toNat_add]
    exact Nat.mod_eq_of_lt (show state.mant.toNat + 31 < 2 ^ 32 by omega)

theorem rounded {state : AddState} (low : 2 ^ 29 ≤ state.mant.toNat) (high : state.mant.toNat < 2 ^ 30) :
    ∃ (m carry : Nat), (state.round.down.mant.sshiftRight 6).toNat = m ∧ carry ≤ 1 ∧
      state.round.down.exp = state.exp + BitVec.ofNat 32 carry ∧ 2 ^ 23 ≤ m ∧ m < 2 ^ 24 ∧
      64 * m * 2 ^ carry ≤ state.mant.toNat + 32 ∧ state.mant.toNat ≤ 64 * m * 2 ^ carry + 32 ∧
      (carry = 1 → 2 ^ 30 ≤ state.mant.toNat + 32) := by
  obtain ⟨exp_eq, sum⟩ := round_mant high
  by_cases carries : state.round.mant.toNat < 2 ^ 30
  · have same := down_of_lt carries
    refine ⟨state.round.mant.toNat / 64, 0, ?_, by decide, ?_, by omega, by omega, by omega, by omega,
      by omega⟩
    · rw [same]
      exact toNat_sshiftRight_of_lt (by omega) 6
    · rw [same, exp_eq]
      simp
  · obtain ⟨halved, more⟩ := down_of_ge (by omega : state.round.mant.toNat < 2 ^ 31) (by omega)
    refine ⟨state.round.mant.toNat / 2 / 64, 1, ?_, by decide, ?_, by omega, by omega, by omega,
      by omega, by omega⟩
    · rw [← halved]
      exact toNat_sshiftRight_of_lt (by omega) 6
    · rw [more, exp_eq]
      rfl

end AddState

theorem rounding_error {m base carry number exponent : Nat} {exact : ℚ}
    (low : 64 * m * 2 ^ carry ≤ number + 32) (high : number ≤ 64 * m * 2 ^ carry + 32)
    (near : |(number : ℚ) * 2 ^ base - exact * 2 ^ exponent| ≤ 2 * 2 ^ base) :
    |(m : ℚ) * 2 ^ (((base + carry : Nat) : ℤ) - 150) - exact * 2 ^ ((exponent : ℤ) - 156)| ≤
      17 / 32 * 2 ^ (((base + carry : Nat) : ℤ) - 150) := by
  have unit : (0 : ℚ) < 2 ^ (-156 : ℤ) := zpow_pos two_pos _
  have result : (2 : ℚ) ^ (((base + carry : Nat) : ℤ) - 150) =
      64 * 2 ^ carry * 2 ^ base * 2 ^ (-156 : ℤ) := by
    rw [show (((base + carry : Nat) : ℤ) - 150) = 6 + carry + base + (-156) by push_cast; ring,
      zpow_add₀ two_ne_zero, zpow_add₀ two_ne_zero, zpow_add₀ two_ne_zero, zpow_natCast, zpow_natCast]
    norm_num
  have sum : (2 : ℚ) ^ ((exponent : ℤ) - 156) = 2 ^ exponent * 2 ^ (-156 : ℤ) := by
    rw [sub_eq_add_neg, zpow_add₀ two_ne_zero, zpow_natCast]
  have half : |(m : ℚ) * (64 * 2 ^ carry) - number| ≤ 32 := by
    have low' : (64 * m * 2 ^ carry : ℚ) ≤ number + 32 := by exact_mod_cast low
    have high' : (number : ℚ) ≤ 64 * m * 2 ^ carry + 32 := by exact_mod_cast high
    rw [abs_le]
    constructor
    · linarith
    · linarith
  have base_pos : (0 : ℚ) < 2 ^ base := pow_pos two_pos _
  have scaled : |(m : ℚ) * (64 * 2 ^ carry) * 2 ^ base - exact * 2 ^ exponent| ≤ 34 * 2 ^ base := by
    calc
      |(m : ℚ) * (64 * 2 ^ carry) * 2 ^ base - exact * 2 ^ exponent| =
          |((m : ℚ) * (64 * 2 ^ carry) - number) * 2 ^ base +
            (number * 2 ^ base - exact * 2 ^ exponent)| := by ring_nf
      _ ≤ |((m : ℚ) * (64 * 2 ^ carry) - number) * 2 ^ base| +
            |(number : ℚ) * 2 ^ base - exact * 2 ^ exponent| := abs_add_le _ _
      _ ≤ 32 * 2 ^ base + 2 * 2 ^ base := by
          rw [abs_mul, abs_of_pos base_pos]
          exact add_le_add (mul_le_mul_of_nonneg_right half base_pos.le) near
      _ = 34 * 2 ^ base := by ring
  have carried : (1 : ℚ) ≤ 2 ^ carry := one_le_pow₀ (by norm_num)
  calc
    |(m : ℚ) * 2 ^ (((base + carry : Nat) : ℤ) - 150) - exact * 2 ^ ((exponent : ℤ) - 156)| =
        |((m : ℚ) * (64 * 2 ^ carry) * 2 ^ base - exact * 2 ^ exponent) * 2 ^ (-156 : ℤ)| := by
      rw [result, sum]
      ring_nf
    _ = |(m : ℚ) * (64 * 2 ^ carry) * 2 ^ base - exact * 2 ^ exponent| * 2 ^ (-156 : ℤ) := by
      rw [abs_mul, abs_of_pos unit]
    _ ≤ 34 * 2 ^ base * 2 ^ (-156 : ℤ) := mul_le_mul_of_nonneg_right scaled unit.le
    _ ≤ 34 * 2 ^ base * 2 ^ (-156 : ℤ) * 2 ^ carry :=
      le_mul_of_one_le_right (by positivity) carried
    _ = 17 / 32 * (64 * 2 ^ carry * 2 ^ base * 2 ^ (-156 : ℤ)) := by ring
    _ = 17 / 32 * 2 ^ (((base + carry : Nat) : ℤ) - 150) := by rw [result]

theorem exact_le {exact : ℚ} {exponent : Nat} (inside : exponent ≤ 260)
    (upper : exact * 2 ^ exponent ≤ (2 ^ 24 - 1) * 2 ^ 260) :
    exact ≤ (2 ^ 24 - 1) * 2 ^ (260 - exponent) := by
  have split : (2 : ℚ) ^ 260 = 2 ^ (260 - exponent) * 2 ^ exponent := by
    rw [← pow_add, Nat.sub_add_cancel inside]
  rw [split, ← mul_assoc] at upper
  exact le_of_mul_le_mul_right upper (pow_pos two_pos _)

section Normalize

variable {mant exp : Word} {exact : ℚ}

structure Normalized (mant exp : Word) (exact : ℚ) (state : AddState) : Prop where
  low : 2 ^ 29 ≤ state.mant.toNat
  high : state.mant.toNat < 2 ^ 30
  least : 0 < state.exp.toNat
  room : state.exp.toNat ≤ 253 ∨ state.exp.toNat = 254 ∧ state.mant.toNat + 32 < 2 ^ 30
  near : |(state.mant.toNat : ℚ) * 2 ^ state.exp.toNat - exact * 2 ^ exp.toNat| ≤ 2 * 2 ^ state.exp.toNat

/-- The last binade holds no sum that rounds up to the next one. -/
theorem top_binade (top : exp.toNat = 254) (upper : exact * 2 ^ exp.toNat ≤ (2 ^ 24 - 1) * 2 ^ 260)
    (near : (mant.toNat : ℚ) - exact < 1) : mant.toNat + 32 < 2 ^ 30 := by
  have bound := exact_le (by omega) upper
  rw [top] at bound
  norm_num at bound
  have below : (mant.toNat : ℚ) < 1073741761 := by linarith
  have whole : mant.toNat < 1073741761 := by exact_mod_cast below
  omega

theorem normalized_up {state : AddState} {added left : Nat} (positive : 0 < mant.toNat)
    (least : 0 < exp.toNat) (inside : exp.toNat ≤ 254) (near : |(mant.toNat : ℚ) - exact| < 1)
    (clean : (mant.toNat : ℚ) = exact ∨ 2 ^ 28 ≤ mant.toNat ∧ 2 ≤ exp.toNat)
    (lower : 2 ^ 30 ≤ exact * 2 ^ exp.toNat) (upper : exact * 2 ^ exp.toNat ≤ (2 ^ 24 - 1) * 2 ^ 260)
    (places : added + left = 29) (exp_eq : state.exp = exp - BitVec.ofNat 32 added)
    (mant_eq : state.mant.toNat = mant.toNat * 2 ^ added) (low : 2 ^ 29 ≤ state.mant.toNat)
    (high : state.mant.toNat < 2 ^ 30) : Normalized mant exp exact state := by
  have nearBounds := abs_lt.mp near
  have fewer : added < exp.toNat ∧ ((mant.toNat : ℚ) = exact ∨ added ≤ 1) := by
    rcases clean with same | ⟨long, more⟩
    · refine ⟨?_, Or.inl same⟩
      by_contra short
      have power : 2 ^ exp.toNat ≤ 2 ^ added := Nat.pow_le_pow_right (by decide) (by omega)
      have product := Nat.mul_le_mul_left mant.toNat power
      rw [← same] at lower
      have whole : 2 ^ 30 ≤ mant.toNat * 2 ^ exp.toNat := by exact_mod_cast lower
      omega
    · have few : added ≤ 1 := by
        by_contra many
        have power : 2 ^ 2 ≤ 2 ^ added := Nat.pow_le_pow_right (by decide) (by omega)
        have product := Nat.mul_le_mul_left mant.toNat power
        omega
      exact ⟨by omega, Or.inr few⟩
  have base : state.exp.toNat = exp.toNat - added := by
    rw [exp_eq, BitVec.toNat_sub, BitVec.toNat_ofNat]
    omega
  have split : (2 : ℚ) ^ exp.toNat = 2 ^ added * 2 ^ state.exp.toNat := by
    rw [← pow_add, base, Nat.add_sub_cancel' (by omega)]
  constructor
  · exact low
  · exact high
  · omega
  · by_cases top : state.exp.toNat ≤ 253
    · exact Or.inl top
    · have none : added = 0 := by omega
      rw [none, pow_zero, Nat.mul_one] at mant_eq
      rw [mant_eq]
      exact Or.inr ⟨by omega, top_binade (by omega) upper nearBounds.2⟩
  · have shifted : (state.mant.toNat : ℚ) * 2 ^ state.exp.toNat - exact * 2 ^ exp.toNat =
        ((mant.toNat : ℚ) - exact) * 2 ^ added * 2 ^ state.exp.toNat := by
      rw [mant_eq, split]
      push_cast
      ring
    rw [shifted, abs_mul, abs_of_pos (pow_pos two_pos _ : (0 : ℚ) < 2 ^ state.exp.toNat)]
    apply mul_le_mul_of_nonneg_right _ (by positivity)
    rw [abs_mul, abs_of_pos (pow_pos two_pos _ : (0 : ℚ) < 2 ^ added)]
    rcases fewer.2 with same | few
    · rw [same, sub_self, abs_zero, zero_mul]
      exact zero_le_two
    · have power : (2 : ℚ) ^ added ≤ 2 ^ 1 := pow_le_pow_right₀ one_le_two few
      calc
        |(mant.toNat : ℚ) - exact| * 2 ^ added ≤ 1 * 2 ^ 1 :=
          mul_le_mul near.le power (by positivity) zero_le_one
        _ = 2 := by norm_num

theorem normalized_down {state : AddState} (inside : exp.toNat ≤ 254)
    (near : |(mant.toNat : ℚ) - exact| < 1) (upper : exact * 2 ^ exp.toNat ≤ (2 ^ 24 - 1) * 2 ^ 260)
    (exp_eq : state.exp = exp + 1) (mant_eq : state.mant.toNat = mant.toNat / 2)
    (small : mant.toNat < 2 ^ 31) (long : 2 ^ 30 ≤ mant.toNat) : Normalized mant exp exact state := by
  have nearBounds := abs_lt.mp near
  have notTop : exp.toNat ≤ 253 := by
    by_contra top
    have short := top_binade (by omega : exp.toNat = 254) upper nearBounds.2
    omega
  have base : state.exp.toNat = exp.toNat + 1 := by
    rw [exp_eq, BitVec.toNat_add]
    exact Nat.mod_eq_of_lt (show exp.toNat + 1 < 2 ^ 32 by omega)
  constructor
  · omega
  · omega
  · omega
  · by_cases top : state.exp.toNat ≤ 253
    · exact Or.inl top
    · right
      refine ⟨by omega, ?_⟩
      have bound := exact_le (by omega) upper
      rw [show exp.toNat = 253 by omega] at bound
      norm_num at bound
      have below : (mant.toNat : ℚ) < 2147483521 := by linarith
      have whole : mant.toNat < 2147483521 := by exact_mod_cast below
      omega
  · have shifted : (state.mant.toNat : ℚ) * 2 ^ state.exp.toNat - exact * 2 ^ exp.toNat =
        (2 * (state.mant.toNat : ℚ) - exact) * 2 ^ exp.toNat := by
      rw [base, pow_succ]
      ring
    have power : (0 : ℚ) < 2 ^ exp.toNat := pow_pos two_pos _
    have halved : |2 * (state.mant.toNat : ℚ) - exact| ≤ 4 := by
      have low' : 2 * (state.mant.toNat : ℚ) ≤ mant.toNat := by
        rw [mant_eq]
        exact_mod_cast (by omega : 2 * (mant.toNat / 2) ≤ mant.toNat)
      have high' : (mant.toNat : ℚ) ≤ 2 * state.mant.toNat + 1 := by
        rw [mant_eq]
        exact_mod_cast (by omega : mant.toNat ≤ 2 * (mant.toNat / 2) + 1)
      rw [abs_le]
      constructor
      · linarith
      · linarith
    rw [shifted, abs_mul, abs_of_pos power, base, pow_succ]
    calc
      |2 * (state.mant.toNat : ℚ) - exact| * 2 ^ exp.toNat ≤ 4 * 2 ^ exp.toNat :=
        mul_le_mul_of_nonneg_right halved power.le
      _ = 2 * (2 ^ exp.toNat * 2) := by ring

theorem raising_ends {turns : Nat} (enough : 29 ≤ turns) (exp : Word) (positive : 0 < mant.toNat)
    (small : mant.toNat < 2 ^ 31) : ∃ raised left,
      whileLoop (fun state => state.mant &&& 0xe0000000 = 0) AddState.up turns ⟨mant, exp⟩ = some raised ∧
        AddState.Raised mant.toNat exp left raised ∧ ¬raised.mant &&& 0xe0000000 = 0 := by
  have start : AddState.Raised mant.toNat exp 29 ⟨mant, exp⟩ :=
    ⟨0, rfl, by simp, by simp, small, Or.inl rfl⟩
  exact whileLoop_ends (AddState.Raised.step positive) start enough

theorem normalize_ends {turns : Nat} (enough : 29 ≤ turns) (sign : Word) (positive : 0 < mant.toNat)
    (small : mant.toNat < 2 ^ 31) : ∃ result, normalize turns sign mant exp = some result := by
  obtain ⟨raised, _, looped, _, _⟩ := raising_ends enough exp positive small
  exact ⟨_, by rw [normalize, looped]; rfl⟩

theorem normalize_spec {turns : Nat} (enough : 29 ≤ turns) {sign : Word} {negative : Bool}
    (sign_eq : sign.toNat = negative.toNat * 2 ^ 31) (positive : 0 < mant.toNat)
    (small : mant.toNat < 2 ^ 31) (least : 0 < exp.toNat) (inside : exp.toNat ≤ 254)
    (near : |(mant.toNat : ℚ) - exact| < 1)
    (clean : (mant.toNat : ℚ) = exact ∨ 2 ^ 28 ≤ mant.toNat ∧ 2 ≤ exp.toNat)
    (lower : 2 ^ 30 ≤ exact * 2 ^ exp.toNat)
    (upper : exact * 2 ^ exp.toNat ≤ (2 ^ 24 - 1) * 2 ^ 260) :
    ∃ result, normalize turns sign mant exp = some result ∧
      Near (17 / 32) result ((if negative then -1 else 1) * (exact * 2 ^ ((exp.toNat : ℤ) - 156))) := by
  obtain ⟨raised, left, looped, ⟨added, places, exp_eq, mant_eq, below, first⟩, stopped⟩ :=
    raising_ends enough exp positive small
  have long := mt (AddState.up_guard raised.mant).mpr stopped
  have normalized : Normalized mant exp exact raised.down := by
    by_cases fits : raised.mant.toNat < 2 ^ 30
    · rw [AddState.down_of_lt fits]
      exact normalized_up positive least inside near clean lower upper places exp_eq mant_eq (by omega) fits
    · have none : added = 0 := first.resolve_right fits
      rw [none, pow_zero, Nat.mul_one] at mant_eq
      rw [none] at exp_eq
      obtain ⟨halved, more⟩ := AddState.down_of_ge below (by omega)
      apply normalized_down inside near upper _ _ small (by omega)
      · rw [more, exp_eq]
        simp
      · rw [halved, mant_eq]
  obtain ⟨m, carry, m_eq, one, exp_eq', low, high, up, down, carries⟩ :=
    AddState.rounded normalized.low normalized.high
  have final : raised.down.round.down.exp.toNat = raised.down.exp.toNat + carry := by
    have room := normalized.room
    rw [exp_eq', BitVec.toNat_add, BitVec.toNat_ofNat]
    omega
  have inRange : raised.down.round.down.exp.toNat < 2 ^ 8 - 1 := by
    rcases normalized.room with few | ⟨top, short⟩
    · omega
    · have noCarry : carry ≠ 1 := by
        intro is
        have full := carries is
        omega
      omega
  have least' := normalized.least
  have error := rounding_error up down normalized.near
  rw [← final, ← m_eq] at error
  refine ⟨_, ?_, packed_near sign_eq (by omega) inRange (by omega) (by omega) error⟩
  unfold normalize
  rw [looped]
  rfl

end Normalize

def scaled (a : Word) : Int :=
  (if single.Negative a.toNat then -1 else 1) * (64 * (2 ^ 23 + single.fraction a.toNat) : Nat)

section Operands

variable (a : Word)

theorem abs_scaled : |scaled a| = (64 * (2 ^ 23 + single.fraction a.toNat) : Nat) := by
  unfold scaled
  rw [abs_mul, Nat.abs_cast]
  split
  · rw [abs_neg, abs_one, one_mul]
  · rw [abs_one, one_mul]

theorem scaled_bounds : 2 ^ 29 ≤ |scaled a| ∧ |scaled a| < 2 ^ 30 := by
  have small : single.fraction a.toNat < 2 ^ 23 := single.fraction_lt _
  rw [abs_scaled]
  omega

theorem dvd_scaled : 64 ∣ scaled a := by
  unfold scaled
  apply Dvd.dvd.mul_left
  rw [Nat.cast_mul]
  exact Int.dvd_mul_right ..

theorem toInt_signedMant : (signedMant a).toInt = scaled a := by
  have small : single.fraction a.toNat < 2 ^ 23 := single.fraction_lt _
  have shifted : (mantOf a <<< 6).toNat = 64 * (2 ^ 23 + single.fraction a.toNat) := by
    rw [BitVec.toNat_shiftLeft, Nat.shiftLeft_eq, toNat_mantOf]
    omega
  unfold signedMant scaled
  simp only [signOf_ne_zero_iff]
  rw [toInt_negated (by omega), shifted]
  split
  · rw [neg_one_mul]
  · rw [one_mul]

theorem power_scaled (exponent : Nat) :
    (2 : ℚ) ^ ((exponent : ℤ) - 150) = 64 * 2 ^ ((exponent : ℤ) - 156) := by
  have six : (2 : ℚ) ^ (6 : ℤ) = 64 := by norm_num
  have power : (exponent : ℤ) - 150 = 6 + ((exponent : ℤ) - 156) := by omega
  rw [power, zpow_add₀ two_ne_zero, six]

theorem value_scaled (normal : 0 < single.exponent a.toNat) :
    single.value a.toNat = scaled a * 2 ^ ((single.exponent a.toNat : ℤ) - 156) := by
  rw [value_significand normal, power_scaled, scaled]
  push_cast
  split
  · ring
  · ring

end Operands

section Aligning

structure Aligned (sum : Int) (exact : ℚ) (exponent : Nat) : Prop where
  small : |sum| < 2 ^ 31
  near : |(sum : ℚ) - exact| < 1
  clean : (sum : ℚ) = exact ∨ 2 ^ 28 ≤ |sum| ∧ 2 ≤ exponent
  least : 0 < exponent
  inside : exponent ≤ 254

theorem floor_near (number : Int) (places : Nat) :
    |((number / 2 ^ places : Int) : ℚ) - number / 2 ^ places| < 1 := by
  have cut : ⌊(number : ℚ) / (2 ^ places : Nat)⌋ = number / (2 ^ places : Nat) :=
    Rat.floor_intCast_div_natCast number (2 ^ places)
  rw [Nat.cast_pow, Nat.cast_pow, Nat.cast_ofNat, Nat.cast_ofNat] at cut
  rw [← cut, abs_lt]
  have low := Int.floor_le ((number : ℚ) / 2 ^ places)
  have high := Int.lt_floor_add_one ((number : ℚ) / 2 ^ places)
  constructor
  · linarith
  · linarith

theorem shifted_bounds {number : Int} (bounded : |number| < 2 ^ 30) (places : Nat) :
    -2 ^ 30 ≤ number / 2 ^ places ∧ number / 2 ^ places < 2 ^ 30 := by
  have positive : (0 : Int) < 2 ^ places := pow_pos (by decide) _
  have bounds := abs_lt.mp bounded
  have one : (1 : Int) ≤ 2 ^ places := positive
  constructor
  · apply Int.le_ediv_of_mul_le positive
    nlinarith
  · apply Int.ediv_lt_of_lt_mul positive
    nlinarith

/-- The two extra places are lost only where the other operand is much larger. -/
theorem aligned_sum {larger smaller : Int} {places exponent : Nat} (long : 2 ^ 29 ≤ |larger|)
    (short : |larger| < 2 ^ 30) (bounded : |smaller| < 2 ^ 30) (whole : 64 ∣ smaller)
    (before : places < exponent) (inside : exponent ≤ 254) :
    Aligned (larger + smaller / 2 ^ places) (larger + smaller / 2 ^ places : ℚ) exponent := by
  have positive : (0 : Int) < 2 ^ places := pow_pos (by decide) _
  have bounds := abs_lt.mp bounded
  obtain ⟨lowest, highest⟩ := shifted_bounds bounded places
  have shifted : ((larger + smaller / 2 ^ places : Int) : ℚ) - (larger + smaller / 2 ^ places) =
      ((smaller / 2 ^ places : Int) : ℚ) - smaller / 2 ^ places := by
    push_cast
    ring
  constructor
  · rw [abs_lt] at *
    omega
  · rw [shifted]
    exact floor_near smaller places
  · by_cases few : places ≤ 6
    · left
      have divides : (2 ^ places : Int) ∣ smaller :=
        (pow_dvd_pow (2 : Int) few).trans (by simpa using whole)
      rw [Int.cast_add, Int.cast_div divides (by positivity), Int.cast_pow, Int.cast_ofNat]
    · right
      have power : (2 : Int) ^ 7 ≤ 2 ^ places := pow_le_pow_right₀ one_le_two (by omega)
      have low : -2 ^ 23 ≤ smaller / 2 ^ places := by
        apply Int.le_ediv_of_mul_le positive
        nlinarith
      have high : smaller / 2 ^ places < 2 ^ 23 := by
        apply Int.ediv_lt_of_lt_mul positive
        nlinarith
      refine ⟨?_, by omega⟩
      rw [le_abs] at *
      omega
  · omega
  · exact inside

end Aligning

section RoundSum

variable {turns : Nat}

def roundSum (turns : Nat) (mant exp : Word) : Option Word :=
  if mant.slt 0 then normalize turns signbit (-mant) exp
  else if mant = 0 then some 0
  else normalize turns 0 mant exp

theorem toNat_neg_of_negative {mant : Word} (negative : mant.toInt < 0) (low : -2 ^ 31 < mant.toInt) :
    ((-mant).toNat : Int) = -mant.toInt := by
  rw [BitVec.toNat_neg]
  rw [BitVec.toInt_eq_toNat_cond] at negative low ⊢
  split at negative <;> omega

theorem toNat_of_nonnegative {mant : Word} (nonnegative : ¬mant.toInt < 0) :
    (mant.toNat : Int) = mant.toInt := by
  rw [BitVec.toInt_eq_toNat_cond] at nonnegative ⊢
  split at nonnegative <;> omega

theorem roundSum_ends (enough : 29 ≤ turns) {mant : Word} (exp : Word) (small : |mant.toInt| < 2 ^ 31) :
    ∃ result, roundSum turns mant exp = some result := by
  have bounds := abs_lt.mp small
  have zero : (0 : Word).toInt = 0 := BitVec.toInt_zero
  unfold roundSum
  simp only [BitVec.slt_iff_toInt_lt, zero]
  split
  · rename_i negative
    have whole := toNat_neg_of_negative negative bounds.1
    exact normalize_ends enough signbit (by omega) (by omega)
  · rename_i nonnegative
    have whole := toNat_of_nonnegative nonnegative
    split
    · exact ⟨0, rfl⟩
    · rename_i some
      have nonzero : mant.toNat ≠ 0 := fun none => some (BitVec.eq_of_toNat_eq none)
      exact normalize_ends enough 0 (by omega) (by omega)

theorem range_scaled {exact : ℚ} {exponent : Nat}
    (range : NormalRange (exact * 2 ^ ((exponent : ℤ) - 156))) :
    2 ^ 30 ≤ |exact| * 2 ^ exponent ∧ |exact| * 2 ^ exponent ≤ (2 ^ 24 - 1) * 2 ^ 260 := by
  obtain ⟨low, high⟩ := range
  have unit : (0 : ℚ) < 2 ^ (-156 : ℤ) := zpow_pos two_pos _
  have power : |exact * 2 ^ ((exponent : ℤ) - 156)| = |exact| * 2 ^ exponent * 2 ^ (-156 : ℤ) := by
    rw [sub_eq_add_neg, zpow_add₀ two_ne_zero, zpow_natCast, ← mul_assoc, abs_mul, abs_mul,
      abs_of_pos unit, abs_of_pos (pow_pos two_pos _ : (0 : ℚ) < 2 ^ exponent)]
  have lowest : (2 : ℚ) ^ (-126 : ℤ) = 2 ^ 30 * 2 ^ (-156 : ℤ) := by norm_num
  have highest : (2 : ℚ) ^ (104 : ℤ) = 2 ^ 260 * 2 ^ (-156 : ℤ) := by
    rw [← zpow_natCast, ← zpow_add₀ two_ne_zero]
    norm_num
  rw [power, lowest] at low
  rw [power, highest, ← mul_assoc] at high
  exact ⟨le_of_mul_le_mul_right low unit, le_of_mul_le_mul_right high unit⟩

theorem normalize_aligned (enough : 29 ≤ turns) {sign mant exp : Word} {negative : Bool} {sum : Int}
    {exact : ℚ} (sign_eq : sign.toNat = negative.toNat * 2 ^ 31) (aligned : Aligned sum exact exp.toNat)
    (whole : (mant.toNat : Int) = (if negative then -1 else 1) * sum) (positive : 0 < mant.toNat)
    (range : exact = 0 ∨ NormalRange (exact * 2 ^ ((exp.toNat : ℤ) - 156))) :
    ∃ result, normalize turns sign mant exp = some result ∧
      Near (17 / 32) result (exact * 2 ^ ((exp.toNat : ℤ) - 156)) := by
  obtain ⟨unit, unit_eq, one, square⟩ : ∃ unit : ℚ, unit = (if negative then -1 else 1) ∧
      |unit| = 1 ∧ unit * unit = 1 := by
    refine ⟨_, rfl, ?_⟩
    cases negative with
    | false => norm_num
    | true => norm_num
  have cast : (mant.toNat : ℚ) = unit * sum := by
    have cast' : ((mant.toNat : Int) : ℚ) = ((if negative then -1 else 1) * sum : Int) := by rw [whole]
    rw [unit_eq]
    cases negative with
    | false => simpa using cast'
    | true => simpa using cast'
  have near : |(mant.toNat : ℚ) - unit * exact| < 1 := by
    rw [cast, ← mul_sub, abs_mul, one, one_mul]
    exact aligned.near
  have above : 0 < unit * exact := by
    have least : (1 : ℚ) ≤ mant.toNat := by exact_mod_cast positive
    have bounds := abs_lt.mp near
    linarith
  have size : |exact| = unit * exact := by
    rw [← abs_of_pos above, abs_mul, one, one_mul]
  have inside : NormalRange (exact * 2 ^ ((exp.toNat : ℤ) - 156)) := by
    apply range.resolve_left
    intro none
    rw [none, mul_zero] at above
    exact lt_irrefl _ above
  have bounds := range_scaled inside
  rw [size] at bounds
  have length : (mant.toNat : Int) = |sum| := by
    rw [← Nat.abs_cast, whole, abs_mul]
    cases negative with
    | false => simp
    | true => simp
  have small := aligned.small
  have clean : (mant.toNat : ℚ) = unit * exact ∨ 2 ^ 28 ≤ mant.toNat ∧ 2 ≤ exp.toNat := by
    rcases aligned.clean with same | ⟨long, more⟩
    · left
      rw [cast, same]
    · right
      omega
  obtain ⟨result, done, finite, error⟩ := normalize_spec enough sign_eq positive (by omega) aligned.least
    aligned.inside near clean bounds.1 bounds.2
  refine ⟨result, done, finite, ?_⟩
  have signs : (if negative then -1 else 1) * (unit * exact * 2 ^ ((exp.toNat : ℤ) - 156)) =
      exact * 2 ^ ((exp.toNat : ℤ) - 156) := by
    rw [← unit_eq, ← mul_assoc, ← mul_assoc, square, one_mul]
  rw [signs] at error
  exact error

theorem roundSum_spec (enough : 29 ≤ turns) {mant exp : Word} {exact : ℚ}
    (aligned : Aligned mant.toInt exact exp.toNat)
    (range : exact = 0 ∨ NormalRange (exact * 2 ^ ((exp.toNat : ℤ) - 156))) :
    ∃ result, roundSum turns mant exp = some result ∧
      Near (17 / 32) result (exact * 2 ^ ((exp.toNat : ℤ) - 156)) := by
  have smallBounds := abs_lt.mp aligned.small
  have zero : (0 : Word).toInt = 0 := BitVec.toInt_zero
  unfold roundSum
  simp only [BitVec.slt_iff_toInt_lt, zero]
  split
  · rename_i negative
    have whole := toNat_neg_of_negative negative smallBounds.1
    have sign_eq : signbit.toNat = true.toNat * 2 ^ 31 := by decide
    apply normalize_aligned enough sign_eq aligned _ (by omega) range
    rw [whole, if_pos rfl, neg_one_mul]
  · rename_i nonnegative
    have whole := toNat_of_nonnegative nonnegative
    split
    · rename_i none
      have exactZero : exact = 0 := by
        have clean := aligned.clean
        rw [none, zero, abs_zero, Int.cast_zero] at clean
        rcases clean with same | ⟨long, _⟩
        · exact same.symm
        · norm_num at long
      rw [exactZero, zero_mul]
      exact ⟨0, rfl, near_self (Or.inl rfl) (by norm_num) value_zero_word⟩
    · rename_i some
      have nonzero : mant.toInt ≠ 0 := by
        intro none
        exact some (BitVec.eq_of_toInt_eq none)
      have sign_eq : (0 : Word).toNat = false.toNat * 2 ^ 31 := by decide
      apply normalize_aligned enough sign_eq aligned _ (by omega) range
      rw [whole, if_neg Bool.false_ne_true, one_mul]

end RoundSum

section Sums

variable {turns : Nat} {x y a1 a2 : Word}

theorem near_larger (ordinary : Ordinary x) (normal1 : 0 < single.exponent x.toNat)
    (normal2 : 0 < single.exponent y.toNat)
    (far : single.exponent y.toNat + 25 < single.exponent x.toNat) :
    Near (17 / 32) x (single.value x.toNat + single.value y.toNat) := by
  refine ⟨ordinary, ?_⟩
  have short : (|scaled y| : ℚ) ≤ 2 ^ 30 := by exact_mod_cast (scaled_bounds y).2.le
  have unit : (0 : ℚ) < 2 ^ ((single.exponent y.toNat : ℤ) - 156) := zpow_pos two_pos _
  have places : (2 : ℚ) ^ 26 * 2 ^ ((single.exponent y.toNat : ℤ) - 156) ≤
      2 ^ ((single.exponent x.toNat : ℤ) - 156) := by
    rw [← zpow_natCast, ← zpow_add₀ two_ne_zero]
    apply zpow_le_zpow_right₀ one_le_two
    push_cast
    omega
  rw [sub_add_cancel_left, abs_neg, spacing_normal normal1, power_scaled, value_scaled y normal2, abs_mul,
    abs_of_pos unit]
  calc
    |(scaled y : ℚ)| * 2 ^ ((single.exponent y.toNat : ℤ) - 156) ≤
        2 ^ 30 * 2 ^ ((single.exponent y.toNat : ℤ) - 156) := mul_le_mul_of_nonneg_right short unit.le
    _ = 2 ^ 4 * (2 ^ 26 * 2 ^ ((single.exponent y.toNat : ℤ) - 156)) := by ring
    _ ≤ 2 ^ 4 * 2 ^ ((single.exponent x.toNat : ℤ) - 156) :=
      mul_le_mul_of_nonneg_left places (by norm_num)
    _ ≤ 17 / 32 * (64 * 2 ^ ((single.exponent x.toNat : ℤ) - 156)) := by
      rw [← mul_assoc]
      exact mul_le_mul_of_nonneg_right (by norm_num) (zpow_nonneg zero_le_two _)

theorem shifted_sum (normal1 : 0 < single.exponent x.toNat) (finite : single.Finite x.toNat)
    (normal2 : 0 < single.exponent y.toNat)
    (below : single.exponent y.toNat ≤ single.exponent x.toNat) :
    ∃ exact : ℚ, single.value x.toNat + single.value y.toNat =
        exact * 2 ^ (((expOf x).toNat : ℤ) - 156) ∧
      Aligned (signedMant x + (signedMant y).sshiftRight (expOf x - expOf y).toNat).toInt exact
        (expOf x).toNat := by
  have inside : single.exponent x.toNat < 2 ^ 8 - 1 := finite
  have difference : (expOf x - expOf y).toNat = single.exponent x.toNat - single.exponent y.toNat := by
    rw [BitVec.toNat_sub, toNat_expOf, toNat_expOf]
    omega
  have aligned : Aligned
      (scaled x + scaled y / 2 ^ (single.exponent x.toNat - single.exponent y.toNat))
      (scaled x + scaled y / 2 ^ (single.exponent x.toNat - single.exponent y.toNat))
      (single.exponent x.toNat) :=
    aligned_sum (scaled_bounds x).1 (scaled_bounds x).2 (scaled_bounds y).2 (dvd_scaled y) (by omega)
      (by omega)
  have word : (signedMant x + (signedMant y).sshiftRight (expOf x - expOf y).toNat).toInt =
      scaled x + scaled y / 2 ^ (single.exponent x.toNat - single.exponent y.toNat) := by
    have small := abs_lt.mp aligned.small
    rw [BitVec.toInt_add, BitVec.toInt_sshiftRight, Int.shiftRight_eq_div_pow, toInt_signedMant,
      toInt_signedMant, difference, Nat.cast_pow, Nat.cast_ofNat]
    apply Int.bmod_eq_of_le
    · omega
    · omega
  refine ⟨_, ?_, by rw [word, toNat_expOf]; exact aligned⟩
  have split : (2 : ℚ) ^ ((single.exponent x.toNat : ℤ) - 156) =
      2 ^ (single.exponent x.toNat - single.exponent y.toNat) *
        2 ^ ((single.exponent y.toNat : ℤ) - 156) := by
    rw [← zpow_natCast, ← zpow_add₀ two_ne_zero]
    have power : ((single.exponent x.toNat - single.exponent y.toNat : Nat) : ℤ) +
        ((single.exponent y.toNat : ℤ) - 156) = (single.exponent x.toNat : ℤ) - 156 := by omega
    rw [power]
  have nonzero : (2 : ℚ) ^ (single.exponent x.toNat - single.exponent y.toNat) ≠ 0 :=
    pow_ne_zero _ two_ne_zero
  rw [value_scaled x normal1, value_scaled y normal2, toNat_expOf, add_mul, split]
  congr 1
  rw [← mul_assoc, div_mul_cancel₀ _ nonzero]

theorem exp_lt_iff : (expOf x).slt (expOf y) ↔ single.exponent x.toNat < single.exponent y.toNat := by
  rw [BitVec.slt_iff_toInt_lt, toInt_expOf, toInt_expOf, Nat.cast_lt]

theorem exp_far_iff : (expOf x + 25).slt (expOf y) ↔
    single.exponent x.toNat + 25 < single.exponent y.toNat := by
  have small := exponent_lt x
  have sum : (expOf x + 25).toNat = single.exponent x.toNat + 25 := by
    rw [BitVec.toNat_add, toNat_expOf]
    exact Nat.mod_eq_of_lt (show single.exponent x.toNat + 25 < 2 ^ 32 by omega)
  rw [BitVec.slt_iff_toInt_lt, toInt_expOf, BitVec.toInt_eq_toNat_of_lt (by omega), sum, Nat.cast_lt]

theorem shifted_small (x y : Word) (places : Nat) :
    |(signedMant x + (signedMant y).sshiftRight places).toInt| < 2 ^ 31 := by
  have bounds := abs_lt.mp (scaled_bounds x).2
  obtain ⟨lowest, highest⟩ := shifted_bounds (scaled_bounds y).2 places
  rw [BitVec.toInt_add, BitVec.toInt_sshiftRight, Int.shiftRight_eq_div_pow, toInt_signedMant,
    toInt_signedMant, Nat.cast_pow, Nat.cast_ofNat, Int.bmod_eq_of_le (by omega) (by omega), abs_lt]
  constructor
  · omega
  · omega

theorem addsf3_ends (enough : 29 ≤ turns) (a1 a2 : Word) : ∃ result, addsf3 turns a1 a2 = some result := by
  unfold addsf3
  split
  · exact ⟨a2, rfl⟩
  split
  · exact ⟨a1, rfl⟩
  dsimp only
  split
  · exact ⟨a1, rfl⟩
  split
  · exact ⟨a2, rfl⟩
  split
  · exact roundSum_ends enough _ (shifted_small a1 a2 _)
  · apply roundSum_ends enough
    rw [BitVec.add_comm]
    exact shifted_small a2 a1 _

theorem addsf3_normal (enough : 29 ≤ turns) (ordinary1 : Ordinary a1) (ordinary2 : Ordinary a2)
    (some1 : a1 ≠ 0) (some2 : a2 ≠ 0)
    (range : single.value a1.toNat + single.value a2.toNat = 0 ∨
      NormalRange (single.value a1.toNat + single.value a2.toNat)) :
    ∃ result, addsf3 turns a1 a2 = some result ∧
      Near (17 / 32) result (single.value a1.toNat + single.value a2.toNat) := by
  obtain ⟨normal1, finite1⟩ := ordinary1.resolve_left some1
  obtain ⟨normal2, finite2⟩ := ordinary2.resolve_left some2
  have scale (exponent : Nat) (exact : ℚ) (sum_eq : single.value a1.toNat + single.value a2.toNat =
      exact * 2 ^ ((exponent : ℤ) - 156)) :
      exact = 0 ∨ NormalRange (exact * 2 ^ ((exponent : ℤ) - 156)) := by
    rw [sum_eq] at range
    apply range.imp_left
    intro none
    exact (mul_eq_zero.mp none).resolve_right (zpow_ne_zero _ two_ne_zero)
  unfold addsf3
  rw [if_neg some1, if_neg some2]
  simp only [exp_far_iff, exp_lt_iff]
  split
  · rename_i far
    exact ⟨a1, rfl, near_larger ordinary1 normal1 normal2 far⟩
  split
  · rename_i far
    rw [add_comm]
    exact ⟨a2, rfl, near_larger ordinary2 normal2 normal1 far⟩
  split
  · rename_i below
    obtain ⟨exact, sum_eq, aligned⟩ := shifted_sum normal1 finite1 normal2 below.le
    have inRange := scale _ _ sum_eq
    rw [sum_eq]
    exact roundSum_spec enough aligned inRange
  · rename_i above
    obtain ⟨exact, sum_eq, aligned⟩ := shifted_sum normal2 finite2 normal1 (Nat.le_of_not_lt above)
    rw [add_comm] at sum_eq
    have inRange := scale _ _ sum_eq
    rw [BitVec.add_comm] at aligned
    rw [sum_eq]
    exact roundSum_spec enough aligned inRange

theorem addsf3_near (enough : 29 ≤ turns) (ordinary1 : Ordinary a1) (ordinary2 : Ordinary a2)
    (range : single.value a1.toNat + single.value a2.toNat = 0 ∨
      NormalRange (single.value a1.toNat + single.value a2.toNat)) :
    ∃ result, addsf3 turns a1 a2 = some result ∧
      Near (17 / 32) result (single.value a1.toNat + single.value a2.toNat) := by
  by_cases none1 : a1 = 0
  · refine ⟨a2, by rw [addsf3, if_pos none1], near_self ordinary2 (by norm_num) ?_⟩
    rw [none1, value_zero_word, zero_add]
  by_cases none2 : a2 = 0
  · refine ⟨a1, by rw [addsf3, if_neg none1, if_pos none2], near_self ordinary1 (by norm_num) ?_⟩
    rw [none2, value_zero_word, add_zero]
  exact addsf3_normal enough ordinary1 ordinary2 none1 none2 range

theorem flip_fields (a : Word) : single.exponent (a ^^^ signbit).toNat = single.exponent a.toNat ∧
    single.fraction (a ^^^ signbit).toNat = single.fraction a.toNat ∧
      (single.Negative (a ^^^ signbit).toNat ↔ ¬ single.Negative a.toNat) := by
  have fits := a.isLt
  have place : signbit.toNat = 2 ^ 31 := rfl
  have lower : (a ^^^ signbit).toNat % 2 ^ 31 = a.toNat % 2 ^ 31 := by
    rw [BitVec.toNat_xor, place, Nat.xor_mod_two_pow, Nat.mod_self, Nat.xor_zero]
  have upper : (a ^^^ signbit).toNat / 2 ^ 31 = a.toNat / 2 ^ 31 ^^^ 1 := by
    rw [BitVec.toNat_xor, place, Nat.xor_div_two_pow, Nat.div_self (by decide)]
  have fits' := (a ^^^ signbit).isLt
  refine ⟨?_, ?_, ?_⟩
  · change (a ^^^ signbit).toNat % 2 ^ 31 / 2 ^ 23 = a.toNat % 2 ^ 31 / 2 ^ 23
    rw [lower]
  · change (a ^^^ signbit).toNat % 2 ^ 31 % 2 ^ 23 = a.toNat % 2 ^ 31 % 2 ^ 23
    rw [lower]
  · change 2 ^ 31 ≤ (a ^^^ signbit).toNat ↔ ¬ 2 ^ 31 ≤ a.toNat
    by_cases large : 2 ^ 31 ≤ a.toNat
    · rw [toNat_xor_signbit large]
      omega
    · rw [Nat.div_eq_of_lt (Nat.lt_of_not_le large)] at upper
      have one : 0 ^^^ 1 = 1 := rfl
      omega

theorem value_flip (normal : 0 < single.exponent a1.toNat) :
    single.value (a1 ^^^ signbit).toNat = -single.value a1.toNat := by
  obtain ⟨exponent, fraction, negative⟩ := flip_fields a1
  have normal' : 0 < single.exponent (a1 ^^^ signbit).toNat := exponent ▸ normal
  rw [value_significand normal', value_significand normal, exponent, fraction]
  by_cases sign : single.Negative a1.toNat
  · rw [if_neg (fun flipped => negative.mp flipped sign), if_pos sign]
    ring
  · rw [if_pos (negative.mpr sign), if_neg sign]
    ring

theorem Ordinary.flip (ordinary : Ordinary a1) (some : a1 ≠ 0) : Ordinary (a1 ^^^ signbit) := by
  obtain ⟨normal, finite⟩ := ordinary.resolve_left some
  obtain ⟨exponent, _, _⟩ := flip_fields a1
  right
  unfold Format.Finite at *
  rw [exponent]
  exact ⟨normal, finite⟩

theorem subsf3_near (enough : 29 ≤ turns) (ordinary1 : Ordinary a1) (ordinary2 : Ordinary a2)
    (range : single.value a1.toNat - single.value a2.toNat = 0 ∨
      NormalRange (single.value a1.toNat - single.value a2.toNat)) :
    ∃ result, subsf3 turns a1 a2 = some result ∧
      Near (17 / 32) result (single.value a1.toNat - single.value a2.toNat) := by
  by_cases none2 : a2 = 0
  · refine ⟨a1, by rw [subsf3, if_pos none2], near_self ordinary1 (by norm_num) ?_⟩
    rw [none2, value_zero_word, sub_zero]
  have flipped := value_flip (ordinary2.resolve_left none2).1
  by_cases none1 : a1 = 0
  · refine ⟨a2 ^^^ signbit, by rw [subsf3, if_neg none2, if_pos none1],
      near_self (ordinary2.flip none2) (by norm_num) ?_⟩
    rw [none1, value_zero_word, zero_sub, flipped]
  rw [sub_eq_add_neg, ← flipped] at range ⊢
  rw [subsf3, if_neg none2, if_neg none1]
  exact addsf3_near enough ordinary1 (ordinary2.flip none2) range

theorem subsf3_ends (enough : 29 ≤ turns) (a1 a2 : Word) : ∃ result, subsf3 turns a1 a2 = some result := by
  unfold subsf3
  split
  · exact ⟨a1, rfl⟩
  split
  · exact ⟨_, rfl⟩
  · exact addsf3_ends enough a1 _

/-- The two functions always return. A sum or a difference of ordinary operands that is zero or in the
range of the normal numbers comes out right but for 17/32 of its last place. -/
theorem sums_near (enough : 29 ≤ turns) (a1 a2 : Word) :
    (∃ result, addsf3 turns a1 a2 = some result ∧ (Ordinary a1 → Ordinary a2 →
      single.value a1.toNat + single.value a2.toNat = 0 ∨
        NormalRange (single.value a1.toNat + single.value a2.toNat) →
      Near (17 / 32) result (single.value a1.toNat + single.value a2.toNat))) ∧
    ∃ result, subsf3 turns a1 a2 = some result ∧ (Ordinary a1 → Ordinary a2 →
      single.value a1.toNat - single.value a2.toNat = 0 ∨
        NormalRange (single.value a1.toNat - single.value a2.toNat) →
      Near (17 / 32) result (single.value a1.toNat - single.value a2.toNat)) := by
  constructor
  · obtain ⟨result, done⟩ := addsf3_ends enough a1 a2
    refine ⟨result, done, fun ordinary1 ordinary2 range => ?_⟩
    obtain ⟨same, done', near⟩ := addsf3_near enough ordinary1 ordinary2 range
    rwa [Option.some.inj (done.symm.trans done')]
  · obtain ⟨result, done⟩ := subsf3_ends enough a1 a2
    refine ⟨result, done, fun ordinary1 ordinary2 range => ?_⟩
    obtain ⟨same, done', near⟩ := subsf3_near enough ordinary1 ordinary2 range
    rwa [Option.some.inj (done.symm.trans done')]

theorem sums_near_small : ∃ result, addsf3 29 0x40400000 0x3f000000 = some result ∧
    Near (17 / 32) result (3 + 1 / 2) := by
  obtain ⟨⟨result, done, near⟩, _⟩ := sums_near (le_refl 29) 0x40400000 0x3f000000
  refine ⟨result, done, ?_⟩
  rw [value_three, value_half] at near
  exact near (by decide) (by decide) (Or.inr (normalRange_of_le (by norm_num) (by norm_num)))

end Sums

end SoftArithmetic

end Hellfire

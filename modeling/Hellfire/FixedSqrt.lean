import Hellfire.FixedQuotients
import Hellfire.Library.Heron
import Mathlib.Analysis.Real.Sqrt

/-!
Results of `fix_sqrt` where `FIX_IBITS` is 16: the steps are those of Heron's iteration, rounded
downward, and its result is near the root of every argument but the smallest one.
-/

namespace Hellfire

def sqrtStep (a l : Nat) : Nat := (l + cutQuotient a l) / 2

theorem ne_intMin_of_small {value : Nat} (small : value < 2 ^ 31) :
    BitVec.ofNat 32 value ≠ BitVec.intMin 32 := by
  intro same
  have sign := msb_ofNat small
  rw [same] at sign
  exact absurd sign (by decide)

theorem fixDiv_ofNat {x y : Nat} (smallX : x < 2 ^ 31) (large : 2 ≤ y) (smallY : y < 2 ^ 31) :
    fixDiv 16 (BitVec.ofNat 32 x) (BitVec.ofNat 32 y) = some (BitVec.ofNat 32 (cutQuotient x y)) := by
  have nonzero : BitVec.ofNat 32 y ≠ 0 := by
    intro zero
    have value := congrArg BitVec.toNat zero
    rw [toNat_word smallY] at value
    simp at value
    omega
  have half : 2 ^ 31 / y ≤ 2 ^ 31 / 2 := Nat.div_le_div_left large (by decide)
  have word : 2 * (2 ^ 31 / y) % 2 ^ 32 = 2 * (2 ^ 31 / y) := Nat.mod_eq_of_lt (by omega)
  rw [fixDiv_eq (ne_intMin_of_small smallX) nonzero, reciprocalOf, msb_ofNat smallX, msb_ofNat smallY,
    abs_of_msb_false (msb_ofNat smallX), abs_of_msb_false (msb_ofNat smallY), toNat_word smallX,
    toNat_word smallY, word]
  rfl

theorem fixSqrtStep_ofNat {a l : Nat} (smallA : a < 2 ^ 31) (large : 2 ≤ l) (smallL : l < 2 ^ 31)
    (fits : l + cutQuotient a l < 2 ^ 31) :
    fixSqrtStep 16 (BitVec.ofNat 32 a) (BitVec.ofNat 32 l) = some (BitVec.ofNat 32 (sqrtStep a l)) := by
  unfold fixSqrtStep
  rw [fixDiv_ofNat smallA large smallL, Option.map_some, ← BitVec.ofNat_add,
    shifted_eq (msb_ofNat fits), toNat_word fits]
  rfl

structure SafeGuess (a l : Nat) : Prop where
  above : a * 2 ^ 16 ≤ 4 * (l * l)
  below : l ≤ 2 ^ 30

theorem SafeGuess.large {a l : Nat} (least : 2 ^ 16 ≤ a) (safe : SafeGuess a l) : 2 ^ 15 ≤ l := by
  by_contra less
  have square := Nat.mul_lt_mul'' (not_le.mp less) (not_le.mp less)
  have := safe.above
  omega

theorem cutQuotient_mul_le (a l : Nat) : cutQuotient a l * l ≤ a * 2 ^ 16 := by
  have split := quotient_split a l
  rw [Nat.mul_comm]
  unfold cutQuotient
  omega

theorem cutQuotient_lower {a l : Nat} (positive : 0 < l) :
    a * 2 ^ 32 < l * (cutQuotient a l * 2 ^ 16 + 2 * a + 2 ^ 16) := by
  have split := quotient_split a l
  have rest : 2 * (2 ^ 31 % l) * a ≤ 2 * l * a :=
    Nat.mul_le_mul_right _ (Nat.mul_le_mul_left _ (Nat.mod_lt _ positive).le)
  have part : l * (a * (2 * (2 ^ 31 / l)) % 2 ^ 16) < l * 2 ^ 16 :=
    Nat.mul_lt_mul_of_pos_left (Nat.mod_lt _ (by decide)) positive
  rw [split]
  unfold cutQuotient
  linarith

theorem SafeGuess.sum_lt {a l : Nat} (least : 2 ^ 16 ≤ a) (small : a < 2 ^ 31)
    (safe : SafeGuess a l) : l + cutQuotient a l < 2 ^ 31 := by
  have product := cutQuotient_mul_le a l
  have above := safe.above
  have below := safe.below
  have large := safe.large least
  by_cases near : l ≤ 2 ^ 28
  · have factor : cutQuotient a l * l ≤ 4 * l * l := by
      rw [Nat.mul_assoc]
      omega
    have := Nat.le_of_mul_le_mul_right factor (by omega)
    omega
  · have factor : cutQuotient a l * 2 ^ 28 ≤ cutQuotient a l * l :=
      Nat.mul_le_mul_left _ (by omega)
    omega

theorem sqrtStep_rounded {a l : Nat} (positive : 0 < l) :
    Heron.Rounded ((a : ℝ) * 2 ^ 16) (1 + (a : ℝ) / 2 ^ 16) (l : ℝ) (sqrtStep a l : ℝ) := by
  have divisor : (0 : ℝ) < l := by exact_mod_cast positive
  have upper : (cutQuotient a l : ℝ) ≤ (a : ℝ) * 2 ^ 16 / l := by
    rw [le_div_iff₀ divisor]
    exact_mod_cast cutQuotient_mul_le a l
  have lower : (a : ℝ) * 2 ^ 16 / l < cutQuotient a l + a / 2 ^ 15 + 1 := by
    have cast : (a : ℝ) * 2 ^ 32 < l * (cutQuotient a l * 2 ^ 16 + 2 * a + 2 ^ 16) := by
      exact_mod_cast cutQuotient_lower positive
    rw [div_lt_iff₀ divisor]
    linarith
  have halves : 2 * sqrtStep a l ≤ l + cutQuotient a l ∧
      l + cutQuotient a l ≤ 2 * sqrtStep a l + 1 := by
    unfold sqrtStep
    omega
  have floor : 2 * (sqrtStep a l : ℝ) ≤ l + cutQuotient a l := by exact_mod_cast halves.1
  have ceiling : (l : ℝ) + cutQuotient a l ≤ 2 * sqrtStep a l + 1 := by exact_mod_cast halves.2
  constructor <;> unfold Heron.step <;> linarith

noncomputable def fixedRoot (a : Nat) : ℝ := Real.sqrt ((a * 2 ^ 16 : Nat) : ℝ)

section Argument

variable {a : Nat} (least : 2 ^ 16 ≤ a) (small : a < 2 ^ 31)

theorem fixedRoot_eq (a : Nat) : fixedRoot a = Real.sqrt (a * 2 ^ 16) := by
  rw [fixedRoot, Nat.cast_mul, Nat.cast_pow, Nat.cast_ofNat]

theorem fixedRoot_square (a : Nat) : fixedRoot a * fixedRoot a = a * 2 ^ 16 := by
  rw [fixedRoot_eq]
  exact Real.mul_self_sqrt (by positivity)

include least in
theorem fixedRoot_ge : 2 ^ 16 ≤ fixedRoot a := by
  have cast : (2 : ℝ) ^ 16 ≤ a := by exact_mod_cast least
  rw [fixedRoot_eq]
  apply Real.le_sqrt_of_sq_le
  linarith

include small in
theorem fixedRoot_le : fixedRoot a ≤ 11863284 := by
  have cast : (a : ℝ) < 2 ^ 31 := by exact_mod_cast small
  rw [fixedRoot_eq]
  apply Real.sqrt_le_iff.mpr
  constructor <;> linarith

include least small

theorem fixedRoot_slack : 1 + (a : ℝ) / 2 ^ 16 ≤ fixedRoot a / 300 := by
  have square := fixedRoot_square a
  have lower := fixedRoot_ge least
  have upper := fixedRoot_le small
  have sides := mul_nonneg (sub_nonneg.mpr lower) (sub_nonneg.mpr upper)
  linarith

theorem SafeGuess.next {l : Nat} (safe : SafeGuess a l) : SafeGuess a (sqrtStep a l) := by
  have positive : 0 < l := lt_of_lt_of_le (by decide) (safe.large least)
  have rounded := sqrtStep_rounded (a := a) positive
  have slack := fixedRoot_slack least small
  have root := fixedRoot_ge least
  have square := fixedRoot_square a
  have sum := safe.sum_lt least small
  constructor
  · rw [← square] at rounded
    have lower := rounded.lower
    have above : fixedRoot a ≤ Heron.step (fixedRoot a * fixedRoot a) (l : ℝ) :=
      Heron.root_le_step (by exact_mod_cast positive)
    have half : fixedRoot a ≤ 2 * sqrtStep a l := by linarith
    have squares : fixedRoot a * fixedRoot a ≤ (2 * sqrtStep a l) * (2 * sqrtStep a l) :=
      mul_self_le_mul_self (by linarith) half
    rw [square] at squares
    have cast : a * 2 ^ 16 ≤ (2 * sqrtStep a l) * (2 * sqrtStep a l) := by exact_mod_cast squares
    linarith
  · unfold sqrtStep
    omega

theorem SafeGuess.iterate {l : Nat} (safe : SafeGuess a l) (turns : Nat) :
    SafeGuess a ((sqrtStep a)^[turns] l) := by
  induction turns with
  | zero => exact safe
  | succ turns ih =>
      rw [Function.iterate_succ_apply']
      exact ih.next least small

theorem fixSqrtLoop_ofNat (turns : Nat) {l : Nat} (safe : SafeGuess a l) :
    fixSqrtLoop 16 (BitVec.ofNat 32 a) turns (BitVec.ofNat 32 l) =
      some (BitVec.ofNat 32 ((sqrtStep a)^[turns] l)) := by
  induction turns generalizing l with
  | zero => rfl
  | succ turns ih =>
      have large := safe.large least
      have below := safe.below
      rw [fixSqrtLoop, fixSqrtStep_ofNat small (by omega) (by omega) (safe.sum_lt least small),
        Option.bind_some, ih (safe.next least small), Function.iterate_succ_apply]

theorem firstGuess_safe : SafeGuess a (a / 2 + 1) := by
  constructor
  · have square : a * a ≤ (2 * (a / 2 + 1)) * (2 * (a / 2 + 1)) :=
      Nat.mul_self_le_mul_self (by omega)
    have scaled : a * 2 ^ 16 ≤ a * a := Nat.mul_le_mul_left a least
    linarith
  · omega

omit small in
theorem firstGuess_within {turns : Nat} (digits : a < 4 ^ (turns + 9)) :
    Heron.Within (fixedRoot a) (1 / 2) (2 ^ turns + 1) ((a / 2 + 1 : Nat) : ℝ) := by
  have square := fixedRoot_square a
  have lower := fixedRoot_ge least
  have most : fixedRoot a ≤ 2 ^ turns * 2 ^ 17 := by
    have cast : (a : ℝ) < 4 ^ (turns + 9) := by exact_mod_cast digits
    have power : (4 : ℝ) ^ (turns + 9) * 2 ^ 16 = (2 ^ turns * 2 ^ 17) ^ 2 := by
      rw [mul_pow, ← pow_mul, mul_comm turns, pow_mul, pow_add]
      norm_num
      ring
    rw [fixedRoot_eq]
    apply Real.sqrt_le_iff.mpr
    refine ⟨by positivity, ?_⟩
    rw [← power]
    linarith
  have floor : (a : ℝ) ≤ 2 * (a / 2 + 1 : Nat) := by
    exact_mod_cast (by omega : a ≤ 2 * (a / 2 + 1))
  have ceiling : ((a / 2 + 1 : Nat) : ℝ) * 2 ≤ a + 2 := by
    exact_mod_cast (by omega : (a / 2 + 1) * 2 ≤ a + 2)
  have product : fixedRoot a * fixedRoot a ≤ 2 ^ turns * 2 ^ 17 * fixedRoot a :=
    mul_le_mul_of_nonneg_right most (by linarith)
  have least : 2 ^ 16 * fixedRoot a ≤ fixedRoot a * fixedRoot a :=
    mul_le_mul_of_nonneg_right lower (by linarith)
  constructor
  · linarith
  · rw [add_mul]
    linarith

theorem lastGuess_within {turns : Nat} (digits : a < 4 ^ (turns + 9)) :
    Heron.Within (fixedRoot a) (299 / 300) (1001 / 1000)
      (((sqrtStep a)^[turns + 9] (a / 2 + 1) : Nat) : ℝ) := by
  have root := fixedRoot_ge least
  have rounded (k : Nat) : Heron.Rounded (fixedRoot a * fixedRoot a) (1 + (a : ℝ) / 2 ^ 16)
      (((sqrtStep a)^[k] (a / 2 + 1) : Nat) : ℝ) (((sqrtStep a)^[k + 1] (a / 2 + 1) : Nat) : ℝ) := by
    have safe := (firstGuess_safe least small).iterate least small k
    rw [fixedRoot_square, Function.iterate_succ_apply']
    exact sqrtStep_rounded (lt_of_lt_of_le (by decide) (safe.large least))
  exact Heron.Within.near (by linarith) (fixedRoot_slack least small) rounded
    (firstGuess_within least digits) (turns + 9) (by omega)

end Argument

theorem slt_ofNat {x y : Nat} (smallX : x < 2 ^ 31) (smallY : y < 2 ^ 31) :
    (BitVec.ofNat 32 x).slt (BitVec.ofNat 32 y) = decide (x < y) := by
  rw [BitVec.slt_eq_decide, toInt_word smallX, toInt_word smallY]
  simp

theorem fixSqrtTurns_ofNat (turns : Nat) {s : Nat} (itr : Nat) (small : s < 2 ^ 31)
    (enough : s < 4 ^ turns) :
    ∃ digits, fixSqrtTurns turns (BitVec.ofNat 32 s) itr = some (itr + digits) ∧
      s < 4 ^ digits := by
  induction turns generalizing s itr with
  | zero =>
      have none : s = 0 := by omega
      subst none
      exact ⟨0, rfl, by decide⟩
  | succ turns ih =>
      have test : (0 : Fixed).slt (BitVec.ofNat 32 s) = decide (0 < s) :=
        slt_ofNat (by decide) small
      by_cases positive : 0 < s
      · obtain ⟨digits, counted, upper⟩ :=
          ih (s := s / 2 ^ 2) (itr + 1) (by omega) (by rw [pow_succ] at enough; omega)
        refine ⟨digits + 1, ?_, ?_⟩
        · rw [fixSqrtTurns, test, decide_eq_true positive, if_pos rfl,
            shifted_eq (msb_ofNat small), toNat_word small, counted]
          congr 1
          omega
        · rw [pow_succ]
          omega
      · have none : s = 0 := by omega
        subst none
        exact ⟨0, by rw [fixSqrtTurns]; rfl, by decide⟩

theorem fixSqrtRoot_near {a : Nat} (least : 2 ^ 16 < a) (small : a < 2 ^ 31) :
    ∃ l, fixSqrtRoot 16 (BitVec.ofNat 32 a) = some (BitVec.ofNat 32 l) ∧ SafeGuess a l ∧
      Heron.Within (fixedRoot a) (299 / 300) (1001 / 1000) (l : ℝ) := by
  have atLeast : 2 ^ 16 ≤ a := least.le
  obtain ⟨digits, counted, upper⟩ :=
    fixSqrtTurns_ofNat 16 0 small (lt_trans small (by decide))
  have many : 8 < digits := by
    apply (Nat.pow_lt_pow_iff_right (a := 4) (by decide)).mp
    exact lt_trans least upper
  obtain ⟨turns, rfl⟩ := Nat.exists_eq_add_of_le' (Nat.succ_le_of_lt many)
  have one : fixOne 16 = BitVec.ofNat 32 (2 ^ 16) := by decide
  have first : (BitVec.ofNat 32 a).sshiftRight 1 + 1 = BitVec.ofNat 32 (a / 2 + 1) := by
    rw [shifted_eq (msb_ofNat small), toNat_word small, BitVec.ofNat_add]
    rfl
  refine ⟨(sqrtStep a)^[turns + 9] (a / 2 + 1), ?_, ?_, lastGuess_within atLeast small upper⟩
  · unfold fixSqrtRoot
    rw [one, slt_ofNat (by decide) small, decide_eq_true least, if_pos rfl, counted, first]
    rw [Nat.zero_add]
    exact fixSqrtLoop_ofNat atLeast small _ (firstGuess_safe atLeast small)
  · exact (firstGuess_safe atLeast small).iterate atLeast small _

def SqrtNear (a r : Fixed) : Prop :=
  |(r.toInt : ℚ) * r.toInt / 2 ^ 16 - (a.toInt : ℚ)| ≤ (a.toInt : ℚ) / 2 ^ 6 + 2

theorem sqrtNear_iff (a r : Fixed) :
    SqrtNear a r ↔ |r.toInt * r.toInt - a.toInt * 2 ^ 16| ≤ a.toInt * 2 ^ 10 + 2 ^ 17 := by
  have scaled : (r.toInt : ℚ) * r.toInt / 2 ^ 16 - (a.toInt : ℚ) =
      (r.toInt * r.toInt - a.toInt * 2 ^ 16 : Int) / 2 ^ 16 := by
    push_cast
    ring
  unfold SqrtNear
  rw [scaled, abs_div, abs_of_pos (show (0 : ℚ) < 2 ^ 16 by norm_num), div_le_iff₀ (by norm_num),
    ← Int.cast_abs]
  have right : ((a.toInt : ℚ) / 2 ^ 6 + 2) * 2 ^ 16 = (a.toInt * 2 ^ 10 + 2 ^ 17 : Int) := by
    push_cast
    ring
  rw [right]
  exact Int.cast_le

instance (a r : Fixed) : Decidable (SqrtNear a r) := decidable_of_iff _ (sqrtNear_iff a r).symm

theorem sqrtNear_ofNat {a r : Nat} (smallA : a < 2 ^ 31) (smallR : r < 2 ^ 31)
    (near : |(r : ℝ) * r - (a : ℝ) * 2 ^ 16| ≤ (a : ℝ) * 2 ^ 10 + 2 ^ 17) :
    SqrtNear (BitVec.ofNat 32 a) (BitVec.ofNat 32 r) := by
  rw [sqrtNear_iff, toInt_word smallA, toInt_word smallR]
  exact_mod_cast near

theorem square_near {root guess : ℝ} (nonneg : 0 ≤ root)
    (within : Heron.Within root (299 / 300) (1001 / 1000) guess) :
    (299 / 300) ^ 2 * (root * root) ≤ guess * guess ∧
      guess * guess ≤ (1001 / 1000) ^ 2 * (root * root) := by
  have lower := mul_self_le_mul_self (by positivity) within.lower
  have upper := mul_self_le_mul_self (by linarith [within.lower]) within.upper
  constructor <;> linarith

theorem fixSqrt_ofNat {a : Nat} (positive : 0 < a) (small : a < 2 ^ 31) (notOne : a ≠ 2 ^ 16) :
    fixSqrt 16 (BitVec.ofNat 32 a) =
      if a < 2 ^ 16 ∧ 6 < a then do
        let a ← fixDiv 16 (BitVec.ofNat 32 (2 ^ 16)) (BitVec.ofNat 32 a)
        let l ← fixSqrtRoot 16 a
        fixDiv 16 (BitVec.ofNat 32 (2 ^ 16)) l
      else fixSqrtRoot 16 (BitVec.ofNat 32 a) := by
  have one : fixOne 16 = BitVec.ofNat 32 (2 ^ 16) := by decide
  have six : (6 : Fixed) = BitVec.ofNat 32 6 := rfl
  have nonneg : (BitVec.ofNat 32 a).slt 0 = false := by
    rw [← msb_ofNat small]
    exact BitVec.slt_zero_eq_msb
  have different : ¬ (BitVec.ofNat 32 a = 0 ∨ BitVec.ofNat 32 a = BitVec.ofNat 32 (2 ^ 16)) := by
    rintro (zero | same)
    · have value := congrArg BitVec.toNat zero
      rw [toNat_word small] at value
      exact positive.ne' value
    · have value := congrArg BitVec.toNat same
      rw [toNat_word small, toNat_word (by decide)] at value
      exact notOne value
  unfold fixSqrt
  rw [nonneg, if_neg Bool.false_ne_true, one, if_neg different, six, slt_ofNat small (by decide),
    slt_ofNat (by decide) small]
  simp only [decide_eq_true_eq]

theorem fixSqrt_above {a : Nat} (least : 2 ^ 16 < a) (small : a < 2 ^ 31) :
    ∃ r, fixSqrt 16 (BitVec.ofNat 32 a) = some r ∧ SqrtNear (BitVec.ofNat 32 a) r := by
  obtain ⟨l, returned, safe, within⟩ := fixSqrtRoot_near least small
  have root := fixedRoot_ge least.le
  have square := fixedRoot_square a
  have below := safe.below
  have positive : (0 : ℝ) ≤ a := Nat.cast_nonneg a
  obtain ⟨lower, upper⟩ := square_near (by linarith) within
  rw [square] at lower upper
  refine ⟨BitVec.ofNat 32 l, ?_, sqrtNear_ofNat small (by omega) ?_⟩
  · rw [fixSqrt_ofNat (by omega) small least.ne', if_neg (by omega)]
    exact returned
  · rw [abs_le]
    constructor <;> linarith

/-- The argument `a` below `FIX_ONE`, its inverse, the root of the inverse and its inverse. -/
theorem inverse_near {a r : ℝ} (inverse guess : ℝ) (small : 2 ≤ a) (large : a ≤ 2 ^ 16)
    (inverseLower : 2 ^ 32 < (inverse + 2) * a) (inverseUpper : inverse * a ≤ 2 ^ 32)
    (guessPositive : 0 < guess)
    (lower : (299 / 300) ^ 2 * (inverse * 2 ^ 16) ≤ guess * guess)
    (upper : guess * guess ≤ (1001 / 1000) ^ 2 * (inverse * 2 ^ 16)) (nonneg : 0 ≤ r)
    (resultLower : 2 ^ 32 < (r + 2) * guess) (resultUpper : r * guess ≤ 2 ^ 32) :
    |r * r - a * 2 ^ 16| ≤ a * 2 ^ 10 + 2 ^ 17 := by
  have most : r * r * (2 ^ 32 - 2 ^ 17) * (299 / 300) ^ 2 ≤ 2 ^ 48 * a := by
    have squares : (r * guess) * (r * guess) ≤ 2 ^ 32 * 2 ^ 32 :=
      mul_self_le_mul_self (by positivity) resultUpper
    have scaled : r * r * ((299 / 300) ^ 2 * (inverse * 2 ^ 16)) ≤ r * r * (guess * guess) :=
      mul_le_mul_of_nonneg_left lower (by positivity)
    have total : r * r * ((299 / 300) ^ 2 * (inverse * 2 ^ 16)) ≤ 2 ^ 64 := by linarith
    have product : r * r * (inverse * a) * (299 / 300) ^ 2 ≤ 2 ^ 48 * a := by
      have := mul_le_mul_of_nonneg_right total (show 0 ≤ a by linarith)
      linarith
    have factor : r * r * (2 ^ 32 - 2 ^ 17) ≤ r * r * (inverse * a) :=
      mul_le_mul_of_nonneg_left (by linarith) (by positivity)
    linarith
  have least : 2 ^ 16 * a ≤ (r + 2) * (r + 2) * (1001 / 1000) ^ 2 := by
    have squares : 2 ^ 32 * 2 ^ 32 ≤ ((r + 2) * guess) * ((r + 2) * guess) :=
      mul_self_le_mul_self (by positivity) resultLower.le
    have scaled : (r + 2) * (r + 2) * (guess * guess) ≤
        (r + 2) * (r + 2) * ((1001 / 1000) ^ 2 * (inverse * 2 ^ 16)) :=
      mul_le_mul_of_nonneg_left upper (by positivity)
    have total : 2 ^ 64 ≤ (r + 2) * (r + 2) * ((1001 / 1000) ^ 2 * (inverse * 2 ^ 16)) := by linarith
    have product : 2 ^ 48 * a ≤ (r + 2) * (r + 2) * (1001 / 1000) ^ 2 * (inverse * a) := by
      have := mul_le_mul_of_nonneg_right total (show 0 ≤ a by linarith)
      linarith
    have factor : (r + 2) * (r + 2) * (1001 / 1000) ^ 2 * (inverse * a) ≤
        (r + 2) * (r + 2) * (1001 / 1000) ^ 2 * 2 ^ 32 :=
      mul_le_mul_of_nonneg_left inverseUpper (by positivity)
    linarith
  have cross : 4 * r ≤ r * r / 1000 + 4000 := by
    have := sq_nonneg (r - 2000)
    linarith
  rw [abs_le]
  constructor <;> linarith

theorem cutQuotient_one (y : Nat) : cutQuotient (2 ^ 16) y = 2 * (2 ^ 31 / y) :=
  Nat.mul_div_cancel_left _ (by decide)

theorem cutQuotient_one_lower {y : Nat} (positive : 0 < y) :
    2 ^ 32 < (cutQuotient (2 ^ 16) y + 2) * y := by
  have floor := Nat.lt_div_mul_add positive (a := 2 ^ 31)
  rw [cutQuotient_one]
  linarith

theorem fixSqrt_below {a : Nat} (least : 6 < a) (small : a < 2 ^ 16 - 1) :
    ∃ r, fixSqrt 16 (BitVec.ofNat 32 a) = some r ∧ SqrtNear (BitVec.ofNat 32 a) r := by
  have word : a < 2 ^ 31 := by omega
  have inverseAbove : 2 ^ 16 < cutQuotient (2 ^ 16) a := by
    rw [cutQuotient_one]
    have : (2 ^ 31) / (2 ^ 16 - 2) ≤ 2 ^ 31 / a := Nat.div_le_div_left (by omega) (by omega)
    omega
  have inverseBelow : cutQuotient (2 ^ 16) a < 2 ^ 31 := by
    rw [cutQuotient_one]
    have : 2 ^ 31 / a ≤ 2 ^ 31 / 7 := Nat.div_le_div_left (by omega) (by decide)
    omega
  obtain ⟨l, returned, safe, within⟩ := fixSqrtRoot_near inverseAbove inverseBelow
  have large := safe.large inverseAbove.le
  have below := safe.below
  have resultBelow : cutQuotient (2 ^ 16) l < 2 ^ 31 := by
    rw [cutQuotient_one]
    have : 2 ^ 31 / l ≤ 2 ^ 31 / 2 ^ 15 := Nat.div_le_div_left large (by decide)
    omega
  refine ⟨BitVec.ofNat 32 (cutQuotient (2 ^ 16) l), ?_, sqrtNear_ofNat word resultBelow ?_⟩
  · rw [fixSqrt_ofNat (by omega) word (by omega), if_pos (by omega),
      fixDiv_ofNat (by decide) (by omega) word]
    simp only [Option.bind_eq_bind, Option.bind_some]
    rw [returned, Option.bind_some, fixDiv_ofNat (by decide) (by omega) (by omega)]
  · obtain ⟨lower, upper⟩ := square_near (by linarith [fixedRoot_ge inverseAbove.le]) within
    rw [fixedRoot_square] at lower upper
    apply inverse_near (cutQuotient (2 ^ 16) a : ℝ) (l : ℝ)
    · exact_mod_cast (by omega : 2 ≤ a)
    · exact_mod_cast (by omega : a ≤ 2 ^ 16)
    · exact_mod_cast cutQuotient_one_lower (by omega : 0 < a)
    · exact_mod_cast cutQuotient_mul_le (2 ^ 16) a
    · exact_mod_cast (by omega : 0 < l)
    · exact lower
    · exact upper
    · exact Nat.cast_nonneg _
    · exact_mod_cast cutQuotient_one_lower (by omega : 0 < l)
    · exact_mod_cast cutQuotient_mul_le (2 ^ 16) l

/-- The smallest argument is the only one whose first guess is lost: its next guess is zero. -/
theorem fixSqrt_near_iff (a : Fixed) (nonneg : 0 ≤ a.toInt) :
    (∃ r, fixSqrt 16 a = some r ∧ SqrtNear a r) ↔ a ≠ 1 := by
  have sign : a.msb = false := by
    cases set : a.msb with
    | false => rfl
    | true => exact absurd (BitVec.toInt_neg_of_msb_true set) (by omega)
  have bound : a.toNat < 2 ^ 31 := by
    rw [BitVec.toInt_eq_toNat_of_msb sign] at nonneg
    rw [BitVec.msb_eq_decide] at sign
    simpa using sign
  obtain ⟨value, rfl, size⟩ : ∃ value, a = BitVec.ofNat 32 value ∧ value < 2 ^ 31 :=
    ⟨a.toNat, by simp, bound⟩
  constructor
  · rintro ⟨r, returned, -⟩ smallest
    have none : fixSqrt 16 1 = none := by decide
    rw [smallest, none] at returned
    exact absurd returned (Option.some_ne_none r).symm
  · intro other
    by_cases above : 2 ^ 16 < value
    · exact fixSqrt_above above size
    · by_cases below : 6 < value ∧ value < 2 ^ 16 - 1
      · exact fixSqrt_below below.1 below.2
      · have few : value = 0 ∨ value = 1 ∨ value = 2 ∨ value = 3 ∨ value = 4 ∨ value = 5 ∨ value = 6 ∨
            value = 65535 ∨ value = 65536 := by omega
        rcases few with rfl | rfl | rfl | rfl | rfl | rfl | rfl | rfl | rfl
        · exact ⟨0, by decide, by decide⟩
        · exact absurd rfl other
        · exact ⟨362, by decide, by decide⟩
        · exact ⟨443, by decide, by decide⟩
        · exact ⟨512, by decide, by decide⟩
        · exact ⟨572, by decide, by decide⟩
        · exact ⟨627, by decide, by decide⟩
        · exact ⟨65536, by decide, by decide⟩
        · exact ⟨65536, by decide, by decide⟩

theorem fixSqrt_near_two : ∃ r, fixSqrt 16 0x20000 = some r ∧ SqrtNear 0x20000 r :=
  (fixSqrt_near_iff 0x20000 (by decide)).mpr (by decide)

/-- The first guess for the smallest argument is one, the next one is zero, and divides. -/
theorem fixSqrt_divides_by_zero :
    fixSqrtStep 16 1 1 = some 0 ∧ fixDiv 16 1 0 = none ∧
      ¬ ∀ a : Fixed, 0 ≤ a.toInt → ∃ r, fixSqrt 16 a = some r ∧ SqrtNear a r := by
  refine ⟨by decide, by decide, ?_⟩
  intro all
  obtain ⟨r, returned, -⟩ := all 1 (by decide)
  have none : fixSqrt 16 1 = none := by decide
  rw [none] at returned
  exact absurd returned (Option.some_ne_none r).symm

end Hellfire

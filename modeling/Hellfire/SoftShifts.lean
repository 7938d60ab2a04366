import Hellfire.SoftProducts

/-!
Results of the 64-bit shifts: a count below 32 is right, the arithmetic right shift by 32 loses the
high word, and a count above 32 is not told from one below.
-/

namespace Hellfire

section Split

variable (u : Dword) {count : Nat}

theorem shiftLeft_split (positive : 0 < count) (below : count < 32) :
    ((((u >>> 32).setWidth 32 : Word) <<< count ||| (u.setWidth 32 : Word) >>> (32 - count)) ++
      (u.setWidth 32 : Word) <<< count : Dword) = u <<< count := by
  refine BitVec.eq_of_getLsbD_eq fun place inside => ?_
  simp only [BitVec.getLsbD_append, BitVec.getLsbD_shiftLeft, BitVec.getLsbD_or, BitVec.getLsbD_ushiftRight,
    BitVec.getLsbD_setWidth]
  by_cases low : place < 32
  · grind
  · by_cases carried : place - 32 < count
    · have same : 32 - count + (place - 32) = place - count := by omega
      grind
    · have same : 32 + (place - 32 - count) = place - count := by omega
      grind

theorem ushiftRight_split (below : count < 32) :
    (((u >>> 32).setWidth 32 : Word) >>> count ++
      ((u.setWidth 32 : Word) >>> count ||| ((u >>> 32).setWidth 32 : Word) <<< (32 - count)) : Dword) =
      u >>> count := by
  refine BitVec.eq_of_getLsbD_eq fun place inside => ?_
  simp only [BitVec.getLsbD_append, BitVec.getLsbD_shiftLeft, BitVec.getLsbD_or, BitVec.getLsbD_ushiftRight,
    BitVec.getLsbD_setWidth]
  by_cases low : place < 32
  · by_cases kept : count + place < 32
    · grind
    · have same : 32 + (place - (32 - count)) = count + place := by omega
      grind
  · have same : 32 + (count + (place - 32)) = count + place := by omega
    grind

theorem sshiftRight_split (below : count < 32) :
    (((u >>> 32).setWidth 32 : Word).sshiftRight count ++
      ((u.setWidth 32 : Word) >>> count ||| ((u >>> 32).setWidth 32 : Word) <<< (32 - count)) : Dword) =
      u.sshiftRight count := by
  refine BitVec.eq_of_getLsbD_eq fun place inside => ?_
  simp only [BitVec.getLsbD_append, BitVec.getLsbD_shiftLeft, BitVec.getLsbD_or, BitVec.getLsbD_ushiftRight,
    BitVec.getLsbD_setWidth, BitVec.getLsbD_sshiftRight]
  by_cases low : place < 32
  · by_cases kept : count + place < 32
    · grind
    · have same : 32 + (place - (32 - count)) = count + place := by omega
      grind
  · have same : 32 + (count + (place - 32)) = count + place := by omega
    grind

theorem msb_highHalf : ((u >>> 32).setWidth 32 : Word).msb = u.msb := by
  rw [BitVec.msb_eq_decide, BitVec.msb_eq_decide, toNat_highHalf]
  have := u.isLt
  grind

theorem shiftLeft_word : ((u.setWidth 32 : Word) ++ (0 : Word) : Dword) = u <<< 32 := by
  refine BitVec.eq_of_getLsbD_eq fun place inside => ?_
  simp only [BitVec.getLsbD_append, BitVec.getLsbD_shiftLeft, BitVec.getLsbD_setWidth]
  grind

theorem ushiftRight_word : ((0 : Word) ++ ((u >>> 32).setWidth 32 : Word) : Dword) = u >>> 32 := by
  refine BitVec.eq_of_getLsbD_eq fun place inside => ?_
  simp only [BitVec.getLsbD_append, BitVec.getLsbD_ushiftRight, BitVec.getLsbD_setWidth]
  grind

theorem sshiftRight_word :
    (((u >>> 32).setWidth 32 : Word).sshiftRight 31 ++ ((u >>> 32).setWidth 32 : Word) : Dword) =
      u.sshiftRight 32 := by
  refine BitVec.eq_of_getLsbD_eq fun place inside => ?_
  simp only [BitVec.getLsbD_append, BitVec.getLsbD_ushiftRight, BitVec.getLsbD_setWidth,
    BitVec.getLsbD_sshiftRight, msb_highHalf]
  grind

end Split

namespace WideShift

variable (wide : WideShift) (op : Word → Nat → Word) (x : Word) {count : Word}

theorem shift_below (below : count.toNat < 32) : wide.shift op x count = op x count.toNat := by
  cases wide with
  | zeroed => rw [shift, if_pos below]
  | masked => rw [shift, Nat.mod_eq_of_lt below]

theorem shift_zeroed (above : 32 ≤ count.toNat) : zeroed.shift op x count = 0 := by
  rw [shift, if_neg (Nat.not_lt.mpr above)]

/-- The operands for which a shift by more than 32 places comes out right. -/
def Spares (u : Dword) (count : Nat) : Prop :=
  match wide with
  | .zeroed => u.toNat % 2 ^ (64 - count) = 0 ∧ u.toNat < 2 ^ count
  | .masked => u = 0

end WideShift

section Counts

variable (order : WordOrder) (wide : WideShift) (u : Dword) {b : Word}

theorem toNat_complement (below : b.toNat ≤ 32) : (32 - b).toNat = 32 - b.toNat := by
  rw [BitVec.toNat_sub]
  simp
  omega

theorem toNat_wrapped (above : 32 < b.toNat) : (32 - b).toNat = 2 ^ 32 + 32 - b.toNat := by
  rw [BitVec.toNat_sub]
  simp
  omega

structure SplitCount (b : Word) : Prop where
  nonzero : b ≠ 0
  apart : ¬32 - b ≤ 0

theorem SplitCount.of_ne (positive : 0 < b.toNat) (inRange : b.toNat ≤ 63) (apart : b.toNat ≠ 32) :
    SplitCount b := by
  refine ⟨?_, ?_⟩
  · rintro rfl
    exact absurd positive (by decide)
  · rw [BitVec.le_def, BitVec.toNat_sub]
    simp
    omega

theorem ashldi3_split (split : SplitCount b) :
    ashldi3 order wide u b =
      (wide.shift (· <<< ·) ((u >>> 32).setWidth 32) b |||
        wide.shift (· >>> ·) (u.setWidth 32) (32 - b)) ++ wide.shift (· <<< ·) (u.setWidth 32) b := by
  simp only [ashldi3, if_neg split.nonzero, if_neg split.apart, Dwords.all_ofWords, Dwords.low_ofAll,
    Dwords.high_ofAll]

theorem ashrdi3_split (split : SplitCount b) :
    ashrdi3 order wide u b =
      wide.shift BitVec.sshiftRight ((u >>> 32).setWidth 32) b ++
        (wide.shift (· >>> ·) (u.setWidth 32) b |||
          wide.shift (· <<< ·) ((u >>> 32).setWidth 32) (32 - b)) := by
  simp only [ashrdi3, if_neg split.nonzero, if_neg split.apart, Dwords.all_ofWords, Dwords.low_ofAll,
    Dwords.high_ofAll]

theorem lshrdi3_split (split : SplitCount b) :
    lshrdi3 order wide u b =
      wide.shift (· >>> ·) ((u >>> 32).setWidth 32) b ++
        (wide.shift (· >>> ·) (u.setWidth 32) b |||
          wide.shift (· <<< ·) ((u >>> 32).setWidth 32) (32 - b)) := by
  simp only [lshrdi3, if_neg split.nonzero, if_neg split.apart, Dwords.all_ofWords, Dwords.low_ofAll,
    Dwords.high_ofAll]

structure SeenCount (wide : WideShift) (b : Word) (count : Nat) : Prop where
  positive : 0 < count
  below : count < 32
  shift_eq : ∀ op x, wide.shift op x b = op x count
  carry_eq : ∀ op x, wide.shift op x (32 - b) = op x (32 - count)

theorem SeenCount.of_below (positive : 0 < b.toNat) (below : b.toNat < 32) : SeenCount wide b b.toNat := by
  have rest : (32 - b).toNat = 32 - b.toNat := toNat_complement below.le
  refine ⟨positive, below, fun op x => wide.shift_below op x below, fun op x => ?_⟩
  rw [wide.shift_below op x (by omega), rest]

theorem SeenCount.of_masked (above : 32 < b.toNat) (inRange : b.toNat ≤ 63) :
    SeenCount .masked b (b.toNat - 32) := by
  have rest := toNat_wrapped above
  refine ⟨by omega, by omega, fun op x => ?_, fun op x => ?_⟩
  · rw [WideShift.shift]
    congr 1
    omega
  · rw [WideShift.shift, rest]
    congr 1
    omega

section

variable {count : Nat}

theorem ashldi3_seen (split : SplitCount b) (seen : SeenCount wide b count) :
    ashldi3 order wide u b = u <<< count := by
  rw [ashldi3_split order wide u split, seen.shift_eq, seen.shift_eq, seen.carry_eq]
  exact shiftLeft_split u seen.positive seen.below

theorem ashrdi3_seen (split : SplitCount b) (seen : SeenCount wide b count) :
    ashrdi3 order wide u b = u.sshiftRight count := by
  rw [ashrdi3_split order wide u split, seen.shift_eq, seen.shift_eq, seen.carry_eq]
  exact sshiftRight_split u seen.below

theorem lshrdi3_seen (split : SplitCount b) (seen : SeenCount wide b count) :
    lshrdi3 order wide u b = u >>> count := by
  rw [lshrdi3_split order wide u split, seen.shift_eq, seen.shift_eq, seen.carry_eq]
  exact ushiftRight_split u seen.below

end

theorem zeroed_shifts (split : SplitCount b) (above : 32 < b.toNat) :
    ashldi3 order .zeroed u b = 0 ∧ ashrdi3 order .zeroed u b = 0 ∧ lshrdi3 order .zeroed u b = 0 := by
  have rest := toNat_wrapped above
  have shifted := fun op x => WideShift.shift_zeroed op x above.le
  have carried := fun op x => WideShift.shift_zeroed op x (show 32 ≤ (32 - b).toNat by omega)
  rw [ashldi3_split _ _ _ split, ashrdi3_split _ _ _ split, lshrdi3_split _ _ _ split]
  simp only [shifted, carried]
  decide

theorem whole_count : (32 : Word) ≠ 0 ∧ (32 : Word) - 32 ≤ 0 := by decide

theorem shift_none (op : Word → Nat → Word) (kept : ∀ x, op x 0 = x) (x : Word) :
    wide.shift op x (-(32 - 32)) = x :=
  (wide.shift_below op x (by decide)).trans (kept x)

theorem ashldi3_word : ashldi3 order wide u 32 = u <<< 32 := by
  simp only [ashldi3, if_neg whole_count.1, if_pos whole_count.2, Dwords.all_ofWords, Dwords.low_ofAll,
    shift_none wide _ (fun _ => BitVec.shiftLeft_zero ..)]
  exact shiftLeft_word u

theorem lshrdi3_word : lshrdi3 order wide u 32 = u >>> 32 := by
  simp only [lshrdi3, if_neg whole_count.1, if_pos whole_count.2, Dwords.all_ofWords, Dwords.high_ofAll,
    shift_none wide _ (fun _ => BitVec.ushiftRight_zero ..)]
  exact ushiftRight_word u

theorem ashrdi3_word : ashrdi3 order wide u 32 =
    ((u >>> 32).setWidth 32 : Word).sshiftRight 31 ++ (u.setWidth 32 : Word) := by
  simp only [ashrdi3, if_neg whole_count.1, if_pos whole_count.2, Dwords.all_ofWords, Dwords.low_ofAll,
    Dwords.high_ofAll, shift_none wide _ (fun _ => BitVec.ushiftRight_zero ..)]

theorem ashrdi3_word_iff :
    ashrdi3 order wide u 32 = u.sshiftRight 32 ↔ u.toNat % 2 ^ 32 = u.toNat / 2 ^ 32 := by
  rw [ashrdi3_word, ← sshiftRight_word, ← toNat_lowHalf, ← toNat_highHalf, BitVec.toNat_inj]
  constructor
  · intro same
    have numbers := congrArg BitVec.toNat same
    rw [toNat_joined, toNat_joined] at numbers
    exact BitVec.eq_of_toNat_eq (Nat.add_left_cancel numbers)
  · intro same
    rw [same]

theorem toNat_shiftLeft_kept {count : Nat} (inRange : count ≤ 63) :
    (u <<< count).toNat = u.toNat % 2 ^ (64 - count) * 2 ^ count := by
  have width : 2 ^ 64 = 2 ^ (64 - count) * 2 ^ count := by
    rw [← pow_add]
    congr 1
    omega
  rw [BitVec.toNat_shiftLeft, Nat.shiftLeft_eq, width, Nat.mul_mod_mul_right]

theorem zero_shifts_iff {count : Nat} (inRange : count ≤ 63) :
    (0 = u <<< count ∧ 0 = u.sshiftRight count ∧ 0 = u >>> count) ↔
      u.toNat % 2 ^ (64 - count) = 0 ∧ u.toNat < 2 ^ count := by
  have left : 0 = u <<< count ↔ u.toNat % 2 ^ (64 - count) = 0 := by
    rw [eq_comm, ← BitVec.toNat_inj, toNat_shiftLeft_kept u inRange]
    simp
  have logical : 0 = u >>> count ↔ u.toNat < 2 ^ count := by
    rw [eq_comm, ← BitVec.toNat_inj, BitVec.toNat_ushiftRight, Nat.shiftRight_eq_div_pow]
    simp [Nat.div_eq_zero_iff]
  rw [left, logical]
  constructor
  · rintro ⟨clear, _, small⟩
    exact ⟨clear, small⟩
  · rintro ⟨clear, small⟩
    have bound : 2 ^ count ≤ 2 ^ 63 := Nat.pow_le_pow_right (by decide) inRange
    have plus : u.msb = false := by
      rw [BitVec.msb_eq_decide]
      simp
      omega
    refine ⟨clear, ?_, small⟩
    rw [BitVec.sshiftRight_eq_of_msb_false plus]
    exact logical.mpr small

theorem eq_zero_of_word_quotient {value : Nat} (same : value = value / 2 ^ 32) : value = 0 := by
  omega

theorem eq_zero_of_word_product {value : Nat} (small : value < 2 ^ 62)
    (same : value % 2 ^ 64 = value * 2 ^ 32 % 2 ^ 64) : value = 0 := by
  have width : 2 ^ 64 = 2 ^ 32 * 2 ^ 32 := pow_add 2 32 32
  rw [Nat.mod_eq_of_lt (small.trans (by decide)), width, Nat.mul_mod_mul_right] at same
  have low : value % 2 ^ 32 = 0 := by
    rw [same]
    exact Nat.mul_mod_left ..
  rw [same, low, Nat.zero_mul]

theorem masked_shifts_iff {count : Nat} (above : 32 < count) (inRange : count ≤ 63) :
    (u <<< (count - 32) = u <<< count ∧ u.sshiftRight (count - 32) = u.sshiftRight count ∧
      u >>> (count - 32) = u >>> count) ↔ u = 0 := by
  constructor
  · rintro ⟨left, _, logical⟩
    have split : 2 ^ count = 2 ^ (count - 32) * 2 ^ 32 := by
      rw [← pow_add]
      congr 1
      omega
    have bound : 2 ^ (count - 32) ≤ 2 ^ 31 := Nat.pow_le_pow_right (by decide) (by omega)
    have positive : 0 < 2 ^ (count - 32) := Nat.pow_pos (by decide)
    have logicalNumbers := congrArg BitVec.toNat logical
    have leftNumbers := congrArg BitVec.toNat left
    rw [BitVec.toNat_ushiftRight, BitVec.toNat_ushiftRight, Nat.shiftRight_eq_div_pow,
      Nat.shiftRight_eq_div_pow, split, ← Nat.div_div_eq_div_mul] at logicalNumbers
    rw [BitVec.toNat_shiftLeft, BitVec.toNat_shiftLeft, Nat.shiftLeft_eq, Nat.shiftLeft_eq, split,
      ← Nat.mul_assoc] at leftNumbers
    have small : u.toNat < 2 ^ (count - 32) :=
      Nat.lt_of_div_eq_zero positive (eq_zero_of_word_quotient logicalNumbers)
    have product : u.toNat * 2 ^ (count - 32) < 2 ^ 31 * 2 ^ 31 :=
      Nat.mul_lt_mul_of_lt_of_le (small.trans_le bound) bound (by decide)
    have zero := Nat.mul_eq_zero.mp (eq_zero_of_word_product product leftNumbers)
    exact BitVec.toNat_inj.mp (zero.resolve_right positive.ne')
  · rintro rfl
    simp

theorem shifts_exact_iff (inRange : b.toNat ≤ 63) :
    (ashldi3 order wide u b = u <<< b.toNat ∧ ashrdi3 order wide u b = u.sshiftRight b.toNat ∧
        lshrdi3 order wide u b = u >>> b.toNat) ↔
      b.toNat < 32 ∨ b.toNat = 32 ∧ u.toNat % 2 ^ 32 = u.toNat / 2 ^ 32 ∨
        32 < b.toNat ∧ wide.Spares u b.toNat := by
  rcases Nat.lt_trichotomy b.toNat 32 with below | whole | above
  · simp only [below, true_or, iff_true]
    rcases Nat.eq_zero_or_pos b.toNat with none | positive
    · obtain rfl : b = 0 := BitVec.eq_of_toNat_eq none
      exact ⟨(BitVec.shiftLeft_zero u).symm, (BitVec.sshiftRight_zero).symm, (BitVec.ushiftRight_zero u).symm⟩
    · have split := SplitCount.of_ne positive inRange below.ne
      have seen := SeenCount.of_below wide positive below
      exact ⟨ashldi3_seen order wide u split seen, ashrdi3_seen order wide u split seen,
        lshrdi3_seen order wide u split seen⟩
  · obtain rfl : b = 32 := BitVec.eq_of_toNat_eq whole
    change (_ = u <<< 32 ∧ _ = u.sshiftRight 32 ∧ _ = u >>> 32) ↔
      32 < 32 ∨ 32 = 32 ∧ _ ∨ 32 < 32 ∧ wide.Spares u 32
    rw [ashrdi3_word_iff]
    simp only [ashldi3_word, lshrdi3_word, true_and, and_true, Nat.lt_irrefl, false_and, false_or, or_false]
  · have split := SplitCount.of_ne (by omega) inRange above.ne'
    simp only [above, above.ne', Nat.lt_asymm above, false_and, false_or, true_and]
    cases wide with
    | zeroed =>
        obtain ⟨left, arithmetic, logical⟩ := zeroed_shifts order u split above
        rw [left, arithmetic, logical]
        exact zero_shifts_iff u inRange
    | masked =>
        have seen := SeenCount.of_masked above inRange
        rw [ashldi3_seen order _ u split seen, ashrdi3_seen order _ u split seen,
          lshrdi3_seen order _ u split seen]
        exact masked_shifts_iff u above inRange

theorem shifts_exact_seven :
    ashldi3 .bigEndian .masked (-5) 7 = (-5#64) <<< 7 ∧
      ashrdi3 .bigEndian .masked (-5) 7 = (-5#64).sshiftRight 7 ∧
      lshrdi3 .bigEndian .masked (-5) 7 = (-5#64) >>> 7 :=
  (shifts_exact_iff .bigEndian .masked (-5) (show (7 : Word).toNat ≤ 63 by decide)).mpr
    (Or.inl (by decide))

theorem shifts_inexact : ¬∃ order wide, ∀ u (b : Word), b.toNat ≤ 63 →
    ashldi3 order wide u b = u <<< b.toNat ∧ ashrdi3 order wide u b = u.sshiftRight b.toNat ∧
      lshrdi3 order wide u b = u >>> b.toNat := by
  rintro ⟨order, wide, exactly⟩
  have whole := (exactly 4294967296 32 (by decide)).2.1
  cases order <;> cases wide <;> exact absurd whole (by decide)

end Counts

end Hellfire

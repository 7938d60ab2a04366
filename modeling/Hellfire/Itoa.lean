import Hellfire.Library.Numerals
import Hellfire.SoftQuotients
import Hellfire.TextCore

/-!
Results of `itoa`: it leaves the numeral of its argument, with its sign and its end, and nothing else
changes.
-/

namespace Hellfire

open ByteMemory Loops Numerals

def blank : Memory := fun _ => 0

def digitByte (digit : Nat) : UInt8 :=
  if digit < 10 then UInt8.ofNat (48 + digit) else UInt8.ofNat (87 + digit)

def digitBytes (digits : List Nat) : List UInt8 := digits.map digitByte

theorem digitBytes_append (digits : List Nat) (digit : Nat) :
    digitBytes (digits ++ [digit]) = digitBytes digits ++ [digitByte digit] := by
  simp [digitBytes]

def intText (base : Nat) (i : Int) : List UInt8 :=
  (if i < 0 then [byteOf '-'] else []) ++ digitBytes (numeral base i.natAbs)

theorem itoaTable_up : ∀ digit < 36, itoaTable (35 + digit) = digitByte digit := by decide

theorem itoaTable_down : ∀ digit < 36, itoaTable (35 - digit) = digitByte digit := by decide

structure ItoaBase (base : Word) : Prop where
  lower : 2 ≤ base.toNat
  upper : base.toNat ≤ 36

namespace ItoaBase

variable {base : Word}

theorem toInt (accepted : ItoaBase base) : base.toInt = base.toNat := by
  have := accepted.upper
  rw [BitVec.toInt_eq_toNat_cond, if_pos (by omega)]

theorem toInt_sdiv (accepted : ItoaBase base) (i : Word) :
    (i.sdiv base).toInt = i.toInt.tdiv base.toNat := by
  have notMinusOne : base ≠ -1 := by
    rintro rfl
    exact absurd accepted.upper (by decide)
  rw [BitVec.toInt_sdiv_of_ne_or_ne _ _ (Or.inr notMinusOne), accepted.toInt]

theorem natAbs_sdiv (accepted : ItoaBase base) (i : Word) :
    (i.sdiv base).toInt.natAbs = i.toInt.natAbs / base.toNat := by
  rw [accepted.toInt_sdiv, Int.natAbs_tdiv, Int.natAbs_natCast]
  rfl

theorem natAbs_lt (accepted : ItoaBase base) (i : Word) : i.toInt.natAbs < base.toNat ^ 32 := by
  have lower := BitVec.le_toInt i
  have upper := BitVec.toInt_lt (x := i)
  calc
    i.toInt.natAbs < 2 ^ 32 := by omega
    _ ≤ base.toNat ^ 32 := Nat.pow_le_pow_left accepted.lower 32

theorem itoaTable_eq (accepted : ItoaBase base) (i : Word) :
    itoaTable (35 + (i - i.sdiv base * base)).toNat = digitByte (i.toInt.natAbs % base.toNat) := by
  have small : i.toInt.natAbs % base.toNat < 36 :=
    (Nat.mod_lt _ (by have := accepted.lower; omega)).trans_le accepted.upper
  have rest : i - i.sdiv base * base = i.srem base := sub_eq_iff_eq_add'.mpr (sdiv_mul_add_srem i base)
  have size : (i.srem base).toInt.natAbs = i.toInt.natAbs % base.toNat := by
    rw [BitVec.toInt_srem, Int.natAbs_tmod, accepted.toInt, Int.natAbs_natCast]
  have value := BitVec.toInt_eq_toNat_cond (i.srem base)
  have fits := (i.srem base).isLt
  have start : (35 : Word).toNat = 35 := rfl
  rw [rest]
  -- Remainders of either sign lead to the same digit, on either side of the middle of the table.
  split at value
  · have index : (35 + i.srem base).toNat = 35 + i.toInt.natAbs % base.toNat := by
      rw [BitVec.toNat_add, start]
      omega
    rw [index, itoaTable_up _ small]
  · have index : (35 + i.srem base).toNat = 35 - i.toInt.natAbs % base.toNat := by
      rw [BitVec.toNat_add, start]
      omega
    rw [index, itoaTable_down _ small]

end ItoaBase

namespace ItoaState

structure Stored (memory : Memory) (s : Nat) (base : Word) (start : Int) (left : Nat)
    (state : ItoaState) : Prop where
  digits : ∃ stored, state.memory = writeBytes memory s (digitBytes stored) ∧
    state.ptr = s + stored.length ∧ Taken base.toNat start.natAbs stored state.i.toInt.natAbs left
  nonneg : 0 ≤ start → 0 ≤ state.i.toInt
  nonpos : start < 0 → state.i.toInt ≤ 0
  sign : state.tmpValue.toInt < 0 ↔ start < 0

variable {memory : Memory} {s : Nat} {base : Word} {start : Int}

theorem Stored.turn (accepted : ItoaBase base) {state : ItoaState} {stored : List Nat} {left : Nat}
    (memory_eq : state.memory = writeBytes memory s (digitBytes stored))
    (ptr_eq : state.ptr = s + stored.length)
    (taken : Taken base.toNat start.natAbs (stored ++ [state.i.toInt.natAbs % base.toNat])
      (state.i.toInt.natAbs / base.toNat) left)
    (nonneg : 0 ≤ start → 0 ≤ state.i.toInt) (nonpos : start < 0 → state.i.toInt < 0) :
    Stored memory s base start left (state.turn base) := by
  have lengths : (digitBytes stored).length = stored.length := List.length_map ..
  refine ⟨⟨stored ++ [state.i.toInt.natAbs % base.toNat], ?_, ?_, ?_⟩, ?_, ?_, ?_⟩
  · simp only [ItoaState.turn]
    rw [accepted.itoaTable_eq, digitBytes_append, ← writeByte_writeBytes, lengths, ← ptr_eq, ← memory_eq]
  · simp only [ItoaState.turn, ptr_eq, List.length_append, List.length_singleton]
    omega
  · simp only [ItoaState.turn]
    rw [accepted.natAbs_sdiv]
    exact taken
  · intro positive
    simp only [ItoaState.turn]
    rw [accepted.toInt_sdiv]
    exact Int.tdiv_nonneg (nonneg positive) (Int.natCast_nonneg _)
  · intro negative
    simp only [ItoaState.turn]
    rw [accepted.toInt_sdiv]
    have opposite := Int.tdiv_nonneg (show 0 ≤ -state.i.toInt by have := nonpos negative; omega)
      (Int.natCast_nonneg base.toNat)
    rw [Int.neg_tdiv] at opposite
    omega
  · simp only [ItoaState.turn]
    omega

theorem Stored.step (accepted : ItoaBase base) (left : Nat) (state : ItoaState)
    (holds : Stored memory s base start left state) (continues : state.i ≠ 0) :
    ∃ after < left, Stored memory s base start after (state.turn base) := by
  obtain ⟨stored, memory_eq, ptr_eq, taken⟩ := holds.digits
  have nonzero : state.i.toInt ≠ 0 := fun zero => continues (BitVec.eq_of_toInt_eq zero)
  obtain ⟨after, less, further⟩ := taken.next accepted.lower (Int.natAbs_ne_zero.mpr nonzero)
  refine ⟨after, less, Stored.turn accepted memory_eq ptr_eq further holds.nonneg ?_⟩
  intro negative
  have := holds.nonpos negative
  omega

theorem stored_spec (accepted : ItoaBase base) (memory : Memory) (s : Nat) (i : Word) :
    ∃ state, whileLoop (fun state => state.i ≠ 0) (ItoaState.turn base) 32
        (ItoaState.turn base ⟨memory, s, i, 0⟩) = some state ∧
      state.memory = writeBytes memory s (digitBytes (lowDigits base.toNat i.toInt.natAbs)) ∧
      state.ptr = s + (lowDigits base.toNat i.toInt.natAbs).length ∧
      (state.tmpValue.toInt < 0 ↔ i.toInt < 0) := by
  have wide : 1 < base.toNat := accepted.lower
  -- The first turn is taken without a look at the number, which may be zero.
  have first : Stored memory s base i.toInt _ (ItoaState.turn base ⟨memory, s, i, 0⟩) :=
    Stored.turn accepted (show memory = writeBytes memory s (digitBytes []) from (writeBytes_nil ..).symm)
      rfl Taken.first (fun positive => positive) (fun negative => negative)
  have enough : (base.toNat.digits (i.toInt.natAbs / base.toNat)).length ≤ 32 := by
    rw [Nat.digits_length_le_iff wide]
    exact (Nat.div_le_self ..).trans_lt (accepted.natAbs_lt i)
  obtain ⟨state, _, ends, holds, stops⟩ := whileLoop_ends (Stored.step accepted) first enough
  obtain ⟨stored, memory_eq, ptr_eq, taken⟩ := holds.digits
  rw [not_not.mp stops] at taken
  obtain rfl := taken.all
  exact ⟨state, ends, memory_eq, ptr_eq, holds.sign⟩

end ItoaState

namespace SwapState

def mirrored (memory : Memory) (s count : Nat) : Memory := fun place =>
  if s ≤ place ∧ place < s + count then memory (s + (s + count - 1 - place)) else memory place

structure Swapped (memory : Memory) (s count left : Nat) (state : SwapState) : Prop where
  places : ∃ swapped, swapped + left = count / 2 ∧ state.ptr1 = s + swapped ∧
    state.ptr + swapped + 1 = s + count ∧
    ∀ place, state.memory place =
      if s ≤ place ∧ place < s + count ∧ (place < s + swapped ∨ s + count ≤ place + swapped) then
        memory (s + (s + count - 1 - place))
      else memory place

theorem Swapped.step {memory : Memory} {s count : Nat} (left : Nat) (state : SwapState)
    (holds : Swapped memory s count left state) (continues : state.ptr1 < state.ptr) :
    ∃ after < left, Swapped memory s count after state.turn := by
  obtain ⟨swapped, turns, ptr1_eq, ptr_eq, bytes⟩ := holds.places
  refine ⟨left - 1, by omega, swapped + 1, by omega, ?_, ?_, fun place => ?_⟩
  · simp only [SwapState.turn]
    omega
  · simp only [SwapState.turn]
    omega
  · simp only [SwapState.turn]
    have low := bytes state.ptr1
    have high := bytes state.ptr
    rw [if_neg (by omega)] at low high
    by_cases atFirst : place = state.ptr1
    · subst atFirst
      rw [writeByte_self, high, if_pos (by omega)]
      congr 1
      omega
    · rw [writeByte_other _ _ atFirst]
      by_cases atLast : place = state.ptr
      · subst atLast
        rw [writeByte_self, low, if_pos (by omega)]
        congr 1
        omega
      · rw [writeByte_other _ _ atLast, bytes place]
        congr 1
        apply propext
        omega

theorem swapped_spec (memory : Memory) (s : Nat) {count turns : Nat} (some : 0 < count)
    (enough : count / 2 ≤ turns) :
    ∃ state, whileLoop (fun state => state.ptr1 < state.ptr) SwapState.turn turns
        ⟨memory, s, s + count - 1⟩ = Option.some state ∧ state.memory = mirrored memory s count := by
  have start : Swapped memory s count (count / 2) ⟨memory, s, s + count - 1⟩ :=
    ⟨0, by omega, rfl, by simp only []; omega, fun place => by rw [if_neg (by omega)]⟩
  obtain ⟨state, left, ends, holds, stops⟩ := whileLoop_ends Swapped.step start enough
  obtain ⟨swapped, turned, ptr1_eq, ptr_eq, bytes⟩ := holds.places
  refine ⟨state, ends, funext fun place => ?_⟩
  rw [bytes place, mirrored]
  by_cases middle : place = s + swapped ∧ place + swapped + 1 = s + count
  · have fixed : s + (s + count - 1 - place) = place := by omega
    rw [fixed, ite_self, ite_self]
  · congr 1
    apply propext
    omega

theorem mirrored_writeBytes (memory : Memory) (s : Nat) (bytes : List UInt8) :
    mirrored (writeBytes memory s (bytes ++ [0])) s bytes.length =
      writeBytes memory s (bytes.reverse ++ [0]) := by
  funext place
  unfold mirrored
  by_cases inside : s ≤ place ∧ place < s + bytes.length
  · rw [if_pos inside, writeBytes_inside _ _ (by omega) (by simp; omega),
      writeBytes_inside _ _ inside.1 (by simp; omega)]
    have place_eq : s + (s + bytes.length - 1 - place) - s = bytes.length - 1 - (place - s) := by omega
    have before : place - s < bytes.length := by omega
    simp only [List.getD_eq_getElem?_getD, place_eq]
    rw [List.getElem?_append_left (by omega), List.getElem?_append_left (by simpa using before),
      List.getElem?_reverse before]
  · rw [if_neg inside]
    by_cases last : place = s + bytes.length
    · subst last
      rw [writeBytes_inside _ _ (by omega) (by simp), writeBytes_inside _ _ (by omega) (by simp)]
      simp
    · rw [writeBytes_outside _ _ (by simp; omega), writeBytes_outside _ _ (by simp; omega)]

theorem finish_spec (memory : Memory) (s : Nat) (bytes : List UInt8) {turns : Nat}
    (some : 0 < bytes.length) (enough : bytes.length / 2 ≤ turns) :
    (do
      let state ← whileLoop (fun state => state.ptr1 < state.ptr) SwapState.turn turns
        ⟨writeByte (writeBytes memory s bytes) (s + bytes.length) 0, s, s + bytes.length - 1⟩
      return state.memory) = Option.some (writeBytes memory s (bytes.reverse ++ [0])) := by
  obtain ⟨state, ends, memory_eq⟩ :=
    swapped_spec (writeByte (writeBytes memory s bytes) (s + bytes.length) 0) s some enough
  rw [ends, Option.bind_eq_bind, Option.bind_some, memory_eq, writeByte_writeBytes, mirrored_writeBytes]
  rfl

end SwapState

theorem intText_nonneg {base : Nat} {i : Int} (nonneg : ¬i < 0) :
    intText base i = digitBytes (numeral base i.natAbs) := by
  rw [intText, if_neg nonneg, List.nil_append]

theorem intText_neg {base : Nat} {i : Int} (negative : i < 0) :
    intText base i = byteOf '-' :: digitBytes (numeral base i.natAbs) := by
  rw [intText, if_pos negative, List.singleton_append]

theorem itoa_eq {base : Word} (accepted : ItoaBase base) (memory : Memory) (i : Word) (s : Nat) :
    itoa memory i s base = some (writeBytes memory s (intText base.toNat i.toInt ++ [0])) := by
  have inRange : ¬(base.slt 2 ∨ (36 : Word).slt base) := by
    have lower := accepted.lower
    have upper := accepted.upper
    have two : (2 : Word).toInt = 2 := rfl
    have thirtySix : (36 : Word).toInt = 36 := rfl
    rw [BitVec.slt_iff_toInt_lt, BitVec.slt_iff_toInt_lt, accepted.toInt, two, thirtySix]
    omega
  obtain ⟨state, stored, memory_eq, ptr_eq, sign⟩ := ItoaState.stored_spec accepted memory s i
  have limit : (lowDigits base.toNat i.toInt.natAbs).length ≤ 32 :=
    (length_lowDigits_le_iff accepted.lower (by decide)).mpr (accepted.natAbs_lt i)
  have positive : 0 < (lowDigits base.toNat i.toInt.natAbs).length := Nat.succ_pos _
  have turned : (digitBytes (lowDigits base.toNat i.toInt.natAbs)).reverse =
      digitBytes (numeral base.toNat i.toInt.natAbs) := List.map_reverse.symm
  have minus : state.tmpValue.slt 0 = true ↔ i.toInt < 0 := BitVec.slt_iff_toInt_lt.trans sign
  have length_eq : (digitBytes (lowDigits base.toNat i.toInt.natAbs)).length =
      (lowDigits base.toNat i.toInt.natAbs).length := List.length_map ..
  rw [← length_eq] at limit positive ptr_eq
  generalize digitBytes (lowDigits base.toNat i.toInt.natAbs) = digits at *
  unfold itoa
  rw [if_neg inRange, stored, Option.bind_eq_bind, Option.bind_some]
  simp only [minus]
  by_cases negative : i.toInt < 0
  · have finished := SwapState.finish_spec memory s (digits ++ [byteOf '-']) (by simp)
      (show _ ≤ 32 by simp; omega)
    rw [← writeByte_writeBytes, List.length_append, List.length_singleton, List.reverse_append, turned]
      at finished
    simp only [if_pos negative, memory_eq, ptr_eq, intText_neg negative]
    exact finished
  · have finished := SwapState.finish_spec memory s digits positive (show _ ≤ 32 by omega)
    rw [turned] at finished
    simp only [if_neg negative, memory_eq, ptr_eq, intText_nonneg negative]
    exact finished

theorem digitByte_plain : ∀ digit < 36, digitByte digit ≠ 0 ∧ digitByte digit ≠ byteOf '-' := by decide

theorem ItoaBase.digit_lt {base : Word} (accepted : ItoaBase base) {number digit : Nat}
    (member : digit ∈ numeral base.toNat number) : digit < 36 :=
  (numeral_lt accepted.lower member).trans_le accepted.upper

theorem intText_ended {base : Word} (accepted : ItoaBase base) (i : Int) : 0 ∉ intText base.toNat i := by
  intro member
  rcases List.mem_append.mp member with sign | digits
  · split at sign
    · exact absurd sign (by decide)
    · cases sign
  · obtain ⟨digit, listed, zero⟩ := List.mem_map.mp digits
    exact (digitByte_plain digit (accepted.digit_lt listed)).1 zero

def wordValue (base value : Word) (digits : List Nat) : Word :=
  digits.foldl (fun value digit => value * base + BitVec.ofNat 32 digit) value

theorem wordValue_eq (base : Word) (digits : List Nat) :
    wordValue base 0 digits = BitVec.ofNat 32 (Numerals.value base.toNat digits) := by
  induction digits using List.reverseRecOn with
  | nil => rfl
  | append_singleton digits digit ih =>
      rw [wordValue, List.foldl_append, value_append, BitVec.ofNat_add, BitVec.ofNat_mul, ← ih]
      simp [wordValue]

theorem ofNat_natAbs (i : Word) :
    (if i.toInt < 0 then -BitVec.ofNat 32 i.toInt.natAbs else BitVec.ofNat 32 i.toInt.natAbs) = i := by
  have value := BitVec.toInt_eq_toNat_cond i
  have fits := i.isLt
  apply BitVec.eq_of_toNat_eq
  by_cases negative : i.toInt < 0
  · rw [if_pos negative, BitVec.toNat_neg, BitVec.toNat_ofNat]
    split at value <;> omega
  · rw [if_neg negative, BitVec.toNat_ofNat]
    split at value <;> omega

end Hellfire

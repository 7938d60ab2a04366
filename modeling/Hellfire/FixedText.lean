import Hellfire.FixedProducts
import Hellfire.Itoa

/-!
Model and results of `fixtoa` of `lib/include/fixed.h`: it writes the expansion of its argument, cut off
after the places that were asked for.
-/

namespace Hellfire

open ByteMemory Loops Numerals

section Model

variable (ibits : Nat)

structure WholeState where
  tmp : Memory
  ndec : Word
  ip : Word

def WholeState.turn (state : WholeState) : WholeState :=
  { tmp := writeByte state.tmp state.ndec.toNat (UInt8.ofNat (48 + state.ip % 10).toNat)
    ndec := state.ndec + 1
    ip := state.ip / 10 }

structure TurnedState where
  str : Memory
  slen : Word
  ndec : Word

def TurnedState.turn (tmp : Memory) (state : TurnedState) : TurnedState :=
  { str := writeByte state.str state.slen.toNat (tmp (state.ndec - 1).toNat)
    slen := state.slen + 1
    ndec := state.ndec - 1 }

structure PlaceState where
  str : Memory
  slen : Word
  ndec : Word
  fr : Word

def PlaceState.turn (state : PlaceState) : PlaceState :=
  let fr := (state.fr &&& fixFmask ibits) * 10
  { str := writeByte state.str state.slen.toNat (UInt8.ofNat (48 + (fr >>> fixFbits ibits) % 10).toNat)
    slen := state.slen + 1
    ndec := state.ndec + 1
    fr }

/-- `none` is a loop that goes on after `turns` turns. -/
def fixtoa (turns : Nat) (a : Fixed) (str : Memory) (dec : Word) : Option Memory := do
  let (a, str, slen) : Fixed × Memory × Word :=
    if a.slt 0 then (-a, writeByte str 0 (byteOf '-'), 1) else (a, str, 0)
  let whole ← whileLoop (fun state => state.ip ≠ 0) WholeState.turn turns
    (WholeState.turn ⟨fun _ => 0, 0, a.sshiftRight (fixFbits ibits)⟩)
  let turned ← whileLoop (fun state => (0 : Word).slt state.ndec) (TurnedState.turn whole.tmp) turns
    ⟨str, slen, whole.ndec⟩
  let str := writeByte turned.str turned.slen.toNat (byteOf '.')
  -- `ndec` is zero again, and counts the places from here on.
  let state ← whileLoop (fun state => state.ndec.slt dec) (PlaceState.turn ibits) turns
    (PlaceState.turn ibits ⟨str, turned.slen + 1, turned.ndec, a &&& fixFmask ibits⟩)
  return writeByte state.str state.slen.toNat 0

end Model

theorem decimalByte : ∀ digit < 10, UInt8.ofNat (48 + BitVec.ofNat 32 digit).toNat = digitByte digit := by
  decide

theorem toNat_ofNat_word {number : Nat} (bounded : number < 2 ^ 32) :
    (BitVec.ofNat 32 number).toNat = number := by
  rw [BitVec.toNat_ofNat, Nat.mod_eq_of_lt bounded]

theorem umod_ten (word : Word) : word % 10 = BitVec.ofNat 32 (word.toNat % 10) := by
  apply BitVec.eq_of_toNat_eq
  exact BitVec.toNat_umod.trans (toNat_ofNat_word (show word.toNat % 10 < 2 ^ 32 by omega)).symm

namespace WholeState

structure Stored (number left : Nat) (state : WholeState) : Prop where
  digits : ∃ stored, state.tmp = writeBytes blank 0 (digitBytes stored) ∧
    state.ndec = BitVec.ofNat 32 stored.length ∧ Taken 10 number stored state.ip.toNat left

theorem Stored.turn {number left : Nat} {state : WholeState} {stored : List Nat}
    (bounded : (lowDigits 10 number).length ≤ 10)
    (tmp_eq : state.tmp = writeBytes blank 0 (digitBytes stored))
    (ndec_eq : state.ndec = BitVec.ofNat 32 stored.length)
    (taken : Taken 10 number (stored ++ [state.ip.toNat % 10]) (state.ip.toNat / 10) left) :
    Stored number left state.turn := by
  have short := taken.length_le
  rw [List.length_append] at short
  have place : state.ndec.toNat = 0 + (digitBytes stored).length := by
    rw [ndec_eq, toNat_ofNat_word (by omega), digitBytes, List.length_map, Nat.zero_add]
  have quotient : (state.ip / 10).toNat = state.ip.toNat / 10 := BitVec.toNat_udiv
  refine ⟨stored ++ [state.ip.toNat % 10], ?_, ?_, ?_⟩
  · simp only [WholeState.turn]
    rw [umod_ten, decimalByte _ (Nat.mod_lt _ (by decide)), tmp_eq, place, writeByte_writeBytes,
      digitBytes_append]
  · simp only [WholeState.turn, ndec_eq, List.length_append, List.length_singleton]
    exact (BitVec.ofNat_add ..).symm
  · simp only [WholeState.turn]
    rw [quotient]
    exact taken

theorem Stored.step {number : Nat} (bounded : (lowDigits 10 number).length ≤ 10) (left : Nat)
    (state : WholeState) (holds : Stored number left state) (continues : state.ip ≠ 0) :
    ∃ after < left, Stored number after state.turn := by
  obtain ⟨stored, tmp_eq, ndec_eq, taken⟩ := holds.digits
  have nonzero : state.ip.toNat ≠ 0 := fun zero => continues (BitVec.eq_of_toNat_eq zero)
  obtain ⟨after, less, further⟩ := taken.next (by decide) nonzero
  exact ⟨after, less, Stored.turn bounded tmp_eq ndec_eq further⟩

theorem stored_spec {turns number : Nat} (enough : 10 ≤ turns) (bounded : number < 2 ^ 32) :
    ∃ state, whileLoop (fun state => state.ip ≠ 0) WholeState.turn turns
        (WholeState.turn ⟨fun _ => 0, 0, BitVec.ofNat 32 number⟩) = some state ∧
      state.tmp = writeBytes blank 0 (digitBytes (lowDigits 10 number)) ∧
      state.ndec = BitVec.ofNat 32 (lowDigits 10 number).length := by
  have small : (BitVec.ofNat 32 number).toNat = number := toNat_ofNat_word bounded
  have short : (lowDigits 10 number).length ≤ 10 :=
    (length_lowDigits_le_iff (by decide) (by decide)).mpr (by omega)
  have first : Stored number _ (WholeState.turn ⟨blank, 0, BitVec.ofNat 32 number⟩) :=
    Stored.turn short (show blank = writeBytes blank 0 (digitBytes []) from (writeBytes_nil ..).symm) rfl
      (by rw [small]; exact Taken.first)
  have limit : (Nat.digits 10 (number / 10)).length ≤ turns :=
    (Nat.le_of_succ_le_succ (Nat.le_succ_of_le short)).trans enough
  obtain ⟨state, _, ends, holds, stops⟩ := whileLoop_ends (Stored.step short) first limit
  obtain ⟨stored, tmp_eq, ndec_eq, taken⟩ := holds.digits
  rw [not_not.mp stops] at taken
  obtain rfl := taken.all
  exact ⟨state, ends, tmp_eq, ndec_eq⟩

end WholeState

section Written

variable (str : Memory) {bytes : List UInt8}

theorem writeByte_end (bounded : bytes.length < 2 ^ 32) (byte : UInt8) :
    writeByte (writeBytes str 0 bytes) (BitVec.ofNat 32 bytes.length).toNat byte =
      writeBytes str 0 (bytes ++ [byte]) := by
  rw [toNat_ofNat_word bounded, ← writeByte_writeBytes, Nat.zero_add]

theorem turned_spec {tmp : Memory} {stored : List UInt8} : ∀ {turns : Nat} {bytes : List UInt8},
    StartsWith tmp stored → stored.length ≤ turns →
      bytes.length + stored.length < 2 ^ 31 →
        whileLoop (fun state => (0 : Word).slt state.ndec) (TurnedState.turn tmp) turns
          ⟨writeBytes str 0 bytes, BitVec.ofNat 32 bytes.length, BitVec.ofNat 32 stored.length⟩ =
            some ⟨writeBytes str 0 (bytes ++ stored.reverse),
              BitVec.ofNat 32 (bytes ++ stored.reverse).length, 0⟩ := by
  induction stored using List.reverseRecOn with
  | nil =>
      intro turns bytes _ _ _
      rw [List.reverse_nil, List.append_nil]
      have stops : ¬(0 : Word).slt (BitVec.ofNat 32 0) = true := by decide
      exact whileLoop_exit (by exact stops) turns
  | append_singleton stored last ih =>
      intro turns bytes starts enough bounded
      rw [List.length_append, List.length_singleton] at enough bounded ⊢
      obtain ⟨turns, rfl⟩ := Nat.exists_eq_succ_of_ne_zero (Nat.ne_zero_of_lt enough)
      have continues : (0 : Word).slt (BitVec.ofNat 32 (stored.length + 1)) = true := by
        rw [BitVec.slt_iff_toInt_lt, toInt_word (by omega)]
        exact Int.natCast_pos.mpr (Nat.succ_pos _)
      have lower : BitVec.ofNat 32 (stored.length + 1) - 1 = BitVec.ofNat 32 stored.length := by
        rw [BitVec.ofNat_add]
        exact add_sub_cancel_right _ _
      -- The digit that was stored last goes out first.
      obtain ⟨others, final⟩ := startsWith_append starts
      have lastByte : tmp (BitVec.ofNat 32 (stored.length + 1) - 1).toNat = last := by
        rw [lower, toNat_ofNat_word (by omega)]
        exact final
      have further : BitVec.ofNat 32 bytes.length + 1 = BitVec.ofNat 32 (bytes ++ [last]).length := by
        rw [List.length_append, List.length_singleton, BitVec.ofNat_add]
        rfl
      rw [whileLoop_turn (by exact continues)]
      simp only [TurnedState.turn]
      rw [lastByte, lower, writeByte_end str (by omega), further,
        ih others (by omega) (by simp; omega), List.reverse_append, List.reverse_singleton,
        List.append_assoc]

end Written

namespace PlaceState

variable {ibits : Nat}

structure Shown (ibits : Nat) (str : Memory) (front : List UInt8) (part done : Nat) (state : PlaceState) :
    Prop where
  ndec : state.ndec = BitVec.ofNat 32 done
  slen : state.slen = BitVec.ofNat 32 (front.length + done)
  str : state.str =
    writeBytes str 0 (front ++ digitBytes (places 10 done (part * 10 ^ done / 2 ^ fixFbits ibits)))
  rest : state.fr &&& fixFmask ibits = BitVec.ofNat 32 (part * 10 ^ done % 2 ^ fixFbits ibits)

variable {str : Memory} {front : List UInt8} {part done : Nat}

theorem Shown.turn (large : 16 ≤ ibits) {state : PlaceState} (shown : Shown ibits str front part done state)
    (bounded : front.length + done < 2 ^ 32) :
    Shown ibits str front part (done + 1) (state.turn ibits) := by
  have few : 2 ^ fixFbits ibits ≤ 2 ^ 16 := Nat.pow_le_pow_right (by decide) (by unfold fixFbits; omega)
  have below : part * 10 ^ done % 2 ^ fixFbits ibits < 2 ^ fixFbits ibits := Nat.mod_lt _ (by positivity)
  have grown : (state.fr &&& fixFmask ibits) * 10 =
      BitVec.ofNat 32 (part * 10 ^ done % 2 ^ fixFbits ibits * 10) := by
    rw [shown.rest, BitVec.ofNat_mul]
    rfl
  have fits : part * 10 ^ done % 2 ^ fixFbits ibits * 10 < 2 ^ 32 := by omega
  have small : part * 10 ^ done % 2 ^ fixFbits ibits * 10 / 2 ^ fixFbits ibits < 2 ^ 32 :=
    (Nat.div_le_self ..).trans_lt fits
  refine ⟨?_, ?_, ?_, ?_⟩
  · simp only [PlaceState.turn, shown.ndec]
    exact (BitVec.ofNat_add ..).symm
  · simp only [PlaceState.turn, shown.slen]
    exact (BitVec.ofNat_add ..).symm
  · simp only [PlaceState.turn]
    have length_eq : front.length + done = (front ++ digitBytes
        (places 10 done (part * 10 ^ done / 2 ^ fixFbits ibits))).length := by
      rw [List.length_append, digitBytes, List.length_map, length_places]
    rw [grown, ofNat_shiftRight fits, umod_ten, toNat_ofNat_word small, decimalByte _ (Nat.mod_lt _ (by decide)),
      shown.str, shown.slen]
    rw [length_eq] at bounded ⊢
    rw [writeByte_end str bounded, places_succ (by decide), digitBytes_append, List.append_assoc]
  · simp only [PlaceState.turn]
    rw [grown, masked_eq large, toNat_ofNat_word fits]
    congr 1
    rw [pow_succ, ← Nat.mul_assoc]
    exact Nat.mod_mul_mod ..

theorem shown_zero (large : 16 ≤ ibits) (str : Memory) (front : List UInt8) (a : Fixed) :
    Shown ibits str front (a.toNat % 2 ^ fixFbits ibits) 0
      ⟨writeBytes str 0 front, BitVec.ofNat 32 front.length, 0, a &&& fixFmask ibits⟩ := by
  refine ⟨rfl, rfl, ?_, ?_⟩
  · rw [places, digitBytes, List.map_nil, List.append_nil]
  · have fits : a.toNat % 2 ^ fixFbits ibits < 2 ^ 32 := (Nat.mod_le ..).trans_lt a.isLt
    rw [masked_eq large a, masked_eq large, toNat_ofNat_word fits, pow_zero, Nat.mul_one]

theorem shown_spec (large : 16 ≤ ibits) {turns : Nat} {dec : Word} {state : PlaceState}
    (shown : Shown ibits str front part 0 state) (short : front.length < 2 ^ 31) (enough : dec.toInt ≤ turns) :
    ∃ state', whileLoop (fun state => state.ndec.slt dec) (PlaceState.turn ibits) turns
        (state.turn ibits) = some state' ∧ Shown ibits str front part (max dec.toInt 1).toNat state' := by
  have upper : dec.toInt < 2 ^ 31 := BitVec.toInt_lt
  have step : ∀ left state,
      (∃ done, 0 < done ∧ done + left = (max dec.toInt 1).toNat ∧ Shown ibits str front part done state) →
        state.ndec.slt dec = true → ∃ after < left,
          ∃ done, 0 < done ∧ done + after = (max dec.toInt 1).toNat ∧
            Shown ibits str front part done (state.turn ibits) := by
    rintro left state ⟨done, some, total, holds⟩ continues
    rw [BitVec.slt_iff_toInt_lt, holds.ndec, toInt_word (by omega)] at continues
    exact ⟨left - 1, by omega, done + 1, by omega, by omega, holds.turn large (by omega)⟩
  -- The first place is written without a look at `dec`.
  have first : ∃ done, 0 < done ∧ done + ((max dec.toInt 1).toNat - 1) = (max dec.toInt 1).toNat ∧
      Shown ibits str front part done (state.turn ibits) :=
    ⟨1, by decide, by omega, shown.turn large (by omega)⟩
  obtain ⟨state', left, ends, ⟨done, some, total, holds⟩, stops⟩ :=
    whileLoop_ends step first (show _ ≤ turns by omega)
  rw [BitVec.slt_iff_toInt_lt, holds.ndec, toInt_word (by omega)] at stops
  obtain rfl : done = (max dec.toInt 1).toNat := by omega
  exact ⟨state', ends, holds⟩

end PlaceState

def fixText (ibits : Nat) (a : Int) (count : Nat) : List UInt8 :=
  (if a < 0 then [byteOf '-'] else []) ++ digitBytes (numeral 10 (a.natAbs / 2 ^ fixFbits ibits)) ++
    byteOf '.' :: digitBytes
      (places 10 count (a.natAbs % 2 ^ fixFbits ibits * 10 ^ count / 2 ^ fixFbits ibits))

section Text

variable {ibits : Nat}

def fixtoaUnsigned (ibits turns : Nat) (a : Fixed) (str : Memory) (slen dec : Word) : Option Memory := do
  let whole ← whileLoop (fun state => state.ip ≠ 0) WholeState.turn turns
    (WholeState.turn ⟨fun _ => 0, 0, a.sshiftRight (fixFbits ibits)⟩)
  let turned ← whileLoop (fun state => (0 : Word).slt state.ndec) (TurnedState.turn whole.tmp) turns
    ⟨str, slen, whole.ndec⟩
  let str := writeByte turned.str turned.slen.toNat (byteOf '.')
  let state ← whileLoop (fun state => state.ndec.slt dec) (PlaceState.turn ibits) turns
    (PlaceState.turn ibits ⟨str, turned.slen + 1, turned.ndec, a &&& fixFmask ibits⟩)
  return writeByte state.str state.slen.toNat 0

theorem fixtoa_sign (turns : Nat) (a : Fixed) (str : Memory) (dec : Word) :
    fixtoa ibits turns a str dec =
      if a.slt 0 then fixtoaUnsigned ibits turns (-a) (writeByte str 0 (byteOf '-')) 1 dec
      else fixtoaUnsigned ibits turns a str 0 dec := by
  unfold fixtoa fixtoaUnsigned
  by_cases negative : a.slt 0 = true
  · simp only [if_pos negative]
  · simp only [if_neg negative]

theorem fixtoaUnsigned_eq (large : 16 ≤ ibits) {turns : Nat} {a : Fixed} (sign : a.msb = false)
    (str : Memory) (front : List UInt8) (single : front.length ≤ 1) {dec : Word} (enough : 10 ≤ turns)
    (enough' : dec.toInt ≤ turns) :
    fixtoaUnsigned ibits turns a (writeBytes str 0 front) (BitVec.ofNat 32 front.length) dec =
      some (writeBytes str 0 (front ++ digitBytes (numeral 10 (a.toNat / 2 ^ fixFbits ibits)) ++
        byteOf '.' :: digitBytes (places 10 (max dec.toInt 1).toNat
          (a.toNat % 2 ^ fixFbits ibits * 10 ^ (max dec.toInt 1).toNat / 2 ^ fixFbits ibits)) ++ [0])) := by
  have small : a.toNat / 2 ^ fixFbits ibits < 2 ^ 32 := (Nat.div_le_self ..).trans_lt a.isLt
  have upper : dec.toInt < 2 ^ 31 := BitVec.toInt_lt
  obtain ⟨whole, wholeEnds, tmp_eq, ndec_eq⟩ := WholeState.stored_spec enough small
  have listed : (digitBytes (lowDigits 10 (a.toNat / 2 ^ fixFbits ibits))).length =
      (lowDigits 10 (a.toNat / 2 ^ fixFbits ibits)).length := List.length_map ..
  have limit : (digitBytes (lowDigits 10 (a.toNat / 2 ^ fixFbits ibits))).length ≤ 10 := by
    rw [listed]
    exact (length_lowDigits_le_iff (by decide) (by decide)).mpr (by omega)
  have turned := turned_spec str (tmp_eq ▸ startsWith_writeBytes _ _)
    (limit.trans enough) (show front.length + _ < 2 ^ 31 by omega)
  have written : (digitBytes (lowDigits 10 (a.toNat / 2 ^ fixFbits ibits))).reverse =
      digitBytes (numeral 10 (a.toNat / 2 ^ fixFbits ibits)) := List.map_reverse.symm
  rw [written, listed, ← ndec_eq] at turned
  have total : (front ++ digitBytes (numeral 10 (a.toNat / 2 ^ fixFbits ibits))).length ≤ 11 := by
    rw [List.length_append, ← written, List.length_reverse]
    omega
  generalize front ++ digitBytes (numeral 10 (a.toNat / 2 ^ fixFbits ibits)) = text at turned total ⊢
  unfold fixtoaUnsigned
  rw [shifted_eq sign]
  simp only [wholeEnds, turned, Option.bind_eq_bind, Option.bind_some]
  have further : BitVec.ofNat 32 text.length + 1 = BitVec.ofNat 32 (text ++ [byteOf '.']).length := by
    rw [List.length_append, List.length_singleton, BitVec.ofNat_add]
    rfl
  have short : (text ++ [byteOf '.']).length < 2 ^ 31 := by
    rw [List.length_append, List.length_singleton]
    omega
  obtain ⟨state, ends, shown⟩ :=
    PlaceState.shown_spec large (PlaceState.shown_zero large str (text ++ [byteOf '.']) a) short enough'
  rw [writeByte_end str (by omega), further, ends, Option.bind_some]
  have length_eq : (text ++ [byteOf '.']).length + (max dec.toInt 1).toNat =
      (text ++ [byteOf '.'] ++ digitBytes (places 10 (max dec.toInt 1).toNat
        (a.toNat % 2 ^ fixFbits ibits * 10 ^ (max dec.toInt 1).toNat / 2 ^ fixFbits ibits))).length := by
    simp only [List.length_append, digitBytes, List.length_map, length_places]
  rw [shown.str, shown.slen, length_eq, writeByte_end str (by omega), List.append_assoc text,
    List.singleton_append]
  rfl

theorem fixtoa_eq (large : 16 ≤ ibits) {turns : Nat} {a : Fixed} (most : a ≠ BitVec.intMin 32) (str : Memory)
    {dec : Word} (enough : 10 ≤ turns) (enough' : dec.toInt ≤ turns) :
    fixtoa ibits turns a str dec =
      some (writeBytes str 0 (fixText ibits a.toInt (max dec.toInt 1).toNat ++ [0])) := by
  have least : a.slt 0 = true ↔ a.toInt < 0 := BitVec.slt_iff_toInt_lt
  have size := toNat_abs_eq a
  have sign := msb_abs most
  rw [← magnitude_eq] at size sign
  rw [fixtoa_sign, fixText, ← size]
  by_cases negative : a.slt 0 = true
  · rw [if_pos negative] at sign ⊢
    have start : writeByte str 0 (byteOf '-') = writeBytes str 0 [byteOf '-'] := by
      rw [← List.nil_append [byteOf '-'], ← writeByte_writeBytes, writeBytes_nil]
      rfl
    rw [if_pos negative, if_pos (least.mp negative), start]
    exact fixtoaUnsigned_eq large sign str [byteOf '-'] (Nat.le_refl 1) enough enough'
  · rw [if_neg negative] at sign ⊢
    have written := fixtoaUnsigned_eq large sign str [] (Nat.zero_le 1) enough enough'
    rw [writeBytes_nil] at written
    rw [if_neg negative, if_neg (mt least.mpr negative)]
    exact written

end Text

/-- The text of `fixtoa` is the expansion of its argument, with its sign and its end. -/
theorem fixtoa_expands (turns : Nat) (a : Fixed) (most : a ≠ BitVec.intMin 32) (str : Memory) (dec : Word)
    (enough : 10 ≤ turns) (enough' : dec.toInt ≤ turns) :
    ∃ whole fraction, Expansion 10 a.toInt.natAbs (2 ^ 16) (max dec.toInt 1).toNat whole fraction ∧
      fixtoa 16 turns a str dec = some (writeBytes str 0
        ((if a.toInt < 0 then [byteOf '-'] else []) ++ digitBytes whole ++
          byteOf '.' :: digitBytes fraction ++ [0])) :=
  ⟨_, _, expansion (by decide) (by decide), fixtoa_eq (by decide) most str enough enough'⟩

/-- Minus three quarters with one place. -/
theorem fixtoa_expands_minus : (-49152 : Fixed) ≠ BitVec.intMin 32 ∧ 10 ≤ 10 ∧ (1 : Word).toInt ≤ (10 : Nat) ∧
    ∃ whole fraction, Expansion 10 (-49152 : Fixed).toInt.natAbs (2 ^ 16) (max (1 : Word).toInt 1).toNat whole
        fraction ∧
      fixtoa 16 10 (-49152) (fun _ => 0) 1 = some (writeBytes (fun _ => 0) 0
        ((if (-49152 : Fixed).toInt < 0 then [byteOf '-'] else []) ++ digitBytes whole ++
          byteOf '.' :: digitBytes fraction ++ [0])) :=
  ⟨by decide, by decide, by decide,
    fixtoa_expands 10 (-49152) (by decide) (fun _ => 0) 1 (by decide) (by decide)⟩

end Hellfire

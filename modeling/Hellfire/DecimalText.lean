import Hellfire.FixedProducts
import Hellfire.Itoa

/-!
Results of the other printer of numbers, in `vsprintf`, and of `atoi`: in base ten the text is that of
`itoa`, and it is read back.
-/

namespace Hellfire

open ByteMemory Loops Numerals

section Printer

variable (memory : Memory) (s : Nat) (bytes : List UInt8)

def Printer.wrote : Printer := ⟨writeBytes memory s bytes, some (s + bytes.length), []⟩

theorem Printer.wrote_printchar (c : UInt8) :
    (Printer.wrote memory s bytes).printchar c = Printer.wrote memory s (bytes ++ [c]) := by
  simp only [Printer.printchar, Printer.wrote, writeByte_writeBytes, List.length_append,
    List.length_singleton, Nat.add_assoc]

theorem out_spec {tmp : Memory} {stored : List UInt8} : ∀ {turns : Nat} (bytes : List UInt8),
    StartsWith tmp stored → stored.length ≤ turns →
      whileLoop (fun state => 0 < state.i)
        (fun state => OutState.mk (state.printer.printchar (tmp (state.i - 1))) (state.i - 1)) turns
        ⟨Printer.wrote memory s bytes, stored.length⟩ =
          some ⟨Printer.wrote memory s (bytes ++ stored.reverse), 0⟩ := by
  induction stored using List.reverseRecOn with
  | nil =>
      intro turns bytes _ _
      rw [List.reverse_nil, List.append_nil]
      exact whileLoop_exit (by simp) turns
  | append_singleton stored last ih =>
      intro turns bytes starts enough
      rw [List.length_append, List.length_singleton] at enough ⊢
      obtain ⟨turns, rfl⟩ := Nat.exists_eq_succ_of_ne_zero (Nat.ne_zero_of_lt enough)
      -- The digit that was stored last goes out first.
      obtain ⟨others, lastByte⟩ := startsWith_append starts
      rw [whileLoop_turn (by simp)]
      simp only [Nat.add_sub_cancel]
      rw [lastByte, Printer.wrote_printchar, ih _ others (by omega), List.reverse_append,
        List.reverse_singleton, List.append_assoc]

theorem printPad_none {turns : Nat} {pad : UInt8} {printer : Printer} {width : Word}
    (none : ¬(0 : Word).slt width) : printPad turns pad ⟨printer, width⟩ = some printer := by
  unfold printPad
  rw [whileLoop_exit (by exact none)]
  rfl

end Printer

namespace DigitsState

variable {base : Word} {number : Nat}

structure Divided (base : Word) (number left : Nat) (state : DigitsState) : Prop where
  digits : ∃ stored, state.tmp = writeBytes blank 0 (digitBytes stored) ∧ state.i = stored.length ∧
    Taken base.toNat number stored state.num.toNat left

theorem digitsTable_eq : ∀ digit : Fin 16, digitsTable digit.val = digitByte digit := by decide

theorem Divided.step (wide : 1 < base.toNat) (small : base.toNat ≤ 16) (left : Nat) (state : DigitsState)
    (holds : Divided base number left state) (continues : state.num ≠ 0) :
    ∃ after < left, Divided base number after (state.turn base) := by
  obtain ⟨stored, tmp_eq, i_eq, taken⟩ := holds.digits
  have nonzero : state.num.toNat ≠ 0 := fun zero => continues (BitVec.eq_of_toNat_eq zero)
  have table := digitsTable_eq ⟨state.num.toNat % base.toNat, (Nat.mod_lt _ (by omega)).trans_le small⟩
  have place : state.i = 0 + (digitBytes stored).length := by
    rw [i_eq, digitBytes, List.length_map, Nat.zero_add]
  obtain ⟨after, less, further⟩ := taken.next wide nonzero
  refine ⟨after, less, stored ++ [state.num.toNat % base.toNat], ?_, ?_, ?_⟩
  · simp only [DigitsState.turn, divide]
    rw [tmp_eq, BitVec.toNat_umod, table, place, writeByte_writeBytes, digitBytes_append]
  · simp only [DigitsState.turn, i_eq, List.length_append, List.length_singleton]
  · simp only [DigitsState.turn, divide]
    rw [BitVec.toNat_udiv]
    exact further

def collected (turns : Nat) (base num : Word) : Option DigitsState :=
  if num = 0 then some ⟨num, writeByte blank 0 (byteOf '0'), 1⟩
  else whileLoop (fun state => state.num ≠ 0) (DigitsState.turn base) turns ⟨num, blank, 0⟩

theorem collected_spec (wide : 1 < base.toNat) (small : base.toNat ≤ 16) {turns : Nat} {num : Word}
    (enough : num.toNat < base.toNat ^ turns) :
    ∃ state, collected turns base num = some state ∧
      state.tmp = writeBytes blank 0 (digitBytes (lowDigits base.toNat num.toNat)) ∧
      state.i = (lowDigits base.toNat num.toNat).length := by
  unfold collected
  by_cases zero : num = 0
  · subst zero
    refine ⟨_, if_pos rfl, ?_, ?_⟩
    · rw [show (0 : Word).toNat = 0 from rfl, lowDigits_zero]
      exact congrArg (fun memory => writeByte memory 0 (byteOf '0')) (writeBytes_nil blank 0).symm
        |>.trans (writeByte_writeBytes blank 0 [] _)
    · rw [show (0 : Word).toNat = 0 from rfl, lowDigits_zero]
      rfl
  · rw [if_neg zero]
    have nonzero : num.toNat ≠ 0 := fun none => zero (BitVec.eq_of_toNat_eq none)
    have start : Divided base num.toNat _ ⟨num, blank, 0⟩ :=
      ⟨[], (writeBytes_nil blank 0).symm, rfl, Taken.none wide nonzero⟩
    obtain ⟨state, _, ends, holds, stops⟩ :=
      whileLoop_ends (Divided.step wide small) start ((Nat.digits_length_le_iff wide _).mpr enough)
    obtain ⟨stored, tmp_eq, i_eq, taken⟩ := holds.digits
    rw [not_not.mp stops] at taken
    obtain rfl := taken.all
    exact ⟨state, ends, tmp_eq, i_eq⟩

end DigitsState

section Number

variable {base : Word}

def printDigits (turns : Nat) (pad : UInt8) (base : Word) (printer : Printer) (num width : Word) :
    Option Printer := do
  let digits ← DigitsState.collected turns base num
  let printer ← printPad turns pad ⟨printer, width - BitVec.ofNat 32 digits.i⟩
  let state ← whileLoop (fun state => 0 < state.i)
    (fun state => OutState.mk (state.printer.printchar (digits.tmp (state.i - 1))) (state.i - 1)) turns
    (OutState.mk printer digits.i)
  return state.printer

theorem printNumber_sign (turns : Nat) (pad : UInt8) (sign : Bool) (printer : Printer) (num width : Word) :
    printNumber turns pad sign base printer num width =
      if sign ∧ num.slt 0 then printDigits turns pad base (printer.printchar (byteOf '-')) (-num) (width - 1)
      else printDigits turns pad base printer num width := by
  unfold printNumber printDigits DigitsState.collected
  by_cases negative : sign = true ∧ num.slt 0 = true
  · simp only [if_pos negative]
    split
    · rfl
    · rfl
  · simp only [if_neg negative]
    split
    · rfl
    · rfl

theorem width_spent : ∀ printed < 33, ¬(0 : Word).slt (-1 - BitVec.ofNat 32 printed) ∧
    ¬(0 : Word).slt (-1 - 1 - BitVec.ofNat 32 printed) := by decide

theorem printDigits_eq (wide : 1 < base.toNat) (small : base.toNat ≤ 16) (memory : Memory) (s : Nat)
    {turns : Nat} (pad : UInt8) (num width : Word) (bytes : List UInt8)
    (enough : 2 ^ 32 ≤ base.toNat ^ turns) (unset : width = -1 ∨ width = -1 - 1) :
    printDigits turns pad base (Printer.wrote memory s bytes) num width =
      some (Printer.wrote memory s (bytes ++ digitBytes (numeral base.toNat num.toNat))) := by
  obtain ⟨digits, ends, tmp_eq, i_eq⟩ := DigitsState.collected_spec wide small (num.isLt.trans_le enough)
  have limit : (lowDigits base.toNat num.toNat).length ≤ 32 :=
    (length_lowDigits_le_iff wide (by decide)).mpr (num.isLt.trans_le (Nat.pow_le_pow_left wide 32))
  have some : 0 < turns := by
    apply Nat.pos_of_ne_zero
    rintro rfl
    rw [pow_zero] at enough
    omega
  have listed : (digitBytes (lowDigits base.toNat num.toNat)).length = digits.i := by
    rw [i_eq]
    exact List.length_map ..
  have spent : ¬(0 : Word).slt (width - BitVec.ofNat 32 digits.i) := by
    have both := width_spent digits.i (by omega)
    rcases unset with rfl | rfl
    · exact both.1
    · exact both.2
  have fits : (digitBytes (lowDigits base.toNat num.toNat)).length ≤ turns := by
    rw [listed, i_eq]
    exact (length_lowDigits_le_iff wide some).mpr (num.isLt.trans_le enough)
  have stored : StartsWith digits.tmp (digitBytes (lowDigits base.toNat num.toNat)) := by
    rw [tmp_eq]
    exact startsWith_writeBytes _ _
  have printed := out_spec memory s bytes stored fits
  unfold printDigits
  simp only [ends, Option.bind_eq_bind, Option.bind_some, printPad_none spent]
  rw [← listed, printed]
  simp only [digitBytes, numeral, List.map_reverse]
  rfl

theorem printNumber_eq (wide : 1 < base.toNat) (small : base.toNat ≤ 16) (memory : Memory) (s : Nat)
    {turns : Nat} (pad : UInt8) (sign : Bool) (num : Word) (bytes : List UInt8)
    (enough : 2 ^ 32 ≤ base.toNat ^ turns) :
    printNumber turns pad sign base (Printer.wrote memory s bytes) num (-1) =
      some (Printer.wrote memory s
        (bytes ++ intText base.toNat (if sign then num.toInt else num.toNat))) := by
  have least : num.slt 0 = true ↔ num.toInt < 0 := BitVec.slt_iff_toInt_lt
  have size : (if num.slt 0 then -num else num).toNat = num.toInt.natAbs := by
    rw [magnitude_eq, toNat_abs_eq]
  rw [printNumber_sign]
  by_cases negative : sign = true ∧ num.slt 0 = true
  · have below := least.mp negative.2
    have printed := printDigits_eq wide small memory s pad (-num) (-1 - 1) (bytes ++ [byteOf '-']) enough
      (Or.inr rfl)
    rw [if_pos negative.2] at size
    rw [size, List.append_assoc, List.singleton_append, ← intText_neg below] at printed
    rw [if_pos negative, Printer.wrote_printchar, if_pos negative.1]
    exact printed
  · have printed := printDigits_eq wide small memory s pad num (-1) bytes enough (Or.inl rfl)
    have text : intText base.toNat (if sign then num.toInt else num.toNat) =
        digitBytes (numeral base.toNat num.toNat) := by
      cases sign with
      | false =>
          rw [if_neg (by decide), intText_nonneg (by omega), Int.natAbs_natCast]
      | true =>
          have above : ¬num.slt 0 = true := fun below => negative ⟨rfl, below⟩
          rw [if_neg above] at size
          rw [if_pos rfl, intText_nonneg (mt least.mpr above), size]
    rw [if_neg negative, text]
    exact printed

end Number

theorem turn_decimal (turns : Nat) (printer : Printer) (i : Word) :
    FormatState.turn turns (literal "%d") ⟨printer, 0, [i]⟩ =
      (printNumber turns (byteOf ' ') true 10 printer i (-1)).map fun printer => ⟨printer, 2, []⟩ := by
  have percent : literal "%d" 0 = byteOf '%' := by decide
  have letter : literal "%d" 1 = byteOf 'd' := by decide
  -- No width, no flag, no `l` and none of the letters before it.
  have noDigit : isdigit (promoted (byteOf 'd')) = false := by decide
  have other : byteOf 'd' ≠ byteOf '0' ∧ byteOf 'd' ≠ byteOf 'l' ∧ byteOf 'd' ≠ byteOf 'c' ∧
      byteOf 'd' ≠ byteOf 's' ∧ byteOf 'd' ≠ byteOf 'X' ∧ byteOf 'd' ≠ byteOf 'x' := by decide
  simp [FormatState.turn, percent, letter, noDigit, other, vaArg, Option.map_eq_bind]

theorem sprintf_number {base : Word} {format : Memory} {sign : Bool} {turns : Nat}
    (wide : 1 < base.toNat) (small : base.toNat ≤ 16) (power : 2 ^ 32 ≤ base.toNat ^ turns)
    (two : 2 ≤ turns) (more : format 0 ≠ 0) (ended : ¬format 2 ≠ 0)
    (turned : ∀ printer i, FormatState.turn turns format ⟨printer, 0, [i]⟩ =
      (printNumber turns (byteOf ' ') sign base printer i (-1)).map fun printer => ⟨printer, 2, []⟩)
    (memory : Memory) (i : Word) (s : Nat) :
    sprintf turns memory s format [i] =
      some (writeBytes memory s (intText base.toNat (if sign then i.toInt else i.toNat) ++ [0])) := by
  have printed := printNumber_eq wide small memory s (byteOf ' ') sign i [] power
  have start : Printer.mk memory (some s) [] = Printer.wrote memory s [] := by
    rw [Printer.wrote, writeBytes_nil]
    rfl
  obtain ⟨rest, spare⟩ := Nat.exists_eq_add_of_le' two
  have loop : vsprintfLoop turns format turns ⟨Printer.wrote memory s [], 0, [i]⟩ = some
      ⟨Printer.wrote memory s (intText base.toNat (if sign then i.toInt else i.toNat)), 2, []⟩ := by
    conv_lhs => rw [spare]
    rw [vsprintfLoop, if_pos more, ← spare, turned, printed]
    simp only [Option.map_some, Option.bind_eq_bind, Option.bind_some]
    rw [vsprintfLoop, if_neg ended, List.nil_append]
  unfold sprintf vsprintf
  rw [start, loop]
  simp only [Option.bind_eq_bind, Option.bind_some, Printer.wrote_printchar]
  rfl

theorem sprintf_eq (memory : Memory) (i : Word) (s : Nat) {turns : Nat} (enough : 10 ≤ turns) :
    sprintf turns memory s (literal "%d") [i] = some (writeBytes memory s (intText 10 i.toInt ++ [0])) := by
  have power : 2 ^ 32 ≤ (10 : Word).toNat ^ turns := by
    calc
      2 ^ 32 ≤ 10 ^ 10 := by decide
      _ ≤ 10 ^ turns := Nat.pow_le_pow_right (by decide) enough
  exact sprintf_number (by decide) (by decide) power (by omega) (by decide) (by decide)
    (fun printer i => turn_decimal turns printer i) memory i s

section Atoi

variable {memory : Memory}

theorem isdigit_digitByte : ∀ digit < 10, isdigit (promoted (digitByte digit)) = true := by decide

theorem promoted_digitByte :
    ∀ digit < 10, promoted (digitByte digit) = BitVec.ofNat 32 digit + 48 := by decide

theorem digits_read {digits : List Nat} : ∀ {turns s : Nat} (n : Word), (∀ digit ∈ digits, digit < 10) →
    holdsString memory s (digitBytes digits) = true → digits.length ≤ turns →
      whileLoop (fun state => isdigit (promoted (memory state.s)))
        (fun state => AtoiState.mk (state.s + 1) (state.n * 10 + promoted (memory state.s) - 48)) turns
        ⟨s, n⟩ = some ⟨s + digits.length, wordValue 10 n digits⟩ := by
  induction digits with
  | nil =>
      intro turns s n _ holds _
      have stops : ¬isdigit (promoted (memory s)) = true := by
        rw [holdsString_nil.mp holds]
        decide
      exact whileLoop_exit (by exact stops) turns
  | cons digit digits ih =>
      intro turns s n small holds enough
      obtain ⟨first, rest⟩ := holdsString_cons.mp holds
      rw [List.length_cons] at enough ⊢
      obtain ⟨turns, rfl⟩ := Nat.exists_eq_succ_of_ne_zero (Nat.ne_zero_of_lt enough)
      have low := small digit (List.mem_cons_self ..)
      have continues : isdigit (promoted (memory s)) = true := by
        rw [first]
        exact isdigit_digitByte digit low
      rw [whileLoop_turn (by exact continues)]
      simp only []
      rw [first, promoted_digitByte digit low, ← add_assoc, add_sub_cancel_right,
        ih _ (fun other member => small other (List.mem_cons_of_mem _ member)) rest (by omega),
        Nat.add_assoc, Nat.add_comm 1]
      rfl

theorem plain_digit : ∀ digit < 10, isBlank (digitByte digit) = false ∧
    ¬(digitByte digit = byteOf '-' ∨ digitByte digit = byteOf '+') := by decide

def atoiDigits (turns : Nat) (memory : Memory) (f : Bool) (s : Nat) : Option Word := do
  let state ← whileLoop (fun state => isdigit (promoted (memory state.s)))
    (fun state => ⟨state.s + 1, state.n * 10 + promoted (memory state.s) - 48⟩) turns (AtoiState.mk s 0)
  return if f then -state.n else state.n

theorem atoiDigits_eq {turns s number : Nat} (f : Bool) (bounded : number < 10 ^ turns) (some : 0 < turns)
    (holds : holdsString memory s (digitBytes (numeral 10 number)) = true) :
    atoiDigits turns memory f s =
      Option.some (if f then -BitVec.ofNat 32 number else BitVec.ofNat 32 number) := by
  have small : ∀ digit ∈ numeral 10 number, digit < 10 := by
    intro digit member
    exact numeral_lt (by decide) member
  have fits : (numeral 10 number).length ≤ turns := by
    rw [numeral, List.length_reverse]
    exact (length_lowDigits_le_iff (by decide) some).mpr bounded
  have value : wordValue 10 0 (numeral 10 number) = BitVec.ofNat 32 number :=
    (wordValue_eq 10 _).trans (congrArg (BitVec.ofNat 32) (value_numeral 10 number))
  unfold atoiDigits
  rw [digits_read 0 small holds fits, value]
  rfl

theorem atoi_unsigned {turns s : Nat} (plain : isBlank (memory s) = false)
    (unsigned : ¬(memory s = byteOf '-' ∨ memory s = byteOf '+')) :
    atoi turns memory s = atoiDigits turns memory false s := by
  unfold atoi
  rw [whileLoop_exit (by simp [plain]), Option.bind_eq_bind, Option.bind_some]
  simp only [not_or.mp unsigned]
  rfl

theorem atoi_minus {turns s : Nat} (minus : memory s = byteOf '-') :
    atoi turns memory s = atoiDigits turns memory true (s + 1) := by
  have plain : isBlank (memory s) = false := by
    rw [minus]
    decide
  unfold atoi
  rw [whileLoop_exit (by simp [plain]), Option.bind_eq_bind, Option.bind_some]
  simp only [minus]
  rfl

theorem atoi_intText {turns s : Nat} {i : Word} (enough : 10 ≤ turns)
    (holds : holdsString memory s (intText 10 i.toInt) = true) : atoi turns memory s = some i := by
  have value := ofNat_natAbs i
  have bounded : i.toInt.natAbs < 10 ^ turns := by
    have size := i.abs.isLt
    rw [toNat_abs_eq] at size
    calc
      i.toInt.natAbs < 10 ^ 10 := by omega
      _ ≤ 10 ^ turns := Nat.pow_le_pow_right (by decide) enough
  by_cases negative : i.toInt < 0
  · rw [intText_neg negative] at holds
    obtain ⟨minus, digits⟩ := holdsString_cons.mp holds
    rw [if_pos negative] at value
    rw [atoi_minus minus, atoiDigits_eq true bounded (by omega) digits, if_pos rfl, value]
  · rw [intText_nonneg negative] at holds
    rw [if_neg negative] at value
    obtain ⟨digit, digits, listed, small⟩ := numeral_cons (show 1 < 10 by decide) i.toInt.natAbs
    have first : memory s = digitByte digit := (holdsString_cons.mp (listed ▸ holds)).1
    have plain := plain_digit digit small
    rw [← first] at plain
    rw [atoi_unsigned plain.1 plain.2, atoiDigits_eq false bounded (by omega) holds, if_neg (by decide), value]

end Atoi

/-- The two printers agree in base ten, and their text is read back. -/
theorem decimal_agrees (memory : Memory) (i : Word) (s : Nat) {turns : Nat} (enough : 10 ≤ turns) :
    ∃ memory', itoa memory i s 10 = some memory' ∧
      sprintf turns memory s (literal "%d") [i] = some memory' ∧ atoi turns memory' s = some i := by
  have accepted : ItoaBase 10 := ⟨by decide, by decide⟩
  refine ⟨_, itoa_eq accepted memory i s, sprintf_eq memory i s enough, ?_⟩
  exact atoi_intText enough (holdsString_writeBytes memory s (intText_ended accepted _))

theorem decimal_agrees_intMin : 10 ≤ 10 ∧
    ∃ memory', itoa (fun _ => 0) (BitVec.intMin 32) 100 10 = some memory' ∧
      sprintf 10 (fun _ => 0) 100 (literal "%d") [BitVec.intMin 32] = some memory' ∧
      atoi 10 memory' 100 = some (BitVec.intMin 32) :=
  ⟨Nat.le_refl _, decimal_agrees (fun _ => 0) (BitVec.intMin 32) 100 (Nat.le_refl _)⟩

end Hellfire

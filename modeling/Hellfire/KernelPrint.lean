import Hellfire.DecimalText
import Hellfire.KernelPrintCore

/-!
The kernel's printer of numbers against `sprintf`: the texts are the same for every number but the
least one, whose digits `kitoa` looks up outside its table.
-/

namespace Hellfire

open ByteMemory Loops Numerals

inductive KitoaReached : Memory → Prop
  | start : KitoaReached blank
  | call {buf after : Memory} {val base : Word} {text : KitoaText} : KitoaReached buf →
      base = 10 ∨ base = 16 → kitoa buf val base = some (after, text) → KitoaReached after

def PrintersAgree (v : Word) : Prop :=
  ∀ buf, KitoaReached buf → ∀ conversion ∈ [literal "%d", literal "%x"],
    ∀ (memory : Memory) (out turns : Nat), 32 ≤ turns → ∃ text after,
      kprintf turns memory buf conversion [v] = some (text, after) ∧ 0 ∉ text ∧
        sprintf turns memory out conversion [v] = some (writeBytes memory out (text ++ [0]))

section Digits

variable {quotient remainder : Word → Word → Word} {base : Word} {limit : Nat}

structure Divides (quotient remainder : Word → Word → Word) (base : Word) (limit : Nat) : Prop where
  quotient : ∀ val : Word, val.toNat < limit → (quotient val base).toNat = val.toNat / base.toNat
  remainder : ∀ val : Word, val.toNat < limit → (remainder val base).toNat = val.toNat % base.toNat

theorem kitoaDigit_eq {index : Word} {digit : Nat} (value : index.toNat = digit) (small : digit < 16) :
    kitoaDigit index = some (digitByte digit) := by
  rw [kitoaDigit, value, if_pos small]
  exact congrArg some (DigitsState.digitsTable_eq ⟨digit, small⟩)

theorem kitoaDigits_keeps : ∀ {i : Nat} {val : Word} {buf after : Memory} {place : Nat},
    kitoaDigits quotient remainder base i val buf = some (after, place) →
      place ≤ i ∧ ∀ other, i < other → after other = buf other := by
  intro i
  induction i with
  | zero =>
      intro val buf after place done
      cases done
      exact ⟨Nat.le_refl 0, fun _ _ => rfl⟩
  | succ i ih =>
      intro val buf after place done
      rw [kitoaDigits] at done
      split at done
      · cases done
        exact ⟨Nat.le_refl _, fun _ _ => rfl⟩
      · obtain ⟨digit, _, rest⟩ := Option.bind_eq_some_iff.mp done
        obtain ⟨before, kept⟩ := ih rest
        refine ⟨by omega, fun other above => ?_⟩
        rw [kept other (by omega), writeByte_other _ _ (by omega)]

theorem holdsString_writeByte {memory : Memory} {address place : Nat} {byte : UInt8}
    {string : List UInt8} (before : place < address) :
    holdsString (writeByte memory place byte) address string = holdsString memory address string :=
  holdsString_congr fun _ low _ => writeByte_other _ _ (by omega)

theorem kitoaDigits_spec (divides : Divides quotient remainder base limit) (wide : 1 < base.toNat)
    (small : base.toNat ≤ 16) : ∀ {i : Nat} {val : Word} {buf : Memory} {text : List UInt8},
      val.toNat < limit → val.toNat < base.toNat ^ i → holdsString buf (i + 1) text = true →
        ∃ after place, kitoaDigits quotient remainder base i val buf = some (after, place) ∧
          holdsString after (place + 1)
            (digitBytes (base.toNat.digits val.toNat).reverse ++ text) = true := by
  intro i
  induction i with
  | zero =>
      intro val buf text _ fits holds
      rw [pow_zero, Nat.lt_one_iff] at fits
      refine ⟨buf, 0, rfl, ?_⟩
      rw [fits, Nat.digits_zero]
      exact holds
  | succ i ih =>
      intro val buf text below fits holds
      rw [kitoaDigits]
      by_cases zero : val = 0
      · refine ⟨buf, i + 1, if_pos zero, ?_⟩
        rw [zero, show (0 : Word).toNat = 0 from rfl, Nat.digits_zero]
        exact holds
      · have nonzero : val.toNat ≠ 0 := fun none => zero (BitVec.eq_of_toNat_eq none)
        have digit := kitoaDigit_eq (divides.remainder val below)
          ((Nat.mod_lt _ (by omega)).trans_le small)
        have rest := divides.quotient val below
        have less : (quotient val base).toNat < base.toNat ^ i := by
          rw [rest, Nat.div_lt_iff_lt_mul (by omega), ← pow_succ]
          exact fits
        have shorter : (quotient val base).toNat < limit := by
          rw [rest]
          exact (Nat.div_le_self ..).trans_lt below
        have written : holdsString (writeByte buf (i + 1) (digitByte (val.toNat % base.toNat))) (i + 1)
            (digitByte (val.toNat % base.toNat) :: text) = true :=
          holdsString_cons.mpr ⟨writeByte_self .., (holdsString_writeByte (by omega)).trans holds⟩
        obtain ⟨after, place, ends, holds⟩ := ih shorter less written
        refine ⟨after, place, ?_, ?_⟩
        · rw [if_neg zero, digit]
          exact ends
        · rw [rest, ← List.singleton_append, ← List.append_assoc] at holds
          rw [Nat.digits_def' wide (Nat.pos_of_ne_zero nonzero), List.reverse_cons, digitBytes_append]
          exact holds

end Digits

theorem divides_unsigned (base : Word) : Divides BitVec.udiv BitVec.umod base (2 ^ 32) :=
  ⟨fun _ _ => BitVec.toNat_udiv, fun _ _ => BitVec.toNat_umod⟩

theorem msb_of_small {val : Word} (below : val.toNat < 2 ^ 31) : val.msb = false := by
  rw [BitVec.msb_eq_false_iff_two_mul_lt]
  omega

theorem divides_signed {base : Word} (small : base.toNat < 2 ^ 31) :
    Divides BitVec.sdiv BitVec.srem base (2 ^ 31) := by
  refine ⟨fun val below => ?_, fun val below => ?_⟩
  · rw [BitVec.sdiv_eq, msb_of_small below, msb_of_small small]
    exact BitVec.toNat_udiv
  · rw [BitVec.srem_eq, msb_of_small below, msb_of_small small]
    exact BitVec.toNat_umod

structure Converted (buf : Memory) (val base : Word) (text : List UInt8) (after : Memory)
    (returned : KitoaText) : Prop where
  done : kitoa buf val base = some (after, returned)
  holds : holdsString (returned.source after) returned.place text = true

theorem kitoa_zero (buf : Memory) (base : Word) :
    Converted buf 0 base (intText base.toNat 0) buf .zero := by
  have text : intText base.toNat 0 = [byteOf '0'] := by
    rw [intText_nonneg (by decide), show (0 : Int).natAbs = 0 from rfl, numeral, lowDigits_zero]
    rfl
  have holds : holdsString (literal "0") 0 [byteOf '0'] = true := by decide
  refine ⟨if_pos rfl, ?_⟩
  rw [text]
  exact holds

theorem kitoa_hex {buf : Memory} (ended : buf 31 = 0) (val : Word) :
    ∃ after returned, Converted buf val 16 (intText 16 val.toNat) after returned := by
  by_cases zero : val = 0
  · subst zero
    exact ⟨buf, .zero, kitoa_zero buf 16⟩
  · have fits : val.toNat < (16 : Word).toNat ^ 30 := val.isLt.trans (by decide)
    obtain ⟨after, place, ends, holds⟩ := kitoaDigits_spec (divides_unsigned 16) (by decide) (by decide)
      val.isLt fits (holdsString_nil.mpr ended)
    have nonzero : val.toNat ≠ 0 := fun none => zero (BitVec.eq_of_toNat_eq none)
    refine ⟨after, .buffer (place + 1), ?_, ?_⟩
    · rw [kitoa, if_neg zero, if_pos rfl, ends]
      rfl
    · rw [intText_nonneg (by omega), Int.natAbs_natCast, numeral,
        lowDigits_eq_digits (by decide) nonzero]
      rw [List.append_nil] at holds
      exact holds

theorem kitoa_decimal {buf : Memory} (ended : buf 31 = 0) {val : Word} (other : val ≠ BitVec.intMin 32) :
    ∃ after returned, Converted buf val 10 (intText 10 val.toInt) after returned := by
  by_cases zero : val = 0
  · subst zero
    exact ⟨buf, .zero, kitoa_zero buf 10⟩
  · have least : val.slt 0 = true ↔ val.toInt < 0 := BitVec.slt_iff_toInt_lt
    have size : (if val.slt 0 then -val else val).toNat = val.toInt.natAbs := by
      rw [magnitude_eq, toNat_abs_eq]
    have nonzero : val.toInt.natAbs ≠ 0 := fun none =>
      zero (BitVec.eq_of_toInt_eq (Int.natAbs_eq_zero.mp none))
    have below : (if val.slt 0 then -val else val).toNat < 2 ^ 31 := by
      have lower := BitVec.le_toInt val
      have upper := BitVec.toInt_lt (x := val)
      have above : val.toInt ≠ -2 ^ 31 := fun same => other (BitVec.eq_of_toInt_eq same)
      rw [size]
      omega
    have fits : (if val.slt 0 then -val else val).toNat < (10 : Word).toNat ^ 30 :=
      below.trans (by decide)
    obtain ⟨after, place, ends, holds⟩ := kitoaDigits_spec (divides_signed (by decide)) (by decide)
      (by decide) below fits (holdsString_nil.mpr ended)
    rw [List.append_nil, size, show (10 : Word).toNat = 10 from rfl,
      ← lowDigits_eq_digits (by decide) nonzero, ← numeral] at holds
    have ran : kitoa buf val 10 = if val.slt 0 then
        some (writeByte after place (byteOf '-'), .buffer place)
      else some (after, .buffer (place + 1)) := by
      rw [kitoa, if_neg zero, if_neg (by decide)]
      simp only [ends, Option.bind_eq_bind, Option.bind_some]
      rfl
    by_cases negative : val.slt 0 = true
    · rw [if_pos negative] at ran
      refine ⟨_, _, ran, ?_⟩
      rw [intText_neg (least.mp negative)]
      exact holdsString_cons.mpr
        ⟨writeByte_self .., (holdsString_writeByte (Nat.lt_succ_self _)).trans holds⟩
    · rw [if_neg negative] at ran
      refine ⟨_, _, ran, ?_⟩
      rw [intText_nonneg (mt least.mpr negative)]
      exact holds

theorem kitoa_intMin (buf : Memory) : kitoa buf (BitVec.intMin 32) 10 = none := by
  have outside : kitoaDigit ((BitVec.intMin 32).srem 10) = none := by decide
  have first : kitoaDigits BitVec.sdiv BitVec.srem 10 30 (BitVec.intMin 32) buf = none := by
    rw [kitoaDigits, if_neg (by decide), outside]
    rfl
  have sign : (if (BitVec.intMin 32).slt 0 then -BitVec.intMin 32 else BitVec.intMin 32) =
      BitVec.intMin 32 := by decide
  rw [kitoa, if_neg (by decide), if_neg (by decide)]
  simp only [sign, first]
  rfl

theorem kitoa_keeps {buf after : Memory} {val base : Word} {text : KitoaText}
    (done : kitoa buf val base = some (after, text)) : after 31 = buf 31 := by
  unfold kitoa at done
  split at done
  · cases done
    rfl
  · split at done
    · obtain ⟨⟨filled, place⟩, ends, rest⟩ := Option.bind_eq_some_iff.mp done
      cases rest
      exact (kitoaDigits_keeps ends).2 31 (by decide)
    · obtain ⟨⟨filled, place⟩, ends, rest⟩ := Option.bind_eq_some_iff.mp done
      obtain ⟨low, kept⟩ := kitoaDigits_keeps ends
      simp only at rest
      split at rest
      · cases rest
        rw [writeByte_other _ _ (by omega)]
        exact kept 31 (by decide)
      · cases rest
        exact kept 31 (by decide)

theorem KitoaReached.ended {buf : Memory} (reached : KitoaReached buf) : buf 31 = 0 := by
  induction reached with
  | start => rfl
  | call _ _ done ih => exact (kitoa_keeps done).trans ih

theorem putString_spec {source : Memory} {text : List UInt8} : ∀ {turns s : Nat} (console : List UInt8),
    0 ∉ text → holdsString source s text = true → text.length ≤ turns →
      putString turns source s console = some (console ++ text) := by
  induction text with
  | nil =>
      intro turns s console _ holds _
      rw [putString, whileLoop_exit (by simpa using holdsString_nil.mp holds), List.append_nil]
      rfl
  | cons byte rest ih =>
      intro turns s console ended holds enough
      rw [List.mem_cons, not_or] at ended
      obtain ⟨first, others⟩ := holdsString_cons.mp holds
      rw [List.length_cons] at enough
      obtain ⟨turns, rfl⟩ := Nat.exists_eq_succ_of_ne_zero (Nat.ne_zero_of_lt enough)
      have printed := ih (console ++ [byte]) ended.2 others (Nat.le_of_succ_le_succ enough)
      rw [List.append_assoc, List.singleton_append, putString] at printed
      rw [putString, whileLoop_turn (by simpa [first] using Ne.symm ended.1)]
      simp only [first]
      exact printed

section Formats

variable {format : Memory} {base : Word}

theorem kprintf_number {turns : Nat} {memory buf after : Memory} {v : Word} {text : List UInt8}
    {returned : KitoaText} (more : format 0 ≠ 0) (ended : ¬format 2 ≠ 0) (two : 2 ≤ turns)
    (turned : ∀ state : KprintState, state.fmt = 0 →
      state.turn turns memory format = state.number turns base)
    (converted : Converted buf v base text after returned) (plain : 0 ∉ text)
    (fits : text.length ≤ turns) :
    kprintf turns memory buf format [v] = some (text, after) := by
  obtain ⟨rest, spare⟩ := Nat.exists_eq_add_of_le' two
  have number : KprintState.number turns base ⟨[], buf, 0, [v]⟩ = some ⟨text, after, 2, []⟩ := by
    unfold KprintState.number
    simp only [vaArg, Option.bind_eq_bind, Option.bind_some, converted.done,
      putString_spec [] plain converted.holds fits]
    rfl
  have loop : kprintLoop turns memory format turns ⟨[], buf, 0, [v]⟩ = some ⟨text, after, 2, []⟩ := by
    conv_lhs => rw [spare]
    rw [kprintLoop, if_pos more, ← spare, turned _ rfl, number, Option.bind_eq_bind,
      Option.bind_some, kprintLoop, if_neg ended]
  rw [kprintf, loop]
  rfl

theorem kprint_turn_decimal (turns : Nat) (memory : Memory) (state : KprintState) (first : state.fmt = 0) :
    state.turn turns memory (literal "%d") = state.number turns 10 := by
  have percent : literal "%d" 0 = byteOf '%' := by decide
  have letter : literal "%d" (0 + 1) = byteOf 'd' := by decide
  rw [KprintState.turn, first, percent, letter]
  rfl

theorem kprint_turn_hex (turns : Nat) (memory : Memory) (state : KprintState) (first : state.fmt = 0) :
    state.turn turns memory (literal "%x") = state.number turns 16 := by
  have percent : literal "%x" 0 = byteOf '%' := by decide
  have letter : literal "%x" (0 + 1) = byteOf 'x' := by decide
  rw [KprintState.turn, first, percent, letter]
  rfl

theorem turn_hex (turns : Nat) (printer : Printer) (i : Word) :
    FormatState.turn turns (literal "%x") ⟨printer, 0, [i]⟩ =
      (printNumber turns (byteOf ' ') false 16 printer i (-1)).map fun printer => ⟨printer, 2, []⟩ := by
  have percent : literal "%x" 0 = byteOf '%' := by decide
  have letter : literal "%x" 1 = byteOf 'x' := by decide
  have noDigit : isdigit (promoted (byteOf 'x')) = false := by decide
  have other : byteOf 'x' ≠ byteOf '0' ∧ byteOf 'x' ≠ byteOf 'l' ∧ byteOf 'x' ≠ byteOf 'c' ∧
      byteOf 'x' ≠ byteOf 's' ∧ byteOf 'x' ≠ byteOf 'd' := by decide
  simp [FormatState.turn, percent, letter, noDigit, other, vaArg, Option.map_eq_bind]

theorem sprintf_hex (memory : Memory) (i : Word) (s : Nat) {turns : Nat} (enough : 8 ≤ turns) :
    sprintf turns memory s (literal "%x") [i] = some (writeBytes memory s (intText 16 i.toNat ++ [0])) := by
  have power : 2 ^ 32 ≤ (16 : Word).toNat ^ turns := by
    calc
      2 ^ 32 ≤ 16 ^ 8 := by decide
      _ ≤ 16 ^ turns := Nat.pow_le_pow_right (by decide) enough
  exact sprintf_number (by decide) (by decide) power (by omega) (by decide) (by decide)
    (fun printer i => turn_hex turns printer i) memory i s

end Formats

theorem length_intText_le {base most : Nat} {i : Int} (wide : 1 < base) (some : 0 < most)
    (fits : i.natAbs < base ^ most) : (intText base i).length ≤ most + 1 := by
  have digits := (length_lowDigits_le_iff wide some).mpr fits
  have sign : (if i < 0 then [byteOf '-'] else []).length ≤ 1 := by
    split
    · exact Nat.le_refl 1
    · exact Nat.zero_le 1
  rw [intText, List.length_append, digitBytes, List.length_map, numeral, List.length_reverse]
  omega

theorem agree_decimal {v : Word} (other : v ≠ BitVec.intMin 32) {buf : Memory} (ended : buf 31 = 0)
    (memory : Memory) (out : Nat) {turns : Nat} (enough : 32 ≤ turns) :
    ∃ text after, kprintf turns memory buf (literal "%d") [v] = some (text, after) ∧ 0 ∉ text ∧
      sprintf turns memory out (literal "%d") [v] = some (writeBytes memory out (text ++ [0])) := by
  obtain ⟨after, returned, converted⟩ := kitoa_decimal ended other
  have accepted : ItoaBase 10 := ⟨by decide, by decide⟩
  have plain : 0 ∉ intText 10 v.toInt := intText_ended accepted v.toInt
  have bounded : v.toInt.natAbs < 10 ^ 10 := by
    have size := v.abs.isLt
    rw [toNat_abs_eq] at size
    omega
  have short := length_intText_le (by decide) (by decide) bounded
  refine ⟨_, after, ?_, plain, sprintf_eq memory v out (by omega)⟩
  exact kprintf_number (by decide) (by decide) (by omega)
    (kprint_turn_decimal turns memory) converted plain (by omega)

theorem agree_hex (v : Word) {buf : Memory} (ended : buf 31 = 0) (memory : Memory) (out : Nat)
    {turns : Nat} (enough : 32 ≤ turns) :
    ∃ text after, kprintf turns memory buf (literal "%x") [v] = some (text, after) ∧ 0 ∉ text ∧
      sprintf turns memory out (literal "%x") [v] = some (writeBytes memory out (text ++ [0])) := by
  obtain ⟨after, returned, converted⟩ := kitoa_hex ended v
  have accepted : ItoaBase 16 := ⟨by decide, by decide⟩
  have plain : 0 ∉ intText 16 v.toNat := intText_ended accepted v.toNat
  have bounded : (v.toNat : Int).natAbs < 16 ^ 8 := by
    rw [Int.natAbs_natCast]
    exact v.isLt
  have short := length_intText_le (by decide) (by decide) bounded
  refine ⟨_, after, ?_, plain, sprintf_hex memory v out (by omega)⟩
  exact kprintf_number (by decide) (by decide) (by omega)
    (kprint_turn_hex turns memory) converted plain (by omega)

theorem kprintf_intMin (turns : Nat) (memory buf : Memory) :
    kprintf turns memory buf (literal "%d") [BitVec.intMin 32] = none := by
  have more : literal "%d" 0 ≠ 0 := by decide
  have stuck : KprintState.number turns 10 ⟨[], buf, 0, [BitVec.intMin 32]⟩ = none := by
    unfold KprintState.number
    simp only [vaArg, Option.bind_eq_bind, Option.bind_some, kitoa_intMin, Option.bind_none]
  have loop : ∀ rest, kprintLoop turns memory (literal "%d") rest ⟨[], buf, 0, [BitVec.intMin 32]⟩ =
      none := by
    intro rest
    cases rest with
    | zero => rw [kprintLoop, if_pos more]
    | succ rest =>
        rw [kprintLoop, if_pos more, kprint_turn_decimal _ _ _ rfl, stuck]
        rfl
  rw [kprintf, loop]
  rfl

theorem intMin_differs : ¬PrintersAgree (BitVec.intMin 32) := by
  intro agree
  obtain ⟨text, after, printed, _⟩ :=
    agree blank .start (literal "%d") List.mem_cons_self blank 0 32 (Nat.le_refl 32)
  rw [kprintf_intMin] at printed
  cases printed

/-- The two printers agree on every value but the least one. -/
theorem printers_agree_iff (v : Word) : PrintersAgree v ↔ v ≠ BitVec.intMin 32 := by
  constructor
  · rintro agree rfl
    exact intMin_differs agree
  · intro other buf reached conversion member memory out turns enough
    rcases List.mem_cons.mp member with rfl | member
    · exact agree_decimal other reached.ended memory out enough
    · obtain rfl := List.mem_singleton.mp member
      exact agree_hex v reached.ended memory out enough

theorem printers_differ : ¬∀ v, PrintersAgree v := fun all => intMin_differs (all (BitVec.intMin 32))

end Hellfire

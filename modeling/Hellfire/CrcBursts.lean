import Hellfire.Library.ShiftRegister

/-!
The checksums of `lib/misc/crc.c`. A message is the list of its `len` bytes, which are signed.
Each checksum is a shift register that takes the bits of the message, and detects every burst
of errors that fits it.
-/

namespace Hellfire

section Turns

variable {width : Nat} (place : Nat) (top poly : BitVec width)

def crcTurn (crc : BitVec width) : BitVec width :=
  crc <<< 1 ^^^ if crc &&& top ≠ 0 then poly else 0

/-- A turn of the outer loop, which extends the sign of the byte before it shifts it up. -/
def crcByte (crc : BitVec width) (data : BitVec 8) : BitVec width :=
  (crcTurn top poly)^[8] (crc ^^^ data.signExtend width <<< place)

end Turns

def hfCrc16 (data : List (BitVec 8)) : BitVec 16 := data.foldl (crcByte 8 0x8000 0x1021) 0xffff

def hfCrc32 (data : List (BitVec 8)) : BitVec 32 := data.foldl (crcByte 24 0x80000000 0x04c11db7) (~~~0)

def hfCrc64 (data : List (BitVec 8)) : BitVec 64 :=
  data.foldl (crcByte 56 0x8000000000000000 0x42f0e1eba9ea3693) 0

open ShiftRegister

def byteBits (data : BitVec 8) : List Bool := (List.range 8).map data.getMsbD

def messageBits (data : List (BitVec 8)) : List Bool := data.flatMap byteBits

theorem messageBits_cons (byte : BitVec 8) (data : List (BitVec 8)) :
    messageBits (byte :: data) = byteBits byte ++ messageBits data :=
  List.flatMap_cons

theorem byteBits_length (data : BitVec 8) : (byteBits data).length = 8 := rfl

theorem byteBits_injective : Function.Injective byteBits := by
  intro data other same
  refine BitVec.eq_of_getMsbD_eq fun place inside => ?_
  have bits := congrArg (fun bits => bits[place]?) same
  simpa [byteBits, inside] using bits

theorem messageBits_injective : ∀ {data other : List (BitVec 8)}, data.length = other.length →
    messageBits data = messageBits other → data = other := by
  intro data
  induction data with
  | nil => intro other same _; exact (List.length_eq_zero_iff.mp same.symm).symm
  | cons byte data ih =>
      intro other same bits
      cases other with
      | nil => cases same
      | cons byte' other =>
          rw [messageBits_cons, messageBits_cons] at bits
          obtain ⟨first, rest⟩ := List.append_inj bits rfl
          rw [byteBits_injective first, ih (Nat.succ.inj same) rest]

theorem messageBits_length (data : List (BitVec 8)) : (messageBits data).length = 8 * data.length := by
  induction data with
  | nil => rfl
  | cons byte data ih =>
      rw [messageBits_cons, List.length_append, byteBits_length, ih, List.length_cons]
      omega

section Bytes

variable {width : Nat}

theorem placed_byteBits (wide : 8 ≤ width) (data : BitVec 8) :
    data.signExtend width <<< (width - 8) = placed (byteBits data) := by
  refine BitVec.eq_of_getMsbD_eq fun place inside => ?_
  rw [BitVec.getMsbD_shiftLeft, BitVec.getMsbD_signExtend, getMsbD_placed, if_pos (Nat.le_add_left ..),
    Nat.sub_eq_of_eq_add (show place + (width - 8) + 8 = place + width by omega)]
  by_cases first : place < 8
  · simp [byteBits, first, inside, show place + (width - 8) < width by omega]
  · simp [byteBits, first, inside, show ¬place + (width - 8) < width by omega]

theorem and_top_ne_zero (positive : 0 < width) (crc : BitVec width) :
    crc &&& BitVec.twoPow width (width - 1) ≠ 0 ↔ crc.msb = true := by
  rw [BitVec.and_twoPow, ← BitVec.msb_eq_getLsbD_last]
  cases crc.msb with
  | false => simp
  | true =>
      simp only [if_true, iff_true]
      intro zero
      have last := congrArg (fun vector => vector.getLsbD (width - 1)) zero
      simp at last
      omega

theorem crcTurn_eq (positive : 0 < width) (poly crc : BitVec width) :
    crcTurn (BitVec.twoPow width (width - 1)) poly crc = turn poly crc := by
  simp only [crcTurn, turn, select, and_top_ne_zero positive]

theorem crcByte_eq (wide : 8 ≤ width) (poly crc : BitVec width) (data : BitVec 8) :
    crcByte (width - 8) (BitVec.twoPow width (width - 1)) poly crc data =
      feedAll poly crc (byteBits data) := by
  rw [← turns_placed poly crc (by rw [byteBits_length]; exact wide), crcByte, placed_byteBits wide]
  congr 1
  funext register
  exact crcTurn_eq (by omega) poly register

theorem crcByte_foldl (wide : 8 ≤ width) (poly : BitVec width) :
    ∀ (data : List (BitVec 8)) (crc : BitVec width),
    data.foldl (crcByte (width - 8) (BitVec.twoPow width (width - 1)) poly) crc =
      feedAll poly crc (messageBits data) := by
  intro data
  induction data with
  | nil => intro crc; rfl
  | cons byte data ih =>
      intro crc
      rw [List.foldl_cons, ih, crcByte_eq wide, messageBits_cons, feedAll_append]

end Bytes

theorem hfCrc16_eq (data : List (BitVec 8)) : hfCrc16 data = feedAll 0x1021 0xffff (messageBits data) :=
  crcByte_foldl (by decide) _ data _

theorem hfCrc32_eq (data : List (BitVec 8)) : hfCrc32 data = feedAll 0x04c11db7 (~~~0) (messageBits data) :=
  crcByte_foldl (by decide) _ data _

theorem hfCrc64_eq (data : List (BitVec 8)) :
    hfCrc64 data = feedAll 0x42f0e1eba9ea3693 0 (messageBits data) :=
  crcByte_foldl (by decide) _ data _

structure BurstError (window : Nat) (data other : List (BitVec 8)) : Prop where
  same : data.length = other.length
  differ : data ≠ other
  inside : ∃ start, ∀ place, (messageBits data)[place]? ≠ (messageBits other)[place]? →
    start ≤ place ∧ place < start + window

theorem BurstError.bits {window : Nat} {data other : List (BitVec 8)} (error : BurstError window data other) :
    Burst window (messageBits data) (messageBits other) := by
  refine ⟨?_, fun bits => error.differ (messageBits_injective error.same bits), error.inside⟩
  rw [messageBits_length, messageBits_length, error.same]

theorem crcs_detect_bursts (data other : List (BitVec 8)) :
    (BurstError 16 data other → hfCrc16 data ≠ hfCrc16 other) ∧
      (BurstError 32 data other → hfCrc32 data ≠ hfCrc32 other) ∧
      (BurstError 64 data other → hfCrc64 data ≠ hfCrc64 other) := by
  refine ⟨fun error => ?_, fun error => ?_, fun error => ?_⟩
  · rw [hfCrc16_eq, hfCrc16_eq]
    exact feedAll_ne_of_burst (by decide) error.bits _
  · rw [hfCrc32_eq, hfCrc32_eq]
    exact feedAll_ne_of_burst (by decide) error.bits _
  · rw [hfCrc64_eq, hfCrc64_eq]
    exact feedAll_ne_of_burst (by decide) error.bits _

theorem crcs_detect_burst : hfCrc16 [0x31, 0x32] ≠ hfCrc16 [0x31, 0x5a] := by
  refine (crcs_detect_bursts _ _).1 ⟨rfl, by decide, 9, fun place differs => ?_⟩
  have short : place < 16 := by
    by_contra past
    rw [List.getElem?_eq_none (Nat.le_of_not_lt past), List.getElem?_eq_none (Nat.le_of_not_lt past)] at differs
    exact differs rfl
  have listed : ∀ place < 16, (messageBits [0x31, 0x32])[place]? ≠ (messageBits [0x31, 0x5a])[place]? →
      9 ≤ place ∧ place < 9 + 16 := by decide
  exact listed place short differs

end Hellfire

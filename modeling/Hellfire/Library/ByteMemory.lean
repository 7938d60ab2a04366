import Mathlib.Logic.Function.Basic

/-!
Byte memory with 32-bit words, least significant byte first, and with strings that end with a zero.
-/

namespace ByteMemory

def Memory : Type := Nat → UInt8

def readWord (memory : Memory) (address : Nat) : Nat :=
  (memory address).toNat + 256 * (memory (address + 1)).toNat +
    65536 * (memory (address + 2)).toNat + 16777216 * (memory (address + 3)).toNat

def writeWord (memory : Memory) (address word : Nat) : Memory := fun place =>
  if place = address then UInt8.ofNat word
  else if place = address + 1 then UInt8.ofNat (word / 256)
  else if place = address + 2 then UInt8.ofNat (word / 65536)
  else if place = address + 3 then UInt8.ofNat (word / 16777216)
  else memory place

def writeByte (memory : Memory) (address : Nat) (byte : UInt8) : Memory := fun place =>
  if place = address then byte else memory place

@[simp] theorem writeByte_self (memory : Memory) (address : Nat) (byte : UInt8) :
    writeByte memory address byte address = byte := if_pos rfl

theorem writeByte_other (memory : Memory) {address place : Nat} (byte : UInt8)
    (other : place ≠ address) : writeByte memory address byte place = memory place := if_neg other

theorem readWord_congr {memory memory' : Memory} {address : Nat}
    (same : ∀ place, address ≤ place → place < address + 4 → memory' place = memory place) :
    readWord memory' address = readWord memory address := by
  unfold readWord
  rw [same address (by omega) (by omega), same (address + 1) (by omega) (by omega),
    same (address + 2) (by omega) (by omega), same (address + 3) (by omega) (by omega)]

theorem writeWord_outside (memory : Memory) {address place : Nat} (word : Nat)
    (outside : place < address ∨ address + 4 ≤ place) :
    writeWord memory address word place = memory place := by
  unfold writeWord
  rw [if_neg (by omega), if_neg (by omega), if_neg (by omega), if_neg (by omega)]

theorem readWord_writeWord (memory : Memory) (address : Nat) {word : Nat}
    (small : word < 4294967296) : readWord (writeWord memory address word) address = word := by
  have first : writeWord memory address word address = UInt8.ofNat word := by simp [writeWord]
  have second : writeWord memory address word (address + 1) = UInt8.ofNat (word / 256) := by
    simp [writeWord]
  have third : writeWord memory address word (address + 2) = UInt8.ofNat (word / 65536) := by
    simp [writeWord]
  have fourth : writeWord memory address word (address + 3) = UInt8.ofNat (word / 16777216) := by
    simp [writeWord]
  rw [readWord, first, second, third, fourth]
  simp only [UInt8.toNat_ofNat']
  omega

theorem readWord_writeWord_apart (memory : Memory) {address other : Nat} (word : Nat)
    (apart : address + 4 ≤ other ∨ other + 4 ≤ address) :
    readWord (writeWord memory address word) other = readWord memory other :=
  readWord_congr fun place low high => writeWord_outside memory word (by omega)

theorem readWord_lt (memory : Memory) (address : Nat) : readWord memory address < 4294967296 := by
  have first := (memory address).toNat_lt
  have second := (memory (address + 1)).toNat_lt
  have third := (memory (address + 2)).toNat_lt
  have fourth := (memory (address + 3)).toNat_lt
  unfold readWord
  omega

theorem writeWord_inside (memory memory' : Memory) {address place : Nat} (word : Nat)
    (low : address ≤ place) (high : place < address + 4) :
    writeWord memory address word place = writeWord memory' address word place := by
  unfold writeWord
  by_cases first : place = address
  · rw [if_pos first, if_pos first]
  · by_cases second : place = address + 1
    · rw [if_neg first, if_neg first, if_pos second, if_pos second]
    · by_cases third : place = address + 2
      · rw [if_neg first, if_neg first, if_neg second, if_neg second, if_pos third, if_pos third]
      · have fourth : place = address + 3 := by omega
        rw [if_neg first, if_neg first, if_neg second, if_neg second, if_neg third, if_neg third,
          if_pos fourth, if_pos fourth]

theorem writeWord_again (memory : Memory) (address first second : Nat) :
    writeWord (writeWord memory address first) address second = writeWord memory address second := by
  funext place
  by_cases outside : place < address ∨ address + 4 ≤ place
  · rw [writeWord_outside _ _ outside, writeWord_outside _ _ outside, writeWord_outside _ _ outside]
  · exact writeWord_inside _ _ _ (by omega) (by omega)

theorem writeWord_swap (memory : Memory) {address other : Nat} (first second : Nat)
    (apart : address + 4 ≤ other ∨ other + 4 ≤ address) :
    writeWord (writeWord memory address first) other second =
      writeWord (writeWord memory other second) address first := by
  funext place
  by_cases outside : place < other ∨ other + 4 ≤ place
  · rw [writeWord_outside _ _ outside]
    by_cases outside' : place < address ∨ address + 4 ≤ place
    · rw [writeWord_outside _ _ outside', writeWord_outside _ _ outside', writeWord_outside _ _ outside]
    · exact writeWord_inside _ _ _ (by omega) (by omega)
  · rw [writeWord_outside _ first (by omega)]
    exact writeWord_inside _ _ _ (by omega) (by omega)

def writeBytes (memory : Memory) (address : Nat) (bytes : List UInt8) : Memory := fun place =>
  if address ≤ place ∧ place < address + bytes.length then bytes.getD (place - address) 0
  else memory place

def holdsString (memory : Memory) (address : Nat) : List UInt8 → Bool
  | [] => memory address = 0
  | byte :: rest => memory address = byte && holdsString memory (address + 1) rest

def readString (memory : Memory) (address : Nat) : Nat → List UInt8
  | 0 => []
  | limit + 1 =>
      if memory address = 0 then [] else memory address :: readString memory (address + 1) limit

theorem writeBytes_outside (memory : Memory) {address place : Nat} (bytes : List UInt8)
    (outside : place < address ∨ address + bytes.length ≤ place) :
    writeBytes memory address bytes place = memory place := by
  unfold writeBytes
  rw [if_neg (by omega)]

theorem writeBytes_inside (memory : Memory) {address place : Nat} (bytes : List UInt8)
    (low : address ≤ place) (high : place < address + bytes.length) :
    writeBytes memory address bytes place = bytes.getD (place - address) 0 := by
  unfold writeBytes
  rw [if_pos ⟨low, high⟩]

theorem writeBytes_nil (memory : Memory) (address : Nat) : writeBytes memory address [] = memory :=
  funext fun place => writeBytes_outside memory [] (by simp; omega)

theorem writeByte_writeBytes (memory : Memory) (address : Nat) (bytes : List UInt8) (byte : UInt8) :
    writeByte (writeBytes memory address bytes) (address + bytes.length) byte =
      writeBytes memory address (bytes ++ [byte]) := by
  funext place
  by_cases last : place = address + bytes.length
  · subst last
    rw [writeByte_self, writeBytes_inside _ _ (by omega) (by simp), Nat.add_sub_cancel_left]
    simp
  · rw [writeByte_other _ _ last]
    by_cases inside : address ≤ place ∧ place < address + bytes.length
    · rw [writeBytes_inside _ _ inside.1 inside.2, writeBytes_inside _ _ inside.1 (by simp; omega)]
      simp [List.getElem?_append_left (show place - address < bytes.length by omega)]
    · rw [writeBytes_outside _ _ (by omega), writeBytes_outside _ _ (by simp; omega)]

def StartsWith (memory : Memory) (bytes : List UInt8) : Prop :=
  ∀ place < bytes.length, memory place = bytes.getD place 0

theorem startsWith_writeBytes (memory : Memory) (bytes : List UInt8) :
    StartsWith (writeBytes memory 0 bytes) bytes := by
  intro place before
  rw [writeBytes_inside _ _ (Nat.zero_le _) (by omega), Nat.sub_zero]

theorem startsWith_append {memory : Memory} {bytes : List UInt8} {last : UInt8}
    (starts : StartsWith memory (bytes ++ [last])) : StartsWith memory bytes ∧ memory bytes.length = last := by
  constructor
  · intro place before
    rw [starts place (by simp; omega)]
    simp [List.getElem?_append_left before]
  · rw [starts _ (by simp)]
    simp

theorem readString_congr {memory memory' : Memory} {address limit : Nat}
    (same : ∀ place, address ≤ place → place < address + limit → memory' place = memory place) :
    readString memory' address limit = readString memory address limit := by
  induction limit generalizing address with
  | zero => rfl
  | succ limit ih =>
      unfold readString
      rw [same address (by omega) (by omega),
        ih fun place low high => same place (by omega) (by omega)]

theorem readString_eq {memory : Memory} {address limit : Nat} {string : List UInt8}
    (ended : 0 ∉ string) (fits : string.length < limit)
    (bytes : ∀ i, i ≤ string.length → memory (address + i) = string.getD i 0) :
    readString memory address limit = string := by
  induction string generalizing address limit with
  | nil =>
      cases limit with
      | zero => simp at fits
      | succ limit =>
          have first : memory address = 0 := by simpa using bytes 0 (by simp)
          simp [readString, first]
  | cons byte rest ih =>
      cases limit with
      | zero => simp at fits
      | succ limit =>
          rw [List.mem_cons, not_or] at ended
          simp only [List.length_cons] at fits
          have first : memory address = byte := by simpa using bytes 0 (by simp)
          have others : readString memory (address + 1) limit = rest := by
            refine ih ended.2 (by omega) fun i bound => ?_
            have next := bytes (i + 1) (by simpa using bound)
            rw [List.getD_cons_succ] at next
            rw [← next, Nat.add_assoc, Nat.add_comm 1 i]
          rw [readString, first, if_neg (Ne.symm ended.1), others]

theorem readString_writeBytes (memory : Memory) (address : Nat) {limit : Nat} {string : List UInt8}
    (ended : 0 ∉ string) (fits : string.length < limit) :
    readString (writeBytes memory address (string ++ [0])) address limit = string := by
  refine readString_eq ended fits fun i bound => ?_
  rw [writeBytes_inside _ _ (by omega) (by simp; omega), Nat.add_sub_cancel_left]
  rcases Nat.lt_or_eq_of_le bound with inside | atEnd
  · simp [List.getElem?_append_left inside]
  · simp [atEnd]

theorem holdsString_iff {memory : Memory} {address limit : Nat} {string : List UInt8}
    (ended : 0 ∉ string) (fits : string.length < limit) :
    holdsString memory address string = true ↔ readString memory address limit = string := by
  induction string generalizing address limit with
  | nil =>
      cases limit with
      | zero => simp at fits
      | succ limit => simp [holdsString, readString]
  | cons byte rest ih =>
      cases limit with
      | zero => simp at fits
      | succ limit =>
          rw [List.mem_cons, not_or] at ended
          simp only [List.length_cons] at fits
          have others : holdsString memory (address + 1) rest = true ↔
              readString memory (address + 1) limit = rest := ih ended.2 (by omega)
          rw [holdsString, Bool.and_eq_true, decide_eq_true_eq, others, readString]
          by_cases zero : memory address = 0
          · rw [if_pos zero, zero]
            simp [ended.1]
          · rw [if_neg zero, List.cons.injEq]

theorem holdsString_writeBytes (memory : Memory) (address : Nat) {string : List UInt8} (ended : 0 ∉ string) :
    holdsString (writeBytes memory address (string ++ [0])) address string = true :=
  (holdsString_iff ended (Nat.lt_succ_self _)).mpr
    (readString_writeBytes memory address ended (Nat.lt_succ_self _))

theorem holdsString_cons {memory : Memory} {address : Nat} {byte : UInt8} {rest : List UInt8} :
    holdsString memory address (byte :: rest) = true ↔
      memory address = byte ∧ holdsString memory (address + 1) rest = true := by
  rw [holdsString, Bool.and_eq_true, decide_eq_true_eq]

theorem holdsString_nil {memory : Memory} {address : Nat} :
    holdsString memory address [] = true ↔ memory address = 0 :=
  decide_eq_true_iff

theorem holdsString_congr {memory memory' : Memory} : ∀ {string : List UInt8} {address : Nat},
    (∀ place, address ≤ place → place ≤ address + string.length → memory' place = memory place) →
      holdsString memory' address string = holdsString memory address string := by
  intro string
  induction string with
  | nil =>
      intro address same
      rw [holdsString, holdsString, same address (Nat.le_refl _) (Nat.le_refl _)]
  | cons byte rest ih =>
      intro address same
      rw [List.length_cons] at same
      rw [holdsString, holdsString, same address (Nat.le_refl _) (by omega),
        ih fun place low high => same place (by omega) (by omega)]

theorem holdsString_behind {memory : Memory} {rest : List UInt8} : ∀ {front : List UInt8} {address : Nat},
    holdsString memory address (front ++ rest) = true →
      holdsString memory (address + front.length) rest = true := by
  intro front
  induction front with
  | nil => exact fun holds => holds
  | cons byte front ih =>
      intro address holds
      have behind := ih (holdsString_cons.mp holds).2
      rwa [Nat.add_assoc, Nat.add_comm 1] at behind

theorem holdsString_cut {memory : Memory} {rest : List UInt8} : ∀ {front : List UInt8} {address : Nat},
    holdsString memory address (front ++ rest) = true →
      holdsString (writeByte memory (address + front.length) 0) address front = true := by
  intro front
  induction front with
  | nil => exact fun _ => holdsString_nil.mpr (writeByte_self ..)
  | cons byte front ih =>
      intro address holds
      obtain ⟨first, others⟩ := holdsString_cons.mp holds
      have cut := ih others
      rw [Nat.add_assoc, Nat.add_comm 1] at cut
      rw [List.length_cons]
      exact holdsString_cons.mpr ⟨(writeByte_other _ _ (by omega)).trans first, cut⟩

structure EndsAt (memory : Memory) (address stop : Nat) : Prop where
  behind : address ≤ stop
  zero : memory stop = 0
  before : ∀ place, address ≤ place → place < stop → memory place ≠ 0

theorem holdsString_endsAt {memory : Memory} : ∀ {string : List UInt8} {address : Nat}, 0 ∉ string →
    holdsString memory address string = true → EndsAt memory address (address + string.length) := by
  intro string
  induction string with
  | nil =>
      intro address _ holds
      exact ⟨Nat.le_refl _, holdsString_nil.mp holds, fun place low high => absurd high (Nat.not_lt.mpr low)⟩
  | cons byte rest ih =>
      intro address ended holds
      rw [List.mem_cons, not_or] at ended
      obtain ⟨first, others⟩ := holdsString_cons.mp holds
      obtain ⟨behind, zero, before⟩ := ih ended.2 others
      rw [List.length_cons, Nat.add_comm rest.length, ← Nat.add_assoc]
      refine ⟨by omega, zero, fun place low high => ?_⟩
      rcases Nat.eq_or_lt_of_le low with rfl | above
      · rw [first]
        exact Ne.symm ended.1
      · exact before place above high

theorem EndsAt.unique {memory : Memory} {address stop stop' : Nat} (ends : EndsAt memory address stop)
    (ends' : EndsAt memory address stop') : stop = stop' := by
  rcases Nat.lt_trichotomy stop stop' with before | same | after
  · exact absurd ends.zero (ends'.before stop ends.behind before)
  · exact same
  · exact absurd ends'.zero (ends.before stop' ends'.behind after)

end ByteMemory

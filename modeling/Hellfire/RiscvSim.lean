import Hellfire.RiscvSimCore

/-!
One call of `cycle` executes the RV32I instruction that the program counter points to.
-/

namespace Hellfire.RiscvSim

open Rv32i

section Decoding

theorem shifted_field (inst : Word) (start len : Nat) (fits : len ≤ 32) :
    (inst >>> start) &&& BitVec.ofNat 32 (2 ^ len - 1) =
      (inst.extractLsb' start len).setWidth 32 := by
  apply BitVec.eq_of_toNat_eq
  have small : 2 ^ len ≤ 2 ^ 32 := Nat.pow_le_pow_right (by omega) fits
  have pos : 0 < 2 ^ len := Nat.two_pow_pos len
  have inside : inst.toNat >>> start % 2 ^ len < 2 ^ 32 :=
    Nat.lt_of_lt_of_le (Nat.mod_lt _ pos) small
  rw [BitVec.toNat_and, BitVec.toNat_ushiftRight, BitVec.toNat_ofNat, Nat.mod_eq_of_lt (by omega),
    Nat.and_two_pow_sub_one_eq_mod, BitVec.toNat_setWidth, BitVec.extractLsb'_toNat,
    Nat.mod_eq_of_lt inside]

theorem decode_opcode (inst : Word) :
    (decode inst).opcode = (inst.extractLsb' 0 7).setWidth 32 := by
  have field := shifted_field inst 0 7 (by decide)
  rwa [BitVec.ushiftRight_zero] at field

theorem decode_rd (inst : Word) : (decode inst).rd = (inst.extractLsb' 7 5).setWidth 32 :=
  shifted_field inst 7 5 (by decide)

theorem decode_funct3 (inst : Word) :
    (decode inst).funct3 = (inst.extractLsb' 12 3).setWidth 32 :=
  shifted_field inst 12 3 (by decide)

theorem decode_rs1 (inst : Word) : (decode inst).rs1 = (inst.extractLsb' 15 5).setWidth 32 :=
  shifted_field inst 15 5 (by decide)

theorem decode_rs2 (inst : Word) : (decode inst).rs2 = (inst.extractLsb' 20 5).setWidth 32 :=
  shifted_field inst 20 5 (by decide)

theorem decode_funct7 (inst : Word) :
    (decode inst).funct7 = (inst.extractLsb' 25 7).setWidth 32 :=
  shifted_field inst 25 7 (by decide)

theorem negative_iff (inst : Word) : inst &&& 0x80000000 ≠ 0 ↔ inst.getLsbD 31 = true := by
  constructor
  · intro nonzero
    by_contra clear
    apply nonzero
    ext i bound
    interval_cases i <;> simp_all
  · intro set zero
    have bit := congrArg (fun x => BitVec.getLsbD x 31) zero
    simp at bit
    simp [bit] at set

-- The immediates agree with the specification bit by bit, for either sign.

theorem decode_immI (inst : Word) :
    (decode inst).immI = (inst.extractLsb' 20 12).signExtend 32 := by
  simp only [decode, negative_iff]
  apply BitVec.eq_of_getLsbD_eq
  intro i bound
  rw [BitVec.getLsbD_signExtend, BitVec.msb_eq_getLsbD_last]
  cases sign : inst.getLsbD 31 <;> interval_cases i <;> simp_all

theorem decode_immS (inst : Word) :
    (decode inst).immS = (inst.extractLsb' 25 7 ++ inst.extractLsb' 7 5).signExtend 32 := by
  simp only [decode, negative_iff]
  apply BitVec.eq_of_getLsbD_eq
  intro i bound
  simp only [BitVec.getLsbD_signExtend, BitVec.getLsbD_append,
    BitVec.msb_eq_getLsbD_last]
  cases sign : inst.getLsbD 31 <;> interval_cases i <;> simp_all

theorem decode_immSb (inst : Word) :
    (decode inst).immSb = (inst.extractLsb' 31 1 ++ inst.extractLsb' 7 1 ++
      inst.extractLsb' 25 6 ++ inst.extractLsb' 8 4 ++ 0#1).signExtend 32 := by
  simp only [decode, negative_iff]
  apply BitVec.eq_of_getLsbD_eq
  intro i bound
  simp only [BitVec.getLsbD_signExtend, BitVec.getLsbD_append,
    BitVec.msb_eq_getLsbD_last]
  cases sign : inst.getLsbD 31 <;> interval_cases i <;> simp_all

theorem decode_immU (inst : Word) : (decode inst).immU = inst.extractLsb' 12 20 ++ 0#12 := by
  apply BitVec.eq_of_getLsbD_eq
  intro i bound
  rw [BitVec.getLsbD_append]
  interval_cases i <;> simp [decode]

theorem decode_immUj (inst : Word) :
    (decode inst).immUj = (inst.extractLsb' 31 1 ++ inst.extractLsb' 12 8 ++
      inst.extractLsb' 20 1 ++ inst.extractLsb' 21 10 ++ 0#1).signExtend 32 := by
  simp only [decode, negative_iff]
  apply BitVec.eq_of_getLsbD_eq
  intro i bound
  simp only [BitVec.getLsbD_signExtend, BitVec.getLsbD_append,
    BitVec.msb_eq_getLsbD_last]
  cases sign : inst.getLsbD 31 <;> interval_cases i <;> simp_all

attribute [simp] decode_opcode decode_rd decode_funct3 decode_rs1 decode_rs2 decode_funct7
  decode_immI decode_immS decode_immSb decode_immU decode_immUj

end Decoding

section View

def place (address : Word) : Fin memSize :=
  ⟨address.toNat % memSize, Nat.mod_lt _ (by decide)⟩

/-- The machine that the simulator stands for: register zero reads as zero. -/
def view (s : State) : Machine (Fin memSize) where
  x := fun k => if k = 0 then 0 else s.r k
  zero := rfl
  pc := s.pc
  mem := s.mem

@[simp] theorem view_pc (s : State) : (view s).pc = s.pc := rfl

@[simp] theorem view_mem (s : State) : (view s).mem = s.mem := rfl

theorem view_x (s : State) (k : Reg) : (view s).x k = if k = 0 then 0 else s.r k := rfl

theorem view_advance (s : State) : view (advance s) = { view s with pc := s.pcNext } := rfl

@[simp]
theorem setWidth_reg (k : Reg) : (k.setWidth 32).setWidth 5 = k := by
  simp

theorem reg_view {s : State} (cleared : s.r 0 = 0) (k : Reg) :
    s.reg (k.setWidth 32) = (view s).x k := by
  rw [State.reg, setWidth_reg, view_x]
  split
  · rename_i zero
    rw [zero, cleared]
  · rfl

theorem setReg_r (s : State) (k : Reg) (value : Word) :
    (s.setReg (k.setWidth 32) value).r = Function.update s.r k value := by
  rw [State.setReg, setWidth_reg]

theorem view_setReg (s : State) (k : Reg) (value : Word) :
    view (s.setReg (k.setWidth 32) value) = (view s).set k value := by
  refine Machine.ext (funext fun j => ?_) rfl rfl
  rw [view_x, Machine.set_x, view_x, setReg_r, Function.update_apply]
  by_cases zero : j = 0
  · subst zero
    simp only [ne_eq, reduceIte]
    split
    · rename_i both
      exact absurd both.1.symm both.2
    · rfl
  · rw [if_neg zero, if_neg zero]
    refine if_congr ?_ rfl rfl
    exact ⟨fun same => ⟨same, same ▸ zero⟩, And.left⟩

@[simp]
theorem setReg_pc (s : State) (index value : Word) : (s.setReg index value).pc = s.pc := rfl

@[simp]
theorem setReg_pcNext (s : State) (index value : Word) :
    (s.setReg index value).pcNext = s.pcNext := rfl

end View

section Memory

variable (host : Host) (s : State)

theorem place_add {address : Word} {size j : Nat} (aligned : address.toNat % size = 0)
    (width : size = 1 ∨ size = 2 ∨ size = 4) (inside : j < size) :
    (place (address + BitVec.ofNat 32 j)).val = address.toNat % memSize + j ∧
      address.toNat % memSize + j < memSize := by
  have bound := address.isLt
  simp only [place, memSize, BitVec.toNat_add, BitVec.toNat_ofNat]
  rcases width with rfl | rfl | rfl <;> omega

theorem byteAt_place {address : Word} {size j : Nat} (aligned : address.toNat % size = 0)
    (width : size = 1 ∨ size = 2 ∨ size = 4) (inside : j < size) :
    s.byteAt host (address.toNat % memSize + j) = s.mem (place (address + BitVec.ofNat 32 j)) := by
  obtain ⟨same, below⟩ := place_add aligned width inside
  rw [State.byteAt, dif_pos below]
  exact congrArg s.mem (Fin.ext same.symm)

theorem halfAt_place {address : Word} {size : Nat} (aligned : address.toNat % size = 0)
    (width : size = 2 ∨ size = 4) :
    s.halfAt host (address.toNat % memSize) = Rv32i.halfAt place s.mem address := by
  have second := byteAt_place host s aligned (Or.inr width) (show 1 < size by omega)
  have first := byteAt_place host s aligned (Or.inr width) (show 0 < size by omega)
  rw [Nat.add_zero, BitVec.add_zero] at first
  rw [State.halfAt, Rv32i.halfAt, second, first]
  rfl

theorem wordAt_place {address : Word} (aligned : address.toNat % 4 = 0) :
    s.wordAt host (address.toNat % memSize) = Rv32i.wordAt place s.mem address := by
  have width : (4 : Nat) = 1 ∨ 4 = 2 ∨ 4 = 4 := by omega
  rw [State.wordAt, Rv32i.wordAt, byteAt_place host s aligned width (show 3 < 4 by decide),
    byteAt_place host s aligned width (show 2 < 4 by decide), halfAt_place host s aligned (by simp)]
  rfl

theorem store_mem {address : Word} {size : Nat} (aligned : address.toNat % size = 0)
    (width : size = 1 ∨ size = 2 ∨ size = 4) (value : Word) {count : Nat} (fits : count ≤ size) :
    (s.store (address.toNat % memSize) count value).mem =
      writeBytes place s.mem address value count := by
  induction count with
  | zero =>
      funext i
      simp [State.store, writeBytes]
  | succ count ih =>
      obtain ⟨same, _⟩ := place_add aligned width (show count < size by omega)
      have before := ih (by omega)
      funext i
      rw [writeBytes, ← before, Function.update_apply]
      simp only [State.store]
      by_cases last : i = place (address + BitVec.ofNat 32 count)
      · rw [if_pos last, last, same, if_pos (by omega), Nat.add_sub_cancel_left]
      · have other : i.val ≠ address.toNat % memSize + count :=
          fun equal => last (Fin.ext (equal.trans same.symm))
        rw [if_neg last]
        exact if_congr (by omega) rfl rfl

def peripherals : List Word :=
  [irqVector, irqCause, irqMask, irqStatus, irqEpc, counterReg, compareReg, compare2Reg, exitTrap,
    debugAddr, uartWrite, uartDivisor]

theorem low_bits_two {address : Word} : address &&& 3#32 = 0#32 ↔ address.toNat % 4 = 0 := by
  rw [← BitVec.toNat_inj, BitVec.toNat_and]
  exact Eq.congr (Nat.and_two_pow_sub_one_eq_mod _ 2) rfl

theorem low_bit {address : Word} : address &&& 1#32 = 0#32 ↔ address.toNat % 2 = 0 := by
  rw [← BitVec.toNat_inj, BitVec.toNat_and]
  exact Eq.congr (Nat.and_two_pow_sub_one_eq_mod _ 1) rfl

theorem memRead_memory {address : Word} (outside : address ∉ peripherals) (size : Nat) :
    memRead host s size address = (readArray host s size address).map fun value => (value, s) := by
  simp only [peripherals, List.mem_cons, List.not_mem_nil, or_false, not_or] at outside
  obtain ⟨vector, cause, mask, status, epc, counter, compare, compare2, -, -, uart, divisor⟩ :=
    outside
  unfold memRead
  rw [if_neg vector, if_neg cause, if_neg mask, if_neg status, if_neg epc, if_neg counter,
    if_neg compare, if_neg compare2, if_neg (show address ≠ uartRead from uart), if_neg divisor]

theorem memWrite_memory {address : Word} (outside : address ∉ peripherals) (size : Nat)
    (value : Word) : memWrite s size address value = writeArray s size address value := by
  simp only [peripherals, List.mem_cons, List.not_mem_nil, or_false, not_or] at outside
  obtain ⟨vector, cause, mask, status, epc, counter, compare, compare2, exit, debug, uart,
    divisor⟩ := outside
  unfold memWrite
  rw [if_neg vector, if_neg cause, if_neg mask, if_neg status, if_neg epc, if_neg counter,
    if_neg compare, if_neg compare2, if_neg exit, if_neg debug, if_neg uart, if_neg divisor]

end Memory

section Instructions

variable {host : Host} {s : State} {machine : Machine (Fin memSize)}

def Ends (result : Option State) (machine : Machine (Fin memSize)) : Prop :=
  ∃ s', result = some s' ∧ view (advance s') = machine

theorem ends_setReg (k : Reg) (value : Word) (following : s.pcNext = s.pc + 4) :
    Ends (some (s.setReg (k.setWidth 32) value)) ((view s).set k value).next := by
  refine ⟨_, rfl, ?_⟩
  rw [view_advance, view_setReg, setReg_pcNext, following]
  rfl

theorem setWidth_signExtend {width : Nat} (x : BitVec width) (fits : width ≤ 32) :
    (x.signExtend 32).setWidth width = x := by
  apply BitVec.eq_of_getLsbD_eq
  intro i bound
  rw [BitVec.getLsbD_setWidth, BitVec.getLsbD_signExtend]
  simp [bound, show i < 32 by omega]

theorem load_ends (kind : Load) (rd : Reg) {d : Fields} {address : Word}
    (destination : d.rd = rd.setWidth 32) (switch : d.funct3 = kind.funct3.setWidth 32)
    (outside : address ∉ peripherals) (aligned : address.toNat % kind.size = 0)
    (following : s.pcNext = s.pc + 4) :
    Ends (load host d s address) ((view s).set rd (kind.value place s.mem address)).next := by
  have byte := byteAt_place host s (Nat.mod_one address.toNat) (Or.inl rfl) Nat.zero_lt_one
  rw [Nat.add_zero, BitVec.add_zero] at byte
  have half (even : address.toNat % 2 = 0) := halfAt_place host s even (Or.inl rfl)
  have loaded : load host d s address =
      some (s.setReg (rd.setWidth 32) (kind.value place s.mem address)) := by
    unfold load
    simp only [switch, destination, memRead_memory host s outside, readArray]
    cases kind with
    | lb | lbu => simp [Load.funct3, Load.value, byte, setWidth_signExtend]
    | lh | lhu =>
        have even : address.toNat % 2 = 0 := aligned
        simp [Load.funct3, Load.value, low_bit.mpr even, half even, setWidth_signExtend]
    | lw =>
        have word : address.toNat % 4 = 0 := aligned
        simp [Load.funct3, Load.value, low_bits_two.mpr word, wordAt_place host s word]
  rw [loaded]
  exact ends_setReg rd _ following

theorem store_ends (kind : Store) (rs2 : Reg) {d : Fields} {address : Word}
    (source : d.rs2 = rs2.setWidth 32) (switch : d.funct3 = kind.funct3.setWidth 32)
    (outside : address ∉ peripherals) (aligned : address.toNat % kind.size = 0)
    (cleared : s.r 0 = 0) (following : s.pcNext = s.pc + 4) :
    Ends (store d s address) { view s with
      mem := writeBytes place s.mem address ((view s).x rs2) kind.size }.next := by
  have width : kind.size = 1 ∨ kind.size = 2 ∨ kind.size = 4 := by
    cases kind <;> simp [Store.size]
  have stored : store d s address =
      some (s.store (address.toNat % memSize) kind.size ((view s).x rs2)) := by
    unfold store
    simp only [switch, source, reg_view cleared, memWrite_memory s outside, writeArray]
    cases kind with
    | sb => simp [Store.funct3, Store.size]
    | sh =>
        have even : address.toNat % 2 = 0 := aligned
        simp [Store.funct3, Store.size, low_bit.mpr even]
    | sw =>
        have word : address.toNat % 4 = 0 := aligned
        simp [Store.funct3, Store.size, low_bits_two.mpr word]
  rw [stored]
  refine ⟨_, rfl, ?_⟩
  rw [← store_mem s aligned width _ (Nat.le_refl _)]
  exact Machine.ext rfl following rfl

theorem branch_ends (condition : Branch) (rs1 rs2 : Reg) {d : Fields}
    (left : d.rs1 = rs1.setWidth 32) (right : d.rs2 = rs2.setWidth 32)
    (switch : d.funct3 = condition.funct3.setWidth 32)
    (cleared : s.r 0 = 0) (following : s.pcNext = s.pc + 4)
    (done : (if condition.holds ((view s).x rs1) ((view s).x rs2) then
      (view s).jump (s.pc + d.immSb) else some (view s).next) = some machine) :
    Ends (branch d s) machine := by
  have taken : branch d s = some (if condition.holds ((view s).x rs1) ((view s).x rs2) then
      { s with pcNext := s.pc + d.immSb } else s) := by
    unfold branch
    simp only [switch, left, right, reg_view cleared]
    cases condition <;> rfl
  rw [taken]
  refine ⟨_, rfl, ?_⟩
  rw [view_advance]
  split at done
  · rename_i holds
    rw [if_pos holds]
    unfold Machine.jump at done
    split at done
    · exact Option.some.inj done
    · cases done
  · rename_i fails
    rw [if_neg fails, ← Option.some.inj done, following]
    rfl

theorem shiftLeft_small {a n : Word} (small : n.toNat < 32) :
    host.shiftLeft a n = a <<< n.toNat := if_pos small

theorem shiftRight_small {a n : Word} (small : n.toNat < 32) :
    host.shiftRight a n = a >>> n.toNat := if_pos small

theorem arithmeticShiftRight_small {a n : Word} (small : n.toNat < 32) :
    host.arithmeticShiftRight a n = a.sshiftRight n.toNat := if_pos small

theorem immediate_ends (operation : Immediate) (rd rs1 : Reg) {d : Fields} {imm : Word}
    (destination : d.rd = rd.setWidth 32) (source : d.rs1 = rs1.setWidth 32) (operand : d.immI = imm)
    (switch : d.funct3 = operation.funct3.setWidth 32)
    (cleared : s.r 0 = 0) (following : s.pcNext = s.pc + 4) :
    Ends (registerImmediate host d s)
      ((view s).set rd (operation.apply ((view s).x rs1) imm)).next := by
  have computed : registerImmediate host d s =
      some (s.setReg (rd.setWidth 32) (operation.apply ((view s).x rs1) imm)) := by
    unfold registerImmediate
    simp only [switch, destination, source, operand, reg_view cleared]
    cases operation <;> rfl
  rw [computed]
  exact ends_setReg rd _ following

theorem shiftImmediate_ends (kind : Shift) (rd rs1 : Reg) (shamt : BitVec 5) {d : Fields}
    (destination : d.rd = rd.setWidth 32) (source : d.rs1 = rs1.setWidth 32)
    (amount : d.rs2 = shamt.setWidth 32) (switch : d.funct3 = kind.funct3.setWidth 32)
    (inner : d.funct7 = kind.funct7.setWidth 32)
    (cleared : s.r 0 = 0) (following : s.pcNext = s.pc + 4) :
    Ends (registerImmediate host d s)
      ((view s).set rd (kind.apply ((view s).x rs1) shamt.toNat)).next := by
  have masked : (shamt.setWidth 32 &&& (0x3f : Word)).toNat = shamt.toNat := by
    have bound := shamt.isLt
    rw [BitVec.toNat_and, BitVec.toNat_setWidth, Nat.mod_eq_of_lt (by omega)]
    exact (Nat.and_two_pow_sub_one_eq_mod _ 6).trans (Nat.mod_eq_of_lt (by omega))
  have small : (shamt.setWidth 32 &&& (0x3f : Word)).toNat < 32 := masked ▸ shamt.isLt
  have computed : registerImmediate host d s =
      some (s.setReg (rd.setWidth 32) (kind.apply ((view s).x rs1) shamt.toNat)) := by
    unfold registerImmediate
    simp only [switch, inner, destination, source, amount, reg_view cleared]
    rw [shiftLeft_small small, shiftRight_small small, arithmeticShiftRight_small small, masked]
    cases kind <;> rfl
  rw [computed]
  exact ends_setReg rd _ following

def Host.MasksAmounts (host : Host) : Prop :=
  ∀ a n, host.shiftLeft a n = a <<< (n.toNat % 32) ∧ host.shiftRight a n = a >>> (n.toNat % 32) ∧
    host.arithmeticShiftRight a n = a.sshiftRight (n.toNat % 32)

theorem shift_ends (kind : Shift) (rd rs1 rs2 : Reg) {d : Fields}
    (destination : d.rd = rd.setWidth 32) (left : d.rs1 = rs1.setWidth 32)
    (right : d.rs2 = rs2.setWidth 32) (switch : d.funct3 = kind.funct3.setWidth 32)
    (inner : d.funct7 = kind.funct7.setWidth 32)
    (defined : ((view s).x rs2).toNat < 32 ∨ host.MasksAmounts)
    (cleared : s.r 0 = 0) (following : s.pcNext = s.pc + 4) :
    Ends (registerRegister host d s)
      ((view s).set rd (kind.apply ((view s).x rs1) (((view s).x rs2).toNat % 32))).next := by
  obtain ⟨leftward, rightward, arithmetic⟩ :
      host.shiftLeft ((view s).x rs1) ((view s).x rs2) =
          (view s).x rs1 <<< (((view s).x rs2).toNat % 32) ∧
        host.shiftRight ((view s).x rs1) ((view s).x rs2) =
          (view s).x rs1 >>> (((view s).x rs2).toNat % 32) ∧
        host.arithmeticShiftRight ((view s).x rs1) ((view s).x rs2) =
          ((view s).x rs1).sshiftRight (((view s).x rs2).toNat % 32) := by
    rcases defined with small | masks
    · rw [Nat.mod_eq_of_lt small]
      exact ⟨if_pos small, if_pos small, if_pos small⟩
    · exact masks _ _
  have computed : registerRegister host d s = some (s.setReg (rd.setWidth 32)
      (kind.apply ((view s).x rs1) (((view s).x rs2).toNat % 32))) := by
    unfold registerRegister
    simp only [switch, inner, destination, left, right, reg_view cleared, leftward, rightward,
      arithmetic]
    cases kind <;> rfl
  rw [computed]
  exact ends_setReg rd _ following

theorem arith_ends (operation : Arith) (rd rs1 rs2 : Reg) {d : Fields}
    (destination : d.rd = rd.setWidth 32) (left : d.rs1 = rs1.setWidth 32)
    (right : d.rs2 = rs2.setWidth 32) (switch : d.funct3 = operation.funct3.setWidth 32)
    (inner : d.funct7 = operation.funct7.setWidth 32)
    (cleared : s.r 0 = 0) (following : s.pcNext = s.pc + 4) :
    Ends (registerRegister host d s)
      ((view s).set rd (operation.apply ((view s).x rs1) ((view s).x rs2))).next := by
  have computed : registerRegister host d s = some (s.setReg (rd.setWidth 32)
      (operation.apply ((view s).x rs1) ((view s).x rs2))) := by
    unfold registerRegister
    simp only [switch, inner, destination, left, right, reg_view cleared]
    cases operation <;> rfl
  rw [computed]
  exact ends_setReg rd _ following

theorem jump_ends {rd : Reg} {target : Word} (following : s.pcNext = s.pc + 4)
    (done : ((view s).set rd (s.pc + 4)).jump target = some machine) :
    Ends (some { s.setReg (rd.setWidth 32) s.pcNext with pcNext := target }) machine := by
  refine ⟨_, rfl, ?_⟩
  unfold Machine.jump at done
  split at done
  · rw [← Option.some.inj done, ← following, ← view_setReg]
    rfl
  · cases done

/-- The register that is jumped through is read after the link was written. -/
theorem jumpRegister_ends {rd rs1 : Reg} {d : Fields} {imm : Word}
    (destination : d.rd = rd.setWidth 32) (source : d.rs1 = rs1.setWidth 32) (operand : d.immI = imm)
    (kept : rd = rs1 → (view s).x rs1 = s.pc + 4)
    (cleared : s.r 0 = 0) (following : s.pcNext = s.pc + 4)
    (done : ((view s).set rd (s.pc + 4)).jump (((view s).x rs1 + imm) &&& ~~~1) = some machine) :
    Ends (some (jumpRegister d s)) machine := by
  have base : (s.setReg (rd.setWidth 32) s.pcNext).reg (rs1.setWidth 32) = (view s).x rs1 := by
    rw [← reg_view cleared, State.reg, State.reg, setReg_r, setWidth_reg, Function.update_apply]
    split
    · rename_i same
      rw [following, ← kept same.symm, ← reg_view cleared, State.reg, setWidth_reg]
    · rfl
  have jumped : jumpRegister d s = { s.setReg (rd.setWidth 32) s.pcNext with
      pcNext := ((view s).x rs1 + imm) &&& ~~~1 } := by
    rw [jumpRegister, destination, source, operand, base]
    rfl
  rw [jumped]
  exact jump_ends following done

end Instructions

section Cycle

variable {host : Host} {s : State} {machine : Machine (Fin memSize)}

/-- The next instruction is always the following one when a cycle starts. -/
theorem Reached.following (reached : Reached host s) : s.pcNext = s.pc + 4 := by
  cases reached with
  | boot image input logEnabled => rfl
  | cycle before stepped =>
      obtain ⟨done, _, rfl⟩ := Option.map_eq_some_iff.mp stepped
      rfl

/-- What an instruction must avoid: an address from a register zero that the instruction before
has written, a jump through the register that it links, and a shift that C leaves undefined. -/
def Avoids (host : Host) (s : State) : Instr → Prop
  | .load _ _ rs1 _ | .store _ rs1 _ _ => rs1 = 0 → s.r 0 = 0
  | .jalr rd rs1 _ => rd = rs1 → (view s).x rs1 = s.pc + 4
  | .shift _ _ _ rs2 => ((view s).x rs2).toNat < 32 ∨ host.MasksAmounts
  | _ => True

def cleared (s : State) : State := s.setReg 0 0

theorem cleared_zero (s : State) : (cleared s).r 0 = 0 := by
  have written : (cleared s).r = Function.update s.r 0 0 := setReg_r s 0 0
  rw [written, Function.update_self]

theorem view_cleared (s : State) : view (cleared s) = view s := by
  refine (view_setReg s 0 0).trans (Machine.ext (funext fun k => ?_) rfl rfl)
  rw [Machine.set_x, if_neg fun both => both.2 rfl]

theorem memFetch_pc {instr : Instr} (fetches : (view s).Fetches place instr) :
    memFetch host s s.pc = instr.encode :=
  (wordAt_place host s fetches.1).trans fetches.2

theorem base_view {rs1 : Reg} (zero : rs1 = 0 → s.r 0 = 0) :
    s.reg (rs1.setWidth 32) = (view s).x rs1 := by
  rw [State.reg, setWidth_reg, view_x]
  split
  · rename_i same
    rw [same, zero same]
  · rfl

theorem execute_ends (instr : Instr) (following : s.pcNext = s.pc + 4)
    (avoids : Avoids host s instr)
    (outside : ∀ address ∈ instr.dataAddress (view s), address ∉ peripherals)
    (done : instr.exec place (view s) = some machine) :
    Ends (execute host (decode instr.encode) (cleared s)
      (s.reg (decode instr.encode).rs1 + (decode instr.encode).immI)
      (s.reg (decode instr.encode).rs1 + (decode instr.encode).immS)) machine := by
  have zero := cleared_zero s
  have next : (cleared s).pcNext = (cleared s).pc + 4 := following
  rw [← view_cleared] at done outside
  unfold execute
  cases instr with
  | lui rd imm =>
      simp only [Instr.encode, decode_opcode, uType_opcode, decode_rd, uType_rd, decode_immU,
        uType_imm]
      rw [← Option.some.inj done]
      exact ends_setReg rd _ next
  | auipc rd imm =>
      simp only [Instr.encode, decode_opcode, uType_opcode, decode_rd, uType_rd, decode_immU,
        uType_imm]
      rw [← Option.some.inj done]
      exact ends_setReg rd _ next
  | jal rd offset =>
      simp only [Instr.encode, decode_opcode, jType_opcode, decode_rd, jType_rd, decode_immUj,
        jType_offset]
      exact jump_ends next done
  | jalr rd rs1 imm =>
      simp only [Instr.encode, decode_opcode, iType_opcode]
      exact jumpRegister_ends (by simp) (by simp) (by simp)
        (fun same => (congrArg (fun m => m.x rs1) (view_cleared s)).trans (avoids same)) zero next done
  | branch condition rs1 rs2 offset =>
      simp only [Instr.encode, decode_opcode, bType_opcode]
      refine branch_ends condition rs1 rs2 (by simp) (by simp) (by simp) zero next ?_
      simp only [decode_immSb, bType_offset]
      exact done
  | load kind rd rs1 imm =>
      simp only [Instr.encode, decode_opcode, iType_opcode, decode_rs1, iType_rs1, decode_immI,
        iType_imm]
      rw [base_view avoids, ← view_cleared]
      simp only [Instr.exec] at done
      split at done
      · rename_i aligned
        rw [← Option.some.inj done]
        exact load_ends kind rd (by simp) (by simp) (outside _ rfl) aligned next
      · cases done
  | store kind rs1 rs2 imm =>
      simp only [Instr.encode, decode_opcode, sType_opcode, decode_rs1, sType_rs1, decode_immS,
        sType_imm]
      rw [base_view avoids, ← view_cleared]
      simp only [Instr.exec] at done
      split at done
      · rename_i aligned
        rw [← Option.some.inj done]
        exact store_ends kind rs2 (by simp) (by simp) (outside _ rfl) aligned zero next
      · cases done
  | immediate operation rd rs1 imm =>
      simp only [Instr.encode, decode_opcode, iType_opcode]
      rw [← Option.some.inj done]
      exact immediate_ends operation rd rs1 (by simp) (by simp) (by simp) (by simp) zero next
  | shiftImmediate kind rd rs1 shamt =>
      simp only [Instr.encode, decode_opcode, rType_opcode]
      rw [← Option.some.inj done]
      exact shiftImmediate_ends kind rd rs1 shamt (by simp) (by simp) (by simp) (by simp) (by simp)
        zero next
  | shift kind rd rs1 rs2 =>
      simp only [Instr.encode, decode_opcode, rType_opcode]
      rw [← Option.some.inj done]
      exact shift_ends kind rd rs1 rs2 (by simp) (by simp) (by simp) (by simp) (by simp)
        (view_cleared s ▸ avoids) zero next
  | arith operation rd rs1 rs2 =>
      simp only [Instr.encode, decode_opcode, rType_opcode]
      rw [← Option.some.inj done]
      exact arith_ends operation rd rs1 rs2 (by simp) (by simp) (by simp) (by simp) (by simp)
        zero next

/-- One call of `cycle` does what the specification says of the instruction, if there is one of
RV32I at the program counter, no interrupt is pending and the data are not those of a peripheral. -/
def Conforms (host : Host) (s : State) : Prop :=
  ∀ instr machine, (view s).Fetches place instr → s.pending = false →
    (∀ address ∈ instr.dataAddress (view s), address ∉ peripherals) →
    instr.exec place (view s) = some machine →
    ∃ s', cycle host s = some s' ∧ view s' = machine ∧ s'.pcNext = machine.pc + 4

def Meets (host : Host) (s : State) : Prop :=
  ∀ instr, (view s).Fetches place instr → Avoids host s instr

theorem cycle_implements (reached : Reached host s) (meets : Meets host s) : Conforms host s := by
  intro instr machine fetches quiet outside done
  obtain ⟨s', executed, same⟩ :=
    execute_ends instr reached.following (meets instr fetches) outside done
  refine ⟨advance s', ?_, same, ?_⟩
  · simp only [cycle, quiet, Bool.false_eq_true, if_false, memFetch_pc fetches]
    rw [← cleared, executed]
    rfl
  · rw [← same]
    rfl

def plainHost : Host := ⟨fun _ _ => 0, fun _ _ => 0, fun _ _ => 0, fun _ => 0⟩

section Called

/-- `Avoids`, told from the fetched word. -/
def clear (s : State) (word : Word) : Bool :=
  let opcode := word.extractLsb' 0 7
  if opcode = 0x03 ∨ opcode = 0x23 then s.r 0 = 0
  else if opcode = 0x67 then word.extractLsb' 7 5 ≠ word.extractLsb' 15 5
  else if opcode = 0x33 then ((view s).x (word.extractLsb' 20 5)).toNat < 32
  else true

theorem meets_of_clear {word : Word} (stored : wordAt place (view s).mem (view s).pc = word)
    (clear : clear s word = true) : Meets host s := by
  intro instr fetches
  obtain rfl : instr.encode = word := fetches.2.symm.trans stored
  cases instr with
  | load kind rd rs1 imm =>
      have zero : s.r 0 = 0 := by simpa [RiscvSim.clear, Instr.encode] using clear
      exact fun _ => zero
  | store kind rs1 rs2 imm =>
      have zero : s.r 0 = 0 := by simpa [RiscvSim.clear, Instr.encode] using clear
      exact fun _ => zero
  | jalr rd rs1 imm =>
      have apart : rd ≠ rs1 := by simpa [RiscvSim.clear, Instr.encode] using clear
      exact fun same => absurd same apart
  | shift kind rd rs1 rs2 =>
      have small : ((view s).x rs2).toNat < 32 := by simpa [RiscvSim.clear, Instr.encode] using clear
      exact Or.inl small
  | _ => trivial

theorem Conforms.view_eq (conforms : Conforms host s) {s' : State} (ran : cycle host s = some s')
    {instr : Instr} {machine : Machine (Fin memSize)} (fetches : (view s).Fetches place instr)
    (quiet : s.pending = false)
    (outside : ∀ address ∈ instr.dataAddress (view s), address ∉ peripherals)
    (done : instr.exec place (view s) = some machine) : view s' = machine := by
  obtain ⟨other, ran', same, -⟩ := conforms instr machine fetches quiet outside done
  rw [Option.some.inj (ran.symm.trans ran'), same]

theorem exec_lw (s : State) : Instr.exec place (.load .lw 1 0 12) (view s) =
    some ((view s).set 1 (wordAt place s.mem 12)).next := by
  have address : (view s).x 0 + (12 : BitVec 12).signExtend 32 = 12 := by
    rw [(view s).zero]
    decide
  simp only [Instr.exec, address]
  rfl

theorem exec_jalr (target : (view s).x 1 = 8) : Instr.exec place (.jalr 5 1 0) (view s) =
    some { (view s).set 5 (s.pc + 4) with pc := 8 } := by
  have even : ((8 : Word) + (0 : BitVec 12).signExtend 32) &&& ~~~1 = 8 := by decide
  rw [Instr.exec, target, even, Machine.jump, if_pos (by decide)]
  rfl

theorem exec_sll (s : State) : Instr.exec place (.shift .sll 6 5 1) (view s) =
    some ((view s).set 6 (Shift.sll.apply ((view s).x 5) (((view s).x 1).toNat % 32))).next := rfl

/-- `lw x1, 12(x0)`, `jalr x5, 0(x1)`, `sll x6, x5, x1` and the number 8. -/
def callProgram : State :=
  boot [0x83, 0x20, 0xc0, 0x00, 0xe7, 0x82, 0x00, 0x00, 0x33, 0x93, 0x12, 0x00, 0x08, 0x00, 0x00, 0x00]
    [] false

def loaded : State := (cycle plainHost callProgram).get (by decide +kernel)

def jumped : State := (cycle plainHost loaded).get (by decide +kernel)

def shifted : State := (cycle plainHost jumped).get (by decide +kernel)

/-- The load, the jump and the shift are executed as the specification says. -/
theorem cycle_implements_call : Reached plainHost shifted ∧
    view loaded = ((view callProgram).set 1 8).next ∧
    view jumped = { (view loaded).set 5 0x40000008 with pc := 8 } ∧
    view shifted = ((view jumped).set 6 0x00000800).next := by
  have loads : cycle plainHost callProgram = some loaded := (Option.some_get _).symm
  have jumps : cycle plainHost loaded = some jumped := (Option.some_get _).symm
  have shifts : cycle plainHost jumped = some shifted := (Option.some_get _).symm
  have started : Reached plainHost callProgram := .boot _ _ _
  have first : view loaded = ((view callProgram).set 1 (wordAt place callProgram.mem 12)).next := by
    have stored : wordAt place (view callProgram).mem (view callProgram).pc = 0x00c02083 := by
      decide +kernel
    have meets : Meets plainHost callProgram := meets_of_clear stored (by decide +kernel)
    have encoded : Instr.encode (.load .lw 1 0 12) = 0x00c02083 := by decide
    have outside : ∀ address ∈ Instr.dataAddress (view callProgram) (.load .lw 1 0 12),
        address ∉ peripherals := by
      intro address same
      obtain rfl : 12 = address := Option.some.inj same
      decide
    exact (cycle_implements started meets).view_eq loads ⟨by decide +kernel, stored.trans encoded.symm⟩
      (by decide +kernel) outside (exec_lw _)
  have eight : wordAt place callProgram.mem 12 = 8 := by decide +kernel
  rw [eight] at first
  have target : (view loaded).x 1 = 8 := by
    rw [first]
    rfl
  have second : view jumped = { (view loaded).set 5 (loaded.pc + 4) with pc := 8 } := by
    have stored : wordAt place (view loaded).mem (view loaded).pc = 0x000082e7 := by decide +kernel
    have meets : Meets plainHost loaded := meets_of_clear stored (by decide +kernel)
    have encoded : Instr.encode (.jalr 5 1 0) = 0x000082e7 := by decide
    exact (cycle_implements (started.cycle loads) meets).view_eq jumps
      ⟨by decide +kernel, stored.trans encoded.symm⟩ (by decide +kernel)
      (fun _ absent => nomatch absent) (exec_jalr target)
  have third : view shifted = ((view jumped).set 6
      (Shift.sll.apply ((view jumped).x 5) (((view jumped).x 1).toNat % 32))).next := by
    have stored : wordAt place (view jumped).mem (view jumped).pc = 0x00129333 := by decide +kernel
    have meets : Meets plainHost jumped := meets_of_clear stored (by decide +kernel)
    have encoded : Instr.encode (.shift .sll 6 5 1) = 0x00129333 := by decide
    exact (cycle_implements ((started.cycle loads).cycle jumps) meets).view_eq shifts
      ⟨by decide +kernel, stored.trans encoded.symm⟩ (by decide +kernel)
      (fun _ absent => nomatch absent) (exec_sll _)
  have link : loaded.pc + 4 = 0x40000008 := by decide +kernel
  rw [link] at second
  have result : Shift.sll.apply ((view jumped).x 5) (((view jumped).x 1).toNat % 32) = 0x00000800 := by
    decide +kernel
  rw [result] at third
  exact ⟨((started.cycle loads).cycle jumps).cycle shifts, first, second, third⟩

end Called

def zeroProgram : State := boot [0x13, 0x00, 0x40, 0x00, 0x83, 0x20, 0x00, 0x00] [] false

def staleZero : State := (cycle plainHost zeroProgram).get (by decide +kernel)

theorem Conforms.lw_zero (conforms : Conforms host s) (quiet : s.pending = false)
    (fetches : (view s).Fetches place (.load .lw 1 0 0)) :
    ∃ s', cycle host s = some s' ∧ s'.r 1 = wordAt place s.mem 0 := by
  have done : Instr.exec place (.load .lw 1 0 0) (view s) =
      some ((view s).set 1 (wordAt place s.mem 0)).next := rfl
  have outside : ∀ address ∈ Instr.dataAddress (view s) (.load .lw 1 0 0),
      address ∉ peripherals := by
    intro address same
    obtain rfl : 0 = address := Option.some.inj same
    decide
  obtain ⟨s', ran, same, -⟩ := conforms _ _ fetches quiet outside done
  exact ⟨s', ran, congrArg (fun machine => machine.x 1) same⟩

/-- The load finds 4 in register zero, and reads the second word in place of the first. -/
theorem stale_zero_misleads : ¬∀ host s, Reached host s → Conforms host s := by
  intro claim
  have reached : Reached plainHost staleZero := .cycle (.boot _ _ _) (Option.some_get _).symm
  have loaded : (cycle plainHost staleZero).map (fun s' => s'.r 1) = some 0x00002083 := by
    decide +kernel
  obtain ⟨s', ran, read⟩ := (claim plainHost staleZero reached).lw_zero (by decide +kernel)
    ⟨by decide +kernel, by decide +kernel⟩
  have first : wordAt place staleZero.mem 0 = 0x00400013 := by decide +kernel
  rw [ran, Option.map_some, read, first] at loaded
  exact absurd (Option.some.inj loaded) (by decide)

end Cycle

end Hellfire.RiscvSim

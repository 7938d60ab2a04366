import Mathlib.Logic.Function.Basic
import Mathlib.Tactic.IntervalCases

/-!
The integer instructions of RV32I: their encodings, and their meaning on a machine
with 32 registers, the first of which is zero, and bytes that may be mapped in any way.
-/

namespace Rv32i

abbrev Word := BitVec 32
abbrev Reg := BitVec 5

@[ext]
structure Machine (κ : Type) where
  x : Reg → Word
  zero : x 0 = 0
  pc : Word
  mem : κ → BitVec 8

inductive Branch where
  | beq | bne | blt | bge | bltu | bgeu
  deriving DecidableEq, Repr

inductive Load where
  | lb | lh | lw | lbu | lhu
  deriving DecidableEq, Repr

inductive Store where
  | sb | sh | sw
  deriving DecidableEq, Repr

inductive Immediate where
  | addi | slti | sltiu | xori | ori | andi
  deriving DecidableEq, Repr

inductive Shift where
  | sll | srl | sra
  deriving DecidableEq, Repr

inductive Arith where
  | add | sub | slt | sltu | xor | or | and
  deriving DecidableEq, Repr

inductive Instr where
  | lui (rd : Reg) (imm : BitVec 20)
  | auipc (rd : Reg) (imm : BitVec 20)
  | jal (rd : Reg) (offset : BitVec 20)
  | jalr (rd rs1 : Reg) (imm : BitVec 12)
  | branch (condition : Branch) (rs1 rs2 : Reg) (offset : BitVec 12)
  | load (kind : Load) (rd rs1 : Reg) (imm : BitVec 12)
  | store (kind : Store) (rs1 rs2 : Reg) (imm : BitVec 12)
  | immediate (operation : Immediate) (rd rs1 : Reg) (imm : BitVec 12)
  | shiftImmediate (kind : Shift) (rd rs1 : Reg) (shamt : BitVec 5)
  | shift (kind : Shift) (rd rs1 rs2 : Reg)
  | arith (operation : Arith) (rd rs1 rs2 : Reg)
  deriving DecidableEq, Repr

section Encoding

def rType (funct7 : BitVec 7) (rs2 rs1 : Reg) (funct3 : BitVec 3) (rd : Reg)
    (opcode : BitVec 7) : Word :=
  funct7 ++ rs2 ++ rs1 ++ funct3 ++ rd ++ opcode

def iType (imm : BitVec 12) (rs1 : Reg) (funct3 : BitVec 3) (rd : Reg) (opcode : BitVec 7) : Word :=
  imm ++ rs1 ++ funct3 ++ rd ++ opcode

def sType (imm : BitVec 12) (rs2 rs1 : Reg) (funct3 : BitVec 3) (opcode : BitVec 7) : Word :=
  imm.extractLsb' 5 7 ++ rs2 ++ rs1 ++ funct3 ++ imm.extractLsb' 0 5 ++ opcode

def bType (offset : BitVec 12) (rs2 rs1 : Reg) (funct3 : BitVec 3) (opcode : BitVec 7) : Word :=
  offset.extractLsb' 11 1 ++ offset.extractLsb' 4 6 ++ rs2 ++ rs1 ++ funct3 ++
    offset.extractLsb' 0 4 ++ offset.extractLsb' 10 1 ++ opcode

def uType (imm : BitVec 20) (rd : Reg) (opcode : BitVec 7) : Word :=
  imm ++ rd ++ opcode

def jType (offset : BitVec 20) (rd : Reg) (opcode : BitVec 7) : Word :=
  offset.extractLsb' 19 1 ++ offset.extractLsb' 0 10 ++ offset.extractLsb' 10 1 ++
    offset.extractLsb' 11 8 ++ rd ++ opcode

def Branch.funct3 : Branch → BitVec 3
  | .beq => 0
  | .bne => 1
  | .blt => 4
  | .bge => 5
  | .bltu => 6
  | .bgeu => 7

def Load.funct3 : Load → BitVec 3
  | .lb => 0
  | .lh => 1
  | .lw => 2
  | .lbu => 4
  | .lhu => 5

def Store.funct3 : Store → BitVec 3
  | .sb => 0
  | .sh => 1
  | .sw => 2

def Immediate.funct3 : Immediate → BitVec 3
  | .addi => 0
  | .slti => 2
  | .sltiu => 3
  | .xori => 4
  | .ori => 6
  | .andi => 7

def Shift.funct3 : Shift → BitVec 3
  | .sll => 1
  | .srl | .sra => 5

def Shift.funct7 : Shift → BitVec 7
  | .sll | .srl => 0
  | .sra => 0x20

def Arith.funct3 : Arith → BitVec 3
  | .add | .sub => 0
  | .slt => 2
  | .sltu => 3
  | .xor => 4
  | .or => 6
  | .and => 7

def Arith.funct7 : Arith → BitVec 7
  | .sub => 0x20
  | _ => 0

def Instr.encode : Instr → Word
  | .lui rd imm => uType imm rd 0x37
  | .auipc rd imm => uType imm rd 0x17
  | .jal rd offset => jType offset rd 0x6f
  | .jalr rd rs1 imm => iType imm rs1 0 rd 0x67
  | .branch condition rs1 rs2 offset => bType offset rs2 rs1 condition.funct3 0x63
  | .load kind rd rs1 imm => iType imm rs1 kind.funct3 rd 0x03
  | .store kind rs1 rs2 imm => sType imm rs2 rs1 kind.funct3 0x23
  | .immediate operation rd rs1 imm => iType imm rs1 operation.funct3 rd 0x13
  | .shiftImmediate kind rd rs1 shamt => rType kind.funct7 shamt rs1 kind.funct3 rd 0x13
  | .shift kind rd rs1 rs2 => rType kind.funct7 rs2 rs1 kind.funct3 rd 0x33
  | .arith operation rd rs1 rs2 => rType operation.funct7 rs2 rs1 operation.funct3 rd 0x33

end Encoding

section Fields

theorem field_above {v w len start : Nat} {high : BitVec v} {low : BitVec w} {value : BitVec len}
    (place : Nat) (above : start = w + place) (rest : high.extractLsb' place len = value) :
    (high ++ low).extractLsb' start len = value := by
  rw [BitVec.extractLsb'_append_eq_of_le (by omega), show start - w = place by omega, rest]

theorem field_last {v w : Nat} {high : BitVec v} {low : BitVec w} :
    (high ++ low).extractLsb' 0 w = low := BitVec.extractLsb'_append_eq_right

variable (funct7 : BitVec 7) (rs2 rs1 rd : Reg) (funct3 : BitVec 3) (opcode : BitVec 7)
variable (imm offset : BitVec 12) (upper target : BitVec 20)

@[simp]
theorem rType_opcode : (rType funct7 rs2 rs1 funct3 rd opcode).extractLsb' 0 7 = opcode :=
  field_last

@[simp]
theorem rType_rd : (rType funct7 rs2 rs1 funct3 rd opcode).extractLsb' 7 5 = rd :=
  field_above 0 rfl field_last

@[simp]
theorem rType_funct3 : (rType funct7 rs2 rs1 funct3 rd opcode).extractLsb' 12 3 = funct3 :=
  field_above 5 rfl (field_above 0 rfl field_last)

@[simp]
theorem rType_rs1 : (rType funct7 rs2 rs1 funct3 rd opcode).extractLsb' 15 5 = rs1 :=
  field_above 8 rfl (field_above 3 rfl (field_above 0 rfl field_last))

@[simp]
theorem rType_rs2 : (rType funct7 rs2 rs1 funct3 rd opcode).extractLsb' 20 5 = rs2 :=
  field_above 13 rfl (field_above 8 rfl (field_above 5 rfl (field_above 0 rfl field_last)))

@[simp]
theorem rType_funct7 : (rType funct7 rs2 rs1 funct3 rd opcode).extractLsb' 25 7 = funct7 :=
  field_above 18 rfl (field_above 13 rfl (field_above 10 rfl (field_above 5 rfl
    BitVec.extractLsb'_append_eq_left)))

@[simp]
theorem iType_opcode : (iType imm rs1 funct3 rd opcode).extractLsb' 0 7 = opcode := field_last

@[simp]
theorem iType_rd : (iType imm rs1 funct3 rd opcode).extractLsb' 7 5 = rd :=
  field_above 0 rfl field_last

@[simp]
theorem iType_funct3 : (iType imm rs1 funct3 rd opcode).extractLsb' 12 3 = funct3 :=
  field_above 5 rfl (field_above 0 rfl field_last)

@[simp]
theorem iType_rs1 : (iType imm rs1 funct3 rd opcode).extractLsb' 15 5 = rs1 :=
  field_above 8 rfl (field_above 3 rfl (field_above 0 rfl field_last))

@[simp]
theorem iType_imm : (iType imm rs1 funct3 rd opcode).extractLsb' 20 12 = imm :=
  field_above 13 rfl (field_above 8 rfl (field_above 5 rfl BitVec.extractLsb'_append_eq_left))

@[simp]
theorem sType_opcode : (sType imm rs2 rs1 funct3 opcode).extractLsb' 0 7 = opcode := field_last

@[simp]
theorem sType_funct3 : (sType imm rs2 rs1 funct3 opcode).extractLsb' 12 3 = funct3 :=
  field_above 5 rfl (field_above 0 rfl field_last)

@[simp]
theorem sType_rs1 : (sType imm rs2 rs1 funct3 opcode).extractLsb' 15 5 = rs1 :=
  field_above 8 rfl (field_above 3 rfl (field_above 0 rfl field_last))

@[simp]
theorem sType_rs2 : (sType imm rs2 rs1 funct3 opcode).extractLsb' 20 5 = rs2 :=
  field_above 13 rfl (field_above 8 rfl (field_above 5 rfl (field_above 0 rfl field_last)))

@[simp]
theorem sType_imm : (sType imm rs2 rs1 funct3 opcode).extractLsb' 25 7 ++
    (sType imm rs2 rs1 funct3 opcode).extractLsb' 7 5 = imm := by
  have high : (sType imm rs2 rs1 funct3 opcode).extractLsb' 25 7 = imm.extractLsb' 5 7 :=
    field_above 18 rfl (field_above 13 rfl (field_above 10 rfl (field_above 5 rfl
      BitVec.extractLsb'_append_eq_left)))
  have low : (sType imm rs2 rs1 funct3 opcode).extractLsb' 7 5 = imm.extractLsb' 0 5 :=
    field_above 0 rfl field_last
  rw [high, low]
  apply BitVec.eq_of_getLsbD_eq
  intro i bound
  rw [BitVec.getLsbD_append, BitVec.getLsbD_extractLsb', BitVec.getLsbD_extractLsb']
  by_cases below : i < 5
  · simp [below]
  · simp [below, show i - 5 < 7 by omega, show 5 + (i - 5) = i by omega]

@[simp]
theorem bType_opcode : (bType offset rs2 rs1 funct3 opcode).extractLsb' 0 7 = opcode := field_last

@[simp]
theorem bType_funct3 : (bType offset rs2 rs1 funct3 opcode).extractLsb' 12 3 = funct3 :=
  field_above 5 rfl (field_above 4 rfl (field_above 0 rfl field_last))

@[simp]
theorem bType_rs1 : (bType offset rs2 rs1 funct3 opcode).extractLsb' 15 5 = rs1 :=
  field_above 8 rfl (field_above 7 rfl (field_above 3 rfl (field_above 0 rfl field_last)))

@[simp]
theorem bType_rs2 : (bType offset rs2 rs1 funct3 opcode).extractLsb' 20 5 = rs2 :=
  field_above 13 rfl (field_above 12 rfl (field_above 8 rfl (field_above 5 rfl
    (field_above 0 rfl field_last))))

@[simp]
theorem bType_offset : (bType offset rs2 rs1 funct3 opcode).extractLsb' 31 1 ++
    (bType offset rs2 rs1 funct3 opcode).extractLsb' 7 1 ++
    (bType offset rs2 rs1 funct3 opcode).extractLsb' 25 6 ++
    (bType offset rs2 rs1 funct3 opcode).extractLsb' 8 4 = offset := by
  have sign : (bType offset rs2 rs1 funct3 opcode).extractLsb' 31 1 = offset.extractLsb' 11 1 :=
    field_above 24 rfl (field_above 23 rfl (field_above 19 rfl (field_above 16 rfl
      (field_above 11 rfl (field_above 6 rfl BitVec.extractLsb'_append_eq_left)))))
  have eleventh : (bType offset rs2 rs1 funct3 opcode).extractLsb' 7 1 = offset.extractLsb' 10 1 :=
    field_above 0 rfl field_last
  have high : (bType offset rs2 rs1 funct3 opcode).extractLsb' 25 6 = offset.extractLsb' 4 6 :=
    field_above 18 rfl (field_above 17 rfl (field_above 13 rfl (field_above 10 rfl
      (field_above 5 rfl (field_above 0 rfl field_last)))))
  have low : (bType offset rs2 rs1 funct3 opcode).extractLsb' 8 4 = offset.extractLsb' 0 4 :=
    field_above 1 rfl (field_above 0 rfl field_last)
  rw [sign, eleventh, high, low]
  apply BitVec.eq_of_getLsbD_eq
  intro i bound
  simp only [BitVec.getLsbD_append, BitVec.getLsbD_extractLsb']
  interval_cases i <;> simp

@[simp]
theorem uType_opcode : (uType upper rd opcode).extractLsb' 0 7 = opcode := field_last

@[simp]
theorem uType_rd : (uType upper rd opcode).extractLsb' 7 5 = rd := field_above 0 rfl field_last

@[simp]
theorem uType_imm : (uType upper rd opcode).extractLsb' 12 20 = upper :=
  field_above 5 rfl BitVec.extractLsb'_append_eq_left

@[simp]
theorem jType_opcode : (jType target rd opcode).extractLsb' 0 7 = opcode := field_last

@[simp]
theorem jType_rd : (jType target rd opcode).extractLsb' 7 5 = rd := field_above 0 rfl field_last

@[simp]
theorem jType_offset : (jType target rd opcode).extractLsb' 31 1 ++
    (jType target rd opcode).extractLsb' 12 8 ++ (jType target rd opcode).extractLsb' 20 1 ++
    (jType target rd opcode).extractLsb' 21 10 = target := by
  have sign : (jType target rd opcode).extractLsb' 31 1 = target.extractLsb' 19 1 :=
    field_above 24 rfl (field_above 19 rfl (field_above 11 rfl (field_above 10 rfl
      BitVec.extractLsb'_append_eq_left)))
  have middle : (jType target rd opcode).extractLsb' 12 8 = target.extractLsb' 11 8 :=
    field_above 5 rfl (field_above 0 rfl field_last)
  have eleventh : (jType target rd opcode).extractLsb' 20 1 = target.extractLsb' 10 1 :=
    field_above 13 rfl (field_above 8 rfl (field_above 0 rfl field_last))
  have low : (jType target rd opcode).extractLsb' 21 10 = target.extractLsb' 0 10 :=
    field_above 14 rfl (field_above 9 rfl (field_above 1 rfl (field_above 0 rfl field_last)))
  rw [sign, middle, eleventh, low]
  apply BitVec.eq_of_getLsbD_eq
  intro i bound
  simp only [BitVec.getLsbD_append, BitVec.getLsbD_extractLsb']
  interval_cases i <;> simp

end Fields

section Meaning

def Branch.holds : Branch → Word → Word → Bool
  | .beq, a, b => a == b
  | .bne, a, b => a != b
  | .blt, a, b => a.slt b
  | .bge, a, b => b.sle a
  | .bltu, a, b => a.ult b
  | .bgeu, a, b => b.ule a

def flag (condition : Bool) : Word := if condition then 1 else 0

def Immediate.apply : Immediate → Word → Word → Word
  | .addi, a, b => a + b
  | .slti, a, b => flag (a.slt b)
  | .sltiu, a, b => flag (a.ult b)
  | .xori, a, b => a ^^^ b
  | .ori, a, b => a ||| b
  | .andi, a, b => a &&& b

def Shift.apply : Shift → Word → Nat → Word
  | .sll, a, amount => a <<< amount
  | .srl, a, amount => a >>> amount
  | .sra, a, amount => a.sshiftRight amount

def Arith.apply : Arith → Word → Word → Word
  | .add, a, b => a + b
  | .sub, a, b => a - b
  | .slt, a, b => flag (a.slt b)
  | .sltu, a, b => flag (a.ult b)
  | .xor, a, b => a ^^^ b
  | .or, a, b => a ||| b
  | .and, a, b => a &&& b

def Load.size : Load → Nat
  | .lb | .lbu => 1
  | .lh | .lhu => 2
  | .lw => 4

def Store.size : Store → Nat
  | .sb => 1
  | .sh => 2
  | .sw => 4

variable {κ : Type} (place : Word → κ)

def halfAt (mem : κ → BitVec 8) (address : Word) : BitVec 16 :=
  mem (place (address + 1)) ++ mem (place address)

def wordAt (mem : κ → BitVec 8) (address : Word) : Word :=
  mem (place (address + 3)) ++ mem (place (address + 2)) ++ halfAt place mem address

def Load.value (mem : κ → BitVec 8) (address : Word) : Load → Word
  | .lb => (mem (place address)).signExtend 32
  | .lh => (halfAt place mem address).signExtend 32
  | .lw => wordAt place mem address
  | .lbu => (mem (place address)).setWidth 32
  | .lhu => (halfAt place mem address).setWidth 32

def writeBytes [DecidableEq κ] (mem : κ → BitVec 8) (address value : Word) : Nat → κ → BitVec 8
  | 0 => mem
  | count + 1 => Function.update (writeBytes mem address value count)
      (place (address + BitVec.ofNat 32 count)) (value.extractLsb' (8 * count) 8)

namespace Machine

variable (machine : Machine κ)

def set (rd : Reg) (value : Word) : Machine κ :=
  { machine with
    x := fun k => if k = rd ∧ rd ≠ 0 then value else machine.x k
    zero := by
      rw [if_neg fun both => both.2 both.1.symm]
      exact machine.zero }

def next : Machine κ := { machine with pc := machine.pc + 4 }

@[simp] theorem set_pc (rd : Reg) (value : Word) : (machine.set rd value).pc = machine.pc := rfl

@[simp] theorem set_mem (rd : Reg) (value : Word) : (machine.set rd value).mem = machine.mem := rfl

theorem set_x (rd : Reg) (value : Word) (k : Reg) :
    (machine.set rd value).x k = if k = rd ∧ rd ≠ 0 then value else machine.x k := rfl

@[simp] theorem next_x : machine.next.x = machine.x := rfl

@[simp] theorem next_pc : machine.next.pc = machine.pc + 4 := rfl

@[simp] theorem next_mem : machine.next.mem = machine.mem := rfl

def jump (target : Word) : Option (Machine κ) :=
  if target.toNat % 4 = 0 then some { machine with pc := target } else none

end Machine

/-- What an instruction does, `none` being an exception for a misaligned address. -/
def Instr.exec [DecidableEq κ] (instr : Instr) (machine : Machine κ) : Option (Machine κ) :=
  match instr with
  | .lui rd imm => some (machine.set rd (imm ++ 0#12)).next
  | .auipc rd imm => some (machine.set rd (machine.pc + (imm ++ 0#12))).next
  | .jal rd offset =>
      (machine.set rd (machine.pc + 4)).jump (machine.pc + (offset ++ 0#1).signExtend 32)
  | .jalr rd rs1 imm =>
      (machine.set rd (machine.pc + 4)).jump ((machine.x rs1 + imm.signExtend 32) &&& ~~~1)
  | .branch condition rs1 rs2 offset =>
      if condition.holds (machine.x rs1) (machine.x rs2) then
        machine.jump (machine.pc + (offset ++ 0#1).signExtend 32)
      else some machine.next
  | .load kind rd rs1 imm =>
      let address := machine.x rs1 + imm.signExtend 32
      if address.toNat % kind.size = 0 then
        some (machine.set rd (kind.value place machine.mem address)).next
      else none
  | .store kind rs1 rs2 imm =>
      let address := machine.x rs1 + imm.signExtend 32
      if address.toNat % kind.size = 0 then
        some { machine with
          mem := writeBytes place machine.mem address (machine.x rs2) kind.size }.next
      else none
  | .immediate operation rd rs1 imm =>
      some (machine.set rd (operation.apply (machine.x rs1) (imm.signExtend 32))).next
  | .shiftImmediate kind rd rs1 shamt =>
      some (machine.set rd (kind.apply (machine.x rs1) shamt.toNat)).next
  | .shift kind rd rs1 rs2 =>
      some (machine.set rd (kind.apply (machine.x rs1) ((machine.x rs2).toNat % 32))).next
  | .arith operation rd rs1 rs2 =>
      some (machine.set rd (operation.apply (machine.x rs1) (machine.x rs2))).next

def Instr.dataAddress (machine : Machine κ) : Instr → Option Word
  | .load _ _ rs1 imm | .store _ rs1 _ imm => some (machine.x rs1 + imm.signExtend 32)
  | _ => none

def Machine.Fetches (machine : Machine κ) (instr : Instr) : Prop :=
  machine.pc.toNat % 4 = 0 ∧ wordAt place machine.mem machine.pc = instr.encode

end Meaning

end Rv32i

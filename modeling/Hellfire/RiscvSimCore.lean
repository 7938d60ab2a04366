import Hellfire.Library.Rv32i

/-!
The RISC-V simulator of usr/sim/hf_riscv_sim. `none` is an exit of the program. The host is a
little-endian machine whose arithmetic wraps around.
-/

namespace Hellfire.RiscvSim

open Rv32i (Word Reg)

def memSize : Nat := 0x00100000
def sramBase : Word := 0x40000000
def exitTrap : Word := 0xe0000000
def irqVector : Word := 0xf0000000
def irqCause : Word := 0xf0000010
def irqMask : Word := 0xf0000020
def irqStatus : Word := 0xf0000030
def irqEpc : Word := 0xf0000040
def counterReg : Word := 0xf0000050
def compareReg : Word := 0xf0000060
def compare2Reg : Word := 0xf0000070
def debugAddr : Word := 0xf00000d0
def uartWrite : Word := 0xf00000e0
def uartRead : Word := 0xf00000e0
def uartDivisor : Word := 0xf00000f0

/-- What the C program leaves to its host: shifts by 32 or more, and the bytes after the array. -/
structure Host where
  shiftLeftBeyond : Word → Word → Word
  shiftRightBeyond : Word → Word → Word
  arithmeticShiftRightBeyond : Word → Word → Word
  after : Nat → BitVec 8

namespace Host

variable (host : Host)

def shiftLeft (a n : Word) : Word :=
  if n.toNat < 32 then a <<< n.toNat else host.shiftLeftBeyond a n

def shiftRight (a n : Word) : Word :=
  if n.toNat < 32 then a >>> n.toNat else host.shiftRightBeyond a n

def arithmeticShiftRight (a n : Word) : Word :=
  if n.toNat < 32 then a.sshiftRight n.toNat else host.arithmeticShiftRightBeyond a n

end Host

structure State where
  r : Reg → Word
  pc : Word
  pcNext : Word
  mem : Fin memSize → BitVec 8
  vector : Word
  cause : Word
  mask : Word
  status : Word
  statusDly : Fin 4 → Word
  epc : Word
  counter : Word
  compare : Word
  compare2 : Word
  cycles : BitVec 64
  input : List (BitVec 8)
  output : List (BitVec 8)
  logEnabled : Bool
  log : List (BitVec 8)

namespace State

variable (s : State)

def reg (index : Word) : Word := s.r (index.setWidth 5)

def setReg (index value : Word) : State :=
  { s with r := Function.update s.r (index.setWidth 5) value }

def byteAt (host : Host) (place : Nat) : BitVec 8 :=
  if inside : place < memSize then s.mem ⟨place, inside⟩ else host.after place

/-- A read through a pointer into the array, least significant byte first. -/
def halfAt (host : Host) (place : Nat) : BitVec 16 :=
  s.byteAt host (place + 1) ++ s.byteAt host place

def wordAt (host : Host) (place : Nat) : Word :=
  s.byteAt host (place + 3) ++ s.byteAt host (place + 2) ++ s.halfAt host place

/-- A write through a pointer; every caller checked that it stays in the array. -/
def store (place size : Nat) (value : Word) : State :=
  { s with
    mem := fun i =>
      if place ≤ i.val ∧ i.val < place + size then value.extractLsb' (8 * (i.val - place)) 8
      else s.mem i }

def clearStatus : State := { s with status := 0, statusDly := fun _ => 0 }

end State

def memFetch (host : Host) (s : State) (address : Word) : Word :=
  s.wordAt host (address.toNat % memSize)

def getchar (s : State) : Word × State :=
  match s.input with
  | [] => (0xffffffff, s)
  | byte :: rest => (byte.setWidth 32, { s with input := rest })

def readArray (host : Host) (s : State) (size : Nat) (address : Word) : Option Word :=
  let ptr := address.toNat % memSize
  match size with
  | 4 => if address &&& 3 ≠ 0 then none else some (s.wordAt host ptr)
  | 2 => if address &&& 1 ≠ 0 then none else some ((s.halfAt host ptr).signExtend 32)
  | 1 => some ((s.byteAt host ptr).signExtend 32)
  | _ => some 0

def memRead (host : Host) (s : State) (size : Nat) (address : Word) : Option (Word × State) :=
  if address = irqVector then some (s.vector, s)
  else if address = irqCause then some (s.cause ||| 0x0080 ||| 0x0040, s)
  else if address = irqMask then some (s.mask, s)
  else if address = irqStatus then some (s.status, s)
  else if address = irqEpc then some (s.epc, s)
  else if address = counterReg then some (s.counter, s)
  else if address = compareReg then some (s.compare, s)
  else if address = compare2Reg then some (s.compare2, s)
  else if address = uartRead then some (getchar s)
  else if address = uartDivisor then some (0, s)
  else (readArray host s size address).map fun value => (value, s)

def writeArray (s : State) (size : Nat) (address value : Word) : Option State :=
  let ptr := address.toNat % memSize
  match size with
  | 4 => if address &&& 3 ≠ 0 then none else some (s.store ptr 4 value)
  | 2 => if address &&& 1 ≠ 0 then none else some (s.store ptr 2 value)
  | 1 => some (s.store ptr 1 value)
  | _ => some s

def memWrite (s : State) (size : Nat) (address value : Word) : Option State :=
  if address = irqVector then some { s with vector := value }
  else if address = irqCause then some { s with cause := value }
  else if address = irqMask then some { s with mask := value }
  else if address = irqStatus then
    if value = 0 then some s.clearStatus
    else some { s with statusDly := Function.update s.statusDly 3 value }
  else if address = irqEpc then some { s with epc := value }
  else if address = counterReg then some { s with counter := value }
  else if address = compareReg then
    some { s with compare := value, cause := s.cause &&& 0xffef }
  else if address = compare2Reg then
    some { s with compare2 := value, cause := s.cause &&& 0xffdf }
  else if address = exitTrap then none
  else if address = debugAddr then
    some (if s.logEnabled then { s with log := s.log ++ [value.setWidth 8] } else s)
  else if address = uartWrite then some { s with output := s.output ++ [value.setWidth 8] }
  else if address = uartDivisor then some s
  else writeArray s size address value

structure Fields where
  opcode : Word
  rd : Word
  rs1 : Word
  rs2 : Word
  funct3 : Word
  funct7 : Word
  immI : Word
  immS : Word
  immSb : Word
  immU : Word
  immUj : Word

def decode (inst : Word) : Fields :=
  let negative := inst &&& 0x80000000 ≠ 0
  let immI := (inst &&& 0xfff00000) >>> 20
  let immS := ((inst &&& 0xf80) >>> 7) ||| ((inst &&& 0xfe000000) >>> 20)
  let immSb := ((inst &&& 0xf00) >>> 7) ||| ((inst &&& 0x7e000000) >>> 20) |||
    ((inst &&& 0x80) <<< 4) ||| ((inst &&& 0x80000000) >>> 19)
  let immUj := ((inst &&& 0x7fe00000) >>> 20) ||| ((inst &&& 0x100000) >>> 9) |||
    (inst &&& 0xff000) ||| ((inst &&& 0x80000000) >>> 11)
  { opcode := inst &&& 0x7f
    rd := (inst >>> 7) &&& 0x1f
    rs1 := (inst >>> 15) &&& 0x1f
    rs2 := (inst >>> 20) &&& 0x1f
    funct3 := (inst >>> 12) &&& 0x7
    funct7 := (inst >>> 25) &&& 0x7f
    immI := if negative then immI ||| 0xfffff000 else immI
    immS := if negative then immS ||| 0xfffff000 else immS
    immSb := if negative then immSb ||| 0xffffe000 else immSb
    immU := inst &&& 0xfffff000
    immUj := if negative then immUj ||| 0xffe00000 else immUj }

section Switch

variable (host : Host) (d : Fields) (s : State)

def branch : Option State :=
  let a := s.reg d.rs1
  let b := s.reg d.rs2
  let go (condition : Bool) : Option State :=
    some (if condition then { s with pcNext := s.pc + d.immSb } else s)
  if d.funct3 = 0x0 then go (a == b)
  else if d.funct3 = 0x1 then go (a != b)
  else if d.funct3 = 0x4 then go (a.slt b)
  else if d.funct3 = 0x5 then go (b.sle a)
  else if d.funct3 = 0x6 then go (a.ult b)
  else if d.funct3 = 0x7 then go (b.ule a)
  else none

def load (ptrL : Word) : Option State :=
  let go (size : Nat) (convert : Word → Word) : Option State :=
    (memRead host s size ptrL).map fun (value, s) => s.setReg d.rd (convert value)
  if d.funct3 = 0x0 then go 1 fun value => (value.setWidth 8).signExtend 32
  else if d.funct3 = 0x1 then go 2 fun value => (value.setWidth 16).signExtend 32
  else if d.funct3 = 0x2 then go 4 id
  else if d.funct3 = 0x4 then go 1 fun value => (value.setWidth 8).setWidth 32
  else if d.funct3 = 0x5 then go 2 fun value => (value.setWidth 16).setWidth 32
  else none

def store (ptrS : Word) : Option State :=
  if d.funct3 = 0x0 then memWrite s 1 ptrS (s.reg d.rs2)
  else if d.funct3 = 0x1 then memWrite s 2 ptrS (s.reg d.rs2)
  else if d.funct3 = 0x2 then memWrite s 4 ptrS (s.reg d.rs2)
  else none

def asInt (condition : Bool) : Word := if condition then 1 else 0

def registerImmediate : Option State :=
  let a := s.reg d.rs1
  let go (value : Word) : Option State := some (s.setReg d.rd value)
  if d.funct3 = 0x0 then go (a + d.immI)
  else if d.funct3 = 0x2 then go (asInt (a.slt d.immI))
  else if d.funct3 = 0x3 then go (asInt (a.ult d.immI))
  else if d.funct3 = 0x4 then go (a ^^^ d.immI)
  else if d.funct3 = 0x6 then go (a ||| d.immI)
  else if d.funct3 = 0x7 then go (a &&& d.immI)
  else if d.funct3 = 0x1 then go (host.shiftLeft a (d.rs2 &&& 0x3f))
  else if d.funct3 = 0x5 then
    if d.funct7 = 0x0 then go (host.shiftRight a (d.rs2 &&& 0x3f))
    else if d.funct7 = 0x20 then go (host.arithmeticShiftRight a (d.rs2 &&& 0x3f))
    else none
  else none

def registerRegister : Option State :=
  let a := s.reg d.rs1
  let b := s.reg d.rs2
  let go (value : Word) : Option State := some (s.setReg d.rd value)
  if d.funct3 = 0x0 then
    if d.funct7 = 0x0 then go (a + b)
    else if d.funct7 = 0x20 then go (a - b)
    else none
  else if d.funct3 = 0x1 then go (host.shiftLeft a b)
  else if d.funct3 = 0x2 then go (asInt (a.slt b))
  else if d.funct3 = 0x3 then go (asInt (a.ult b))
  else if d.funct3 = 0x4 then go (a ^^^ b)
  else if d.funct3 = 0x5 then
    if d.funct7 = 0x0 then go (host.shiftRight a b)
    else if d.funct7 = 0x20 then go (host.arithmeticShiftRight a b)
    else none
  else if d.funct3 = 0x6 then go (a ||| b)
  else if d.funct3 = 0x7 then go (a &&& b)
  else none

/-- `r[rd] = s->pc_next; s->pc_next = (r[rs1] + imm_i) & 0xfffffffe`, in this order. -/
def jumpRegister : State :=
  let s := s.setReg d.rd s.pcNext
  { s with pcNext := (s.reg d.rs1 + d.immI) &&& 0xfffffffe }

def execute (ptrL ptrS : Word) : Option State :=
  if d.opcode = 0x37 then some (s.setReg d.rd d.immU)
  else if d.opcode = 0x17 then some (s.setReg d.rd (s.pc + d.immU))
  else if d.opcode = 0x6f then some { s.setReg d.rd s.pcNext with pcNext := s.pc + d.immUj }
  else if d.opcode = 0x67 then some (jumpRegister d s)
  else if d.opcode = 0x63 then branch d s
  else if d.opcode = 0x3 then load host d s ptrL
  else if d.opcode = 0x23 then store d s ptrS
  else if d.opcode = 0x13 then registerImmediate host d s
  else if d.opcode = 0x33 then registerRegister host d s
  else none

end Switch

def State.pending (s : State) : Bool := s.status != 0 && (s.cause &&& s.mask) != 0

def enterInterrupt (s : State) : State :=
  { s with epc := s.pcNext, pc := s.vector, pcNext := s.vector + 4 }.clearStatus

def updateCause (counter compare compare2 cause : Word) : Word :=
  let cause := if compare2 &&& 0xffffff = counter &&& 0xffffff then cause ||| 0x20 else cause
  let cause := if compare = counter then cause ||| 0x10 else cause
  let cause := if counter &&& 0x10000 = 0 then cause ||| 0x8 else cause &&& 0xfff7
  let cause := if counter &&& 0x10000 ≠ 0 then cause ||| 0x4 else cause &&& 0xfffb
  let cause := if counter &&& 0x40000 = 0 then cause ||| 0x2 else cause &&& 0xfffd
  if counter &&& 0x40000 ≠ 0 then cause ||| 0x1 else cause &&& 0xfffe

def advance (s : State) : State :=
  { s with
    pc := s.pcNext
    pcNext := s.pcNext + 4
    status := s.statusDly 0
    statusDly := fun i => if i < 3 then s.statusDly (i + 1) else s.statusDly i
    cycles := s.cycles + 1
    counter := s.counter + 1
    cause := updateCause (s.counter + 1) s.compare s.compare2 s.cause }

def cycle (host : Host) (s : State) : Option State :=
  let s := if s.pending then enterInterrupt s else s
  let d := decode (memFetch host s s.pc)
  -- the addresses are computed before the register zero is cleared
  let ptrL := s.reg d.rs1 + d.immI
  let ptrS := s.reg d.rs1 + d.immS
  (execute host d (s.setReg 0 0) ptrL ptrS).map advance

/-- The state that `main` prepares, with the bytes of the binary file and of the standard input. -/
def boot (image input : List (BitVec 8)) (logEnabled : Bool) : State where
  r := fun _ => 0
  pc := sramBase
  pcNext := sramBase + 4
  -- `memset` clears as many bytes as `MEM_SIZE` takes as an `int`
  mem := fun i => image.getD i.val (if i.val < 4 then 0xff else 0)
  vector := 0
  cause := 0
  mask := 0
  status := 0
  statusDly := fun _ => 0
  epc := 0
  counter := 0
  compare := 0
  compare2 := 0
  cycles := 0
  input := input
  output := []
  logEnabled := logEnabled
  log := []

inductive Reached (host : Host) : State → Prop
  | boot (image input : List (BitVec 8)) (logEnabled : Bool) :
      Reached host (boot image input logEnabled)
  | cycle {s s' : State} : Reached host s → cycle host s = some s' → Reached host s'

end Hellfire.RiscvSim

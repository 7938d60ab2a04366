import Hellfire.Library.ByteMemory
import Hellfire.SoftIntCore

/-!
Executable model of the routines of `lib/libc/libc.c` between numbers and text. A `long` is a 32-bit
word, and the integers wrap around.
-/

namespace Hellfire

open ByteMemory Loops

/-- The byte of a character constant. -/
def byteOf (char : Char) : UInt8 := UInt8.ofNat char.toNat

/-- A string constant, on its own. -/
def literal (string : String) : Memory := fun place => (string.toList.map byteOf).getD place 0

/-- A character as the `int` it is promoted to. -/
def promoted (byte : UInt8) : Word := byte.toBitVec.signExtend 32

def isdigit (c : Word) : Bool := (48 : Word).sle c && c.sle 57

section Itoa

structure ItoaState where
  memory : Memory
  ptr : Nat
  i : Word
  tmpValue : Word

def itoaTable : Memory := literal "zyxwvutsrqponmlkjihgfedcba9876543210123456789abcdefghijklmnopqrstuvwxyz"

def ItoaState.turn (base : Word) (state : ItoaState) : ItoaState :=
  let tmpValue := state.i
  let i := state.i.sdiv base
  { memory := writeByte state.memory state.ptr (itoaTable (35 + (tmpValue - i * base)).toNat)
    ptr := state.ptr + 1
    i
    tmpValue }

structure SwapState where
  memory : Memory
  ptr1 : Nat
  ptr : Nat

def SwapState.turn (state : SwapState) : SwapState :=
  let tmpChar := state.memory state.ptr
  let memory := writeByte state.memory state.ptr (state.memory state.ptr1)
  { memory := writeByte memory state.ptr1 tmpChar
    ptr1 := state.ptr1 + 1
    ptr := state.ptr - 1 }

def itoa (memory : Memory) (i : Word) (s : Nat) (base : Word) : Option Memory :=
  if base.slt 2 ∨ (36 : Word).slt base then some (writeByte memory s 0)
  else do
    -- Base two needs 32 digits at most.
    let state ← whileLoop (fun state => state.i ≠ 0) (ItoaState.turn base) 32
      (ItoaState.turn base ⟨memory, s, i, 0⟩)
    let (memory, ptr) :=
      if state.tmpValue.slt 0 then (writeByte state.memory state.ptr (byteOf '-'), state.ptr + 1)
      else (state.memory, state.ptr)
    let memory := writeByte memory ptr 0
    let state ← whileLoop (fun state => state.ptr1 < state.ptr) SwapState.turn 32 ⟨memory, s, ptr - 1⟩
    return state.memory

end Itoa

section Strtol

def strtolDigit (ch : Word) : Option Word :=
  if 48 ≤ ch ∧ ch ≤ 57 then some (ch - 48)
  else if 65 ≤ ch ∧ ch ≤ 90 then some (ch - 65 + 10)
  else if 97 ≤ ch ∧ ch ≤ 122 then some (ch - 97 + 10)
  else none

def strtolLoop (memory : Memory) (base : Word) : Nat → Nat → Word → Nat × Word
  | 0, s, value => (s, value)
  | turns + 1, s, value =>
      match strtolDigit (promoted (memory s)) with
      | some ch => strtolLoop memory base turns (s + 1) (value * base + ch)
      -- `s` has moved on before the character is looked at.
      | none => (s + 1, value)

/-- The value, and what `end` receives. -/
def strtol (memory : Memory) (s : Nat) (base : Word) : Word × Nat :=
  let (neg, s) := if memory s = byteOf '-' then (true, s + 1) else (false, s)
  let (base, s) :=
    if memory s = byteOf '0' ∧ memory (s + 1) = byteOf 'x' then (16, s + 2) else (base, s)
  -- The nine turns count the character that ends the number.
  let (s, value) := strtolLoop memory base 9 s 0
  (if neg then -value else value, s - 1)

end Strtol

section Atoi

structure AtoiState where
  s : Nat
  n : Word

def isBlank (c : UInt8) : Bool := c = byteOf ' ' ∨ c = byteOf '\t'

/-- `none` is a loop that goes on after `turns` turns. -/
def atoi (turns : Nat) (memory : Memory) (s : Nat) : Option Word := do
  -- The labels that go on; a sign falls out of the `switch`, and with it out of the loop.
  let s ← whileLoop (fun s => isBlank (memory s)) (· + 1) turns s
  let f := memory s = byteOf '-'
  let s := if memory s = byteOf '-' ∨ memory s = byteOf '+' then s + 1 else s
  let state ← whileLoop (fun state => isdigit (promoted (memory state.s)))
    (fun state => ⟨state.s + 1, state.n * 10 + promoted (memory state.s) - 48⟩) turns (AtoiState.mk s 0)
  return if f then -state.n else state.n

end Atoi

section Printing

structure Printer where
  memory : Memory
  buf : Option Nat
  console : List UInt8

def Printer.printchar (printer : Printer) (c : UInt8) : Printer :=
  match printer.buf with
  | some str => { printer with memory := writeByte printer.memory str c, buf := some (str + 1) }
  | none => if c ≠ 0 then { printer with console := printer.console ++ [c] } else printer

def divide (n base : Word) : Word × Word := (n % base, n / base)

structure TointState where
  s : Nat
  i : Word

def toint (turns : Nat) (fmt : Memory) (s : Nat) : Option TointState :=
  whileLoop (fun state => isdigit (promoted (fmt state.s)))
    (fun state => ⟨state.s + 1, state.i * 10 + promoted (fmt state.s) - 48⟩) turns ⟨s, 0⟩

/-- The arguments that are left. `none` is an argument that was not passed. -/
def vaArg : List Word → Option (Word × List Word)
  | [] => none
  | arg :: args => some (arg, args)

structure PadState where
  printer : Printer
  width : Word

def printPad (turns : Nat) (pad : UInt8) (state : PadState) : Option Printer := do
  let state ← whileLoop (fun state => (0 : Word).slt state.width)
    (fun state => ⟨state.printer.printchar pad, state.width - 1⟩) turns state
  return state.printer

structure StringState where
  printer : Printer
  str : Nat
  width : Word

def printString (turns : Nat) (constant : Option Memory) (pad : UInt8) (printer : Printer) (str : Nat)
    (width : Word) : Option Printer := do
  let read := fun (state : StringState) => constant.getD state.printer.memory state.str
  let state ← whileLoop (fun state => read state ≠ 0 ∧ state.width ≠ 0)
    (fun state => ⟨state.printer.printchar (read state), state.str + 1, state.width - 1⟩)
    turns ⟨printer, str, width⟩
  printPad turns pad ⟨state.printer, state.width⟩

structure DigitsState where
  num : Word
  tmp : Memory
  i : Nat

def digitsTable : Memory := literal "0123456789abcdef"

def DigitsState.turn (base : Word) (state : DigitsState) : DigitsState :=
  let (res, num) := divide state.num base
  { num, tmp := writeByte state.tmp state.i (digitsTable res.toNat), i := state.i + 1 }

structure OutState where
  printer : Printer
  i : Nat

def printNumber (turns : Nat) (pad : UInt8) (sign : Bool) (base : Word) (printer : Printer)
    (num width : Word) : Option Printer := do
  let (num, printer, width) :=
    if sign ∧ num.slt 0 then (-num, printer.printchar (byteOf '-'), width - 1) else (num, printer, width)
  let blank : Memory := fun _ => 0
  let digits ←
    if num = 0 then some ⟨num, writeByte blank 0 (byteOf '0'), 1⟩
    else whileLoop (fun state => state.num ≠ 0) (DigitsState.turn base) turns ⟨num, blank, 0⟩
  let printer ← printPad turns pad ⟨printer, width - BitVec.ofNat 32 digits.i⟩
  let state ← whileLoop (fun state => 0 < state.i)
    (fun state => ⟨state.printer.printchar (digits.tmp (state.i - 1)), state.i - 1⟩) turns
    (OutState.mk printer digits.i)
  return state.printer

structure FormatState where
  printer : Printer
  fmt : Nat
  args : List Word

def FormatState.turn (turns : Nat) (format : Memory) (state : FormatState) : Option FormatState := do
  if format state.fmt ≠ byteOf '%' then
    return { state with printer := state.printer.printchar (format state.fmt), fmt := state.fmt + 1 }
  let fmt := state.fmt + 1
  let (pad, fmt) := if format fmt = byteOf '0' then (byteOf '0', fmt + 1) else (byteOf ' ', fmt)
  -- A width that is not given is -1, which the padding takes for none.
  let ⟨fmt, width⟩ ←
    if isdigit (promoted (format fmt)) then toint turns format fmt else some ⟨fmt, -1⟩
  let fmt := if format fmt = byteOf 'l' then fmt + 1 else fmt
  let letter := format fmt
  if letter = byteOf 'c' then
    let (arg, args) ← vaArg state.args
    return ⟨state.printer.printchar (UInt8.ofNat arg.toNat), fmt + 1, args⟩
  else if letter = byteOf 's' then
    let (str, args) ← vaArg state.args
    let constant := if str = 0 then some (literal "<NULL>") else none
    let printer ← printString turns constant pad state.printer str.toNat width
    return ⟨printer, fmt + 1, args⟩
  else if letter = byteOf 'X' ∨ letter = byteOf 'x' ∨ letter = byteOf 'd' ∨ letter = byteOf 'u' then
    let base : Word := if letter = byteOf 'X' ∨ letter = byteOf 'x' then 16 else 10
    let (num, args) ← vaArg state.args
    let printer ← printNumber turns pad (letter = byteOf 'd') base state.printer num width
    return ⟨printer, fmt + 1, args⟩
  else return { state with fmt := fmt + 1 }

def vsprintfLoop (turns : Nat) (format : Memory) : Nat → FormatState → Option FormatState
  | 0, state => if format state.fmt ≠ 0 then none else some state
  | rest + 1, state =>
      if format state.fmt ≠ 0 then do
        let state ← state.turn turns format
        vsprintfLoop turns format rest state
      else some state

def vsprintf (turns : Nat) (printer : Printer) (format : Memory) (args : List Word) : Option Printer := do
  let state ← vsprintfLoop turns format turns ⟨printer, 0, args⟩
  return state.printer.printchar 0

def sprintf (turns : Nat) (memory : Memory) (out : Nat) (format : Memory) (args : List Word) :
    Option Memory := do
  let printer ← vsprintf turns ⟨memory, some out, []⟩ format args
  return printer.memory

end Printing

end Hellfire

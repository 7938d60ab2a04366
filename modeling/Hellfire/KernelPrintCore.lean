import Hellfire.TextCore

/-!
Executable model of `sys/lib/kprintf.c`: the kernel's own converter `kitoa`, with its static buffer,
and `kprint`.
-/

namespace Hellfire

open ByteMemory Loops

/-- An entry of the digit table. `none` is an index outside its 16 digits. -/
def kitoaDigit (index : Word) : Option UInt8 :=
  if index.toNat < 16 then some (digitsTable index.toNat) else none

/-- The two loops of `kitoa` differ in the signedness of `/` and `%`. They count `i` down, and
return the place before the last digit that was written. -/
def kitoaDigits (quotient remainder : Word → Word → Word) (base : Word) :
    Nat → Word → Memory → Option (Memory × Nat)
  | 0, _, buf => some (buf, 0)
  | i + 1, val, buf =>
      if val = 0 then some (buf, i + 1)
      else do
        let digit ← kitoaDigit (remainder val base)
        kitoaDigits quotient remainder base i (quotient val base) (writeByte buf (i + 1) digit)

/-- What `kitoa` returns a pointer to: its constant for zero, or a place in its buffer. -/
inductive KitoaText
  | zero
  | buffer (place : Nat)
deriving DecidableEq, Repr

def KitoaText.source (buf : Memory) : KitoaText → Memory
  | .zero => literal "0"
  | .buffer _ => buf

def KitoaText.place : KitoaText → Nat
  | .zero => 0
  | .buffer place => place

/-- The static buffer after the call, and the text. -/
def kitoa (buf : Memory) (val base : Word) : Option (Memory × KitoaText) :=
  if val = 0 then some (buf, .zero)
  else if base = 16 then do
    let (buf, i) ← kitoaDigits BitVec.udiv BitVec.umod base 30 val buf
    return (buf, .buffer (i + 1))
  else do
    let n := val.slt 0
    -- The negation overflows at the least value, and wraps around.
    let val := if n then -val else val
    let (buf, i) ← kitoaDigits BitVec.sdiv BitVec.srem base 30 val buf
    if n then return (writeByte buf i (byteOf '-'), .buffer i)
    else return (buf, .buffer (i + 1))

structure PutState where
  console : List UInt8
  s : Nat

/-- `while (*s) putchar(*s++)`. `none` is a loop that goes on after `turns` turns. -/
def putString (turns : Nat) (source : Memory) (s : Nat) (console : List UInt8) :
    Option (List UInt8) := do
  let state ← whileLoop (fun state => source state.s ≠ 0)
    (fun state => ⟨state.console ++ [source state.s], state.s + 1⟩) turns (PutState.mk console s)
  return state.console

structure KprintState where
  console : List UInt8
  buf : Memory
  fmt : Nat
  args : List Word

def KprintState.number (turns : Nat) (base : Word) (state : KprintState) : Option KprintState := do
  let (arg, args) ← vaArg state.args
  let (buf, text) ← kitoa state.buf arg base
  let console ← putString turns (text.source buf) text.place state.console
  return ⟨console, buf, state.fmt + 2, args⟩

/-- A turn of the loop over the format, which is a constant; strings are read from `memory`. -/
def KprintState.turn (turns : Nat) (memory format : Memory) (state : KprintState) :
    Option KprintState := do
  if format state.fmt ≠ byteOf '%' then
    return { state with console := state.console ++ [format state.fmt], fmt := state.fmt + 1 }
  let letter := format (state.fmt + 1)
  if letter = byteOf 'd' then state.number turns 10
  else if letter = byteOf 'x' then state.number turns 16
  else if letter = byteOf 'c' then
    let (arg, args) ← vaArg state.args
    return ⟨state.console ++ [UInt8.ofNat arg.toNat], state.buf, state.fmt + 2, args⟩
  else if letter = byteOf 's' then
    let (s, args) ← vaArg state.args
    let source := if s = 0 then literal "(null)" else memory
    let console ← putString turns source s.toNat state.console
    return ⟨console, state.buf, state.fmt + 2, args⟩
  else if letter = byteOf '%' then
    return { state with console := state.console ++ [byteOf '%'], fmt := state.fmt + 2 }
  else
    return { state with console := state.console ++ [byteOf '?'], fmt := state.fmt + 2 }

def kprintLoop (turns : Nat) (memory format : Memory) : Nat → KprintState → Option KprintState
  | 0, state => if format state.fmt ≠ 0 then none else some state
  | rest + 1, state =>
      if format state.fmt ≠ 0 then do
        let state ← state.turn turns memory format
        kprintLoop turns memory format rest state
      else some state

/-- The characters on the console, and the buffer of `kitoa` after the call. -/
def kprintf (turns : Nat) (memory buf format : Memory) (args : List Word) :
    Option (List UInt8 × Memory) := do
  let state ← kprintLoop turns memory format turns ⟨[], buf, 0, args⟩
  return (state.console, state.buf)

end Hellfire

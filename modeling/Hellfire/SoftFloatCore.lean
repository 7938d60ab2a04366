import Hellfire.SoftIntCore

/-!
Executable model of the comparisons and conversions of floating point numbers of `lib/libc/libc.c`.
A number is its bit pattern, as the unions `float_long` and `double_long` have it. A `long` is a
32-bit word.
-/

namespace Hellfire

open Loops

def signbit : Word := 0x80000000

def cmpsf2 (a1 a2 : Word) : Word :=
  let (fl1, fl2, i) :=
    if a1 &&& signbit ≠ 0 ∧ a2 &&& signbit ≠ 0 then (a1 ^^^ signbit, a2 ^^^ signbit, 1) else (a1, a2, 0)
  if i = 0 then
    if fl1.slt fl2 then -1 else if fl2.slt fl1 then 1 else 0
  else
    if fl2.slt fl1 then -1 else if fl1.slt fl2 then 1 else 0

def cmpdf2 (order : WordOrder) (a1 a2 : Dword) : Word :=
  let dl1 := Dwords.ofAll order a1
  let dl2 := Dwords.ofAll order a2
  let (upper1, upper2) :=
    if dl1.high order &&& signbit ≠ 0 ∧ dl2.high order &&& signbit ≠ 0 then
      (dl1.high order ^^^ signbit, dl2.high order ^^^ signbit)
    else (dl1.high order, dl2.high order)
  let lower1 := dl1.low order
  let lower2 := dl2.low order
  if upper1.slt upper2 then -1
  else if upper2.slt upper1 then 1
  else if lower1 < lower2 then -1
  else if lower2 < lower1 then 1
  else 0

/-- The body of `__fixsfsi`, which `__fixunssfsi` repeats. -/
def fixWord (a : Word) : Word :=
  let as := a >>> 31
  let ae := (a >>> 23) &&& 0xff
  let af := (0x00800000 ||| (a &&& 0x007fffff)) <<< 7
  let shift := -(ae - 0x80 - 29)
  let af :=
    if (0 : Word).slt shift then
      if shift.slt 31 then af.sshiftRight shift.toNat else 0
    else af
  if as ≠ 0 then -af else af

def fixsfsi (a : Word) : Word := fixWord a

def fixunssfsi (a : Word) : Word := fixWord a

structure FloatState where
  ae : Word
  af : Word

/-- A turn of the first loop, with the right shift of the type of `af`. -/
def FloatState.down (shift : Word → Nat → Word) (state : FloatState) : FloatState :=
  { ae := state.ae + 1, af := shift state.af 1 }

def FloatState.up (state : FloatState) : FloatState := { ae := state.ae - 1, af := state.af <<< 1 }

/-- From the first loop on. `none` is a loop that goes on after `turns` turns. -/
def floatWord (shift : Word → Nat → Word) (turns : Nat) (as af : Word) : Option Word := do
  let ae : Word := 0x80 + 22
  if af = 0 then return af
  let lowered ← whileLoop (fun state => state.af &&& 0xff000000 ≠ 0) (FloatState.down shift) turns ⟨ae, af⟩
  let raised ← whileLoop (fun state => state.af &&& 0xff800000 = 0) FloatState.up turns lowered
  return (as <<< 31) ||| (raised.ae <<< 23) ||| (raised.af &&& 0x007fffff)

def floatsisf (turns : Nat) (af : Word) : Option Word :=
  let as : Word := if (0 : Word).sle af then 0 else 1
  let af := if (0 : Word).sle af then af else -af
  floatWord BitVec.sshiftRight turns as af

/-- The tests for a sign are always passed here. -/
def floatunsisf (turns : Nat) (af : Word) : Option Word :=
  let as : Word := if 0 ≤ af then 0 else 1
  let af := if 0 ≤ af then af else -af
  floatWord (· >>> ·) turns as af

end Hellfire

import Hellfire.Library.Loops

/-!
Executable model of the integer routines of `lib/libc/libc.c` that stand in for instructions the
processor lacks. Words are 32-bit, and arithmetic wraps around as it does on the targets.
-/

namespace Hellfire

open Loops

abbrev Word := BitVec 32

abbrev Dword := BitVec 64

inductive WordOrder where
  | littleEndian
  | bigEndian
  deriving DecidableEq

structure Dwords where
  first : Word
  second : Word
  deriving DecidableEq

namespace Dwords

variable (order : WordOrder)

def ofAll (all : Dword) : Dwords :=
  match order with
  | .littleEndian => ⟨all.setWidth 32, (all >>> 32).setWidth 32⟩
  | .bigEndian => ⟨(all >>> 32).setWidth 32, all.setWidth 32⟩

def ofWords (low high : Word) : Dwords :=
  match order with
  | .littleEndian => ⟨low, high⟩
  | .bigEndian => ⟨high, low⟩

def low (dwords : Dwords) : Word :=
  match order with
  | .littleEndian => dwords.first
  | .bigEndian => dwords.second

def high (dwords : Dwords) : Word :=
  match order with
  | .littleEndian => dwords.second
  | .bigEndian => dwords.first

def all (dwords : Dwords) : Dword :=
  match order with
  | .littleEndian => dwords.second ++ dwords.first
  | .bigEndian => dwords.first ++ dwords.second

end Dwords

structure MulState where
  answer : Word
  a : Word
  b : Word

def MulState.turn (state : MulState) : MulState :=
  { answer := if state.b &&& 1 ≠ 0 then state.answer + state.a else state.answer
    a := state.a <<< 1
    b := state.b >>> 1 }

def mulsi3 (a b : Word) : Option Word := do
  let final ← whileLoop (fun state => state.b ≠ 0) MulState.turn 32 ⟨0, a, b⟩
  return final.answer

def bitsInWord2 : Nat := 32 / 2

def lowerMask : Word := ~~~(0 : Word) >>> bitsInWord2

def muldsi3 (order : WordOrder) (a b : Word) : Dword :=
  let low := (a &&& lowerMask) * (b &&& lowerMask)
  let t := low >>> bitsInWord2
  let low := low &&& lowerMask
  let t := t + (a >>> bitsInWord2) * (b &&& lowerMask)
  let low := low + ((t &&& lowerMask) <<< bitsInWord2)
  let high := t >>> bitsInWord2
  let t := low >>> bitsInWord2
  let low := low &&& lowerMask
  let t := t + (b >>> bitsInWord2) * (a &&& lowerMask)
  let low := low + ((t &&& lowerMask) <<< bitsInWord2)
  let high := high + (t >>> bitsInWord2)
  let high := high + (a >>> bitsInWord2) * (b >>> bitsInWord2)
  (Dwords.ofWords order low high).all order

def muldi3 (order : WordOrder) (a b : Dword) : Option Dword := do
  let x := Dwords.ofAll order a
  let y := Dwords.ofAll order b
  let r := Dwords.ofAll order (muldsi3 order (x.low order) (y.low order))
  let left ← mulsi3 (x.high order) (y.low order)
  let right ← mulsi3 (x.low order) (y.high order)
  return (Dwords.ofWords order (r.low order) (r.high order + (left + right))).all order

/-- What a shift of a word by 32 places or more gives, which the language leaves open. -/
inductive WideShift where
  | zeroed
  | masked
  deriving DecidableEq

def WideShift.shift (wide : WideShift) (op : Word → Nat → Word) (x count : Word) : Word :=
  match wide with
  | .zeroed => if count.toNat < 32 then op x count.toNat else 0
  | .masked => op x (count.toNat % 32)

section Shifts

variable (order : WordOrder) (wide : WideShift)

def ashldi3 (u : Dword) (b : Word) : Dword :=
  if b = 0 then u
  else
    let uu := Dwords.ofAll order u
    let bm := 32 - b
    let w :=
      if bm ≤ 0 then Dwords.ofWords order 0 (wide.shift (· <<< ·) (uu.low order) (-bm))
      else
        let carries := wide.shift (· >>> ·) (uu.low order) bm
        Dwords.ofWords order (wide.shift (· <<< ·) (uu.low order) b)
          (wide.shift (· <<< ·) (uu.high order) b ||| carries)
    w.all order

def ashrdi3 (u : Dword) (b : Word) : Dword :=
  if b = 0 then u
  else
    let uu := Dwords.ofAll order u
    let bm := 32 - b
    let w :=
      if bm ≤ 0 then
        -- the low word, where `__lshrdi3` takes the high one
        Dwords.ofWords order (wide.shift (· >>> ·) (uu.low order) (-bm)) ((uu.high order).sshiftRight 31)
      else
        let carries := wide.shift (· <<< ·) (uu.high order) bm
        Dwords.ofWords order (wide.shift (· >>> ·) (uu.low order) b ||| carries)
          (wide.shift BitVec.sshiftRight (uu.high order) b)
    w.all order

def lshrdi3 (u : Dword) (b : Word) : Dword :=
  if b = 0 then u
  else
    let uu := Dwords.ofAll order u
    let bm := 32 - b
    let w :=
      if bm ≤ 0 then Dwords.ofWords order (wide.shift (· >>> ·) (uu.high order) (-bm)) 0
      else
        let carries := wide.shift (· <<< ·) (uu.high order) bm
        Dwords.ofWords order (wide.shift (· >>> ·) (uu.low order) b ||| carries)
          (wide.shift (· >>> ·) (uu.high order) b)
    w.all order

end Shifts

structure DivState (width : Nat) where
  num : BitVec width
  den : BitVec width
  bit : BitVec width
  res : BitVec width

namespace DivState

variable {width : Nat}

def raise (state : DivState width) : DivState width :=
  { state with den := state.den <<< 1, bit := state.bit <<< 1 }

/-- A turn of the loops that subtract, with `join` as the way a bit enters the quotient. -/
def lower (join : BitVec width → BitVec width → BitVec width) (state : DivState width) :
    DivState width :=
  let state :=
    if state.den ≤ state.num then
      { state with num := state.num - state.den, res := join state.res state.bit }
    else state
  { state with bit := state.bit >>> 1, den := state.den >>> 1 }

end DivState

def udivmodsi4 (num den modwanted : Word) : Option Word := do
  let raised ← whileLoop
    (fun state => state.den < state.num ∧ state.bit ≠ 0 ∧ state.den &&& ((1 : Word) <<< 31) = 0)
    DivState.raise 32 ⟨num, den, 1, 0⟩
  let final ← whileLoop (fun state => state.bit ≠ 0) (DivState.lower (· ||| ·)) 32 raised
  return if modwanted ≠ 0 then final.num else final.res

def divsi3 (a b : Word) : Option Word := do
  let neg := false
  let (a, neg) := if a.slt 0 then (-a, !neg) else (a, neg)
  let (b, neg) := if b.slt 0 then (-b, !neg) else (b, neg)
  let res ← udivmodsi4 a b 0
  return if neg then -res else res

def modsi3 (a b : Word) : Option Word := do
  let neg := false
  let (a, neg) := if a.slt 0 then (-a, true) else (a, neg)
  let b := if b.slt 0 then -b else b
  let res ← udivmodsi4 a b 1
  return if neg then -res else res

/-- The quotient and what `rem_p` receives. `none` is a division by zero. -/
def udivmoddi4 (num den : Dword) : Option (Dword × Dword) := do
  if den = 0 then none
  else
    let raised ← whileLoop (fun state => (0 : Dword).sle state.den) DivState.raise 64 ⟨num, den, 1, 0⟩
    let final ← whileLoop (fun state => state.bit ≠ 0) (DivState.lower (· + ·)) 64 raised
    return (final.res, final.num)

def moddi3 (num den : Dword) : Option Dword := do
  let minus := false
  let (num, minus) := if num.slt 0 then (-num, true) else (num, minus)
  let (den, minus) := if den.slt 0 then (-den, minus ^^ true) else (den, minus)
  let (_, v) ← udivmoddi4 num den
  return if minus then -v else v

def divdi3 (num den : Dword) : Option Dword := do
  let minus := false
  let (num, minus) := if num.slt 0 then (-num, true) else (num, minus)
  let (den, minus) := if den.slt 0 then (-den, minus ^^ true) else (den, minus)
  let (v, _) ← udivmoddi4 num den
  return if minus then -v else v

end Hellfire

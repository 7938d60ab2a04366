import Hellfire.SoftFloatCore

/-!
Executable model of the single precision arithmetic of `lib/libc/libc.c`. The macros of
`libc.h` take a pattern apart and put it together; a loop that goes on after `turns` turns
gives `none`.
-/

namespace Hellfire

open Loops

namespace SoftArithmetic

def excess : Word := 126

def hidden : Word := 1 <<< 23

def signOf (fp : Word) : Word := fp &&& signbit

def expOf (fp : Word) : Word := fp.sshiftRight 23 &&& 0xff

def mantOf (fp : Word) : Word := (fp &&& 0x7fffff) ||| hidden

def pack (s e m : Word) : Word := s ||| (e <<< 23) ||| m

structure AddState where
  mant : Word
  exp : Word

def AddState.up (state : AddState) : AddState := ⟨state.mant <<< 1, state.exp - 1⟩

def AddState.down (state : AddState) : AddState :=
  if state.mant &&& (1 <<< 30) ≠ 0 then ⟨state.mant.sshiftRight 1, state.exp + 1⟩ else state

def AddState.round (state : AddState) : AddState :=
  { state with mant := state.mant + if state.mant &&& 0x40 ≠ 0 then 0x20 else 0x1f }

/-- `__addsf3` behind the test for a zero sum. -/
def normalize (turns : Nat) (sign mant exp : Word) : Option Word := do
  let raised ← whileLoop (fun state => state.mant &&& 0xe0000000 = 0) AddState.up turns ⟨mant, exp⟩
  let state := raised.down.round.down
  return pack sign state.exp (state.mant.sshiftRight 6 &&& ~~~hidden)

def signedMant (fp : Word) : Word :=
  let mant := mantOf fp <<< 6
  if signOf fp ≠ 0 then -mant else mant

def addsf3 (turns : Nat) (a1 a2 : Word) : Option Word :=
  if a1 = 0 then some a2
  else if a2 = 0 then some a1
  else
    let exp1 := expOf a1
    let exp2 := expOf a2
    if (exp2 + 25).slt exp1 then some a1
    else if (exp1 + 25).slt exp2 then some a2
    else
      let mant1 := signedMant a1
      let mant2 := signedMant a2
      let (mant1, mant2, exp1) :=
        if exp2.slt exp1 then (mant1, mant2.sshiftRight (exp1 - exp2).toNat, exp1)
        else (mant1.sshiftRight (exp2 - exp1).toNat, mant2, exp2)
      let mant1 := mant1 + mant2
      if mant1.slt 0 then normalize turns signbit (-mant1) exp1
      else if mant1 = 0 then some 0
      else normalize turns 0 mant1 exp1

def subsf3 (turns : Nat) (a1 a2 : Word) : Option Word :=
  if a2 = 0 then some a1
  else if a1 = 0 then some (a2 ^^^ signbit)
  else addsf3 turns a1 (a2 ^^^ signbit)

def mulsf3 (a1 a2 : Word) : Word :=
  if a1 = 0 ∨ a2 = 0 then 0
  else
    let sign := signOf a1 ^^^ signOf a2
    let exp := expOf a1 - excess + expOf a2
    let fl1 := mantOf a1
    let fl2 := mantOf a2
    let result := fl1.sshiftRight 8 * fl2.sshiftRight 8
    let result := result + ((fl1 &&& 0xff) * fl2.sshiftRight 8).sshiftRight 8
    let result := result + ((fl2 &&& 0xff) * fl1.sshiftRight 8).sshiftRight 8
    let result := result >>> 2
    let (result, exp) :=
      if result &&& 0x20000000 ≠ 0 then ((result + 0x20) >>> 6, exp)
      else ((result + 0x10) >>> 5, exp - 1)
    let (result, exp) :=
      if result &&& (hidden <<< 1) ≠ 0 then (result >>> 1, exp + 1) else (result, exp)
    pack sign exp (result &&& ~~~hidden)

structure DivisionState where
  rest : Word
  result : Word
  mask : Word

def DivisionState.turn (divisor : Word) (state : DivisionState) : DivisionState :=
  let state :=
    if divisor.sle state.rest then
      { state with result := state.result ||| state.mask, rest := state.rest - divisor }
    else state
  { state with rest := state.rest <<< 1, mask := state.mask.sshiftRight 1 }

/-- The two integers that stand for a quotient by zero are converted to `float`. -/
def divsf3 (turns : Nat) (a1 a2 : Word) : Option Word := do
  let exp := expOf a1 - expOf a2 + excess
  let sign := signOf a1 ^^^ signOf a2
  if a2 = 0 then return if sign ≠ 0 then 0x4f800000 else 0x4f000000
  if a1 = 0 then return 0
  let fl1 := mantOf a1
  let fl2 := mantOf a2
  let (fl1, exp) := if fl1.slt fl2 then (fl1 <<< 1, exp - 1) else (fl1, exp)
  let divided ← whileLoop (fun state => state.mask ≠ 0) (DivisionState.turn fl2) turns
    ⟨fl1, 0, 0x1000000⟩
  let result := divided.result + 1
  let exp := exp + 1
  return pack sign exp (result.sshiftRight 1 &&& ~~~hidden)

end SoftArithmetic

end Hellfire

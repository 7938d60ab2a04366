import Mathlib.Data.Option.Basic

/-!
Executable model of the fixed point arithmetic of `lib/include/fixed.h`. A `fixed_t` is a 32-bit
word read in two's complement, and its arithmetic wraps around as it does on the targets.
-/

namespace Hellfire

abbrev Fixed := BitVec 32

section Width

variable (ibits : Nat)

def fixFbits : Nat := 32 - ibits

def fixFmask : Fixed := ((1 : Fixed) <<< fixFbits ibits) - 1

def fixOne : Fixed := (1 : Fixed) <<< fixFbits ibits

/-- `fix_mul` where `FIX_MULDIV_WIDTH` is 32. -/
def fixMul (x y : Fixed) : Fixed :=
  let neg := x.slt 0
  let x := if x.slt 0 then -x else x
  let neg := if y.slt 0 then !neg else neg
  let y := if y.slt 0 then -y else y
  let a := x.sshiftRight (fixFbits ibits)
  let b := x &&& fixFmask ibits
  let c := y.sshiftRight (fixFbits ibits)
  let d := y &&& fixFmask ibits
  let res := ((d * b) >>> fixFbits ibits) + (d * a) + (c * b) + ((c * a) <<< fixFbits ibits)
  if neg then -res else res

/-- `fix_div` where `FIX_MULDIV_WIDTH` is 32. `none` is a division by zero. -/
def fixDiv (x y : Fixed) : Option Fixed :=
  let neg := x.slt 0
  let x := if x.slt 0 then -x else x
  let neg := if y.slt 0 then !neg else neg
  let y := if y.slt 0 then -y else y
  if y = 0 then none
  else
    let reciprocal :=
      if ibits ≤ 16 then (0x80000000#32 / y) <<< (33 - ibits * 2)
      else (0x80000000#32 / y) >>> (ibits * 2 - 33)
    let res := fixMul ibits x reciprocal
    some (if neg then -res else res)

/-- `fix_mul` where `FIX_MULDIV_WIDTH` is 64. -/
def fixMul64 (x y : Fixed) : Fixed :=
  ((x.signExtend 64 * y.signExtend 64).sshiftRight (fixFbits ibits)).setWidth 32

/-- `fix_div` where `FIX_MULDIV_WIDTH` is 64. `none` is a division by zero. -/
def fixDiv64 (x y : Fixed) : Option Fixed :=
  if y = 0 then none
  else some (((x.signExtend 64 <<< fixFbits ibits).sdiv (y.signExtend 64)).setWidth 32)

def fixSqrtTurns : Nat → Fixed → Nat → Option Nat
  | 0, s, itr => if (0 : Fixed).slt s then none else some itr
  | turns + 1, s, itr =>
      if (0 : Fixed).slt s then fixSqrtTurns turns (s.sshiftRight 2) (itr + 1) else some itr

def fixSqrtStep (a l : Fixed) : Option Fixed :=
  (fixDiv ibits a l).map fun quotient => (l + quotient).sshiftRight 1

def fixSqrtLoop (a : Fixed) : Nat → Fixed → Option Fixed
  | 0, l => some l
  | turns + 1, l => (fixSqrtStep ibits a l).bind (fixSqrtLoop a turns)

def fixSqrtRoot (a : Fixed) : Option Fixed := do
  let itr ← if (fixOne ibits).slt a then fixSqrtTurns 16 a 0 else some (fixFbits ibits)
  fixSqrtLoop ibits a itr ((a.sshiftRight 1) + 1)

def fixSqrt (a : Fixed) : Option Fixed :=
  if a.slt 0 then some (-1)
  else if a = 0 ∨ a = fixOne ibits then some a
  else if a.slt (fixOne ibits) ∧ (6 : Fixed).slt a then do
    let a ← fixDiv ibits (fixOne ibits) a
    let l ← fixSqrtRoot ibits a
    fixDiv ibits (fixOne ibits) l
  else fixSqrtRoot ibits a

end Width

end Hellfire

import Hellfire.SoftIntCore
import Hellfire.Library.FreeCounter

/-!
Executable model of what `arch/riscv/hf-riscv/drivers/hal.c` does with the cycle counter: the
delays `delay_ms` and `delay_us` and the system time of `_read_us`.
-/

namespace Hellfire.HfRiscv

open Loops FreeCounter

/-- `CPU_SPEED` is an `int` of the build, and a microsecond takes at least one cycle. -/
structure Speed where
  cycles : Nat
  fast : 1000000 ≤ cycles
  representable : cycles < 2 ^ 31

/-- The local variables of a delay; `passed` is `msecs` or `usecs`. `reads` is how often the
counter has been read. -/
structure DelayState where
  last : Word
  delta : Word
  passed : Word
  reads : Nat
deriving DecidableEq

namespace DelayState

/-- What a reading adds to `delta`. The first branch is taken after a wrap-around. -/
def elapsed (speed : Speed) (cur last : Word) : Word :=
  if cur < last then cur + (BitVec.ofNat 32 speed.cycles - last) else cur - last

def turn (speed : Speed) (cyclesPerUnit : Word) (counter : Counter 32) (state : DelayState) :
    DelayState :=
  let cur := counter.reading state.reads
  let delta := state.delta + elapsed speed cur state.last
  if cyclesPerUnit ≤ delta then
    { last := cur
      delta := delta % cyclesPerUnit
      passed := state.passed + delta / cyclesPerUnit
      reads := state.reads + 1 }
  else { state with last := cur, delta := delta, reads := state.reads + 1 }

end DelayState

/-- The two delays differ in the unit. `none` is a delay that goes on after `turns` turns of the
loop. -/
def delay (speed : Speed) (cyclesPerUnit : Word) (counter : Counter 32) (units : Word)
    (turns : Nat) : Option DelayState :=
  whileLoop (fun state => state.passed < units) (DelayState.turn speed cyclesPerUnit counter) turns
    ⟨counter.reading 0, 0, 0, 1⟩

def delayMs (speed : Speed) (counter : Counter 32) (msec : Word) (turns : Nat) : Option DelayState :=
  delay speed (BitVec.ofNat 32 (speed.cycles / 1000)) counter msec turns

def delayUs (speed : Speed) (counter : Counter 32) (usec : Word) (turns : Nat) : Option DelayState :=
  delay speed (BitVec.ofNat 32 (speed.cycles / 1000000)) counter usec turns

/-- The static variables of `_read_us`, with the number of readings that were taken so far. -/
structure TimeState where
  timeref : Dword
  tval2 : Word
  tref : Word
  reads : Nat
deriving DecidableEq

namespace TimeState

def initial : TimeState := ⟨0, 0, 0, 0⟩

/-- The reading that `_read_us` compares with `tref`. The one it takes before while `tref` is 0
is not used. -/
def compared (state : TimeState) : Nat :=
  if state.tref = 0 then state.reads + 1 else state.reads

end TimeState

def readcounter (counter : Counter 32) (read : Nat) : Word := counter.reading read

def readUs (speed : Speed) (counter : Counter 32) (state : TimeState) : Dword × TimeState :=
  let tval2 :=
    if readcounter counter state.compared < state.tref then state.tval2 + 1 else state.tval2
  let tref := readcounter counter (state.compared + 1)
  let timeref := (tval2.setWidth 64 <<< 32) + (readcounter counter (state.compared + 2)).setWidth 64
  (timeref / BitVec.ofNat 64 (speed.cycles / 1000000),
    { timeref := timeref, tval2 := tval2, tref := tref, reads := state.compared + 3 })

end Hellfire.HfRiscv

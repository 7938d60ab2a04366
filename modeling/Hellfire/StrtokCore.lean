import Hellfire.UhfsCore

/-!
Executable model of `strtok` of `lib/libc/libc.c`, in memory and with its static variable. The
delimiters are a constant.
-/

namespace Hellfire.Libc

open ByteMemory

/-- The memory and the static pointer `last`; `none` is `NULL`. -/
structure StrtokState where
  memory : Memory
  last : Option Nat

/-- `c = *s++` until a byte is found: the byte and `s`. `left` bytes may be read, and `none` is a
read behind them. -/
def scanTo (found : UInt8 → Bool) (memory : Memory) : Nat → Nat → Option (UInt8 × Nat)
  | 0, _ => none
  | left + 1, s =>
      if found (memory s) then some (memory s, s + 1) else scanTo found memory left (s + 1)

/-- `c` is one of the delimiters, as the `for` loop compares it. -/
def delimits (delim : CString) (c : UInt8) : Bool := delim.bytes.contains c

/-- The inner loop of the search for the end compares `c` with the terminator of the
delimiters, too. -/
def endsToken (delim : CString) (c : UInt8) : Bool := (delim.bytes ++ [0]).contains c

/-- A call, with the token that it returns. `stop` is the last address that may be read. -/
def strtok (stop : Nat) (delim : CString) (s : Option Nat) (state : StrtokState) :
    Option (Option Nat × StrtokState) :=
  match s.or state.last with
  | none => some (none, state)
  | some s => do
      let (c, s) ← scanTo (fun c => !delimits delim c) state.memory (stop + 1 - s) s
      if c = 0 then return (none, { state with last := none })
      let tok := s - 1
      let (c, s) ← scanTo (endsToken delim) state.memory (stop + 1 - s) s
      if c = 0 then return (some tok, { state with last := none })
      return (some tok, { memory := writeByte state.memory (s - 1) 0, last := some s })

def strtokCalls (stop : Nat) (delim : CString) :
    List (Option Nat) → StrtokState → Option (List (Option Nat) × StrtokState)
  | [], state => some ([], state)
  | s :: later, state => do
      let (tok, state) ← strtok stop delim s state
      let (others, state) ← strtokCalls stop delim later state
      return (tok :: others, state)

end Hellfire.Libc

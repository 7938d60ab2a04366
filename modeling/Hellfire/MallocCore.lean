import Hellfire.Library.ByteMemory

/-!
Executable model of the default allocator of `sys/lib/malloc.c` (`MEM_ALLOC` 3) on a
32-bit memory. A block header is the word `next` followed by the word `size`, whose
lowest bit marks a used block. The loops carry a bound on their turns and give `none`
when they exceed it.
-/

namespace Hellfire

open ByteMemory

structure Heap where
  memory : Memory
  firstFree : Nat
  lastFree : Nat
  krnlFree : Nat

def wrap32 (value : Nat) : Nat := value % 4294967296

def align4 (size : Nat) : Nat := wrap32 (size + 3) / 4 * 4

namespace Heap

def next (memory : Memory) (p : Nat) : Nat := readWord memory p

def size (memory : Memory) (p : Nat) : Nat := readWord memory (p + 4)

def setNext (memory : Memory) (p next : Nat) : Memory := writeWord memory p next

def setSize (memory : Memory) (p size : Nat) : Memory := writeWord memory (p + 4) size

-- `size & 1`, `size | 1` and `size & ~1L`
def marked (size : Nat) : Bool := size % 2 = 1

def mark (size : Nat) : Nat := size / 2 * 2 + 1

def unmark (size : Nat) : Nat := size / 2 * 2

def skipUsed (memory : Memory) : Nat → Nat → Nat → Option (Nat × Nat)
  | 0, _, _ => none
  | fuel + 1, p, q =>
      if marked (size memory p) then skipUsed memory fuel (next memory p) (next memory p)
      else some (p, q)

def skipFree (memory : Memory) : Nat → Nat → Option Nat
  | 0, _ => none
  | fuel + 1, p =>
      if marked (size memory p) = false ∧ next memory p ≠ 0 then skipFree memory fuel (next memory p)
      else some p

/-- `q->size = p - q - sizeof(struct mem_block); q->next = p`. -/
def coalesce (memory : Memory) (p q : Nat) : Memory :=
  setNext (setSize memory q (wrap32 (p + 4294967296 - q - 8))) q p

/-- The search loop of `hf_malloc`, with the value of `p` behind it. -/
def search (wanted : Nat) : Nat → Nat → Nat → Memory → Option (Nat × Memory)
  | 0, _, _, _ => none
  | fuel + 1, p, q, memory =>
      if next memory p = 0 then some (p, memory)
      else
        match skipUsed memory fuel p q with
        | none => none
        | some (p, q) =>
            match skipFree memory fuel p with
            | none => none
            | some p =>
                let memory := if p ≠ 0 then coalesce memory p q else memory
                if wrap32 (wanted + 8) ≤ size memory q then some (q, memory)
                else search wanted fuel p q memory

/-- The end of `hf_malloc`. The size of the remainder is computed from the size that was
just overwritten. -/
def place (wanted p : Nat) (heap : Heap) : Heap :=
  let r := next heap.memory p
  let memory := setNext heap.memory p (wrap32 (p + wanted + 8))
  let memory := setSize memory p (mark wanted)
  let rest := wrap32 (unmark (size memory p) + 8589934592 - wanted - 8)
  let remainder := next memory p
  let memory := setSize (setNext memory remainder r) remainder rest
  { heap with
    memory := memory
    lastFree := p
    krnlFree := wrap32 (heap.krnlFree + 4294967296 - wrap32 (wanted + 8)) }

def hfMalloc (fuel size : Nat) (heap : Heap) : Option (Nat × Heap) :=
  let wanted := align4 size
  match search wanted fuel heap.lastFree heap.lastFree heap.memory with
  | none => none
  | some (p, memory) =>
      let heap := { heap with memory := memory }
      if next memory p = 0 then some (0, heap)
      else some (wrap32 (p + 8), heap.place wanted p)

def hfFree (ptr : Nat) (heap : Heap) : Heap :=
  let p := wrap32 (ptr + 4294967296 - 8)
  let memory := setSize heap.memory p (unmark (size heap.memory p))
  { heap with
    memory := memory
    lastFree := heap.firstFree
    krnlFree := wrap32 (heap.krnlFree + size memory p + 8) }

def heapinit (memory : Memory) (heap len : Nat) : Heap :=
  let p := heap
  let q := heap + len - 8
  let len := align4 len
  let memory := setNext memory p q
  let memory := setSize memory p (wrap32 (len + 4294967296 - 16))
  let memory := setNext memory q 0
  let memory := setSize memory q 0
  { memory := memory
    firstFree := heap
    lastFree := heap
    krnlFree := size memory p }

/-- `memset` of `lib/libc/libc.c`. -/
def memset (memory : Memory) (p : Nat) (c : UInt8) : Nat → Memory
  | 0 => memory
  | n + 1 => memset (writeByte memory p c) (wrap32 (p + 1)) c n

/-- `memcpy` of `lib/libc/libc.c`. -/
def memcpy (memory : Memory) (r1 r2 : Nat) : Nat → Memory
  | 0 => memory
  | n + 1 => memcpy (writeByte memory r1 (memory r2)) (wrap32 (r1 + 1)) (wrap32 (r2 + 1)) n

def hfCalloc (fuel qty typeSize : Nat) (heap : Heap) : Option (Nat × Heap) :=
  match heap.hfMalloc fuel (wrap32 (qty * typeSize)) with
  | none => none
  | some (buf, heap) =>
      if buf ≠ 0 then
        some (buf, { heap with memory := memset heap.memory buf 0 (wrap32 (qty * typeSize)) })
      else some (buf, heap)

def hfRealloc (fuel ptr size : Nat) (heap : Heap) : Option (Nat × Heap) :=
  -- `(int32_t)size < 0`
  if 2147483648 ≤ size then some (0, heap)
  else if ptr = 0 then heap.hfMalloc fuel size
  else
    match heap.hfMalloc fuel size with
    | none => none
    | some (buf, heap) =>
        if buf ≠ 0 then some (buf, { heap with memory := memcpy heap.memory buf ptr size }.hfFree ptr)
        else some (buf, heap)

/-- `hf_freemem` of `sys/kernel/processor.c`. -/
def hfFreemem (heap : Heap) : Nat := heap.krnlFree

end Heap

end Hellfire

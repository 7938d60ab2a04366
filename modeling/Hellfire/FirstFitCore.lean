import Hellfire.MallocCore

/-!
Executable model of the second first-fit allocator of `sys/lib/malloc.c` (`MEM_ALLOC` 2).
It has the block headers of `MEM_ALLOC` 3, joins free blocks in `hf_free` and keeps a
pointer to the last allocated block. The loops carry a bound on their turns and give
`none` when they exceed it.
-/

namespace Hellfire

open ByteMemory

structure FfHeap where
  memory : Memory
  krnlHeap : Nat
  ff : Nat
  krnlFree : Nat

namespace FfHeap

open Heap

def sweep : Nat → Nat → Nat → Memory → Option Memory
  | 0, _, _, _ => none
  | fuel + 1, p, q, memory =>
      if next memory p = 0 then some memory
      else
        match skipUsed memory fuel p q with
        | none => none
        | some (p, q) =>
            match skipFree memory fuel p with
            | none => none
            | some p => sweep fuel p q (if p ≠ 0 then coalesce memory p q else memory)

def hfFree (fuel ptr : Nat) (heap : FfHeap) : Option FfHeap :=
  let p := wrap32 (ptr + 4294967296 - 8)
  let memory := setSize heap.memory p (unmark (size heap.memory p))
  let krnlFree := wrap32 (heap.krnlFree + size memory p + 8)
  match sweep fuel heap.krnlHeap heap.krnlHeap memory with
  | none => none
  | some memory => some { heap with memory, ff := heap.krnlHeap, krnlFree }

/-- The search loop of `hf_malloc`; the inner `none` stands for its return of NULL. -/
def firstFit (wanted : Nat) (memory : Memory) : Nat → Nat → Option (Option Nat)
  | 0, _ => none
  | fuel + 1, p =>
      if size memory p < wrap32 (wanted + 8) ∨ marked (size memory p) = true then
        if next memory p = 0 ∧ size memory p < wanted then some none
        else firstFit wanted memory fuel (next memory p)
      else some (some p)

def place (wanted p : Nat) (heap : FfHeap) : FfHeap :=
  let psize := wrap32 (unmark (size heap.memory p) + 8589934592 - wanted - 8)
  let r := next heap.memory p
  let memory := setNext heap.memory p (wrap32 (p + wanted + 8))
  let memory := setSize memory p (mark wanted)
  let remainder := next memory p
  let memory := setSize (setNext memory remainder r) remainder psize
  { heap with
    memory := memory
    ff := p
    krnlFree := wrap32 (heap.krnlFree + 4294967296 - wrap32 (wanted + 8)) }

def hfMalloc (fuel size : Nat) (heap : FfHeap) : Option (Nat × FfHeap) :=
  let wanted := align4 size
  match firstFit wanted heap.memory fuel heap.ff with
  | none => none
  | some none => some (0, heap)
  | some (some p) => some (wrap32 (p + 8), heap.place wanted p)

def heapinit (memory : Memory) (krnlHeap len : Nat) : FfHeap :=
  let p := krnlHeap
  let q := krnlHeap + len - 8
  let len := align4 len
  let memory := setNext memory p q
  let memory := setSize memory p (wrap32 (len + 4294967296 - 16))
  let memory := setNext memory q 0
  let memory := setSize memory q 0
  { memory := memory
    krnlHeap := krnlHeap
    ff := krnlHeap
    krnlFree := size memory p }

end FfHeap

end Hellfire

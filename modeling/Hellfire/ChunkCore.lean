import Hellfire.MallocCore

/-!
Executable model of the simple allocator of `sys/lib/malloc.c` (`MEM_ALLOC` 0). A chunk
starts with one word: its size with the header, whose lowest bit marks a used chunk. A
zero word ends the heap. The loop of `compact` carries a bound on its turns and gives
`none` when it exceeds it.
-/

namespace Hellfire

open ByteMemory

structure ChunkHeap where
  memory : Memory
  free : Nat
  heap : Nat
  krnlFree : Nat

namespace ChunkHeap

open Heap (marked mark unmark)

/-- `if(bsize != 0){ best_fit->size = bsize; if(bsize >= nsize) return best_fit; }`, with
the pointer it returns, if it does. -/
def closeRun (nsize bestFit bsize : Nat) (memory : Memory) : Option Nat × Memory :=
  if bsize ≠ 0 then
    (if nsize ≤ bsize then some bestFit else none, writeWord memory bestFit bsize)
  else (none, memory)

def compactFrom (nsize : Nat) : Nat → Nat → Nat → Nat → Memory → Option (Nat × Memory)
  | 0, _, _, _, _ => none
  | fuel + 1, p, bestFit, bsize, memory =>
      let psize := readWord memory p
      if psize ≠ 0 then
        if marked psize then
          match closeRun nsize bestFit bsize memory with
          | (some found, memory) => some (found, memory)
          | (none, memory) =>
              let p := wrap32 (p + unmark psize)
              compactFrom nsize fuel p p 0 memory
        else compactFrom nsize fuel (wrap32 (p + psize)) bestFit (wrap32 (bsize + psize)) memory
      else
        match closeRun nsize bestFit bsize memory with
        | (some found, memory) => some (found, memory)
        | (none, memory) => some (0, memory)

def compact (fuel p nsize : Nat) (memory : Memory) : Option (Nat × Memory) :=
  compactFrom nsize fuel p p 0 memory

def hfFree (ptr : Nat) (heap : ChunkHeap) : ChunkHeap :=
  let memory :=
    if ptr ≠ 0 then
      let p := wrap32 (ptr + 4294967296 - 4)
      writeWord heap.memory p (unmark (readWord heap.memory p))
    else heap.memory
  { heap with memory := memory, krnlFree := readWord memory heap.free }

/-- `size += 3 + sizeof(mem_chunk); size >>= 2; size <<= 2`. -/
def chunkSize (size : Nat) : Nat := wrap32 (size + 7) / 4 * 4

/-- The end of `hf_malloc`. The counter is read through `free` even when it is NULL. -/
def take (size : Nat) (heap : ChunkHeap) : Nat × ChunkHeap :=
  let p := heap.free
  let fsize := readWord heap.memory p
  let (free, size, memory) :=
    if wrap32 (size + 4) ≤ fsize then
      let free := wrap32 (p + size)
      (free, size, writeWord heap.memory free (wrap32 (fsize + 4294967296 - size)))
    else (0, fsize, heap.memory)
  let memory := writeWord memory p (mark size)
  (wrap32 (p + 4), { heap with memory := memory, free := free, krnlFree := readWord memory free })

def hfMalloc (fuel size : Nat) (heap : ChunkHeap) : Option (Nat × ChunkHeap) :=
  if size = 0 then some (0, heap)
  else
    let size := chunkSize size
    if heap.free = 0 ∨ readWord heap.memory heap.free < size then
      match compact fuel heap.heap size heap.memory with
      | none => none
      | some (free, memory) =>
          let heap := { heap with memory := memory, free := free }
          if free = 0 then some (0, heap) else some (heap.take size)
    else some (heap.take size)

def heapinit (memory : Memory) (heap len : Nat) : ChunkHeap :=
  let len := wrap32 (len + 3) / 4 * 4
  let memory := writeWord memory heap (wrap32 (len + 4294967296 - 4))
  let memory := writeWord memory (wrap32 (heap + len + 4294967296 - 4)) 0
  { memory := memory
    free := heap
    heap := heap
    krnlFree := readWord memory heap }

end ChunkHeap

end Hellfire

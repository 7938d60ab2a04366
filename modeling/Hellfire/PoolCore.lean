import Hellfire.MallocCore

/-!
Executable model of the pool allocator of `sys/lib/malloc.c` (`MEM_ALLOC` 1). Free pieces
form a circular list that is sorted by address and starts at the static header `base`; the
pool grows through `krnl_heap` on demand. A header holds the words `next` and `size`, the
size counts quanta of eight bytes with the header. The loops carry a bound on their turns
and give `none` when they exceed it.
-/

namespace Hellfire

open ByteMemory

/-- Where the linker puts `krnl_heap` and `base`, and `HEAP_SIZE`. The end of the pool is
not the address of `base`: otherwise a free piece there would swallow the header. -/
structure PoolLayout where
  krnlHeap : Nat
  base : Nat
  heapSize : Nat
  heapNonnull : 0 < krnlHeap
  baseNonnull : 0 < base
  heapEnds : krnlHeap + heapSize < 4294967296
  baseEnds : base + 8 < 4294967296
  apart : base + 8 ≤ krnlHeap ∨ krnlHeap + heapSize < base
  grows : heapSize + 128 < 4294967296

structure PoolHeap where
  memory : Memory
  freep : Nat
  poolFreePos : Nat
  krnlFree : Nat

namespace PoolHeap

open Heap (next size setNext setSize)

def behind (memory : Memory) (p : Nat) : Nat := wrap32 (p + 8 * size memory p)

/-- The loop of `free2`: the node of the list behind which `block` belongs. -/
def findSpot (memory : Memory) (block : Nat) : Nat → Nat → Option Nat
  | 0, _ => none
  | fuel + 1, p =>
      if p < block ∧ block < next memory p then some p
      else if next memory p ≤ p ∧ (p < block ∨ block < next memory p) then some p
      else findSpot memory block fuel (next memory p)

def link (memory : Memory) (block p : Nat) : Memory :=
  let memory :=
    if behind memory block = next memory p then
      let memory := setSize memory block (wrap32 (size memory block + size memory (next memory p)))
      setNext memory block (next memory (next memory p))
    else setNext memory block (next memory p)
  if behind memory p = block then
    let memory := setSize memory p (wrap32 (size memory p + size memory block))
    setNext memory p (next memory block)
  else setNext memory p block

def free2 (fuel ptr : Nat) (heap : PoolHeap) : Option PoolHeap :=
  let block := wrap32 (ptr + 4294967296 - 8)
  match findSpot heap.memory block fuel heap.freep with
  | none => none
  | some p => some { heap with memory := link heap.memory block p, freep := p }

def hfFree (fuel ptr : Nat) (heap : PoolHeap) : Option PoolHeap := free2 fuel ptr heap

def minPoolAllocQuantas : Nat := 16

def morecore (layout : PoolLayout) (fuel nquantas : Nat) (heap : PoolHeap) :
    Option (Nat × PoolHeap) :=
  let nquantas := if nquantas < minPoolAllocQuantas then minPoolAllocQuantas else nquantas
  let totalReqSize := wrap32 (nquantas * 8)
  if wrap32 (heap.poolFreePos + totalReqSize) ≤ layout.heapSize then
    let h := wrap32 (layout.krnlHeap + heap.poolFreePos)
    match free2 fuel (wrap32 (h + 8)) { heap with memory := setSize heap.memory h nquantas } with
    | none => none
    | some heap =>
        some (heap.freep, { heap with poolFreePos := wrap32 (heap.poolFreePos + totalReqSize) })
  else some (0, heap)

def serve (nquantas prevp p : Nat) (heap : PoolHeap) : Nat × PoolHeap :=
  let (p, memory) :=
    if size heap.memory p = nquantas then (p, setNext heap.memory prevp (next heap.memory p))
    else
      let memory := setSize heap.memory p (wrap32 (size heap.memory p + 4294967296 - nquantas))
      let p := behind memory p
      (p, setSize memory p nquantas)
  (wrap32 (p + 8), { heap with
    memory := memory
    freep := prevp
    krnlFree := wrap32 (heap.krnlFree + 4294967296 - wrap32 (size memory p * 8)) })

def search (layout : PoolLayout) (bound nquantas : Nat) :
    Nat → Nat → Nat → PoolHeap → Option (Nat × PoolHeap)
  | 0, _, _, _ => none
  | fuel + 1, prevp, p, heap =>
      if nquantas ≤ size heap.memory p then some (serve nquantas prevp p heap)
      else if p = heap.freep then
        match morecore layout bound nquantas heap with
        | none => none
        | some (p, heap) =>
            if p = 0 then some (0, heap)
            else search layout bound nquantas fuel p (next heap.memory p) heap
      else search layout bound nquantas fuel p (next heap.memory p) heap

/-- `(size + sizeof(mem_header_t) - 1) / sizeof(mem_header_t) + 1`. -/
def quantas (size : Nat) : Nat := wrap32 (size + 7) / 8 + 1

def hfMalloc (layout : PoolLayout) (fuel size : Nat) (heap : PoolHeap) : Option (Nat × PoolHeap) :=
  let heap :=
    if heap.freep = 0 then
      { heap with
        memory := setSize (setNext heap.memory layout.base layout.base) layout.base 0
        freep := layout.base }
    else heap
  search layout fuel (quantas size) fuel heap.freep (next heap.memory heap.freep) heap

def heapinit (layout : PoolLayout) (memory : Memory) : PoolHeap :=
  { memory := setSize (setNext memory layout.base 0) layout.base 0
    freep := 0
    poolFreePos := 0
    krnlFree := layout.heapSize }

end PoolHeap

end Hellfire

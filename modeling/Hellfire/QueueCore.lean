import Mathlib.Data.List.Basic

/-!
Executable model of `sys/lib/queue.c`: the ring queues on which the kernel, the
semaphores and the drivers rest. A `void *` is an `Option`, with `none` for NULL,
and the cells behind `data` are a list.
-/

namespace Hellfire

/-- The value an integer takes when it is stored in a C `int32_t`. -/
def int32 (value : Int) : Int := (value + 2147483648) % 4294967296 - 2147483648

theorem int32_of_range {value : Int} (lower : -2147483648 ≤ value) (upper : value < 2147483648) :
    int32 value = value := by
  unfold int32
  omega

structure Queue (α : Type) where
  size : Int
  elem : Int
  head : Int
  tail : Int
  data : List (Option α)
deriving DecidableEq, Repr

namespace Queue

variable {α : Type}

-- An access outside the allocated cells reads NULL and writes nothing.
def cell (queue : Queue α) (index : Int) : Option α :=
  if index < 0 then none else queue.data.getD index.toNat none

def store (queue : Queue α) (index : Int) (ptr : Option α) : Queue α :=
  if index < 0 then queue else { queue with data := queue.data.set index.toNat ptr }

/-- The index expression `(q->head + elem) % q->size`. -/
def slot (queue : Queue α) (elem : Int) : Int :=
  (int32 (queue.head + elem)).tmod queue.size

/-- `hfMalloc` gives the words of a block of the requested number of bytes, or NULL.
The flag says whether the block for the queue structure itself was obtained. -/
def hfQueueCreate (structBlock : Bool) (hfMalloc : Nat → Option (Nat → Option α))
    (size : Int) : Option (Queue α) :=
  if structBlock then
    let cells := int32 (size + 1)
    let bytes := (cells * 4 % 4294967296).toNat
    match hfMalloc bytes with
    | none => none
    | some block => some {
        size := cells
        elem := 0
        head := 0
        tail := 0
        data := (List.range (bytes / 4)).map block
      }
  else none

def hfQueueDestroy (queue : Queue α) : Int :=
  if queue.head = queue.tail then 0 else -1

def hfQueueCount (queue : Queue α) : Int := queue.elem

def hfQueueAddtail (queue : Queue α) (ptr : Option α) : Int × Queue α :=
  if queue.size = 0 then (-1, queue)
  else
    let next := (int32 (queue.tail + 1)).tmod queue.size
    if next = queue.head then (-1, queue)
    else (0, { queue.store queue.tail ptr with tail := next, elem := int32 (queue.elem + 1) })

def hfQueueRemhead (queue : Queue α) : Option α × Queue α :=
  if queue.size = 0 then (none, queue)
  else if queue.head = queue.tail then (none, queue)
  else (queue.cell queue.head, { queue with
    head := (int32 (queue.head + 1)).tmod queue.size
    elem := int32 (queue.elem - 1) })

def hfQueueRemtail (queue : Queue α) : Option α × Queue α :=
  if queue.size = 0 then (none, queue)
  else if queue.head = queue.tail then (none, queue)
  else (queue.cell queue.tail, { queue with
    tail := (int32 (queue.tail - 1)).tmod queue.size
    elem := int32 (queue.elem - 1) })

/-- The guard that `get`, `set` and `swap` share. -/
def missing (queue : Queue α) (elem : Int) : Bool :=
  queue.size = 0 || queue.elem ≤ elem || queue.head = queue.tail

def hfQueueGet (queue : Queue α) (elem : Int) : Option α :=
  if queue.missing elem then none else queue.cell (queue.slot elem)

def hfQueueSet (queue : Queue α) (elem : Int) (ptr : Option α) : Int × Queue α :=
  if queue.missing elem then (-1, queue) else (0, queue.store (queue.slot elem) ptr)

def hfQueueSwap (queue : Queue α) (elem1 elem2 : Int) : Int × Queue α :=
  if queue.missing elem1 || queue.missing elem2 then (-1, queue)
  else
    let t := queue.cell (queue.slot elem1)
    let first := queue.store (queue.slot elem1) (queue.cell (queue.slot elem2))
    (0, first.store (queue.slot elem2) t)

end Queue

end Hellfire

import Hellfire.Library.Machine
import Hellfire.Malloc
import Hellfire.PoolSearch

/-!
The pool allocator over every sequence of `hf_malloc` and `hf_free`, with the writes of the
clients in between: the pieces tile the grown part of the pool, the free list goes round
all free pieces in the order of their addresses, and no two free pieces touch.
-/

namespace Hellfire

open ByteMemory Machine Tiles Cyclic

namespace PoolHeap

open Heap

variable {layout : PoolLayout} {heap : PoolHeap} {memory memory' : Memory} {pieces : List Piece}

/-- The heap between two calls: the list is started by the first `hf_malloc`. -/
def Held (layout : PoolLayout) (heap : PoolHeap) (pieces : List Piece) : Prop :=
  heap.freep = 0 ∧ heap.poolFreePos = 0 ∧ pieces = [] ∨ Pooled layout heap pieces

theorem Held.hfMalloc (held : Held layout heap pieces) {fuel wanted : Nat}
    (small : layout.heapSize + wanted + 16 < 4294967296) (enough : 2 * layout.heapSize + 8 ≤ fuel) :
    ∃ ptr heap' pieces', PoolHeap.hfMalloc layout fuel wanted heap = some (ptr, heap') ∧
      Held layout heap' pieces' ∧ Keeps layout pieces heap.memory heap'.memory ∧
      (ptr = 0 ∧ ¬ Available layout heap pieces (quantas wanted) ∧
          usedPieces layout.krnlHeap pieces' = usedPieces layout.krnlHeap pieces ∧
          heap'.krnlFree = heap.krnlFree ∨
        Available layout heap pieces (quantas wanted) ∧ ∃ header, ptr = header + 8 ∧
          (∃ before after, usedPieces layout.krnlHeap pieces = before ++ after ∧
            usedPieces layout.krnlHeap pieces' = before ++ (header, ⟨true, quantas wanted⟩) :: after) ∧
          heap'.krnlFree = wrap32 (heap.krnlFree + 4294967296 - wrap32 (quantas wanted * 8))) := by
  have grows := layout.grows
  have asked : quantas wanted = (wanted + 7) / 8 + 1 := by
    unfold quantas wrap32
    omega
  have fits : layout.heapSize + 8 * grownBy (quantas wanted) < 4294967296 := by
    unfold grownBy minPoolAllocQuantas
    split
    · omega
    · omega
  have positive : 0 < quantas wanted := by omega
  rcases held with ⟨null, fresh, none⟩ | pooled
  · obtain ⟨ptr, heap', pieces', called, outcome⟩ :=
      (Pooled.started layout heap fresh).allocates positive fits enough
    have begun : PoolHeap.hfMalloc layout fuel wanted heap = some (ptr, heap') := by
      simp only [PoolHeap.hfMalloc, if_pos null]
      exact called
    have keeps : Keeps layout pieces heap.memory heap'.memory := by
      intro entry member
      rw [none] at member
      cases member
    rcases outcome with ⟨isNull, same, refused⟩ | ⟨available, header, pointer, pooled, _, cut, counter⟩
    · refine ⟨ptr, heap', [], begun, Or.inr ?_, keeps, Or.inl ⟨isNull, ?_, ?_, ?_⟩⟩
      · rw [same]
        exact Pooled.started layout heap fresh
      · rw [none]
        exact refused
      · rw [none]
      · rw [same]
    · rw [none]
      exact ⟨ptr, heap', pieces', begun, Or.inr pooled, by rw [← none]; exact keeps,
        Or.inr ⟨available, header, pointer, cut, counter⟩⟩
  · have nonnull : heap.freep ≠ 0 := by
      have positive := (pooled.listed.node_bounds pooled.current).1
      omega
    obtain ⟨ptr, heap', pieces', called, outcome⟩ := pooled.allocates positive fits enough
    have begun : PoolHeap.hfMalloc layout fuel wanted heap = some (ptr, heap') := by
      simp only [PoolHeap.hfMalloc, if_neg nonnull]
      exact called
    rcases outcome with ⟨isNull, same, refused⟩ | ⟨available, header, pointer, pooled', keeps, cut, counter⟩
    · rw [same] at begun
      exact ⟨ptr, heap, pieces, begun, Or.inr pooled, fun _ _ _ _ _ => rfl,
        Or.inl ⟨isNull, refused, rfl, rfl⟩⟩
    · exact ⟨ptr, heap', pieces', begun, Or.inr pooled', keeps,
        Or.inr ⟨available, header, pointer, cut, counter⟩⟩

theorem Held.hfFree (held : Held layout heap pieces) {fuel header : Nat} {piece : Piece}
    (member : (header, piece) ∈ usedPieces layout.krnlHeap pieces)
    (enough : 2 * layout.heapSize + 8 ≤ fuel) :
    ∃ heap' pieces' before after, PoolHeap.hfFree fuel (header + 8) heap = some heap' ∧
      Held layout heap' pieces' ∧
      usedPieces layout.krnlHeap pieces = before ++ (header, piece) :: after ∧
      usedPieces layout.krnlHeap pieces' = before ++ after ∧
      (∀ entry ∈ usedPieces layout.krnlHeap pieces, ∀ address, entry.1 + 8 ≤ address →
        address < entry.1 + 8 * entry.2.quantas → heap'.memory address = heap.memory address) ∧
      heap'.krnlFree = heap.krnlFree := by
  rcases held with ⟨_, _, none⟩ | pooled
  · rw [none] at member
    cases member
  · obtain ⟨placed, used⟩ := mem_usedPieces.mp member
    have listed := pooled.listed
    have counted := listed.tiling.count_le fun _ _ stands => stands.positive
    have within := listed.within
    obtain ⟨isUsed, b⟩ := piece
    obtain rfl : isUsed = true := used
    obtain ⟨front, back, rfl, before, behindB⟩ := listed.tiling.cut_at placed
    simp only [List.length_append, List.length_singleton] at counted
    obtain ⟨p, memory', pieces', called, freed, usedAfter⟩ := Listed.freed heap listed before
      pooled.coalesced pooled.current (by omega : front.length + back.length + 2 < fuel)
    refine ⟨{ heap with memory := memory', freep := p }, pieces', usedPieces layout.krnlHeap front,
      usedPieces (header + 8 * b) back, called, Or.inr ?_, ?_, usedAfter, ?_, rfl⟩
    · constructor
      · exact freed.listed
      · exact freed.coalesced
      · exact freed.current
    · rw [Pieces.usedPieces_append before]
      rfl
    · intro entry other address low high
      have apart := listed.pieces_apart (mem_usedPieces.mp other).1 placed
      have bounds := listed.piece_bounds placed
      have spared := listed.node_spares freed.node other (by omega : entry.1 ≤ address) high
      simp only at apart bounds
      exact freed.outside address spared (by omega)

theorem Held.store (held : Held layout heap pieces) {header address : Nat} {piece : Piece}
    (member : (header, piece) ∈ usedPieces layout.krnlHeap pieces) (low : header + 8 ≤ address)
    (high : address < header + 8 * piece.quantas) (value : UInt8) :
    Held layout { heap with memory := Function.update heap.memory address value } pieces := by
  rcases held with fresh | pooled
  · exact Or.inl fresh
  · right
    have listed := pooled.listed
    have placed := (mem_usedPieces.mp member).1
    have outside : ∀ other, other ≠ address →
        Function.update heap.memory address value other = heap.memory other :=
      fun other away => Function.update_of_ne away _ _
    have nexts : ∀ z, Node layout pieces z →
        next (Function.update heap.memory address value) z = next heap.memory z := by
      intro z node
      have spared := listed.node_spares node member (by omega : header ≤ address) high
      exact readWord_congr fun other near far => outside other (by omega)
    have sizes : ∀ z, Node layout pieces z →
        size (Function.update heap.memory address value) z = size heap.memory z := by
      intro z node
      have spared := listed.node_spares node member (by omega : header ≤ address) high
      exact readWord_congr fun other near far => outside other (by omega)
    constructor
    · constructor
      · apply listed.tiling.congr_mem
        intro z other otherPlaced stands
        have apart := listed.pieces_apart otherPlaced placed
        have positive := stands.2
        have same : size (Function.update heap.memory address value) z = size heap.memory z := by
          apply readWord_congr
          intro byte near far
          exact outside byte (by omega)
        exact ⟨same.trans stands.1, positive⟩
      · exact listed.ring.congr nexts
      · exact (sizes _ base_node).trans listed.header
      · exact listed.within
    · intro z node further
      simp only [nexts z node] at further
      unfold behind
      simp only [nexts z node, sizes z node]
      exact pooled.coalesced z node further
    · exact pooled.current

theorem Pooled.untouching (pooled : Pooled layout heap pieces) {place other quantas quantas' : Nat}
    (member : (place, ⟨false, quantas⟩) ∈ piecesAt layout.krnlHeap pieces)
    (member' : (other, ⟨false, quantas'⟩) ∈ piecesAt layout.krnlHeap pieces) :
    place + 8 * quantas ≠ other := by
  intro touches
  have listed := pooled.listed
  have node : Node layout pieces place := node_iff.mpr (Or.inr ⟨quantas, member⟩)
  have node' : Node layout pieces other := node_iff.mpr (Or.inr ⟨quantas', member'⟩)
  have bounds := listed.piece_bounds member
  have apart := listed.node_piece_apart (listed.ring.closed node) member
  have clear := listed.ring.clear node node'
  simp only at bounds apart
  by_cases alone : next heap.memory place = place
  · rw [alone, arc_self] at clear
    omega
  · have further := pooled.coalesced place node alone
    rw [listed.behind_eq node, bounds.2.2.1] at further
    unfold Arc at clear
    omega

end PoolHeap

/-- The heap with the pointers that were handed out and not freed yet, each with the size it
was asked for, and the quanta handed out so far. -/
structure PoolWorld where
  heap : PoolHeap
  live : List (Nat × Nat)
  granted : Nat

namespace PoolWorld

open PoolHeap

def start (layout : PoolLayout) (memory : Memory) : PoolWorld :=
  ⟨PoolHeap.heapinit layout memory, [], 0⟩

def owns (world : PoolWorld) (address : Nat) : Prop :=
  ∃ entry ∈ world.live, entry.1 ≤ address ∧ address + 8 < entry.1 + 8 * quantas entry.2

def step (layout : PoolLayout) (fuel : Nat) : HeapOp → PoolWorld → Except Unit PoolWorld
  | .malloc size, world =>
      match world.heap.hfMalloc layout fuel size with
      | none => .error ()
      | some (ptr, heap) =>
          if ptr = 0 then .ok { world with heap := heap }
          else .ok ⟨heap, (ptr, size) :: world.live, world.granted + quantas size⟩
  | .free ptr, world =>
      match world.heap.hfFree fuel ptr with
      | none => .error ()
      | some heap =>
          .ok { world with heap := heap, live := world.live.eraseP fun entry => entry.1 = ptr }
  | .store address value, world =>
      .ok { world with heap := { world.heap with
        memory := Function.update world.heap.memory address value } }

/-- Sizes do not wrap, only live pointers are freed, and clients write inside their pieces. -/
def allowed (layout : PoolLayout) : HeapOp → PoolWorld → Prop
  | .malloc size, _ => layout.heapSize + size + 16 < 4294967296
  | .free ptr, world => ∃ entry ∈ world.live, entry.1 = ptr
  | .store address _, world => world.owns address

structure Sound (layout : PoolLayout) (world : PoolWorld) (pieces : List Piece) : Prop where
  held : Held layout world.heap pieces
  live : Recorded (fun entry => (entry.1, quantas entry.2))
    (fun entry : Nat × Piece => (entry.1 + 8, entry.2.quantas)) world.live
    (usedPieces layout.krnlHeap pieces)
  counter : wrap32 (world.heap.krnlFree + 8 * world.granted) = layout.heapSize

variable {layout : PoolLayout} {world : PoolWorld} {pieces : List Piece} {fuel : Nat}

theorem Sound.piece (sound : Sound layout world pieces) {entry : Nat × Nat}
    (member : entry ∈ world.live) :
    ∃ header piece, (header, piece) ∈ usedPieces layout.krnlHeap pieces ∧ entry.1 = header + 8 ∧
      quantas entry.2 = piece.quantas := by
  obtain ⟨⟨header, piece⟩, used, same⟩ := sound.live.item member
  obtain ⟨pointer, length⟩ := Prod.mk.inj same
  exact ⟨header, piece, used, pointer, length⟩

theorem Sound.malloc (sound : Sound layout world pieces) {size : Nat}
    (small : layout.heapSize + size + 16 < 4294967296) (enough : 2 * layout.heapSize + 8 ≤ fuel) :
    ∃ ptr next pieces', world.heap.hfMalloc layout fuel size = some (ptr, next.heap) ∧
      step layout fuel (.malloc size) world = .ok next ∧ Sound layout next pieces' ∧
      (∀ address, world.owns address → next.heap.memory address = world.heap.memory address) ∧
      (ptr ≠ 0 ↔ Available layout world.heap pieces (quantas size)) := by
  obtain ⟨ptr, heap', pieces', called, held, keeps, outcome⟩ := sound.held.hfMalloc small enough
  have spared : ∀ address, world.owns address → heap'.memory address = world.heap.memory address := by
    rintro address ⟨entry, member, low, high⟩
    obtain ⟨header, piece, used, pointer, length⟩ := sound.piece member
    exact keeps _ used address (by simp only; omega) (by simp only; omega)
  rcases outcome with ⟨null, refused, same, counter⟩ | ⟨available, header, pointer, ⟨before, after, old, new⟩, counter⟩
  · refine ⟨ptr, { world with heap := heap' }, pieces', called, ?_, ?_, spared, ?_⟩
    · simp only [step, called, if_pos null]
    · constructor
      · exact held
      · rw [same]
        exact sound.live
      · simp only [counter]
        exact sound.counter
    · constructor
      · intro nonnull
        exact absurd null nonnull
      · intro available
        exact absurd available refused
  · have nonnull : ptr ≠ 0 := by omega
    refine ⟨ptr, ⟨heap', (ptr, size) :: world.live, world.granted + quantas size⟩, pieces', called, ?_,
      ?_, spared, ?_⟩
    · simp only [step, called, if_neg nonnull]
    · constructor
      · exact held
      · have live := sound.live
        rw [old] at live
        rw [new]
        apply live.insert
        rw [pointer]
      · have paid := sound.counter
        simp only [counter]
        unfold wrap32 at *
        omega
    · exact ⟨fun _ => available, fun _ => nonnull⟩

theorem Sound.free (sound : Sound layout world pieces) {ptr : Nat}
    (owned : ∃ entry ∈ world.live, entry.1 = ptr) (enough : 2 * layout.heapSize + 8 ≤ fuel) :
    ∃ next pieces', step layout fuel (.free ptr) world = .ok next ∧ Sound layout next pieces' ∧
      ∀ address, world.owns address → next.heap.memory address = world.heap.memory address := by
  have tested : ∃ entry ∈ world.live, decide (entry.1 = ptr) = true := by
    obtain ⟨entry, member, same⟩ := owned
    exact ⟨entry, member, by simpa using same⟩
  obtain ⟨freed, _, isPtr, ⟨header, piece⟩, used, same, erased⟩ := sound.live.erase tested
  have pointer : ptr = header + 8 := by
    have freedPtr : freed.1 = ptr := by simpa using isPtr
    rw [← freedPtr]
    exact (Prod.mk.inj same).1
  obtain ⟨heap', pieces', before, after, called, held, old, new, spared, counter⟩ :=
    sound.held.hfFree used enough
  rw [← pointer] at called
  refine ⟨{ world with heap := heap', live := world.live.eraseP fun entry => entry.1 = ptr }, pieces',
    ?_, ?_, ?_⟩
  · simp only [step, called]
  · constructor
    · exact held
    · rw [new]
      exact erased before after old
    · simp only [counter]
      exact sound.counter
  · rintro address ⟨entry, member, low, high⟩
    obtain ⟨own, piece', ownUsed, ownPointer, ownLength⟩ := sound.piece member
    exact spared _ ownUsed address (by simp only; omega) (by simp only; omega)

theorem Sound.store (sound : Sound layout world pieces) {address : Nat} {value : UInt8}
    (owned : world.owns address) :
    ∃ next, step layout fuel (.store address value) world = .ok next ∧ Sound layout next pieces := by
  obtain ⟨entry, member, low, high⟩ := owned
  obtain ⟨header, piece, used, pointer, length⟩ := sound.piece member
  refine ⟨_, rfl, ?_⟩
  constructor
  · exact sound.held.store used (by omega) (by omega) value
  · exact sound.live
  · exact sound.counter

structure Intact (layout : PoolLayout) (world : PoolWorld) (pieces : List Piece) : Prop where
  tiling : Pieces world.heap.memory layout.krnlHeap pieces (layout.krnlHeap + world.heap.poolFreePos)
  within : world.heap.poolFreePos ≤ layout.heapSize
  circle : pieces = [] ∨
    Ring (Node layout pieces) (Heap.next world.heap.memory) ∧ Node layout pieces world.heap.freep
  untouching : ∀ place quantas other quantas', (place, ⟨false, quantas⟩) ∈ piecesAt layout.krnlHeap pieces →
    (other, ⟨false, quantas'⟩) ∈ piecesAt layout.krnlHeap pieces → place + 8 * quantas ≠ other
  inside : ∀ entry ∈ world.live, layout.krnlHeap + 8 ≤ entry.1 ∧
    entry.1 + 8 * (quantas entry.2 - 1) ≤ layout.krnlHeap + world.heap.poolFreePos
  apart : world.live.Pairwise fun first second =>
    first.1 + 8 * quantas first.2 ≤ second.1 ∨ second.1 + 8 * quantas second.2 ≤ first.1
  recovered : world.live = [] → pieces = [] ∨ ∃ quantas, pieces = [⟨false, quantas⟩]
  counter : wrap32 (world.heap.krnlFree + 8 * world.granted) = layout.heapSize

theorem Sound.tiling (sound : Sound layout world pieces) :
    Pieces world.heap.memory layout.krnlHeap pieces (layout.krnlHeap + world.heap.poolFreePos) ∧
      world.heap.poolFreePos ≤ layout.heapSize := by
  rcases sound.held with ⟨_, fresh, none⟩ | pooled
  · rw [none, fresh]
    exact ⟨.done _, Nat.zero_le _⟩
  · have within := pooled.listed.within
    exact ⟨pooled.listed.tiling, by omega⟩

theorem Sound.untouching (sound : Sound layout world pieces) {place quantas other quantas' : Nat}
    (member : (place, ⟨false, quantas⟩) ∈ piecesAt layout.krnlHeap pieces)
    (member' : (other, ⟨false, quantas'⟩) ∈ piecesAt layout.krnlHeap pieces) :
    place + 8 * quantas ≠ other := by
  rcases sound.held with ⟨_, _, none⟩ | pooled
  · rw [none] at member
    cases member
  · exact pooled.untouching member member'

theorem Sound.recovered (sound : Sound layout world pieces) (empty : world.live = []) :
    pieces = [] ∨ ∃ quantas, pieces = [⟨false, quantas⟩] := by
  have counted := List.Perm.length_eq sound.live
  rw [List.length_map, List.length_map, empty] at counted
  have noneUsed : usedPieces layout.krnlHeap pieces = [] := List.length_eq_zero_iff.mp counted.symm
  have free : ∀ {place piece}, (place, piece) ∈ piecesAt layout.krnlHeap pieces → piece.used = false := by
    intro place piece member
    by_contra used
    have held : (place, piece) ∈ usedPieces layout.krnlHeap pieces :=
      mem_usedPieces.mpr ⟨member, by simpa using used⟩
    rw [noneUsed] at held
    cases held
  cases pieces with
  | nil => exact Or.inl rfl
  | cons head rest =>
      obtain ⟨used, quantas⟩ := head
      obtain rfl : used = false := free List.mem_cons_self
      cases rest with
      | nil => exact Or.inr ⟨quantas, rfl⟩
      | cons second rest =>
          obtain ⟨used, quantas'⟩ := second
          obtain rfl : used = false := free (List.mem_cons_of_mem _ List.mem_cons_self)
          exact absurd rfl (sound.untouching List.mem_cons_self
            (List.mem_cons_of_mem _ List.mem_cons_self))

theorem Sound.intact (sound : Sound layout world pieces) : Intact layout world pieces := by
  obtain ⟨tiling, within⟩ := sound.tiling
  constructor
  · exact tiling
  · exact within
  · rcases sound.held with ⟨_, _, none⟩ | pooled
    · exact Or.inl none
    · exact Or.inr ⟨pooled.listed.ring, pooled.current⟩
  · exact fun _ _ _ _ member member' => sound.untouching member member'
  · intro entry member
    obtain ⟨header, piece, used, pointer, length⟩ := sound.piece member
    obtain ⟨low, high, stands⟩ := tiling.inside (mem_usedPieces.mp used).1
    have positive := stands.2
    unfold Piece.len at high
    omega
  · apply sound.live.pairwise fun first second =>
      first.1 + 8 * first.2 ≤ second.1 ∨ second.1 + 8 * second.2 ≤ first.1
    · intro first second apart
      exact apart.symm
    · apply (tiling.apart.filter _).imp
      intro first second before
      unfold Piece.len at before
      left
      simp only
      omega
  · exact sound.recovered
  · exact sound.counter

/-- Over every sequence of calls the pieces tile the grown pool, the free list is sorted,
goes round all free pieces and no two of them touch; every call returns and spares the live
allocations; and a request is granted exactly when a free piece or the pool has room. -/
theorem pool_integrity (layout : PoolLayout) (memory : Memory) (enough : 2 * layout.heapSize + 8 ≤ fuel)
    (reached : Reaches (step layout fuel) (allowed layout) (start layout memory) world) :
    ∃ pieces, Intact layout world pieces ∧
      (∀ op, allowed layout op world → ∃ next, step layout fuel op world = .ok next ∧
        ((∀ address value, op ≠ .store address value) → ∀ address, world.owns address →
          next.heap.memory address = world.heap.memory address)) ∧
      (∀ size, layout.heapSize + size + 16 < 4294967296 → ∃ ptr heap',
        world.heap.hfMalloc layout fuel size = some (ptr, heap') ∧
        (ptr ≠ 0 ↔ Available layout world.heap pieces (quantas size))) := by
  have steps : ∀ {state : PoolWorld} {pieces : List Piece}, Sound layout state pieces → ∀ op,
      allowed layout op state → ∃ next pieces', step layout fuel op state = .ok next ∧
        Sound layout next pieces' ∧
        ((∀ address value, op ≠ .store address value) → ∀ address, state.owns address →
          next.heap.memory address = state.heap.memory address) := by
    intro state pieces sound op admitted
    cases op with
    | malloc size =>
        obtain ⟨_, next, pieces', _, done, kept, same, _⟩ := sound.malloc admitted enough
        exact ⟨next, pieces', done, kept, fun _ => same⟩
    | free ptr =>
        obtain ⟨next, pieces', done, kept, same⟩ := sound.free admitted enough
        exact ⟨next, pieces', done, kept, fun _ => same⟩
    | store address value =>
        obtain ⟨next, done, kept⟩ := sound.store admitted
        exact ⟨next, pieces, done, kept, fun other => absurd rfl (other address value)⟩
  obtain ⟨pieces, sound⟩ : ∃ pieces, Sound layout world pieces := by
    apply reached.invariant fun state => ∃ pieces, Sound layout state pieces
    · refine ⟨[], ?_⟩
      constructor
      · exact Or.inl ⟨rfl, rfl, rfl⟩
      · exact List.Perm.refl _
      · have ends := layout.heapEnds
        exact Nat.mod_eq_of_lt (by simp only [start, PoolHeap.heapinit]; omega)
    · rintro op before after ⟨pieces, sound⟩ admitted stepped
      obtain ⟨next, pieces', done, kept, _⟩ := steps sound op admitted
      rw [done] at stepped
      cases stepped
      exact ⟨pieces', kept⟩
  refine ⟨pieces, sound.intact, ?_, ?_⟩
  · intro op admitted
    obtain ⟨next, _, done, _, same⟩ := steps sound op admitted
    exact ⟨next, done, same⟩
  · intro size small
    obtain ⟨ptr, next, _, called, _, _, _, granted⟩ := sound.malloc small enough
    exact ⟨ptr, next.heap, called, granted⟩

section SmallPool

def smallLayout : PoolLayout where
  krnlHeap := 512
  base := 256
  heapSize := 256
  heapNonnull := by decide
  baseNonnull := HeapWorld.smallRegion.positive
  heapEnds := by decide
  baseEnds := by decide
  apart := by decide
  grows := by decide

instance (layout : PoolLayout) (op : HeapOp) (world : PoolWorld) :
    Decidable (allowed layout op world) :=
  match op with
  | .malloc size => inferInstanceAs (Decidable (layout.heapSize + size + 16 < 4294967296))
  | .free ptr => inferInstanceAs (Decidable (∃ entry ∈ world.live, entry.1 = ptr))
  | .store address _ => inferInstanceAs (Decidable (∃ entry ∈ world.live,
      entry.1 ≤ address ∧ address + 8 < entry.1 + 8 * quantas entry.2))

def pooling : List HeapOp :=
  [.malloc 20, .malloc 40, .store 600 7, .free 616, .malloc 100, .free 568]

theorem pool_integrity_small :
    ∃ pieces, Intact smallLayout
      (outcome (step smallLayout 520) pooling (start smallLayout fun _ => 0)) pieces := by
  obtain ⟨pieces, intact, _⟩ := pool_integrity smallLayout (fun _ => 0)
    (by decide : 2 * smallLayout.heapSize + 8 ≤ 520)
    (outcome_reaches pooling (start smallLayout fun _ => 0) (by decide) (by decide))
  exact ⟨pieces, intact⟩

end SmallPool

end PoolWorld

end Hellfire

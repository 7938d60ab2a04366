import Hellfire.Library.CyclicOrder
import Hellfire.Library.Tiling
import Hellfire.MallocBlocks
import Hellfire.PoolCore

/-!
The pieces of the pool and the circular free list as the memory shows them, and what
`free2` does on them: the freed piece is linked between its neighbours on the circle and
joined with the free pieces that touch it.
-/

namespace Hellfire

open ByteMemory Tiles Cyclic

structure Piece where
  used : Bool
  quantas : Nat
deriving DecidableEq, Repr

def Piece.len (piece : Piece) : Nat := 8 * piece.quantas

namespace PoolHeap

open Heap

def Stands (memory : Memory) (place : Nat) (piece : Piece) : Prop :=
  size memory place = piece.quantas ∧ 0 < piece.quantas

abbrev Pieces (memory : Memory) (start : Nat) (pieces : List Piece) (stop : Nat) : Prop :=
  Tiling Piece.len (Stands memory) start pieces stop

abbrev piecesAt (start : Nat) (pieces : List Piece) : List (Nat × Piece) :=
  places Piece.len start pieces

def usedPieces (start : Nat) (pieces : List Piece) : List (Nat × Piece) :=
  (piecesAt start pieces).filter fun entry => entry.2.used

def nodes (layout : PoolLayout) (pieces : List Piece) : List Nat :=
  layout.base :: ((piecesAt layout.krnlHeap pieces).filter fun entry => !entry.2.used).map Prod.fst

def Node (layout : PoolLayout) (pieces : List Piece) (place : Nat) : Prop :=
  place ∈ nodes layout pieces

structure Listed (layout : PoolLayout) (memory : Memory) (pieces : List Piece) (stop : Nat) :
    Prop where
  tiling : Pieces memory layout.krnlHeap pieces stop
  ring : Ring (Node layout pieces) (next memory)
  header : size memory layout.base = 0
  within : stop ≤ layout.krnlHeap + layout.heapSize

variable {layout : PoolLayout} {memory memory' : Memory} {start middle stop place other : Nat}
  {piece : Piece} {pieces : List Piece}

theorem Stands.positive (stands : Stands memory place piece) : 0 < piece.len := by
  have positive := stands.2
  unfold Piece.len
  omega

theorem node_iff : Node layout pieces place ↔
    place = layout.base ∨ ∃ quantas, (place, ⟨false, quantas⟩) ∈ piecesAt layout.krnlHeap pieces := by
  unfold Node nodes
  rw [List.mem_cons, List.mem_map]
  constructor
  · rintro (base | ⟨⟨at_, used, quantas⟩, member, rfl⟩)
    · exact Or.inl base
    · obtain ⟨member, free⟩ := List.mem_filter.mp member
      obtain rfl : used = false := by simpa using free
      exact Or.inr ⟨quantas, member⟩
  · rintro (base | ⟨quantas, member⟩)
    · exact Or.inl base
    · exact Or.inr ⟨(place, ⟨false, quantas⟩), List.mem_filter.mpr ⟨member, rfl⟩, rfl⟩

theorem base_node : Node layout pieces layout.base := node_iff.mpr (Or.inl rfl)

theorem nodes_length (layout : PoolLayout) (pieces : List Piece) :
    (nodes layout pieces).length ≤ pieces.length + 1 := by
  have count : ∀ start, (piecesAt start pieces).length = pieces.length := by
    induction pieces with
    | nil => exact fun _ => rfl
    | cons piece pieces ih =>
        intro start
        simp only [places, List.length_cons]
        rw [← ih (start + piece.len)]
  have shorter := List.length_filter_le (fun entry => !entry.2.used) (piecesAt layout.krnlHeap pieces)
  rw [count] at shorter
  simp only [nodes, List.length_cons, List.length_map]
  omega

theorem mem_usedPieces {entry : Nat × Piece} :
    entry ∈ usedPieces start pieces ↔ entry ∈ piecesAt start pieces ∧ entry.2.used = true := by
  simp [usedPieces]

theorem Pieces.usedPieces_append {first second : List Piece}
    (front : Pieces memory start first middle) :
    usedPieces start (first ++ second) = usedPieces start first ++ usedPieces middle second := by
  unfold usedPieces piecesAt
  rw [front.places_append, List.filter_append]

def FreeAt (start : Nat) (pieces : List Piece) (place : Nat) : Prop :=
  ∃ quantas, (place, ⟨false, quantas⟩) ∈ piecesAt start pieces

theorem freeAt_free {quantas : Nat} : FreeAt start [⟨false, quantas⟩] place ↔ place = start := by
  simp [FreeAt, places]

theorem freeAt_used {quantas : Nat} : ¬ FreeAt start [⟨true, quantas⟩] place := by
  simp [FreeAt, places]

theorem node_split {front inner : List Piece} (back : List Piece)
    (before : layout.krnlHeap + total Piece.len front = start)
    (here : start + total Piece.len inner = other) :
    Node layout (front ++ (inner ++ back)) place ↔ place = layout.base ∨
      FreeAt layout.krnlHeap front place ∨ FreeAt start inner place ∨ FreeAt other back place := by
  rw [node_iff, piecesAt, places_append, places_append, before, here]
  simp only [List.mem_append, exists_or, FreeAt]

theorem Pieces.usedPieces_split {front inner : List Piece} (back : List Piece)
    (before : Pieces memory start front place) (here : Pieces memory place inner other) :
    usedPieces start (front ++ (inner ++ back)) =
      usedPieces start front ++ (usedPieces place inner ++ usedPieces other back) := by
  rw [Pieces.usedPieces_append before, Pieces.usedPieces_append here]

namespace Listed

theorem piece_bounds (listed : Listed layout memory pieces stop)
    (member : (place, piece) ∈ piecesAt layout.krnlHeap pieces) :
    layout.krnlHeap ≤ place ∧ place + 8 * piece.quantas ≤ stop ∧ size memory place = piece.quantas ∧
      0 < piece.quantas ∧ 8 ≤ 8 * piece.quantas := by
  obtain ⟨low, high, stands⟩ := listed.tiling.inside member
  have positive := stands.2
  exact ⟨low, high, stands.1, positive, by omega⟩

theorem pieces_apart (listed : Listed layout memory pieces stop) {piece' : Piece}
    (member : (place, piece) ∈ piecesAt layout.krnlHeap pieces)
    (member' : (other, piece') ∈ piecesAt layout.krnlHeap pieces) :
    place = other ∧ piece = piece' ∨ place + 8 * piece.quantas ≤ other ∨
      other + 8 * piece'.quantas ≤ place := by
  rcases listed.tiling.same_or_apart member member' with same | apart
  · exact Or.inl (Prod.mk.inj same)
  · exact Or.inr apart

theorem node_bounds (listed : Listed layout memory pieces stop) (node : Node layout pieces place) :
    0 < place ∧ place + 8 < 4294967296 ∧ place + 8 * size memory place < 4294967296 := by
  have heapNonnull := layout.heapNonnull
  have baseNonnull := layout.baseNonnull
  have heapEnds := layout.heapEnds
  have baseEnds := layout.baseEnds
  have within := listed.within
  rcases node_iff.mp node with rfl | ⟨quantas, member⟩
  · rw [listed.header]
    omega
  · have bounds := listed.piece_bounds member
    simp only at bounds
    omega

theorem behind_eq (listed : Listed layout memory pieces stop) (node : Node layout pieces place) :
    behind memory place = place + 8 * size memory place :=
  Nat.mod_eq_of_lt (listed.node_bounds node).2.2

theorem node_piece_apart (listed : Listed layout memory pieces stop)
    (node : Node layout pieces place)
    (member : (other, piece) ∈ piecesAt layout.krnlHeap pieces) :
    place = other ∨ place + 8 ≤ other ∧ place + 8 * size memory place ≤ other ∨
      other + 8 * piece.quantas ≤ place := by
  have bounds := listed.piece_bounds member
  have within := listed.within
  have layoutApart := layout.apart
  rcases node_iff.mp node with rfl | ⟨quantas, member'⟩
  · rw [listed.header]
    omega
  · have bounds' := listed.piece_bounds member'
    have apart := listed.pieces_apart member' member
    simp only at bounds' apart
    omega

theorem nodes_apart (listed : Listed layout memory pieces stop)
    (node : Node layout pieces place) (node' : Node layout pieces other) :
    place = other ∨ place + 8 ≤ other ∨ other + 8 ≤ place := by
  rcases node_iff.mp node' with rfl | ⟨quantas, member⟩
  · rcases node_iff.mp node with rfl | ⟨quantas, member⟩
    · exact Or.inl rfl
    · have apart := listed.node_piece_apart node' member
      have bounds := listed.piece_bounds member
      omega
  · have apart := listed.node_piece_apart node member
    have bounds := listed.piece_bounds member
    omega

theorem touching (listed : Listed layout memory pieces stop) (node : Node layout pieces place)
    (node' : Node layout pieces other)
    (different : other ≠ place) (touches : place + 8 * size memory place = other) :
    ∃ first second, (place, ⟨false, first⟩) ∈ piecesAt layout.krnlHeap pieces ∧
      (other, ⟨false, second⟩) ∈ piecesAt layout.krnlHeap pieces ∧
      size memory place = first ∧ size memory other = second := by
  rcases node_iff.mp node with rfl | ⟨first, member⟩
  · rw [listed.header] at touches
    omega
  · have bounds := listed.piece_bounds member
    have within := listed.within
    have layoutApart := layout.apart
    simp only at bounds
    rcases node_iff.mp node' with rfl | ⟨second, member'⟩
    · omega
    · have bounds' := listed.piece_bounds member'
      exact ⟨first, second, member, member', bounds.2.2.1, bounds'.2.2.1⟩

end Listed

end PoolHeap

end Hellfire

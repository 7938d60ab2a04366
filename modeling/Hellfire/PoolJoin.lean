import Hellfire.PoolList

/-!
`free2` on the free list: the loop finds the node behind which the piece belongs, the piece
is linked there and joined with its neighbours on the circle where they touch.
-/

namespace Hellfire

open ByteMemory Tiles Cyclic

namespace PoolHeap

open Heap

variable {layout : PoolLayout} {memory memory' : Memory} {start middle stop place other : Nat}
  {piece : Piece} {pieces : List Piece} {block p x fuel : Nat}

theorem findSpot_spec (listed : Listed layout memory pieces stop) (fresh : ¬ Node layout pieces block) :
    ∀ {fuel p}, Node layout pieces p → Ring.gap (nodes layout pieces) p block < fuel →
      ∃ spot, Node layout pieces spot ∧ Arc spot (next memory spot) block ∧
        findSpot memory block fuel p = some spot := by
  intro fuel
  induction fuel with
  | zero =>
      intro p _ enough
      omega
  | succ fuel ih =>
      intro p node enough
      by_cases inside : Arc p (next memory p) block
      · refine ⟨p, node, inside, ?_⟩
        rw [findSpot]
        by_cases between : p < block ∧ block < next memory p
        · rw [if_pos between]
        · rw [if_neg between, if_pos (inside.resolve_left between)]
      · have nextNode := listed.ring.closed node
        have distinct : block ≠ next memory p := fun same => fresh (same ▸ nextNode)
        have shorter := Ring.gap_lt (arc_other distinct inside) nextNode
        obtain ⟨spot, spotNode, spotInside, found⟩ := ih nextNode (by omega)
        refine ⟨spot, spotNode, spotInside, ?_⟩
        rw [findSpot, if_neg fun between => inside (Or.inl between),
          if_neg fun around => inside (Or.inr around)]
        exact found

def joinNext (memory : Memory) (x : Nat) : Memory :=
  if behind memory x = next memory x then
    setNext (setSize memory x (wrap32 (size memory x + size memory (next memory x)))) x
      (next memory (next memory x))
  else memory

section Writes

variable {word : Nat}

theorem next_lt (memory : Memory) (p : Nat) : next memory p < 4294967296 := readWord_lt _ _

theorem setNext_again (memory : Memory) (p first second : Nat) :
    setNext (setNext memory p first) p second = setNext memory p second :=
  writeWord_again _ _ _ _

theorem setSize_setNext (memory : Memory) (p first second : Nat) :
    setSize (setNext memory p first) p second = setNext (setSize memory p second) p first :=
  writeWord_swap _ _ _ (Or.inl (Nat.le_refl _))

theorem setSize_setNext_apart (memory : Memory) {p other : Nat} (first second : Nat)
    (apart : p + 8 ≤ other ∨ other + 8 ≤ p) :
    setSize (setNext memory p first) other second = setNext (setSize memory other second) p first :=
  writeWord_swap _ _ _ (by omega)

theorem setNext_setNext_apart (memory : Memory) {p other : Nat} (first second : Nat)
    (apart : p + 8 ≤ other ∨ other + 8 ≤ p) :
    setNext (setNext memory p first) other second = setNext (setNext memory other second) p first :=
  writeWord_swap _ _ _ (by omega)

theorem joinNext_setNext (small : word < 4294967296) (apart : x + 8 ≤ word ∨ word + 8 ≤ x) :
    joinNext (setNext memory x word) x =
      if behind memory x = word then
        setNext (setSize memory x (wrap32 (size memory x + size memory word))) x (next memory word)
      else setNext memory x word := by
  unfold joinNext behind
  rw [next_setNext _ small, size_setNext, size_setNext_apart _ apart, next_setNext_apart _ apart,
    setSize_setNext, setNext_again]

theorem link_eq (blockSmall : block < 4294967296) (apart : p + 8 ≤ block ∨ block + 8 ≤ p)
    (nextApart : block + 8 ≤ next memory p ∨ next memory p + 8 ≤ block)
    (free : next memory p = p ∨ p + 8 ≤ next memory p ∨ next memory p + 8 ≤ p)
    (alone : next memory p = p → behind memory block ≠ next memory p) :
    link memory block p =
      joinNext (joinNext (setNext (setNext memory block (next memory p)) p block) block) p := by
  have small := next_lt memory p
  have swapped : joinNext (setNext (setNext memory block (next memory p)) p block) block =
      setNext (joinNext (setNext memory block (next memory p)) block) p block := by
    rw [setNext_setNext_apart _ _ _ apart.symm, joinNext_setNext small nextApart,
      joinNext_setNext small nextApart]
    have sameBehind : behind (setNext memory p block) block = behind memory block := by
      unfold behind
      rw [size_setNext_apart _ apart]
    rw [sameBehind]
    by_cases touches : behind memory block = next memory p
    · have further : p + 8 ≤ next memory p ∨ next memory p + 8 ≤ p := by
        rcases free with same | far
        · exact absurd touches (alone same)
        · exact far
      rw [if_pos touches, if_pos touches, size_setNext_apart _ apart, size_setNext_apart _ further,
        next_setNext_apart _ further, setSize_setNext_apart _ _ _ apart,
        setNext_setNext_apart _ _ _ apart]
    · rw [if_neg touches, if_neg touches, setNext_setNext_apart _ _ _ apart]
  rw [swapped, joinNext_setNext blockSmall apart, joinNext_setNext small nextApart]
  unfold link
  by_cases touches : behind memory block = next memory p
  · simp only [if_pos touches, next_setSize_apart _ nextApart, next_setSize_apart _ apart.symm,
      next_setSize_apart _ apart]
  · simp only [if_neg touches, next_setSize_apart _ apart]

end Writes

theorem Listed.second_piece {front back : List Piece} {first second : Nat}
    (listed : Listed layout memory (front ++ ([⟨false, first⟩] ++ back)) stop)
    (before : Pieces memory layout.krnlHeap front x)
    (behindX : Pieces memory (x + 8 * first) back stop)
    (member : (x + 8 * first, ⟨false, second⟩) ∈
      piecesAt layout.krnlHeap (front ++ ([⟨false, first⟩] ++ back))) :
    ∃ back', back = ⟨false, second⟩ :: back' := by
  have place : (x, ⟨false, first⟩) ∈ piecesAt layout.krnlHeap (front ++ ([⟨false, first⟩] ++ back)) := by
    rw [piecesAt, before.places_append]
    exact List.mem_append_right _ List.mem_cons_self
  have bounds := listed.piece_bounds place
  simp only at bounds
  apply behindX.starts (fun _ _ stands => stands.positive)
  rw [piecesAt, before.places_append, List.mem_append] at member
  rcases member with inFront | later
  · have within := (before.inside inFront).2.1
    omega
  · rcases List.mem_cons.mp later with same | inBack
    · have equal := (Prod.mk.inj same).1
      omega
    · exact inBack

structure Joined (layout : PoolLayout) (memory memory' : Memory) (pieces pieces' : List Piece)
    (stop x : Nat) : Prop where
  listed : Listed layout memory' pieces' stop
  kept : Node layout pieces' x
  fewer : ∀ z, Node layout pieces' z → Node layout pieces z
  remains : ∀ z, Node layout pieces z → z ≠ next memory x → Node layout pieces' z
  used : usedPieces layout.krnlHeap pieces' = usedPieces layout.krnlHeap pieces
  others : ∀ z, Node layout pieces z → z ≠ x → next memory' z = next memory z ∧
    size memory' z = size memory z
  outside : ∀ address, address < x ∨ x + 8 ≤ address → memory' address = memory address
  grows : ∀ z, Node layout pieces z → ∃ z', Node layout pieces' z' ∧ size memory z ≤ size memory' z'
  settled : (next memory (next memory x) ≠ next memory x →
    behind memory (next memory x) ≠ next memory (next memory x)) →
    behind memory' x ≠ next memory' x

theorem Listed.joined (listed : Listed layout memory pieces stop) (node : Node layout pieces x)
    (different : next memory x ≠ x) :
    ∃ pieces', Joined layout memory (joinNext memory x) pieces pieces' stop x := by
  by_cases touches : behind memory x = next memory x
  · have nextNode := listed.ring.closed node
    have reach := touches
    rw [listed.behind_eq node] at reach
    obtain ⟨first, second, member, member', sizeX, sizeNext⟩ :=
      listed.touching node nextNode different reach
    obtain ⟨front, back, rfl, before, behindX⟩ := listed.tiling.cut_at member
    have boundsX := listed.piece_bounds member
    have boundsNext := listed.piece_bounds member'
    have afterX : x + Piece.len ⟨false, first⟩ = next memory x := by
      rw [← reach, sizeX]
      rfl
    simp only at boundsX boundsNext
    rw [afterX] at behindX
    obtain ⟨back, rfl⟩ := listed.second_piece before (by rw [← afterX] at behindX; exact behindX)
      (by rw [show x + 8 * first = next memory x from afterX]; exact member')
    have behindNext := behindX.head.2
    have heapEnds := layout.heapEnds
    have within := listed.within
    have sum : wrap32 (size memory x + size memory (next memory x)) = first + second := by
      rw [sizeX, sizeNext]
      exact Nat.mod_eq_of_lt (by omega)
    have written : joinNext memory x = setNext (setSize memory x (first + second)) x
        (next memory (next memory x)) := by
      unfold joinNext
      rw [if_pos touches, sum]
    have apartNext : x + 8 ≤ next memory x := by
      unfold Piece.len at afterX
      simp only at afterX
      omega
    have outside : ∀ address, address < x ∨ x + 8 ≤ address →
        joinNext memory x address = memory address := by
      intro address away
      rw [written, setNext_outside _ away, setSize_outside _ away]
    have others : ∀ z, z + 8 ≤ x ∨ x + 8 ≤ z → next (joinNext memory x) z = next memory z ∧
        size (joinNext memory x) z = size memory z := by
      intro z away
      constructor
      · exact readWord_congr fun address low high => outside address (by omega)
      · exact readWord_congr fun address low high => outside address (by omega)
    have sizeAfter : size (joinNext memory x) x = first + second := by
      rw [written, size_setNext, size_setSize _ (by omega)]
    have nextAfter : next (joinNext memory x) x = next memory (next memory x) := by
      rw [written, next_setNext _ (next_lt _ _)]
    have before' : Pieces (joinNext memory x) layout.krnlHeap front x := by
      apply before.congr_mem
      intro z piece inFront stands
      have above := (before.inside inFront).2.1
      have positive := stands.2
      unfold Piece.len at above
      exact ⟨(others z (by omega)).2.trans stands.1, stands.2⟩
    have here' : Pieces (joinNext memory x) x [⟨false, first + second⟩]
        (next memory x + Piece.len ⟨false, second⟩) := by
      have reachNext : next memory x + Piece.len ⟨false, second⟩ =
          x + Piece.len ⟨false, first + second⟩ := by
        unfold Piece.len at *
        simp only at *
        omega
      rw [reachNext]
      exact Tiling.single ⟨sizeAfter, by simp only; omega⟩
    have behind' : Pieces (joinNext memory x) (next memory x + Piece.len ⟨false, second⟩) back
        stop := by
      apply behindNext.congr_mem
      intro z piece inBack stands
      have above := (behindNext.inside inBack).1
      exact ⟨(others z (by omega)).2.trans stands.1, stands.2⟩
    have here : Pieces memory x [⟨false, first⟩, ⟨false, second⟩]
        (next memory x + Piece.len ⟨false, second⟩) := by
      apply Tiling.piece ⟨sizeX, by simp only; omega⟩
      rw [afterX]
      exact Tiling.single ⟨sizeNext, by simp only; omega⟩
    have nodeAfter : ∀ z, Node layout (front ++ ([⟨false, first + second⟩] ++ back)) z ↔
        Node layout (front ++ ([⟨false, first⟩] ++ ⟨false, second⟩ :: back)) z ∧ z ≠ next memory x := by
      have layoutApart := layout.apart
      intro z
      have split : Node layout (front ++ ([⟨false, first⟩] ++ ⟨false, second⟩ :: back)) z ↔ _ :=
        node_split back before.total here.total
      have two : FreeAt x [⟨false, first⟩, ⟨false, second⟩] z ↔ z = x ∨ z = next memory x := by
        rw [← afterX]
        simp [FreeAt, places, exists_or]
      rw [split, node_split back before'.total here'.total, two, freeAt_free]
      constructor
      · rintro (rfl | inFront | rfl | inBack)
        · exact ⟨Or.inl rfl, by omega⟩
        · obtain ⟨quantas, member⟩ := inFront
          have away := (before.inside member).2.1
          exact ⟨Or.inr (Or.inl ⟨quantas, member⟩), by omega⟩
        · exact ⟨Or.inr (Or.inr (Or.inl (Or.inl rfl))), fun same => different same.symm⟩
        · obtain ⟨quantas, member⟩ := inBack
          have away := (behindNext.inside member).1
          unfold Piece.len at away
          simp only at away
          exact ⟨Or.inr (Or.inr (Or.inr ⟨quantas, member⟩)), by omega⟩
      · rintro ⟨base | inFront | (atX | atNext) | inBack, distinct⟩
        · exact Or.inl base
        · exact Or.inr (Or.inl inFront)
        · exact Or.inr (Or.inr (Or.inl atX))
        · exact absurd atNext distinct
        · exact Or.inr (Or.inr (Or.inr inBack))
    refine ⟨front ++ ([⟨false, first + second⟩] ++ back), ?_⟩
    constructor
    · constructor
      · exact before'.append (here'.append behind')
      · apply Ring.congr_node _ nodeAfter
        apply listed.ring.remove node rfl different nextAfter
        intro z old distinct _
        exact (others z (by have := listed.nodes_apart old node; omega)).1
      · have apart := listed.node_piece_apart base_node member
        have layoutApart := layout.apart
        rw [← listed.header]
        exact (others _ (by simp only at apart; omega)).2
      · exact listed.within
    · exact (nodeAfter x).mpr ⟨node, fun same => different same.symm⟩
    · exact fun z old => ((nodeAfter z).mp old).1
    · exact fun z old distinct => (nodeAfter z).mpr ⟨old, distinct⟩
    · have usedBefore : usedPieces layout.krnlHeap
          (front ++ ([⟨false, first⟩] ++ ⟨false, second⟩ :: back)) = _ :=
        Pieces.usedPieces_split back before here
      rw [Pieces.usedPieces_split back before' here', usedBefore]
      rfl
    · intro z old distinct
      exact others z (by have := listed.nodes_apart old node; omega)
    · exact outside
    · intro z old
      by_cases gone : z = next memory x
      · refine ⟨x, (nodeAfter x).mpr ⟨node, fun same => different same.symm⟩, ?_⟩
        rw [gone, sizeNext, sizeAfter]
        omega
      · refine ⟨z, (nodeAfter z).mpr ⟨old, gone⟩, ?_⟩
        by_cases same : z = x
        · rw [same, sizeX, sizeAfter]
          omega
        · rw [(others z (by have := listed.nodes_apart old node; omega)).2]
    · intro settled
      have further : next memory (next memory x) ≠ next memory x := by
        intro same
        have clear := listed.ring.clear nextNode node
        rw [same, arc_self] at clear
        exact clear fun equal => different equal.symm
      have apart := settled further
      unfold behind at apart ⊢
      rw [nextAfter, sizeAfter]
      rw [sizeNext] at apart
      have reachNext : x + 8 * (first + second) = next memory x + 8 * second := by omega
      rw [reachNext]
      exact apart
  · refine ⟨pieces, ?_⟩
    have same : joinNext memory x = memory := by
      unfold joinNext
      rw [if_neg touches]
    rw [same]
    constructor
    · exact listed
    · exact node
    · exact fun z here => here
    · exact fun z here _ => here
    · rfl
    · intro z _ _
      exact ⟨rfl, rfl⟩
    · intro address _
      rfl
    · intro z here
      exact ⟨z, here, Nat.le_refl _⟩
    · exact fun _ => touches

def inserted (memory : Memory) (block p : Nat) : Memory :=
  setNext (setNext memory block (next memory p)) p block

section Insert

variable {front back : List Piece} {b : Nat}

theorem size_inserted (near : place = block ∨ place + 8 ≤ block ∨ block + 8 ≤ place)
    (near' : place = p ∨ place + 8 ≤ p ∨ p + 8 ≤ place) :
    size (inserted memory block p) place = size memory place := by
  have first : size (setNext memory block (next memory p)) place = size memory place := by
    rcases near with rfl | apart
    · exact size_setNext _ _
    · exact size_setNext_apart _ apart.symm
  rcases near' with rfl | apart
  · exact (size_setNext _ _).trans first
  · exact (size_setNext_apart _ apart.symm).trans first

theorem Listed.node_insert (before : Pieces memory layout.krnlHeap front block) :
    Node layout (front ++ ([⟨false, b⟩] ++ back)) place ↔
      place = block ∨ Node layout (front ++ ([⟨true, b⟩] ++ back)) place := by
  rw [node_iff, node_iff, piecesAt, piecesAt, before.places_append, before.places_append]
  simp only [List.singleton_append, places, List.mem_append, List.mem_cons, Prod.mk.injEq,
    Piece.mk.injEq, reduceCtorEq, false_and, and_false, false_or, true_and]
  constructor
  · rintro (base | ⟨quantas, inFront | ⟨same, _⟩ | inBack⟩)
    · exact Or.inr (Or.inl base)
    · exact Or.inr (Or.inr ⟨quantas, Or.inl inFront⟩)
    · exact Or.inl same
    · exact Or.inr (Or.inr ⟨quantas, Or.inr inBack⟩)
  · rintro (same | base | ⟨quantas, inFront | inBack⟩)
    · exact Or.inr ⟨b, Or.inr (Or.inl ⟨same, rfl⟩)⟩
    · exact Or.inl base
    · exact Or.inr ⟨quantas, Or.inl inFront⟩
    · exact Or.inr ⟨quantas, Or.inr (Or.inr inBack)⟩

theorem Listed.linked (listed : Listed layout memory (front ++ ([⟨true, b⟩] ++ back)) stop)
    (before : Pieces memory layout.krnlHeap front block)
    (node : Node layout (front ++ ([⟨true, b⟩] ++ back)) p)
    (inside : Arc p (next memory p) block) :
    Listed layout (inserted memory block p) (front ++ ([⟨false, b⟩] ++ back)) stop ∧
      next (inserted memory block p) block = next memory p ∧
      next (inserted memory block p) p = block ∧
      ∀ z, Node layout (front ++ ([⟨true, b⟩] ++ back)) z → z ≠ p →
        next (inserted memory block p) z = next memory z := by
  have member : (block, ⟨true, b⟩) ∈ piecesAt layout.krnlHeap (front ++ ([⟨true, b⟩] ++ back)) := by
    rw [piecesAt, before.places_append]
    exact List.mem_append_right _ List.mem_cons_self
  have bounds := listed.piece_bounds member
  have within := listed.within
  have heapEnds := layout.heapEnds
  simp only at bounds
  have notNode : ∀ {z}, Node layout (front ++ ([⟨true, b⟩] ++ back)) z → z ≠ block := by
    rintro z here rfl
    exact listed.ring.clear node here inside
  have apart : ∀ {z}, Node layout (front ++ ([⟨true, b⟩] ++ back)) z → z + 8 ≤ block ∨ block + 8 ≤ z := by
    intro z here
    have away := listed.node_piece_apart here member
    have other := notNode here
    simp only at away
    omega
  have atBlock : next (inserted memory block p) block = next memory p := by
    rw [inserted, next_setNext_apart _ (apart node), next_setNext _ (next_lt _ _)]
  have atNode : next (inserted memory block p) p = block := next_setNext _ (by omega)
  have others : ∀ z, Node layout (front ++ ([⟨true, b⟩] ++ back)) z → z ≠ p →
      next (inserted memory block p) z = next memory z := by
    intro z here different
    have away := listed.nodes_apart here node
    rw [inserted, next_setNext_apart _ (by omega), next_setNext_apart _ (apart here).symm]
  refine ⟨?_, atBlock, atNode, others⟩
  constructor
  · have sizes : ∀ {z piece}, (z, piece) ∈
        piecesAt layout.krnlHeap (front ++ ([⟨true, b⟩] ++ back)) →
        size (inserted memory block p) z = size memory z := by
      intro z piece here
      have away := listed.pieces_apart here member
      have away' := listed.node_piece_apart node here
      have boundsZ := listed.piece_bounds here
      simp only at away
      exact size_inserted (by omega) (by omega)
    have whole : Pieces (inserted memory block p) layout.krnlHeap (front ++ ([⟨true, b⟩] ++ back)) stop :=
      listed.tiling.congr_mem (by
      intro z piece here stands
      exact ⟨(sizes here).trans stands.1, stands.2⟩)
    obtain ⟨middle, before', behind'⟩ := whole.cut
    obtain rfl : middle = block := by
      rw [← before'.total, ← before.total]
    apply before'.append
    apply Tiling.piece
    · exact behind'.head.1
    · exact behind'.head.2
  · apply Ring.congr_node _ fun z => node_insert before
    exact listed.ring.insert node inside atBlock atNode others
  · rw [← listed.header]
    exact size_inserted (Or.inr (apart base_node)) (by
      have away := listed.nodes_apart base_node node
      omega)
  · exact listed.within

def Coalesced (layout : PoolLayout) (memory : Memory) (pieces : List Piece) : Prop :=
  ∀ z, Node layout pieces z → next memory z ≠ z → behind memory z ≠ next memory z

structure Freed (layout : PoolLayout) (memory memory' : Memory) (pieces pieces' : List Piece)
    (stop block p : Nat) : Prop where
  listed : Listed layout memory' pieces' stop
  coalesced : Coalesced layout memory' pieces'
  current : Node layout pieces' p
  node : Node layout pieces p
  outside : ∀ address, address < p ∨ p + 8 ≤ address → address < block ∨ block + 8 ≤ address →
    memory' address = memory address
  grows : ∀ z, z = block ∨ Node layout pieces z →
    ∃ z', Node layout pieces' z' ∧ size memory z ≤ size memory' z'

theorem Listed.freed (heap : PoolHeap)
    (listed : Listed layout heap.memory (front ++ ([⟨true, b⟩] ++ back)) stop)
    (before : Pieces heap.memory layout.krnlHeap front block)
    (coalesced : Coalesced layout heap.memory (front ++ ([⟨true, b⟩] ++ back)))
    (current : Node layout (front ++ ([⟨true, b⟩] ++ back)) heap.freep)
    (enough : front.length + back.length + 2 < fuel) :
    ∃ p memory' pieces', free2 fuel (block + 8) heap = some { heap with memory := memory', freep := p } ∧
      Freed layout heap.memory memory' (front ++ ([⟨true, b⟩] ++ back)) pieces' stop block p ∧
      usedPieces layout.krnlHeap pieces' =
        usedPieces layout.krnlHeap front ++ usedPieces (block + 8 * b) back := by
  have member : (block, ⟨true, b⟩) ∈ piecesAt layout.krnlHeap (front ++ ([⟨true, b⟩] ++ back)) := by
    rw [piecesAt, before.places_append]
    exact List.mem_append_right _ List.mem_cons_self
  have bounds := listed.piece_bounds member
  have within := listed.within
  have heapEnds := layout.heapEnds
  have layoutApart := layout.apart
  simp only at bounds
  have notUsed : ∀ {z}, Node layout (front ++ ([⟨true, b⟩] ++ back)) z → z ≠ block := by
    rintro z here rfl
    rcases node_iff.mp here with base | ⟨quantas, member'⟩
    · omega
    · have apart := listed.pieces_apart member' member
      have bounds' := listed.piece_bounds member'
      simp only [Piece.mk.injEq, reduceCtorEq, false_and, and_false, false_or] at apart bounds'
      omega
  have apart : ∀ {z}, Node layout (front ++ ([⟨true, b⟩] ++ back)) z → z + 8 ≤ block ∨ block + 8 ≤ z := by
    intro z here
    have away := listed.node_piece_apart here member
    have other := notUsed here
    simp only at away
    omega
  have short := Ring.gap_le (nodes layout (front ++ ([⟨true, b⟩] ++ back))) heap.freep block
  have count := nodes_length layout (front ++ ([⟨true, b⟩] ++ back))
  simp only [List.length_append, List.length_singleton] at count
  obtain ⟨p, node, inside, found⟩ := findSpot_spec listed (fun here => notUsed here rfl) current
    (by omega : Ring.gap (nodes layout (front ++ ([⟨true, b⟩] ++ back))) heap.freep block < fuel)
  have nextNode := listed.ring.closed node
  obtain ⟨fresh, atBlock, atNode, others⟩ := listed.linked before node inside
  have blockNode : Node layout (front ++ ([⟨false, b⟩] ++ back)) block :=
    (Listed.node_insert before).mpr (Or.inl rfl)
  have pNode : Node layout (front ++ ([⟨false, b⟩] ++ back)) p :=
    (Listed.node_insert before).mpr (Or.inr node)
  have sizes : ∀ z, z = block ∨ Node layout (front ++ ([⟨true, b⟩] ++ back)) z →
      size (inserted heap.memory block p) z = size heap.memory z := by
    rintro z (rfl | here)
    · exact size_inserted (Or.inl rfl) (Or.inr (apart node).symm)
    · exact size_inserted (Or.inr (apart here)) (by
        have away := listed.nodes_apart here node
        omega)
  -- first the piece takes in its successor, then its predecessor takes in the piece
  obtain ⟨pieces₁, joined⟩ := fresh.joined blockNode (by
    rw [atBlock]
    exact notUsed nextNode)
  have alone : next heap.memory p = p → p = layout.base := by
    intro same
    have clear := listed.ring.clear node base_node
    rw [same, arc_self] at clear
    exact (not_not.mp clear).symm
  have pKept : Node layout pieces₁ p := by
    by_cases same : next heap.memory p = p
    · rw [alone same]
      exact base_node
    · apply joined.remains p pNode
      rw [atBlock]
      exact fun same' => same same'.symm
  have nextP : next (joinNext (inserted heap.memory block p) block) p = block := by
    rw [(joined.others p pNode (notUsed node)).1, atNode]
  obtain ⟨pieces₂, joined'⟩ := joined.listed.joined pKept (by
    rw [nextP]
    exact fun same => notUsed node same.symm)
  have oldNode : ∀ z, Node layout pieces₂ z → z ≠ block →
      Node layout (front ++ ([⟨true, b⟩] ++ back)) z := by
    intro z here different
    have between := joined.fewer z (joined'.fewer z here)
    exact ((Listed.node_insert before).mp between).resolve_left different
  have blockSettled : behind (joinNext (inserted heap.memory block p) block) block ≠
      next (joinNext (inserted heap.memory block p) block) block := by
    apply joined.settled
    rw [atBlock]
    unfold behind
    intro further
    rw [sizes _ (Or.inr nextNode)]
    by_cases same : next heap.memory p = p
    · rw [same, atNode, alone same, listed.header]
      have small := layout.baseEnds
      unfold wrap32
      omega
    · rw [others _ nextNode same] at further ⊢
      exact coalesced _ nextNode further
  refine ⟨p, joinNext (joinNext (inserted heap.memory block p) block) p, pieces₂, ?_, ?_, ?_⟩
  · have linked := link_eq (by omega : block < 4294967296) (apart node)
      (apart nextNode).symm (by
        have away := listed.nodes_apart nextNode node
        omega)
      (by
        intro same
        rw [same, alone same]
        unfold behind wrap32
        omega)
    have back : wrap32 (block + 8 + 4294967296 - 8) = block := by
      unfold wrap32
      omega
    simp only [free2, back, found, linked]
    rfl
  · constructor
    · exact joined'.listed
    · intro z here different
      by_cases atP : z = p
      · rw [atP]
        apply joined'.settled
        rw [nextP]
        exact fun _ => blockSettled
      · have between := joined'.fewer z here
        have same' := joined'.others z between atP
        unfold behind
        rw [same'.1] at different
        rw [same'.1, same'.2]
        by_cases isBlock : z = block
        · rw [isBlock]
          exact blockSettled
        · have old := oldNode z here isBlock
          have same := joined.others z (joined.fewer z between) isBlock
          rw [same.1, others z old atP] at different
          rw [same.1, same.2, sizes z (Or.inr old), others z old atP]
          exact coalesced z old different
    · exact joined'.kept
    · exact node
    · intro address awayP awayBlock
      rw [joined'.outside address awayP, joined.outside address awayBlock, inserted,
        setNext_outside _ awayP, setNext_outside _ awayBlock]
    · intro z here
      obtain ⟨z₁, node₁, larger₁⟩ := joined.grows z ((Listed.node_insert before).mpr here)
      obtain ⟨z₂, node₂, larger₂⟩ := joined'.grows z₁ node₁
      rw [sizes z here] at larger₁
      exact ⟨z₂, node₂, by omega⟩
  · rw [joined'.used, joined.used, Pieces.usedPieces_append before]
    rfl

end Insert

end PoolHeap

end Hellfire

import Hellfire.PoolJoin

/-!
`hf_malloc` of the pool allocator: the search goes round the free list, hands out a piece
or the end of one, and lets the pool grow when it came round in vain.
-/

namespace Hellfire

open ByteMemory Tiles Cyclic

namespace PoolHeap

open Heap

structure Pooled (layout : PoolLayout) (heap : PoolHeap) (pieces : List Piece) : Prop where
  listed : Listed layout heap.memory pieces (layout.krnlHeap + heap.poolFreePos)
  coalesced : Coalesced layout heap.memory pieces
  current : Node layout pieces heap.freep

def Keeps (layout : PoolLayout) (pieces : List Piece) (memory memory' : Memory) : Prop :=
  ∀ entry ∈ usedPieces layout.krnlHeap pieces, ∀ address, entry.1 ≤ address →
    address < entry.1 + 8 * entry.2.quantas → memory' address = memory address

variable {layout : PoolLayout} {heap : PoolHeap} {memory memory' : Memory} {pieces : List Piece}
  {stop start place other n p bound : Nat}

theorem Listed.node_spares (listed : Listed layout memory pieces stop) (node : Node layout pieces p)
    {entry : Nat × Piece} (member : entry ∈ usedPieces layout.krnlHeap pieces) {address : Nat}
    (low : entry.1 ≤ address) (high : address < entry.1 + 8 * entry.2.quantas) :
    address < p ∨ p + 8 ≤ address := by
  obtain ⟨placed, used⟩ := mem_usedPieces.mp member
  have bounds := listed.piece_bounds placed
  have within := listed.within
  have layoutApart := layout.apart
  rcases node_iff.mp node with base | ⟨quantas, member'⟩
  · omega
  · have apart := listed.pieces_apart member' placed
    have bounds' := listed.piece_bounds member'
    rcases apart with ⟨_, same⟩ | before | behind
    · rw [← same] at used
      cases used
    · simp only at before bounds'
      omega
    · omega

theorem Listed.large_node (listed : Listed layout memory pieces stop) (node : Node layout pieces p)
    (positive : 0 < n) (large : n ≤ size memory p) :
    ∃ quantas, (p, ⟨false, quantas⟩) ∈ piecesAt layout.krnlHeap pieces ∧ size memory p = quantas ∧
      n ≤ quantas := by
  rcases node_iff.mp node with rfl | ⟨quantas, member⟩
  · have header := listed.header
    omega
  · have same := (listed.piece_bounds member).2.2.1
    exact ⟨quantas, member, same, by simp only at same; omega⟩

structure Served (layout : PoolLayout) (heap heap' : PoolHeap) (pieces pieces' : List Piece)
    (n header : Nat) : Prop where
  pooled : Pooled layout heap' pieces'
  keeps : Keeps layout pieces heap.memory heap'.memory
  cut : ∃ before after, usedPieces layout.krnlHeap pieces = before ++ after ∧
    usedPieces layout.krnlHeap pieces' = before ++ (header, ⟨true, n⟩) :: after
  grown : heap'.poolFreePos = heap.poolFreePos
  counter : heap'.krnlFree = wrap32 (heap.krnlFree + 4294967296 - wrap32 (n * 8))

theorem Pooled.serve_whole (pooled : Pooled layout heap pieces) (prev : Node layout pieces place)
    (leads : next heap.memory place = p) (member : (p, ⟨false, n⟩) ∈ piecesAt layout.krnlHeap pieces) :
    ∃ heap' pieces', serve n place p heap = (p + 8, heap') ∧
      Served layout heap heap' pieces pieces' n p := by
  have listed := pooled.listed
  have bounds := listed.piece_bounds member
  have within := listed.within
  have heapEnds := layout.heapEnds
  have layoutApart := layout.apart
  simp only at bounds
  have node : Node layout pieces p := leads ▸ listed.ring.closed prev
  have notBase : p ≠ layout.base := by omega
  have distinct : p ≠ place := by
    intro same
    have clear := listed.ring.clear prev base_node
    rw [leads, ← same, arc_self] at clear
    exact clear fun equal => notBase equal.symm
  have apart := listed.nodes_apart prev node
  obtain ⟨front, back, rfl, before, behindP⟩ := listed.tiling.cut_at member
  have here : Pieces heap.memory p [⟨false, n⟩] (p + Piece.len ⟨false, n⟩) :=
    Tiling.single ⟨bounds.2.2.1, bounds.2.2.2.1⟩
  have sizes : ∀ z, z = place ∨ z + 8 ≤ place ∨ place + 8 ≤ z →
      size (setNext heap.memory place (next heap.memory p)) z = size heap.memory z := by
    rintro z (rfl | away)
    · exact size_setNext _ _
    · exact size_setNext_apart _ away.symm
  have nextPrev : next (setNext heap.memory place (next heap.memory p)) place = next heap.memory p :=
    next_setNext _ (next_lt _ _)
  have others : ∀ z, Node layout (front ++ ([⟨false, n⟩] ++ back)) z → z ≠ place →
      next (setNext heap.memory place (next heap.memory p)) z = next heap.memory z := by
    intro z old different
    have away := listed.nodes_apart old prev
    exact next_setNext_apart _ (by omega)
  have nodeAfter : ∀ z, Node layout (front ++ ([⟨true, n⟩] ++ back)) z ↔
      Node layout (front ++ ([⟨false, n⟩] ++ back)) z ∧ z ≠ p := by
    intro z
    have here' : p + total Piece.len [⟨true, n⟩] = p + Piece.len ⟨false, n⟩ := here.total
    rw [node_split back before.total here.total, node_split back before.total here', freeAt_free]
    constructor
    · rintro (rfl | ⟨quantas, inFront⟩ | none | ⟨quantas, inBack⟩)
      · exact ⟨Or.inl rfl, fun same => notBase same.symm⟩
      · have above := (before.inside inFront).2
        have positive := above.2.2
        unfold Piece.len at above
        exact ⟨Or.inr (Or.inl ⟨quantas, inFront⟩), by simp only at above positive; omega⟩
      · exact absurd none freeAt_used
      · have below := (behindP.inside inBack).1
        unfold Piece.len at below
        exact ⟨Or.inr (Or.inr (Or.inr ⟨quantas, inBack⟩)), by simp only at below; omega⟩
    · rintro ⟨base | inFront | atP | inBack, different⟩
      · exact Or.inl base
      · exact Or.inr (Or.inl inFront)
      · exact absurd atP different
      · exact Or.inr (Or.inr (Or.inr inBack))
  have stopped : ∀ z, Node layout (front ++ ([⟨false, n⟩] ++ back)) z → z ≠ place → z ≠ p →
      next heap.memory z ≠ z → behind (setNext heap.memory place (next heap.memory p)) z ≠
        next (setNext heap.memory place (next heap.memory p)) z := by
    intro z old different _ further
    have away := listed.nodes_apart old prev
    unfold behind
    rw [others z old different, sizes z (by omega)]
    exact pooled.coalesced z old further
  -- the node before does not reach to the one behind: the piece was in between
  have short : next heap.memory p ≠ place → behind heap.memory place ≠ next heap.memory p := by
    intro further touches
    rw [listed.behind_eq prev] at touches
    have nextNode := listed.ring.closed node
    have away := listed.node_piece_apart prev member
    have away' := listed.nodes_apart nextNode node
    have clear := listed.ring.clear prev nextNode
    have clear' := listed.ring.clear node prev
    rw [leads] at clear
    unfold Arc at clear clear'
    simp only at away
    omega
  refine ⟨{ heap with
    memory := setNext heap.memory place (next heap.memory p)
    freep := place
    krnlFree := wrap32 (heap.krnlFree + 4294967296 - wrap32 (n * 8)) },
    front ++ ([⟨true, n⟩] ++ back), ?_, ?_⟩
  · have pointer : wrap32 (p + 8) = p + 8 := Nat.mod_eq_of_lt (by omega)
    have size' : size (setNext heap.memory place (next heap.memory p)) p = n := by
      rw [sizes p (by omega), bounds.2.2.1]
    simp only [serve, if_pos bounds.2.2.1, pointer, size']
  · constructor
    · constructor
      · constructor
        · have tiling : Pieces (setNext heap.memory place (next heap.memory p)) layout.krnlHeap
              (front ++ ([⟨false, n⟩] ++ back)) (layout.krnlHeap + heap.poolFreePos) :=
            listed.tiling.congr_mem (by
              intro z piece placed stands
              have away := listed.node_piece_apart prev placed
              have positive := stands.2
              exact ⟨(sizes z (by omega)).trans stands.1, positive⟩)
          obtain ⟨middle, before', behind'⟩ := tiling.cut
          obtain rfl : middle = p := by
            rw [← before'.total, before.total]
          apply before'.append
          apply Tiling.piece
          · exact behind'.head.1
          · exact behind'.head.2
        · apply Ring.congr_node _ nodeAfter
          apply listed.ring.remove prev leads distinct nextPrev
          intro z old different _
          exact others z old different
        · rw [← listed.header]
          exact sizes _ (by
            have away := listed.nodes_apart base_node prev
            omega)
        · exact within
      · intro z new further
        obtain ⟨old, different⟩ := (nodeAfter z).mp new
        by_cases atPrev : z = place
        · rw [atPrev, nextPrev] at further
          unfold behind
          rw [atPrev, nextPrev, sizes place (Or.inl rfl)]
          exact short further
        · simp only [others z old atPrev] at further
          exact stopped z old atPrev different further
      · exact (nodeAfter place).mpr ⟨prev, fun same => distinct same.symm⟩
    · intro entry used address low high
      exact setNext_outside _ (listed.node_spares prev used low high)
    · refine ⟨usedPieces layout.krnlHeap front, usedPieces (p + 8 * n) back, ?_, ?_⟩
      · rw [Pieces.usedPieces_append before]
        rfl
      · rw [Pieces.usedPieces_append before]
        rfl
    · rfl
    · rfl

theorem Pooled.serve_part (pooled : Pooled layout heap pieces) (prev : Node layout pieces place)
    (leads : next heap.memory place = p) {whole : Nat}
    (member : (p, ⟨false, whole⟩) ∈ piecesAt layout.krnlHeap pieces) (positive : 0 < n)
    (larger : n < whole) :
    ∃ heap' pieces' header, serve n place p heap = (header + 8, heap') ∧
      Served layout heap heap' pieces pieces' n header := by
  have listed := pooled.listed
  have bounds := listed.piece_bounds member
  have within := listed.within
  have heapEnds := layout.heapEnds
  have layoutApart := layout.apart
  simp only at bounds
  have node : Node layout pieces p := leads ▸ listed.ring.closed prev
  obtain ⟨front, back, rfl, before, behindP⟩ := listed.tiling.cut_at member
  obtain ⟨header, atEnd⟩ : ∃ header, header = p + 8 * (whole - n) := ⟨_, rfl⟩
  have rest : wrap32 (size heap.memory p + 4294967296 - n) = whole - n := by
    rw [bounds.2.2.1]
    unfold wrap32
    omega
  have place' : behind (setSize heap.memory p (whole - n)) p = header := by
    unfold behind
    rw [size_setSize _ (by omega), atEnd]
    exact Nat.mod_eq_of_lt (by omega)
  have outside : ∀ address, address < p ∨ p + 8 * whole ≤ address →
      setSize (setSize heap.memory p (whole - n)) header n address = heap.memory address := by
    intro address away
    rw [setSize_outside _ (by omega), setSize_outside _ (by omega)]
  have same : ∀ z, z + 8 ≤ p ∨ p + 8 * whole ≤ z →
      next (setSize (setSize heap.memory p (whole - n)) header n) z = next heap.memory z ∧
      size (setSize (setSize heap.memory p (whole - n)) header n) z = size heap.memory z := by
    intro z away
    constructor
    · exact readWord_congr fun address low high => outside address (by omega)
    · exact readWord_congr fun address low high => outside address (by omega)
  have sizeP : size (setSize (setSize heap.memory p (whole - n)) header n) p = whole - n := by
    rw [size_setSize_apart _ (by omega), size_setSize _ (by omega)]
  have nextP : next (setSize (setSize heap.memory p (whole - n)) header n) p = next heap.memory p := by
    rw [next_setSize_apart _ (by omega), next_setSize]
  have sizeHeader : size (setSize (setSize heap.memory p (whole - n)) header n) header = n :=
    size_setSize _ (by omega)
  have away : ∀ z, Node layout (front ++ ([⟨false, whole⟩] ++ back)) z → z ≠ p →
      z + 8 ≤ p ∨ p + 8 * whole ≤ z := by
    intro z old different
    have apart := listed.node_piece_apart old member
    simp only at apart
    omega
  have nexts : ∀ z, Node layout (front ++ ([⟨false, whole⟩] ++ back)) z →
      next (setSize (setSize heap.memory p (whole - n)) header n) z = next heap.memory z := by
    intro z old
    by_cases atP : z = p
    · rw [atP, nextP]
    · exact (same z (away z old atP)).1
  have here : Pieces heap.memory p [⟨false, whole⟩] (p + Piece.len ⟨false, whole⟩) :=
    Tiling.single ⟨bounds.2.2.1, bounds.2.2.2.1⟩
  have here' : Pieces (setSize (setSize heap.memory p (whole - n)) header n) p
      [⟨false, whole - n⟩, ⟨true, n⟩] (p + Piece.len ⟨false, whole⟩) := by
    have reach : header + Piece.len ⟨true, n⟩ = p + Piece.len ⟨false, whole⟩ := by
      unfold Piece.len
      simp only
      omega
    apply Tiling.piece ⟨sizeP, by simp only; omega⟩
    have start : p + Piece.len ⟨false, whole - n⟩ = header := atEnd.symm
    rw [start, ← reach]
    exact Tiling.single ⟨sizeHeader, positive⟩
  have before' : Pieces (setSize (setSize heap.memory p (whole - n)) header n) layout.krnlHeap front
      p := by
    apply before.congr_mem
    intro z piece inFront stands
    have above := (before.inside inFront).2.1
    have some := stands.2
    unfold Piece.len at above
    exact ⟨(same z (by omega)).2.trans stands.1, some⟩
  have behind' : Pieces (setSize (setSize heap.memory p (whole - n)) header n)
      (p + Piece.len ⟨false, whole⟩) back (layout.krnlHeap + heap.poolFreePos) := by
    apply behindP.congr_mem
    intro z piece inBack stands
    have below := (behindP.inside inBack).1
    unfold Piece.len at below
    exact ⟨(same z (by simp only at below; omega)).2.trans stands.1, stands.2⟩
  have nodeAfter : ∀ z, Node layout (front ++ ([⟨false, whole - n⟩, ⟨true, n⟩] ++ back)) z ↔
      Node layout (front ++ ([⟨false, whole⟩] ++ back)) z := by
    intro z
    have first : FreeAt p [⟨false, whole - n⟩, ⟨true, n⟩] z ↔ z = p := by
      simp [FreeAt, places]
    rw [node_split back before.total here.total, node_split back before.total here'.total, first, freeAt_free]
  refine ⟨{ heap with
    memory := setSize (setSize heap.memory p (whole - n)) header n
    freep := place
    krnlFree := wrap32 (heap.krnlFree + 4294967296 - wrap32 (n * 8)) },
    front ++ ([⟨false, whole - n⟩, ⟨true, n⟩] ++ back), header, ?_, ?_⟩
  · have pointer : wrap32 (header + 8) = header + 8 := Nat.mod_eq_of_lt (by omega)
    have different : size heap.memory p ≠ n := by omega
    simp only [serve, if_neg different, rest, place', pointer, sizeHeader]
  · constructor
    · constructor
      · constructor
        · exact before'.append (here'.append behind')
        · apply Ring.congr_node _ nodeAfter
          exact listed.ring.congr nexts
        · rw [← listed.header]
          exact (same _ (away _ base_node (by omega))).2
        · exact within
      · intro z new further
        have old := (nodeAfter z).mp new
        rw [nexts z old] at further
        rw [nexts z old]
        by_cases atP : z = p
        · have nextNode := listed.ring.closed node
          have apart := listed.node_piece_apart nextNode member
          rw [atP] at further
          rw [atP]
          unfold behind
          rw [sizeP, show p + 8 * (whole - n) = header from atEnd.symm]
          unfold wrap32
          simp only at apart
          omega
        · unfold behind
          rw [(same z (away z old atP)).2]
          exact pooled.coalesced z old further
      · exact (nodeAfter place).mpr prev
    · intro entry used address low high
      have apart := listed.pieces_apart (mem_usedPieces.mp used).1 member
      have marked := (mem_usedPieces.mp used).2
      apply outside
      rcases apart with ⟨_, isFree⟩ | below | above
      · rw [isFree] at marked
        cases marked
      · omega
      · simp only at above
        omega
    · refine ⟨usedPieces layout.krnlHeap front, usedPieces (p + 8 * whole) back, ?_, ?_⟩
      · rw [Pieces.usedPieces_append before]
        rfl
      · rw [Pieces.usedPieces_split back before' here', atEnd]
        rfl
    · rfl
    · rfl

theorem Pooled.serve (pooled : Pooled layout heap pieces) (prev : Node layout pieces place)
    (positive : 0 < n) (large : n ≤ size heap.memory (next heap.memory place)) :
    ∃ heap' pieces' header, PoolHeap.serve n place (next heap.memory place) heap = (header + 8, heap') ∧
      Served layout heap heap' pieces pieces' n header := by
  have node := pooled.listed.ring.closed prev
  obtain ⟨whole, member, _, room⟩ := pooled.listed.large_node node positive large
  by_cases exact_ : n = whole
  · subst exact_
    obtain ⟨heap', pieces', served⟩ := pooled.serve_whole prev rfl member
    exact ⟨heap', pieces', _, served⟩
  · exact pooled.serve_part prev rfl member positive (by omega)

def refilled (layout : PoolLayout) (bound n fuel : Nat) (heap : PoolHeap) : Option (Nat × PoolHeap) :=
  match morecore layout bound n heap with
  | none => none
  | some (p, heap) =>
      if p = 0 then some (0, heap) else search layout bound n fuel p (next heap.memory p) heap

theorem Pooled.search_round (pooled : Pooled layout heap pieces) (bound n : Nat) :
    ∀ {fuel place : Nat},
    Node layout pieces place →
    (∀ z, Node layout pieces z → Arc heap.freep (next heap.memory place) z → size heap.memory z < n) →
    Ring.turns (nodes layout pieces) (next heap.memory place) heap.freep < fuel →
    (∃ prev, Node layout pieces prev ∧ n ≤ size heap.memory (next heap.memory prev) ∧
      search layout bound n fuel place (next heap.memory place) heap =
        some (PoolHeap.serve n prev (next heap.memory prev) heap)) ∨
    (∀ z, Node layout pieces z → size heap.memory z < n) ∧
      ∃ less, fuel ≤ less + (pieces.length + 3) ∧
        search layout bound n fuel place (next heap.memory place) heap =
          refilled layout bound n less heap := by
  have listed := pooled.listed
  suffices rounds : ∀ {fuel place : Nat}, Node layout pieces place →
      (∀ z, Node layout pieces z → Arc heap.freep (next heap.memory place) z →
        size heap.memory z < n) →
      Ring.turns (nodes layout pieces) (next heap.memory place) heap.freep < fuel →
      (∃ prev, Node layout pieces prev ∧ n ≤ size heap.memory (next heap.memory prev) ∧
        search layout bound n fuel place (next heap.memory place) heap =
          some (PoolHeap.serve n prev (next heap.memory prev) heap)) ∨
      (∀ z, Node layout pieces z → size heap.memory z < n) ∧
        ∃ less, fuel ≤ less + (Ring.turns (nodes layout pieces) (next heap.memory place) heap.freep + 1) ∧
          search layout bound n fuel place (next heap.memory place) heap =
            refilled layout bound n less heap by
    intro fuel place here small enough
    rcases rounds here small enough with found | ⟨allSmall, less, turns, ends⟩
    · exact Or.inl found
    · have bounded := Ring.turns_le (nodes layout pieces) (next heap.memory place) heap.freep
      have count := nodes_length layout pieces
      exact Or.inr ⟨allSmall, less, by omega, ends⟩
  intro fuel
  induction fuel with
  | zero =>
      intro place _ _ enough
      omega
  | succ fuel ih =>
      intro place here small enough
      have node := listed.ring.closed here
      by_cases large : n ≤ size heap.memory (next heap.memory place)
      · left
        refine ⟨place, here, large, ?_⟩
        rw [search, if_pos large]
      · by_cases round : next heap.memory place = heap.freep
        · right
          constructor
          · intro z other
            by_cases same : z = next heap.memory place
            · rw [same]
              omega
            · apply small z other
              rw [round, arc_self]
              exact fun equal => same (equal.trans round.symm)
          · refine ⟨fuel, by omega, ?_⟩
            rw [search, if_neg large, if_pos round]
            rfl
        · have shorter := Ring.turns_lt listed.ring node pooled.current (fun _ other => other) round
          have further : ∀ z, Node layout pieces z →
              Arc heap.freep (next heap.memory (next heap.memory place)) z → size heap.memory z < n := by
            intro z other inside
            by_cases same : z = next heap.memory place
            · rw [same]
              omega
            · exact small z other (arc_before (listed.ring.clear node other) inside same)
          have step : search layout bound n (fuel + 1) place (next heap.memory place) heap =
              search layout bound n fuel (next heap.memory place)
                (next heap.memory (next heap.memory place)) heap := by
            rw [search, if_neg large, if_neg round]
          rcases ih node further (by omega) with ⟨prev, prevNode, room, found⟩ | ⟨allSmall, less, turns, ends⟩
          · exact Or.inl ⟨prev, prevNode, room, step.trans found⟩
          · exact Or.inr ⟨allSmall, less, by omega, step.trans ends⟩

def grownBy (n : Nat) : Nat := if n < minPoolAllocQuantas then minPoolAllocQuantas else n

theorem Pooled.grown (pooled : Pooled layout heap pieces) (positive : 0 < n)
    (small : layout.heapSize + 8 * grownBy n < 4294967296)
    (enough : pieces.length + 2 < bound) (room : heap.poolFreePos + 8 * grownBy n ≤ layout.heapSize) :
    ∃ heap' pieces', morecore layout bound n heap = some (heap'.freep, heap') ∧
      Pooled layout heap' pieces' ∧ Keeps layout pieces heap.memory heap'.memory ∧
      usedPieces layout.krnlHeap pieces' = usedPieces layout.krnlHeap pieces ∧
      (∃ z, Node layout pieces' z ∧ n ≤ size heap'.memory z) ∧
      heap'.poolFreePos = heap.poolFreePos + 8 * grownBy n ∧ heap'.krnlFree = heap.krnlFree := by
  have listed := pooled.listed
  have heapEnds := layout.heapEnds
  have heapNonnull := layout.heapNonnull
  have layoutApart := layout.apart
  have asked : n ≤ grownBy n ∧ 0 < grownBy n := by
    unfold grownBy minPoolAllocQuantas
    split
    · omega
    · omega
  obtain ⟨h, atEnd⟩ : ∃ h, h = layout.krnlHeap + heap.poolFreePos := ⟨_, rfl⟩
  have place : wrap32 (layout.krnlHeap + heap.poolFreePos) = h := by
    rw [atEnd]
    exact Nat.mod_eq_of_lt (by omega)
  have bytes : wrap32 (grownBy n * 8) = 8 * grownBy n := by
    unfold wrap32
    omega
  have position : wrap32 (heap.poolFreePos + 8 * grownBy n) = heap.poolFreePos + 8 * grownBy n :=
    Nat.mod_eq_of_lt (by omega)
  have pointer : wrap32 (h + 8) = h + 8 := Nat.mod_eq_of_lt (by omega)
  have away : ∀ z, Node layout pieces z → z + 8 ≤ h ∨ h + 8 ≤ z := by
    intro z old
    rcases node_iff.mp old with rfl | ⟨quantas, member⟩
    · omega
    · have bounds := listed.piece_bounds member
      omega
  have nexts : ∀ z, Node layout pieces z →
      next (setSize heap.memory h (grownBy n)) z = next heap.memory z :=
    fun z old => next_setSize_apart _ (away z old).symm
  have sizes : ∀ z, Node layout pieces z →
      size (setSize heap.memory h (grownBy n)) z = size heap.memory z :=
    fun z old => size_setSize_apart _ (away z old).symm
  have before : Pieces (setSize heap.memory h (grownBy n)) layout.krnlHeap pieces h := by
    have tiling := listed.tiling
    rw [← atEnd] at tiling
    apply tiling.congr_mem
    intro z piece placed stands
    have above := (tiling.inside placed).2.1
    have some := stands.2
    unfold Piece.len at above
    exact ⟨(size_setSize_apart _ (by omega)).trans stands.1, some⟩
  have here : Pieces (setSize heap.memory h (grownBy n)) h [⟨true, grownBy n⟩]
      (h + 8 * grownBy n) :=
    Tiling.single ⟨size_setSize _ (by omega), asked.2⟩
  have nodeAfter : ∀ z, Node layout (pieces ++ ([⟨true, grownBy n⟩] ++ [])) z ↔ Node layout pieces z := by
    intro z
    rw [node_split [] before.total here.total, node_iff]
    simp only [FreeAt, places, List.not_mem_nil, exists_false, or_false, List.mem_singleton,
      Prod.mk.injEq, Piece.mk.injEq, reduceCtorEq, false_and, and_false]
  have extended : Listed layout (setSize heap.memory h (grownBy n))
      (pieces ++ ([⟨true, grownBy n⟩] ++ [])) (h + 8 * grownBy n) := by
    constructor
    · exact before.append (here.append (.done _))
    · exact Ring.congr_node (listed.ring.congr nexts) nodeAfter
    · rw [sizes _ base_node]
      exact listed.header
    · omega
  have coalesced : Coalesced layout (setSize heap.memory h (grownBy n))
      (pieces ++ ([⟨true, grownBy n⟩] ++ [])) := by
    intro z new further
    have old := (nodeAfter z).mp new
    unfold behind
    rw [nexts z old] at further ⊢
    rw [sizes z old]
    exact pooled.coalesced z old further
  obtain ⟨p, memory', pieces', called, freed, used⟩ := Listed.freed
    { heap with memory := setSize heap.memory h (grownBy n) } extended before
    coalesced ((nodeAfter _).mpr pooled.current)
    (by simp only [List.length_nil]; omega : pieces.length + ([] : List Piece).length + 2 < bound)
  refine ⟨{ heap with
    memory := memory'
    freep := p
    poolFreePos := heap.poolFreePos + 8 * grownBy n }, pieces', ?_, ?_, ?_, ?_, ?_, rfl, rfl⟩
  · have sameSize : (if n < minPoolAllocQuantas then minPoolAllocQuantas else n) = grownBy n := rfl
    simp only [morecore, sameSize, bytes, position, if_pos room, place, pointer, called]
  · constructor
    · have reach : layout.krnlHeap + (heap.poolFreePos + 8 * grownBy n) = h + 8 * grownBy n := by omega
      simp only [reach]
      exact freed.listed
    · exact freed.coalesced
    · exact freed.current
  · intro entry member address low high
    have placed := listed.piece_bounds (mem_usedPieces.mp member).1
    have spared := listed.node_spares ((nodeAfter p).mp freed.node) member low high
    exact (freed.outside address spared (by omega)).trans (setSize_outside _ (by omega))
  · rw [used]
    simp [usedPieces, places]
  · obtain ⟨z, node, larger⟩ := freed.grows h (Or.inl rfl)
    refine ⟨z, node, ?_⟩
    have sizeH : size (setSize heap.memory h (grownBy n)) h = grownBy n := size_setSize _ (by omega)
    simp only [sizeH] at larger
    simp only
    omega

theorem Pooled.full (room : layout.heapSize < heap.poolFreePos + 8 * grownBy n)
    (small : layout.heapSize + 8 * grownBy n < 4294967296)
    (within : heap.poolFreePos ≤ layout.heapSize) : morecore layout bound n heap = some (0, heap) := by
  have bytes : wrap32 (grownBy n * 8) = 8 * grownBy n := by
    unfold wrap32
    omega
  have position : wrap32 (heap.poolFreePos + 8 * grownBy n) = heap.poolFreePos + 8 * grownBy n :=
    Nat.mod_eq_of_lt (by omega)
  have sameSize : (if n < minPoolAllocQuantas then minPoolAllocQuantas else n) = grownBy n := rfl
  have refused : ¬ heap.poolFreePos + 8 * grownBy n ≤ layout.heapSize := by omega
  simp only [morecore, sameSize, bytes, position, if_neg refused]

def Available (layout : PoolLayout) (heap : PoolHeap) (pieces : List Piece) (n : Nat) : Prop :=
  (∃ place quantas, (place, ⟨false, quantas⟩) ∈ piecesAt layout.krnlHeap pieces ∧ n ≤ quantas) ∨
    heap.poolFreePos + 8 * grownBy n ≤ layout.heapSize

theorem Pooled.started (layout : PoolLayout) (heap : PoolHeap) (fresh : heap.poolFreePos = 0) :
    Pooled layout { heap with
      memory := setSize (setNext heap.memory layout.base layout.base) layout.base 0
      freep := layout.base } [] := by
  have small := layout.baseEnds
  have onlyBase : ∀ z, Node layout [] z ↔ z = layout.base := by
    intro z
    simp [node_iff, places]
  have nextBase : next (setSize (setNext heap.memory layout.base layout.base) layout.base 0)
      layout.base = layout.base := by
    rw [next_setSize, next_setNext _ (by omega)]
  constructor
  · constructor
    · simp only [fresh]
      exact .done _
    · constructor
      · intro z node
        rw [(onlyBase z).mp node, nextBase]
        exact base_node
      · intro z z' node node'
        rw [(onlyBase z).mp node, (onlyBase z').mp node', nextBase, arc_self]
        exact fun different => different rfl
    · exact size_setSize _ (by decide)
    · simp only
      omega
  · intro z node further
    rw [(onlyBase z).mp node, nextBase] at further
    exact absurd rfl further
  · exact base_node

theorem Pooled.allocates (pooled : Pooled layout heap pieces) {fuel : Nat} (positive : 0 < n)
    (small : layout.heapSize + 8 * grownBy n < 4294967296) (enough : 2 * layout.heapSize + 8 ≤ fuel) :
    ∃ ptr heap' pieces', search layout fuel n fuel heap.freep (next heap.memory heap.freep) heap =
        some (ptr, heap') ∧
      (ptr = 0 ∧ heap' = heap ∧ ¬ Available layout heap pieces n ∨
        Available layout heap pieces n ∧ ∃ header, ptr = header + 8 ∧ Pooled layout heap' pieces' ∧
          Keeps layout pieces heap.memory heap'.memory ∧
          (∃ before after, usedPieces layout.krnlHeap pieces = before ++ after ∧
            usedPieces layout.krnlHeap pieces' = before ++ (header, ⟨true, n⟩) :: after) ∧
          heap'.krnlFree = wrap32 (heap.krnlFree + 4294967296 - wrap32 (n * 8))) := by
  have listed := pooled.listed
  have counted := listed.tiling.count_le fun _ _ stands => stands.positive
  have within := listed.within
  have bounded := Ring.turns_le (nodes layout pieces) (next heap.memory heap.freep) heap.freep
  have count := nodes_length layout pieces
  have start : ∀ z, Node layout pieces z → Arc heap.freep (next heap.memory heap.freep) z →
      size heap.memory z < n :=
    fun z node inside => absurd inside (listed.ring.clear pooled.current node)
  rcases pooled.search_round fuel n pooled.current start (by omega : _ < fuel) with
    ⟨prev, prevNode, large, found⟩ | ⟨allSmall, less, turns, ends⟩
  · obtain ⟨heap', pieces', header, served, kept⟩ := pooled.serve prevNode positive large
    refine ⟨header + 8, heap', pieces', by rw [found, served], Or.inr ⟨?_, header, rfl, kept.pooled,
      kept.keeps, kept.cut, kept.counter⟩⟩
    obtain ⟨quantas, member, _, room⟩ := listed.large_node (listed.ring.closed prevNode) positive large
    exact Or.inl ⟨_, quantas, member, room⟩
  · by_cases room : heap.poolFreePos + 8 * grownBy n ≤ layout.heapSize
    · obtain ⟨heap₁, pieces₁, called, pooled₁, keeps₁, used₁, ⟨large, largeNode, larger⟩, _, counter₁⟩ :=
        pooled.grown positive small (by omega : pieces.length + 2 < fuel) room
      have listed₁ := pooled₁.listed
      have counted₁ := listed₁.tiling.count_le fun _ _ stands => stands.positive
      have within₁ := listed₁.within
      have bounded₁ := Ring.turns_le (nodes layout pieces₁) (next heap₁.memory heap₁.freep) heap₁.freep
      have count₁ := nodes_length layout pieces₁
      have nonnull : heap₁.freep ≠ 0 := by
        have positive₁ := (listed₁.node_bounds pooled₁.current).1
        omega
      have start₁ : ∀ z, Node layout pieces₁ z → Arc heap₁.freep (next heap₁.memory heap₁.freep) z →
          size heap₁.memory z < n :=
        fun z node inside => absurd inside (listed₁.ring.clear pooled₁.current node)
      rcases pooled₁.search_round fuel n pooled₁.current start₁ (by omega : _ < less)
        with ⟨prev, prevNode, fits, found⟩ | ⟨allSmall₁, _⟩
      · obtain ⟨heap', pieces', header, served, kept⟩ := pooled₁.serve prevNode positive fits
        refine ⟨header + 8, heap', pieces', ?_, Or.inr ⟨Or.inr room, header, rfl, kept.pooled, ?_, ?_, ?_⟩⟩
        · rw [ends, refilled, called]
          simp only [if_neg nonnull]
          rw [found, served]
        · intro entry member address low high
          have member₁ := member
          rw [← used₁] at member₁
          rw [kept.keeps entry member₁ address low high, keeps₁ entry member address low high]
        · rw [← used₁]
          exact kept.cut
        · rw [kept.counter, counter₁]
      · have contrary := allSmall₁ large largeNode
        omega
    · refine ⟨0, heap, pieces, ?_, Or.inl ⟨rfl, rfl, ?_⟩⟩
      · rw [ends, refilled, Pooled.full (by omega) small (by omega)]
        rfl
      · rintro (⟨place, quantas, member, large⟩ | grows)
        · have tooSmall := allSmall place (node_iff.mpr (Or.inr ⟨quantas, member⟩))
          have bounds := listed.piece_bounds member
          simp only at bounds
          omega
        · exact room grows

end PoolHeap

end Hellfire

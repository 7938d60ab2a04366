import Hellfire.Library.Machine
import Hellfire.ChunkTiling
import Hellfire.Malloc

/-!
The simple allocator over every sequence of `hf_malloc` and `hf_free`, with the writes of
the clients in between: the chunks stay a tiling of the heap, and a request is granted
whenever enough free chunks stand in a row.
-/

namespace Hellfire

open ByteMemory Machine Tiles

structure ChunkWorld where
  heap : ChunkHeap
  live : List (Nat × Nat)

namespace ChunkWorld

open ChunkHeap

def start (region : Region) (memory : Memory) : ChunkWorld :=
  ⟨ChunkHeap.heapinit memory region.base region.len, []⟩

def owns (world : ChunkWorld) (address : Nat) : Prop :=
  ∃ entry ∈ world.live, entry.1 ≤ address ∧ address + 4 < entry.1 + chunkSize entry.2

def step (fuel : Nat) : HeapOp → ChunkWorld → Except Unit ChunkWorld
  | .malloc size, world =>
      match world.heap.hfMalloc fuel size with
      | none => .error ()
      | some (ptr, heap) =>
          .ok ⟨heap, if ptr = 0 then world.live else (ptr, size) :: world.live⟩
  | .free ptr, world => .ok ⟨world.heap.hfFree ptr, world.live.eraseP fun entry => entry.1 = ptr⟩
  | .store address value, world =>
      .ok { world with heap := { world.heap with
        memory := Function.update world.heap.memory address value } }

/-- Sizes do not wrap, only live pointers are freed, and clients write inside their chunks. -/
def allowed : HeapOp → ChunkWorld → Prop
  | .malloc size, _ => size + 7 < 4294967296
  | .free ptr, world => ∃ entry ∈ world.live, entry.1 = ptr
  | .store address _, world => world.owns address

end ChunkWorld

namespace ChunkHeap

open Heap (marked mark unmark)

def last (region : Region) : Nat := region.base + region.len - 4

structure Sliced (region : Region) (heap : ChunkHeap) (chunks : List Chunk) : Prop where
  chunked : Chunked heap.memory region.base chunks (last region)
  ends : readWord heap.memory (last region) = 0
  origin : heap.heap = region.base
  free : heap.free = 0 ∨ ∃ len, (heap.free, ⟨false, len⟩) ∈ chunksAt region.base chunks

variable {region : Region} {heap : ChunkHeap} {chunks front back : List Chunk}
  {memory memory' : Memory} {size fuel : Nat}

theorem last_le (region : Region) : last region + 4 ≤ 4294967296 := by
  have addressable := region.addressable
  have headers := region.headers
  unfold last
  omega

theorem Sliced.heapinit (region : Region) (memory : Memory) :
    Sliced region (heapinit memory region.base region.len) [⟨false, region.len - 4⟩] := by
  have positive := region.positive
  have aligned := region.aligned
  have headers := region.headers
  have addressable := region.addressable
  have rounded : wrap32 (region.len + 3) / 4 * 4 = region.len := by
    unfold wrap32
    omega
  have word : wrap32 (region.len + 4294967296 - 4) = region.len - 4 := by
    unfold wrap32
    omega
  have place : wrap32 (region.base + region.len + 4294967296 - 4) = last region := by
    unfold wrap32 last
    omega
  have reach : region.base + (region.len - 4) = last region := by
    unfold last
    omega
  constructor
  · apply Eq.subst (motive := fun stop => Chunked _ _ _ stop) reach
    apply Tiling.single
    constructor
    · simp only [ChunkHeap.heapinit, rounded, word, place]
      rw [readWord_writeWord_apart _ _ (by omega), readWord_writeWord _ _ (by omega)]
      rfl
    · exact ⟨by simp only; omega, by simp only; omega⟩
  · simp only [ChunkHeap.heapinit, rounded, place]
    exact readWord_writeWord _ _ (by omega)
  · rfl
  · exact Or.inr ⟨region.len - 4, List.mem_cons_self⟩

def Keeps (region : Region) (chunks : List Chunk) (memory memory' : Memory) : Prop :=
  ∀ entry ∈ usedChunks region.base chunks, ∀ address, entry.1 ≤ address →
    address < entry.1 + entry.2.len → memory' address = memory address

theorem Keeps.trans {chunks' : List Chunk} {memory'' : Memory} (first : Keeps region chunks memory memory')
    (second : Keeps region chunks' memory' memory'')
    (same : usedChunks region.base chunks' = usedChunks region.base chunks) :
    Keeps region chunks memory memory'' := by
  intro entry used address low high
  have usedAfter := used
  rw [← same] at usedAfter
  rw [second entry usedAfter address low high, first entry used address low high]

theorem Chunked.usedChunks_split (back : List Chunk) {start place : Nat} {chunk : Chunk}
    (before : Chunked memory start front place) (free : chunk.used = false) :
    usedChunks start (front ++ ([chunk] ++ back)) =
      usedChunks start front ++ usedChunks (place + chunk.len) back := by
  rw [Chunked.usedChunks_append before]
  simp [usedChunks, places, free]

theorem Sliced.carve (sliced : Sliced region heap chunks) (size : Nat) (frees : List Chunk)
    (heap' : ChunkHeap) {len : Nat} (member : (heap.free, ⟨false, len⟩) ∈ chunksAt region.base chunks)
    (inner : Chunked heap'.memory heap.free (⟨true, size⟩ :: frees) (heap.free + len))
    (allFree : ∀ chunk ∈ frees, chunk.used = false)
    (outside : ∀ address, address < heap.free ∨ heap.free + len ≤ address →
      heap'.memory address = heap.memory address)
    (origin : heap'.heap = heap.heap)
    (next : heap'.free = 0 ∨
      ∃ rest, (heap'.free, ⟨false, rest⟩) ∈ chunksAt heap.free (⟨true, size⟩ :: frees)) :
    ∃ chunks' before after, Sliced region heap' chunks' ∧
      Keeps region chunks heap.memory heap'.memory ∧
      usedChunks region.base chunks = before ++ after ∧
      usedChunks region.base chunks' = before ++ (heap.free, ⟨true, size⟩) :: after := by
  obtain ⟨front, back, rfl, before, behind⟩ := sliced.chunked.cut_at member
  have reach := behind.total
  have length := (sliced.chunked.inside member).2.2.length
  have before' : Chunked heap'.memory region.base front heap.free := by
    apply Chunked.congr before
    intro address _ high
    exact outside address (Or.inl high)
  have behind' : Chunked heap'.memory (heap.free + len) back (last region) := by
    apply Chunked.congr behind
    intro address low _
    exact outside address (Or.inr low)
  have usedInner : usedChunks heap.free (⟨true, size⟩ :: frees) = [(heap.free, ⟨true, size⟩)] := by
    have rest := usedChunks_free allFree (heap.free + size)
    simp only [usedChunks, places, List.filter_cons, if_true] at rest ⊢
    rw [rest]
  have usedBefore := Chunked.usedChunks_split back before
    (rfl : Chunk.used ⟨false, len⟩ = false)
  refine ⟨front ++ ((⟨true, size⟩ :: frees) ++ back), usedChunks region.base front,
    usedChunks (heap.free + len) back, ?_, ?_, usedBefore, ?_⟩
  · constructor
    · exact before'.append (inner.append behind')
    · rw [← sliced.ends]
      apply readWord_congr
      intro address low _
      exact outside address (by simp only at reach; omega)
    · exact origin.trans sliced.origin
    · rcases next with none | ⟨rest, place⟩
      · exact Or.inl none
      · right
        refine ⟨rest, ?_⟩
        rw [chunksAt, before'.places_append, inner.places_append]
        exact List.mem_append_right _ (List.mem_append_left _ place)
  · intro entry used address low high
    rw [usedBefore, List.mem_append] at used
    rcases used with inFront | inBack
    · have within := before.inside (mem_usedChunks.mp inFront).1
      exact outside address (by omega)
    · have within := behind.inside (mem_usedChunks.mp inBack).1
      exact outside address (by simp only at within; omega)
  · rw [Chunked.usedChunks_append before', Chunked.usedChunks_append inner, usedInner]
    rfl

theorem Sliced.take (sliced : Sliced region heap chunks) {len : Nat}
    (member : (heap.free, ⟨false, len⟩) ∈ chunksAt region.base chunks) (aligned : size % 4 = 0)
    (positive : 0 < size) (room : size ≤ len) :
    ∃ chunks' before after, Sliced region (heap.take size).2 chunks' ∧
      (heap.take size).1 = heap.free + 4 ∧ Keeps region chunks heap.memory (heap.take size).2.memory ∧
      usedChunks region.base chunks = before ++ after ∧
      usedChunks region.base chunks' = before ++ (heap.free, ⟨true, size⟩) :: after := by
  obtain ⟨low, high, here⟩ := sliced.chunked.inside member
  have bound := last_le region
  have nonnull := region.positive
  have lenAligned := here.2.2
  have word : readWord heap.memory heap.free = len := here.1
  simp only at high lenAligned
  have pointer : wrap32 (heap.free + 4) = heap.free + 4 := Nat.mod_eq_of_lt (by omega)
  have noWrap : wrap32 (size + 4) = size + 4 := Nat.mod_eq_of_lt (by omega)
  have marks : mark size = size + 1 := by
    unfold mark
    omega
  by_cases split : size + 4 ≤ len
  · have rest : wrap32 (len + 4294967296 - size) = len - size := by
      unfold wrap32
      omega
    have cut : wrap32 (heap.free + size) = heap.free + size := Nat.mod_eq_of_lt (by omega)
    have fill : heap.free + size + (len - size) = heap.free + len := by omega
    obtain ⟨chunks', before, after, sliced', keeps, usedBefore, usedAfter⟩ :=
      sliced.carve size [⟨false, len - size⟩] (heap.take size).2 member
        (by
          simp only [ChunkHeap.take, word, noWrap, if_pos split, rest, cut, marks]
          apply Tiling.piece
          · constructor
            · exact readWord_writeWord _ _ (by omega)
            · exact ⟨positive, aligned⟩
          · rw [← fill]
            apply Tiling.single
            constructor
            · simp only
              rw [readWord_writeWord_apart _ _ (by omega), readWord_writeWord _ _ (by omega)]
              rfl
            · exact ⟨by simp only; omega, by simp only; omega⟩)
        (by simp)
        (by
          intro address away
          simp only [ChunkHeap.take, word, noWrap, if_pos split, rest, cut, marks]
          rw [writeWord_outside _ _ (by omega), writeWord_outside _ _ (by omega)])
        (by simp only [ChunkHeap.take])
        (by
          right
          refine ⟨len - size, ?_⟩
          simp only [ChunkHeap.take, word, noWrap, if_pos split, cut]
          simp [places])
    refine ⟨chunks', before, after, sliced', ?_, keeps, usedBefore, usedAfter⟩
    simp only [ChunkHeap.take, pointer]
  · obtain rfl : len = size := by omega
    obtain ⟨chunks', before, after, sliced', keeps, usedBefore, usedAfter⟩ :=
      sliced.carve len [] (heap.take len).2 member
        (by
          simp only [ChunkHeap.take, word, noWrap, if_neg split, marks]
          apply Tiling.single
          constructor
          · exact readWord_writeWord _ _ (by omega)
          · exact ⟨positive, aligned⟩)
        (by simp)
        (by
          intro address away
          simp only [ChunkHeap.take, word, noWrap, if_neg split, marks]
          exact writeWord_outside _ _ (by omega))
        (by simp only [ChunkHeap.take])
        (by
          left
          simp only [ChunkHeap.take, word, noWrap, if_neg split])
    refine ⟨chunks', before, after, sliced', ?_, keeps, usedBefore, usedAfter⟩
    simp only [ChunkHeap.take, pointer]

theorem Sliced.hfMalloc (sliced : Sliced region heap chunks) (some : size ≠ 0)
    (small : size + 7 < 4294967296) (enough : region.len ≤ fuel) :
    ∃ ptr heap' chunks', heap.hfMalloc fuel size = Option.some (ptr, heap') ∧
      Sliced region heap' chunks' ∧ Keeps region chunks heap.memory heap'.memory ∧
      (ptr = 0 ∧ ¬ Fits (chunkSize size) chunks ∧
          usedChunks region.base chunks' = usedChunks region.base chunks ∨
        Fits (chunkSize size) chunks ∧ ∃ header before after, ptr = header + 4 ∧
          usedChunks region.base chunks = before ++ after ∧
          usedChunks region.base chunks' = before ++ (header, ⟨true, chunkSize size⟩) :: after) := by
  have aligned : chunkSize size % 4 = 0 := by
    unfold chunkSize
    omega
  have positive : 0 < chunkSize size := by
    unfold chunkSize wrap32
    omega
  by_cases needed : heap.free = 0 ∨ readWord heap.memory heap.free < chunkSize size
  · have bound := last_le region
    have counted := sliced.chunked.count_le fun _ _ stands => stands.positive
    have headers := region.headers
    have nonnull := region.positive
    have shorter : chunks.length < fuel := by
      unfold last at counted
      omega
    obtain ⟨found, memory', after, ran, compacted⟩ := compactFrom_spec positive
      (by omega : last region < 4294967296) nonnull (.done region.base) (by simp) sliced.chunked
      sliced.ends shorter
    rw [List.nil_append] at compacted
    have called : compact fuel heap.heap (chunkSize size) heap.memory = Option.some (found, memory') := by
      rw [sliced.origin]
      exact ran
    have ends : readWord memory' (last region) = 0 := by
      rw [← sliced.ends]
      apply readWord_congr
      intro address low _
      exact compacted.outside address (Or.inr low)
    have keeps : Keeps region chunks heap.memory memory' := compacted.kept
    rcases compacted.outcome with ⟨null, none⟩ | ⟨len, room, place, fits⟩
    · refine ⟨0, { heap with memory := memory', free := found }, after, ?_, ?_, keeps,
        Or.inl ⟨rfl, none, compacted.used⟩⟩
      · simp only [ChunkHeap.hfMalloc, if_neg some, if_pos needed, called, if_pos null]
      · exact ⟨compacted.chunked, ends, sliced.origin, Or.inl null⟩
    · have within := (compacted.chunked.inside place).1
      have nonzero : found ≠ 0 := by omega
      have searched : Sliced region { heap with memory := memory', free := found } after :=
        ⟨compacted.chunked, ends, sliced.origin, Or.inr ⟨len, place⟩⟩
      obtain ⟨chunks', before, behind, sliced', pointer, taken, usedBefore, usedAfter⟩ :=
        searched.take place aligned positive room
      refine ⟨found + 4, _, chunks', ?_, sliced', keeps.trans taken compacted.used,
        Or.inr ⟨fits, found, before, behind, rfl, ?_, usedAfter⟩⟩
      · simp only [ChunkHeap.hfMalloc, if_neg some, if_pos needed, called, if_neg nonzero]
        rw [← pointer]
      · rw [← compacted.used]
        exact usedBefore
  · have nonzero : heap.free ≠ 0 := fun null => needed (Or.inl null)
    have large : chunkSize size ≤ readWord heap.memory heap.free := by omega
    rcases sliced.free with null | ⟨len, place⟩
    · exact absurd null nonzero
    · have word : readWord heap.memory heap.free = len := (sliced.chunked.inside place).2.2.1
      have room : chunkSize size ≤ len := by omega
      have fits : Fits (chunkSize size) chunks := by
        obtain ⟨front, back, whole, _, _⟩ := sliced.chunked.cut_at place
        refine ⟨[⟨false, len⟩], ⟨front, back, ?_⟩, by simp, ?_⟩
        · rw [whole, List.append_assoc]
        · simpa [total] using room
      obtain ⟨chunks', before, behind, sliced', pointer, taken, usedBefore, usedAfter⟩ :=
        sliced.take place aligned positive room
      refine ⟨heap.free + 4, _, chunks', ?_, sliced', taken,
        Or.inr ⟨fits, heap.free, before, behind, rfl, usedBefore, usedAfter⟩⟩
      simp only [ChunkHeap.hfMalloc, if_neg some, if_neg needed]
      rw [← pointer]

theorem Sliced.hfFree (sliced : Sliced region heap chunks) {header : Nat} {chunk : Chunk}
    (member : (header, chunk) ∈ usedChunks region.base chunks) :
    ∃ chunks' before after, Sliced region (heap.hfFree (header + 4)) chunks' ∧
      usedChunks region.base chunks = before ++ (header, chunk) :: after ∧
      usedChunks region.base chunks' = before ++ after ∧
      ∀ address, address < header ∨ header + 4 ≤ address →
        (heap.hfFree (header + 4)).memory address = heap.memory address := by
  obtain ⟨placed, used⟩ := mem_usedChunks.mp member
  obtain ⟨front, back, rfl, before, behind⟩ := sliced.chunked.cut_at placed
  obtain ⟨low, high, here⟩ := sliced.chunked.inside placed
  have reach := behind.total
  have length := here.length
  have bound := last_le region
  have place : wrap32 (header + 4 + 4294967296 - 4) = header := by
    unfold wrap32
    omega
  have written : (heap.hfFree (header + 4)).memory = writeWord heap.memory header chunk.len := by
    have nonnull : header + 4 ≠ 0 := by omega
    simp only [ChunkHeap.hfFree, if_pos nonnull, place]
    rw [here.unmark_eq]
  have outside : ∀ address, address < header ∨ header + 4 ≤ address →
      (heap.hfFree (header + 4)).memory address = heap.memory address := by
    intro address away
    rw [written]
    exact writeWord_outside _ _ away
  have before' : Chunked (heap.hfFree (header + 4)).memory region.base front header := by
    apply Chunked.congr before
    intro address _ below
    exact outside address (Or.inl below)
  have behind' : Chunked (heap.hfFree (header + 4)).memory (header + chunk.len) back (last region) := by
    apply Chunked.congr behind
    intro address above _
    exact outside address (by omega)
  have released : Chunked (heap.hfFree (header + 4)).memory header [⟨false, chunk.len⟩]
      (header + chunk.len) := by
    apply Tiling.single
    constructor
    · rw [written, readWord_writeWord _ _ (by omega)]
      rfl
    · exact here.2
  refine ⟨front ++ ([⟨false, chunk.len⟩] ++ back), usedChunks region.base front,
    usedChunks (header + chunk.len) back, ?_, ?_, ?_, outside⟩
  · constructor
    · exact before'.append (released.append behind')
    · rw [← sliced.ends]
      apply readWord_congr
      intro address above _
      exact outside address (by omega)
    · exact sliced.origin
    · rcases sliced.free with null | ⟨len, current⟩
      · exact Or.inl null
      · right
        refine ⟨len, ?_⟩
        have kept : (heap.hfFree (header + 4)).free = heap.free := rfl
        rw [kept, chunksAt, before'.places_append, released.places_append]
        rw [chunksAt, before.places_append, List.mem_append] at current
        rcases current with inFront | later
        · exact List.mem_append_left _ inFront
        · rcases List.mem_cons.mp later with same | inBack
          · obtain ⟨_, rfl⟩ := Prod.mk.inj same
            cases used
          · exact List.mem_append_right _ (List.mem_append_right _ inBack)
  · rw [Chunked.usedChunks_append before]
    simp only [usedChunks, places, List.singleton_append, List.filter_cons]
    rw [if_pos used]
  · exact Chunked.usedChunks_split _ before' rfl

theorem Sliced.store (sliced : Sliced region heap chunks) {header address : Nat} {chunk : Chunk}
    (member : (header, chunk) ∈ usedChunks region.base chunks) (low : header + 4 ≤ address)
    (high : address < header + chunk.len) (value : UInt8) :
    Sliced region { heap with memory := Function.update heap.memory address value } chunks := by
  have placed := (mem_usedChunks.mp member).1
  have within := sliced.chunked.inside placed
  have outside : ∀ other, other ≠ address →
      Function.update heap.memory address value other = heap.memory other := by
    intro other away
    exact Function.update_of_ne away _ _
  constructor
  · obtain ⟨front, back, rfl, before, behind⟩ := sliced.chunked.cut_at placed
    have reach := behind.total
    have before' : Chunked (Function.update heap.memory address value) region.base front header := by
      apply Chunked.congr before
      intro other _ below
      exact outside other (by omega)
    have behind' : Chunked (Function.update heap.memory address value) (header + chunk.len) back
        (last region) := by
      apply Chunked.congr behind
      intro other above _
      exact outside other (by omega)
    apply before'.append
    apply Tiling.piece
    · apply within.2.2.congr
      intro other _ below
      exact outside other (by omega)
    · exact behind'
  · rw [← sliced.ends]
    apply readWord_congr
    intro other above _
    exact outside other (by omega)
  · exact sliced.origin
  · exact sliced.free

end ChunkHeap

namespace ChunkWorld

open ChunkHeap

structure Sound (region : Region) (world : ChunkWorld) (chunks : List Chunk) : Prop where
  sliced : Sliced region world.heap chunks
  live : Recorded (fun entry => (entry.1, chunkSize entry.2))
    (fun entry : Nat × Chunk => (entry.1 + 4, entry.2.len)) world.live
    (usedChunks region.base chunks)

variable {region : Region} {world : ChunkWorld} {chunks : List Chunk} {fuel : Nat}

theorem Sound.chunk (sound : Sound region world chunks) {entry : Nat × Nat}
    (member : entry ∈ world.live) :
    ∃ header chunk, (header, chunk) ∈ usedChunks region.base chunks ∧ entry.1 = header + 4 ∧
      chunkSize entry.2 = chunk.len := by
  obtain ⟨⟨header, chunk⟩, used, same⟩ := sound.live.item member
  obtain ⟨pointer, length⟩ := Prod.mk.inj same
  exact ⟨header, chunk, used, pointer, length⟩

theorem Sound.malloc (sound : Sound region world chunks) {size : Nat}
    (small : size + 7 < 4294967296) (enough : region.len ≤ fuel) :
    ∃ ptr next chunks', world.heap.hfMalloc fuel size = some (ptr, next.heap) ∧
      step fuel (.malloc size) world = .ok next ∧ Sound region next chunks' ∧
      (∀ address, world.owns address → next.heap.memory address = world.heap.memory address) ∧
      (ptr ≠ 0 ↔ size ≠ 0 ∧ Fits (chunkSize size) chunks) := by
  by_cases none : size = 0
  · refine ⟨0, world, chunks, ?_, ?_, sound, ?_, ?_⟩
    · simp only [hfMalloc, if_pos none]
    · simp only [step, hfMalloc, if_pos none, if_true]
    · intro address _
      rfl
    · simp [none]
  · obtain ⟨ptr, heap', chunks', called, sliced, keeps, outcome⟩ :=
      sound.sliced.hfMalloc none small enough
    have spared : ∀ address, world.owns address → heap'.memory address = world.heap.memory address := by
      rintro address ⟨entry, member, low, high⟩
      obtain ⟨header, chunk, used, pointer, length⟩ := sound.chunk member
      exact keeps _ used address (by simp only; omega) (by simp only; omega)
    rcases outcome with ⟨null, noRoom, same⟩ | ⟨fits, header, before, after, pointer, old, new⟩
    · refine ⟨ptr, ⟨heap', world.live⟩, chunks', called, ?_, ?_, spared, ?_⟩
      · simp only [step, called, if_pos null]
      · constructor
        · exact sliced
        · rw [same]
          exact sound.live
      · constructor
        · intro nonnull
          exact absurd null nonnull
        · intro room
          exact absurd room.2 noRoom
    · have nonnull : ptr ≠ 0 := by omega
      refine ⟨ptr, ⟨heap', (ptr, size) :: world.live⟩, chunks', called, ?_, ?_, spared, ?_⟩
      · simp only [step, called, if_neg nonnull]
      · constructor
        · exact sliced
        · have live := sound.live
          rw [old] at live
          rw [new]
          apply live.insert
          rw [pointer]
      · exact ⟨fun _ => ⟨none, fits⟩, fun _ => nonnull⟩

theorem Sound.free (sound : Sound region world chunks) {ptr : Nat}
    (owned : ∃ entry ∈ world.live, entry.1 = ptr) :
    ∃ next chunks', step fuel (.free ptr) world = .ok next ∧ Sound region next chunks' ∧
      ∀ address, world.owns address → next.heap.memory address = world.heap.memory address := by
  have tested : ∃ entry ∈ world.live, decide (entry.1 = ptr) = true := by
    obtain ⟨entry, member, same⟩ := owned
    exact ⟨entry, member, by simpa using same⟩
  obtain ⟨freed, _, isPtr, ⟨header, chunk⟩, used, same, erased⟩ := sound.live.erase tested
  have pointer : ptr = header + 4 := by
    have freedPtr : freed.1 = ptr := by simpa using isPtr
    rw [← freedPtr]
    exact (Prod.mk.inj same).1
  obtain ⟨chunks', before, after, sliced, old, new, outside⟩ := sound.sliced.hfFree used
  rw [← pointer] at sliced outside
  refine ⟨⟨world.heap.hfFree ptr, _⟩, chunks', rfl, ?_, ?_⟩
  · constructor
    · exact sliced
    · rw [new]
      exact erased before after old
  · rintro address ⟨entry, member, low, high⟩
    obtain ⟨own, piece, ownUsed, ownPointer, ownLength⟩ := sound.chunk member
    have apart := sound.sliced.chunked.same_or_apart (mem_usedChunks.mp ownUsed).1
      (mem_usedChunks.mp used).1
    have length := (sound.sliced.chunked.inside (mem_usedChunks.mp used).1).2.2.length
    apply outside
    rcases apart with equal | before | behind
    · obtain ⟨rfl, rfl⟩ := Prod.mk.inj equal
      omega
    · omega
    · omega

theorem Sound.store (sound : Sound region world chunks) {address : Nat} {value : UInt8}
    (owned : world.owns address) :
    ∃ next, step fuel (.store address value) world = .ok next ∧ Sound region next chunks := by
  obtain ⟨entry, member, low, high⟩ := owned
  obtain ⟨header, chunk, used, pointer, length⟩ := sound.chunk member
  refine ⟨_, rfl, ?_⟩
  constructor
  · exact sound.sliced.store used (by omega) (by omega) value
  · exact sound.live

structure Intact (region : Region) (world : ChunkWorld) (chunks : List Chunk) : Prop where
  chunked : Chunked world.heap.memory region.base chunks (last region)
  ends : readWord world.heap.memory (last region) = 0
  inside : ∀ entry ∈ world.live,
    region.base + 4 ≤ entry.1 ∧ entry.1 + (chunkSize entry.2 - 4) ≤ last region
  apart : world.live.Pairwise fun first second =>
    first.1 + chunkSize first.2 ≤ second.1 ∨ second.1 + chunkSize second.2 ≤ first.1
  booked : usedChunks region.base chunks = [] ↔ world.live = []

theorem Sound.intact (sound : Sound region world chunks) : Intact region world chunks := by
  constructor
  · exact sound.sliced.chunked
  · exact sound.sliced.ends
  · intro entry member
    obtain ⟨header, chunk, used, pointer, length⟩ := sound.chunk member
    have within := sound.sliced.chunked.inside (mem_usedChunks.mp used).1
    have longer := within.2.2.length
    omega
  · apply sound.live.pairwise fun first second =>
      first.1 + first.2 ≤ second.1 ∨ second.1 + second.2 ≤ first.1
    · intro first second apart
      exact apart.symm
    · apply (sound.sliced.chunked.apart.filter _).imp
      intro first second before
      left
      simp only
      omega
  · have counted := List.Perm.length_eq sound.live
    rw [List.length_map, List.length_map] at counted
    rw [← List.length_eq_zero_iff, ← List.length_eq_zero_iff, counted]

section SmallHeap

open HeapWorld (smallRegion)

instance (op : HeapOp) (world : ChunkWorld) : Decidable (allowed op world) :=
  match op with
  | .malloc size => inferInstanceAs (Decidable (size + 7 < 4294967296))
  | .free ptr => inferInstanceAs (Decidable (∃ entry ∈ world.live, entry.1 = ptr))
  | .store address _ => inferInstanceAs (Decidable (∃ entry ∈ world.live,
      entry.1 ≤ address ∧ address + 4 < entry.1 + chunkSize entry.2))

end SmallHeap

end ChunkWorld

end Hellfire

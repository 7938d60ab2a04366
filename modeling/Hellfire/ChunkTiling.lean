import Hellfire.Library.Tiling
import Hellfire.MallocBlocks
import Hellfire.ChunkCore

/-!
The chunks of the heap as the memory shows them, and what `compact` does to them: it joins
the free neighbours up to the first run that is long enough.
-/

namespace Hellfire

open ByteMemory Tiles

structure Chunk where
  used : Bool
  len : Nat
deriving DecidableEq, Repr

namespace ChunkHeap

open Heap (marked mark unmark)

def Stands (memory : Memory) (place : Nat) (chunk : Chunk) : Prop :=
  readWord memory place = chunk.len + chunk.used.toNat ∧ 0 < chunk.len ∧ chunk.len % 4 = 0

abbrev Chunked (memory : Memory) (start : Nat) (chunks : List Chunk) (stop : Nat) : Prop :=
  Tiling Chunk.len (Stands memory) start chunks stop

abbrev chunksAt (start : Nat) (chunks : List Chunk) : List (Nat × Chunk) :=
  places Chunk.len start chunks

def usedChunks (start : Nat) (chunks : List Chunk) : List (Nat × Chunk) :=
  (chunksAt start chunks).filter fun entry => entry.2.used

def Fits (size : Nat) (chunks : List Chunk) : Prop :=
  ∃ run, run <:+: chunks ∧ (∀ chunk ∈ run, chunk.used = false) ∧ size ≤ total Chunk.len run

variable {memory memory' : Memory} {start middle stop place size : Nat} {chunk : Chunk}
  {chunks run rest : List Chunk}

theorem Stands.positive (stands : Stands memory place chunk) : 0 < chunk.len := stands.2.1

theorem Stands.congr (stands : Stands memory place chunk)
    (same : ∀ address, place ≤ address → address < place + 4 → memory' address = memory address) :
    Stands memory' place chunk :=
  ⟨(readWord_congr same).trans stands.1, stands.2⟩

theorem Stands.length (stands : Stands memory place chunk) : 4 ≤ chunk.len := by
  have aligned := stands.2.2
  have positive := stands.positive
  omega

theorem Chunked.congr (chunked : Chunked memory start chunks stop)
    (same : ∀ address, start ≤ address → address < stop → memory' address = memory address) :
    Chunked memory' start chunks stop := by
  apply Tiling.congr chunked
  intro place chunk low high stands
  have longer := stands.length
  apply stands.congr
  intro address near far
  exact same address (by omega) (by omega)

theorem Chunked.usedChunks_append {first second : List Chunk}
    (front : Chunked memory start first middle) :
    usedChunks start (first ++ second) = usedChunks start first ++ usedChunks middle second := by
  unfold usedChunks chunksAt
  rw [front.places_append, List.filter_append]

theorem usedChunks_free (free : ∀ chunk ∈ run, chunk.used = false) :
    ∀ start, usedChunks start run = [] := by
  induction run with
  | nil => exact fun _ => rfl
  | cons head run ih =>
      intro start
      have headFree := free head List.mem_cons_self
      have later := ih (fun chunk member => free chunk (List.mem_cons_of_mem _ member))
        (start + head.len)
      simp only [usedChunks, places, List.filter_cons, headFree, Bool.false_eq_true, if_false]
      exact later

theorem mem_usedChunks {entry : Nat × Chunk} :
    entry ∈ usedChunks start chunks ↔ entry ∈ chunksAt start chunks ∧ entry.2.used = true := by
  simp [usedChunks]

theorem total_infix {inner outer : List Chunk} (inside : inner <:+: outer) :
    total Chunk.len inner ≤ total Chunk.len outer := by
  obtain ⟨front, back, whole⟩ := inside
  rw [← whole, total_append, total_append]
  omega

theorem fits_append_used (free : ∀ chunk ∈ run, chunk.used = false) (used : chunk.used = true) :
    Fits size (run ++ chunk :: rest) ↔ size ≤ total Chunk.len run ∨ Fits size rest := by
  constructor
  · rintro ⟨found, inside, foundFree, room⟩
    have avoids : chunk ∉ found := by
      intro member
      have contrary := foundFree chunk member
      rw [used] at contrary
      cases contrary
    rcases infix_of_append_mark avoids inside with before | behind
    · left
      have shorter := total_infix before
      omega
    · exact Or.inr ⟨found, behind, foundFree, room⟩
  · rintro (room | ⟨found, inside, foundFree, room⟩)
    · exact ⟨run, (List.prefix_append _ _).isInfix, free, room⟩
    · refine ⟨found, inside.trans ?_, foundFree, room⟩
      exact ((List.suffix_cons chunk rest).trans (List.suffix_append _ _)).isInfix

theorem fits_free (free : ∀ chunk ∈ run, chunk.used = false) :
    Fits size run ↔ size ≤ total Chunk.len run := by
  constructor
  · rintro ⟨found, inside, _, room⟩
    have shorter := total_infix inside
    omega
  · intro room
    exact ⟨run, List.infix_rfl, free, room⟩

structure Compacted (size : Nat) (memory memory' : Memory) (start : Nat)
    (before after : List Chunk) (stop found : Nat) : Prop where
  chunked : Chunked memory' start after stop
  used : usedChunks start after = usedChunks start before
  outside : ∀ address, address < start ∨ stop ≤ address → memory' address = memory address
  kept : ∀ entry ∈ usedChunks start before, ∀ address, entry.1 ≤ address →
    address < entry.1 + entry.2.len → memory' address = memory address
  outcome : found = 0 ∧ ¬ Fits size before ∨
    ∃ len, size ≤ len ∧ (found, ⟨false, len⟩) ∈ chunksAt start after ∧ Fits size before

def joined (run : List Chunk) : List Chunk :=
  if total Chunk.len run = 0 then [] else [⟨false, total Chunk.len run⟩]

theorem Chunked.aligned (chunked : Chunked memory start chunks stop) :
    total Chunk.len chunks % 4 = 0 := by
  induction chunked with
  | done start => rfl
  | piece here _ ih =>
      have aligned := here.2.2
      rw [total_cons]
      omega

theorem closeRun_spec (size : Nat) (chunked : Chunked memory start run middle) (small : middle < 4294967296) :
    ∃ memory', closeRun size start (total Chunk.len run) memory =
        (if total Chunk.len run ≠ 0 ∧ size ≤ total Chunk.len run then some start else none, memory') ∧
      Chunked memory' start (joined run) middle ∧
      ∀ address, address < start ∨ middle ≤ address → memory' address = memory address := by
  have reach := chunked.total
  have aligned := chunked.aligned
  by_cases empty : total Chunk.len run = 0
  · refine ⟨memory, ?_, ?_, ?_⟩
    · simp [closeRun, empty]
    · rw [joined, if_pos empty]
      rw [empty, Nat.add_zero] at reach
      exact reach ▸ Tiling.done start
    · intro address _
      rfl
  · refine ⟨writeWord memory start (total Chunk.len run), ?_, ?_, ?_⟩
    · simp [closeRun, empty]
    · rw [joined, if_neg empty, ← reach]
      apply Tiling.single
      constructor
      · rw [readWord_writeWord _ _ (by omega)]
        rfl
      · exact ⟨Nat.pos_of_ne_zero empty, aligned⟩
    · intro address outside
      exact writeWord_outside _ _ (by omega)

theorem joined_free : ∀ chunk ∈ joined run, chunk.used = false := by
  intro chunk member
  unfold joined at member
  split at member
  · cases member
  · rw [List.mem_singleton.mp member]

theorem usedChunks_behind (chunked : Chunked memory start run middle)
    (free : ∀ chunk ∈ run, chunk.used = false) :
    usedChunks start (run ++ rest) = usedChunks middle rest := by
  rw [chunked.usedChunks_append, usedChunks_free free, List.nil_append]

theorem Compacted.closed (before : Chunked memory start run middle)
    (free : ∀ chunk ∈ run, chunk.used = false) (closed : Chunked memory' start (joined run) middle)
    (outside : ∀ address, address < start ∨ middle ≤ address → memory' address = memory address)
    (behind : Chunked memory middle rest stop) (some : total Chunk.len run ≠ 0)
    (room : size ≤ total Chunk.len run) :
    Compacted size memory memory' start (run ++ rest) (joined run ++ rest) stop start := by
  have reach := before.total
  have further := behind.total
  have spared : Chunked memory' middle rest stop := by
    apply Chunked.congr behind
    intro address low _
    exact outside address (Or.inr low)
  constructor
  · exact closed.append spared
  · rw [usedChunks_behind before free, usedChunks_behind closed joined_free]
  · intro address away
    exact outside address (by omega)
  · intro entry member address low _
    rw [usedChunks_behind before free, mem_usedChunks] at member
    have within := behind.inside member.1
    exact outside address (by omega)
  · right
    refine ⟨total Chunk.len run, room, ?_, ?_⟩
    · rw [joined, if_neg some]
      exact List.mem_cons_self
    · exact ⟨run, (List.prefix_append _ _).isInfix, free, room⟩

theorem Compacted.past {after : List Chunk} {memory'' : Memory} {found : Nat}
    (before : Chunked memory start run middle) (free : ∀ chunk ∈ run, chunk.used = false)
    (closed : Chunked memory' start (joined run) middle)
    (outside : ∀ address, address < start ∨ middle ≤ address → memory' address = memory address)
    (here : Stands memory middle chunk) (used : chunk.used = true)
    (short : total Chunk.len run < size)
    (behind : Compacted size memory' memory'' (middle + chunk.len) rest after stop found)
    (reaches : middle + chunk.len ≤ stop) :
    Compacted size memory memory'' start (run ++ chunk :: rest) (joined run ++ chunk :: after) stop
      found := by
  have reach := before.total
  have longer := here.length
  have closedAfter : Chunked memory'' start (joined run) middle := by
    apply Chunked.congr closed
    intro address _ high
    exact behind.outside address (by omega)
  have hereAfter : Stands memory'' middle chunk := by
    apply here.congr
    intro address low high
    rw [behind.outside address (by omega), outside address (by omega)]
  constructor
  · exact closedAfter.append (.piece hereAfter behind.chunked)
  · rw [usedChunks_behind before free, usedChunks_behind closed joined_free]
    have same := behind.used
    unfold usedChunks chunksAt at same ⊢
    rw [places, places, List.filter_cons, List.filter_cons, same]
  · intro address away
    rw [behind.outside address (by omega), outside address (by omega)]
  · intro entry member address low high
    rw [usedChunks_behind before free, mem_usedChunks] at member
    rcases List.mem_cons.mp member.1 with first | later
    · subst first
      rw [behind.outside address (by simp only at high; omega), outside address (by omega)]
    · have usedLater : entry ∈ usedChunks (middle + chunk.len) rest := mem_usedChunks.mpr ⟨later, member.2⟩
      have sameUsed := usedLater
      rw [← behind.used, mem_usedChunks] at sameUsed
      have within := behind.chunked.inside sameUsed.1
      rw [behind.kept entry usedLater address low high, outside address (by omega)]
  · rcases behind.outcome with ⟨null, none⟩ | ⟨len, room, place, fits⟩
    · left
      refine ⟨null, ?_⟩
      intro fits
      rcases (fits_append_used free used).mp fits with inRun | later
      · omega
      · exact none later
    · right
      refine ⟨len, room, ?_, (fits_append_used free used).mpr (Or.inr fits)⟩
      rw [chunksAt, closedAfter.places_append]
      exact List.mem_append_right _ (List.mem_cons_of_mem _ place)

theorem Stands.word (stands : Stands memory place chunk) : readWord memory place ≠ 0 := by
  have positive := stands.positive
  rw [stands.1]
  omega

theorem Stands.marked_eq (stands : Stands memory place chunk) :
    marked (readWord memory place) = chunk.used := by
  have aligned := stands.2.2
  rw [stands.1, marked]
  cases chunk.used with
  | false => simp only [Bool.toNat_false, decide_eq_false_iff_not]; omega
  | true => simp only [Bool.toNat_true, decide_eq_true_eq]; omega

theorem Stands.unmark_eq (stands : Stands memory place chunk) :
    unmark (readWord memory place) = chunk.len := by
  have aligned := stands.2.2
  have bit := Bool.toNat_le chunk.used
  rw [stands.1, unmark]
  omega

theorem compactFrom_spec (positive : 0 < size) (small : stop < 4294967296) :
    ∀ {rest : List Chunk} {memory : Memory} {start middle fuel : Nat} {run : List Chunk},
      0 < start → Chunked memory start run middle → (∀ chunk ∈ run, chunk.used = false) →
      Chunked memory middle rest stop → readWord memory stop = 0 → rest.length < fuel →
      ∃ found memory' after,
        compactFrom size fuel middle start (total Chunk.len run) memory = some (found, memory') ∧
        Compacted size memory memory' start (run ++ rest) after stop found := by
  intro rest
  induction rest with
  | nil =>
      intro memory start middle fuel run nonnull before free behind ends enough
      obtain ⟨fuel, rfl⟩ : ∃ less, fuel = less + 1 := ⟨fuel - 1, by omega⟩
      cases behind with
      | done _ =>
          obtain ⟨memory', wrote, closed, outside⟩ := closeRun_spec size before small
          by_cases room : total Chunk.len run ≠ 0 ∧ size ≤ total Chunk.len run
          · refine ⟨start, memory', joined run ++ [], ?_, ?_⟩
            · simp [compactFrom, ends, wrote, room]
            · exact .closed before free closed outside (.done _) room.1 room.2
          · refine ⟨0, memory', joined run, ?_, ?_⟩
            · simp only [compactFrom, ends, wrote, if_neg room, ne_eq, not_true_eq_false, if_false]
            · constructor
              · exact closed
              · rw [usedChunks_free joined_free, List.append_nil, usedChunks_free free]
              · exact outside
              · intro entry member
                rw [List.append_nil, usedChunks_free free] at member
                cases member
              · left
                refine ⟨rfl, ?_⟩
                rw [List.append_nil, fits_free free]
                omega
  | cons chunk rest ih =>
      intro memory start middle fuel run nonnull before free behind ends enough
      simp only [List.length_cons] at enough
      obtain ⟨fuel, rfl⟩ : ∃ less, fuel = less + 1 := ⟨fuel - 1, by omega⟩
      obtain ⟨here, later⟩ := behind.head
      have reach := before.total
      have further := later.total
      have next : wrap32 (middle + chunk.len) = middle + chunk.len := Nat.mod_eq_of_lt (by omega)
      have longer := here.length
      by_cases used : chunk.used = true
      · obtain ⟨memory', wrote, closed, outside⟩ :=
          closeRun_spec size before (by omega : middle < 4294967296)
        by_cases room : total Chunk.len run ≠ 0 ∧ size ≤ total Chunk.len run
        · refine ⟨start, memory', joined run ++ chunk :: rest, ?_, ?_⟩
          · simp [compactFrom, here.word, here.marked_eq, used, wrote, room]
          · exact .closed before free closed outside behind room.1 room.2
        · have laterSpared : Chunked memory' (middle + chunk.len) rest stop := by
            apply Chunked.congr later
            intro address low _
            exact outside address (by omega)
          have endsSpared : readWord memory' stop = 0 := by
            rw [← ends]
            apply readWord_congr
            intro address low _
            exact outside address (by omega)
          obtain ⟨found, memory'', after, ran, compacted⟩ :=
            ih (by omega) (.done (middle + chunk.len)) (by simp) laterSpared endsSpared
              (by omega : rest.length < fuel)
          refine ⟨found, memory'', joined run ++ chunk :: after, ?_, ?_⟩
          · rw [compactFrom]
            simp only [here.word, here.marked_eq, here.unmark_eq, used, wrote, if_neg room, next,
              ne_eq, not_false_eq_true, if_true]
            exact ran
          · exact .past before free closed outside here used (by omega) compacted (by omega)
      · have isFree : chunk.used = false := by simpa using used
        have grown : Chunked memory start (run ++ [chunk]) (middle + chunk.len) :=
          before.append (.single here)
        have allFree : ∀ other ∈ run ++ [chunk], other.used = false := by
          intro other member
          rcases List.mem_append.mp member with inRun | last
          · exact free other inRun
          · rw [List.mem_singleton.mp last]
            exact isFree
        obtain ⟨found, memory', after, ran, compacted⟩ :=
          ih nonnull grown allFree later ends (by omega : rest.length < fuel)
        refine ⟨found, memory', after, ?_, ?_⟩
        · have word : readWord memory middle = chunk.len := by
            rw [here.1, isFree]
            rfl
          have sum : wrap32 (total Chunk.len run + chunk.len) = total Chunk.len (run ++ [chunk]) := by
            have grownReach := grown.total
            rw [total_append] at grownReach ⊢
            rw [total_cons] at grownReach ⊢
            exact Nat.mod_eq_of_lt (by simp only [total, List.map_nil, List.sum_nil] at *; omega)
          rw [compactFrom]
          simp only [here.word, here.marked_eq, isFree, ne_eq, not_false_eq_true, if_true,
            Bool.false_eq_true, if_false]
          rw [word, next, sum]
          exact ran
        · rw [← List.append_cons] at compacted
          exact compacted

end ChunkHeap

end Hellfire

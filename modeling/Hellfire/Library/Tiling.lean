import Mathlib.Algebra.Order.Ring.Nat
import Mathlib.Data.List.Infix

/-!
Pieces that stand one behind another on a line of addresses: the places they have, how
tilings are put together and cut, and the runs of pieces between two marks.
-/

namespace Tiles

variable {Piece : Type} {length : Piece → Nat} {stands stands' : Nat → Piece → Prop}

inductive Tiling (length : Piece → Nat) (stands : Nat → Piece → Prop) :
    Nat → List Piece → Nat → Prop
  | done (start) : Tiling length stands start [] start
  | piece {start piece rest stop} : stands start piece →
      Tiling length stands (start + length piece) rest stop →
      Tiling length stands start (piece :: rest) stop

def places (length : Piece → Nat) : Nat → List Piece → List (Nat × Piece)
  | _, [] => []
  | start, piece :: rest => (start, piece) :: places length (start + length piece) rest

def total (length : Piece → Nat) (pieces : List Piece) : Nat := (pieces.map length).sum

variable {start middle stop place : Nat} {piece : Piece} {pieces first second : List Piece}

theorem total_append (first second : List Piece) :
    total length (first ++ second) = total length first + total length second := by
  simp [total]

theorem total_cons (piece : Piece) (rest : List Piece) :
    total length (piece :: rest) = length piece + total length rest := by
  simp [total]

theorem Tiling.total (tiling : Tiling length stands start pieces stop) :
    start + Tiles.total length pieces = stop := by
  induction tiling with
  | done start => rfl
  | piece _ _ ih =>
      rw [total_cons]
      omega

theorem Tiling.append (front : Tiling length stands start first middle)
    (back : Tiling length stands middle second stop) :
    Tiling length stands start (first ++ second) stop := by
  induction front with
  | done start => exact back
  | piece here _ ih => exact .piece here (ih back)

theorem Tiling.cut : ∀ {first : List Piece} {start : Nat},
    Tiling length stands start (first ++ second) stop →
      ∃ middle, Tiling length stands start first middle ∧
        Tiling length stands middle second stop := by
  intro first
  induction first with
  | nil =>
      intro start tiling
      exact ⟨start, .done start, tiling⟩
  | cons piece first ih =>
      intro start tiling
      cases tiling with
      | piece here behind =>
          obtain ⟨middle, front, back⟩ := ih behind
          exact ⟨middle, .piece here front, back⟩

theorem Tiling.head (tiling : Tiling length stands start (piece :: pieces) stop) :
    stands start piece ∧ Tiling length stands (start + length piece) pieces stop := by
  cases tiling with
  | piece here behind => exact ⟨here, behind⟩

theorem Tiling.single (here : stands start piece) :
    Tiling length stands start [piece] (start + length piece) :=
  .piece here (.done _)

theorem Tiling.congr (tiling : Tiling length stands start pieces stop)
    (same : ∀ place piece, start ≤ place → place + length piece ≤ stop → stands place piece →
      stands' place piece) : Tiling length stands' start pieces stop := by
  induction tiling with
  | done start => exact .done start
  | piece here behind ih =>
      have reach := behind.total
      apply Tiling.piece
      · exact same _ _ (Nat.le_refl _) (by omega) here
      · apply ih
        intro place piece low high
        exact same place piece (by omega) high

theorem Tiling.congr_mem (tiling : Tiling length stands start pieces stop)
    (same : ∀ place piece, (place, piece) ∈ places length start pieces → stands place piece →
      stands' place piece) : Tiling length stands' start pieces stop := by
  induction tiling with
  | done start => exact .done start
  | piece here _ ih =>
      apply Tiling.piece
      · exact same _ _ List.mem_cons_self here
      · apply ih
        intro place piece member
        exact same place piece (List.mem_cons_of_mem _ member)

theorem Tiling.count_le (tiling : Tiling length stands start pieces stop)
    (positive : ∀ place piece, stands place piece → 0 < length piece) :
    pieces.length + start ≤ stop := by
  induction tiling with
  | done start => simp
  | piece here _ ih =>
      have longer := positive _ _ here
      simp only [List.length_cons]
      omega

theorem places_append (first second : List Piece) : ∀ start, places length start (first ++ second) =
    places length start first ++ places length (start + total length first) second := by
  induction first with
  | nil => exact fun _ => rfl
  | cons piece first ih =>
      intro start
      rw [List.cons_append, places, ih, places, List.cons_append, total_cons, Nat.add_assoc]

theorem Tiling.places_append (front : Tiling length stands start first middle) :
    places length start (first ++ second) =
      places length start first ++ places length middle second := by
  rw [Tiles.places_append, front.total]

theorem Tiling.inside (tiling : Tiling length stands start pieces stop)
    (member : (place, piece) ∈ places length start pieces) :
    start ≤ place ∧ place + length piece ≤ stop ∧ stands place piece := by
  induction tiling with
  | done start => cases member
  | piece here behind ih =>
      have reach := behind.total
      rcases List.mem_cons.mp member with first | later
      · cases first
        exact ⟨Nat.le_refl _, by omega, here⟩
      · have := ih later
        exact ⟨by omega, this.2⟩

theorem Tiling.apart (tiling : Tiling length stands start pieces stop) :
    (places length start pieces).Pairwise
      fun first second => first.1 + length first.2 ≤ second.1 := by
  induction tiling with
  | done start => exact List.Pairwise.nil
  | piece _ behind ih =>
      apply List.Pairwise.cons
      · intro entry member
        exact (behind.inside member).1
      · exact ih

theorem Tiling.cut_at (tiling : Tiling length stands start pieces stop)
    (member : (place, piece) ∈ places length start pieces) :
    ∃ front back, pieces = front ++ ([piece] ++ back) ∧ Tiling length stands start front place ∧
      Tiling length stands (place + length piece) back stop := by
  induction tiling with
  | done start => cases member
  | @piece start head rest stop here behind ih =>
      rcases List.mem_cons.mp member with first | later
      · cases first
        exact ⟨[], rest, rfl, .done _, behind⟩
      · obtain ⟨front, back, split, before, after⟩ := ih later
        exact ⟨head :: front, back, by rw [split]; rfl, .piece here before, after⟩

theorem Tiling.starts (tiling : Tiling length stands start pieces stop)
    (positive : ∀ place piece, stands place piece → 0 < length piece)
    (member : (start, piece) ∈ places length start pieces) : ∃ rest, pieces = piece :: rest := by
  cases tiling with
  | done start => cases member
  | piece here behind =>
      rcases List.mem_cons.mp member with same | later
      · cases same
        exact ⟨_, rfl⟩
      · have within := (behind.inside later).1
        have longer := positive _ _ here
        omega

theorem Tiling.same_or_apart (tiling : Tiling length stands start pieces stop)
    {other : Nat} {piece' : Piece} (member : (place, piece) ∈ places length start pieces)
    (member' : (other, piece') ∈ places length start pieces) :
    (place, piece) = (other, piece') ∨ place + length piece ≤ other ∨
      other + length piece' ≤ place := by
  induction tiling with
  | done start => cases member
  | piece _ behind ih =>
      rcases List.mem_cons.mp member with first | later
      · rcases List.mem_cons.mp member' with first' | later'
        · exact Or.inl (first.trans first'.symm)
        · cases first
          exact Or.inr (Or.inl (behind.inside later').1)
      · rcases List.mem_cons.mp member' with first' | later'
        · cases first'
          exact Or.inr (Or.inr (behind.inside later).1)
        · exact ih later later'

theorem infix_of_append_mark {mark : Piece} {run front back : List Piece} (avoids : mark ∉ run)
    (inside : run <:+: front ++ mark :: back) : run <:+: front ∨ run <:+: back := by
  induction front with
  | nil =>
      rcases List.infix_cons_iff.mp inside with prefixed | later
      · cases run with
        | nil => exact Or.inl (List.nil_infix)
        | cons head run =>
            have same := (List.cons_prefix_cons.mp prefixed).1
            exact absurd (same ▸ List.mem_cons_self) avoids
      · exact Or.inr later
  | cons head front ih =>
      rcases List.infix_cons_iff.mp inside with prefixed | later
      · left
        apply List.IsPrefix.isInfix
        rcases List.prefix_or_prefix_of_prefix prefixed
          (List.prefix_append (head :: front) (mark :: back)) with short | long
        · exact short
        · obtain ⟨extra, whole⟩ := long
          rw [← whole] at prefixed
          have tail := (List.prefix_append_right_inj (head :: front)).mp prefixed
          cases extra with
          | nil =>
              rw [List.append_nil] at whole
              exact whole ▸ List.prefix_rfl
          | cons next extra =>
              have same := (List.cons_prefix_cons.mp tail).1
              have held : mark ∈ run := by
                rw [← whole, same]
                simp
              exact absurd held avoids
      · rcases ih later with before | behind
        · exact Or.inl (before.trans (List.infix_cons (List.infix_rfl)))
        · exact Or.inr behind

section Records

variable {Record Item Key : Type} {recorded : Record → Key} {itemKey : Item → Key}
  {records : List Record} {items before after : List Item}

/-- The records that clients keep are those of the items, each once. -/
def Recorded (recorded : Record → Key) (itemKey : Item → Key) (records : List Record)
    (items : List Item) : Prop :=
  (records.map recorded).Perm (items.map itemKey)

theorem Recorded.item (matched : Recorded recorded itemKey records items) {record : Record}
    (member : record ∈ records) : ∃ item ∈ items, recorded record = itemKey item := by
  have mapped := matched.mem_iff.mp (List.mem_map_of_mem member)
  obtain ⟨item, held, same⟩ := List.mem_map.mp mapped
  exact ⟨item, held, same.symm⟩

theorem Recorded.insert (matched : Recorded recorded itemKey records (before ++ after))
    {record : Record} {item : Item} (same : recorded record = itemKey item) :
    Recorded recorded itemKey (record :: records) (before ++ item :: after) := by
  unfold Recorded at matched ⊢
  rw [List.map_append] at matched
  rw [List.map_cons, List.map_append, List.map_cons, same]
  exact (matched.cons _).trans List.perm_middle.symm

theorem Recorded.erase (matched : Recorded recorded itemKey records items) {test : Record → Bool}
    (some : ∃ record ∈ records, test record = true) :
    ∃ record ∈ records, test record = true ∧ ∃ item ∈ items, recorded record = itemKey item ∧
      ∀ before after, items = before ++ item :: after →
        Recorded recorded itemKey (records.eraseP test) (before ++ after) := by
  obtain ⟨found, foundMember, foundTest⟩ := some
  obtain ⟨record, first, second, _, passes, split, erased⟩ :=
    List.exists_of_eraseP foundMember foundTest
  have member : record ∈ records := by
    rw [split]
    simp
  obtain ⟨item, held, same⟩ := matched.item member
  refine ⟨record, member, passes, item, held, same, ?_⟩
  intro before after whole
  unfold Recorded at matched ⊢
  rw [split, whole] at matched
  simp only [List.map_append, List.map_cons, same] at matched
  rw [erased]
  simp only [List.map_append]
  exact ((List.perm_middle.symm.trans matched).trans List.perm_middle).cons_inv

theorem Recorded.pairwise (matched : Recorded recorded itemKey records items)
    (away : Key → Key → Prop) (symmetric : ∀ {first second}, away first second → away second first)
    (apart : items.Pairwise fun first second => away (itemKey first) (itemKey second)) :
    records.Pairwise fun first second => away (recorded first) (recorded second) := by
  have mapped : (items.map itemKey).Pairwise away := List.pairwise_map.mpr apart
  exact List.pairwise_map.mp ((matched.pairwise_iff fun {_ _} => symmetric).mpr mapped)

end Records

end Tiles

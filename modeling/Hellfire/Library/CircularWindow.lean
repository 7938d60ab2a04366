import Mathlib.Data.Nat.ModEq
import Mathlib.Data.List.Basic

/-!
Windows of a circular array. A window of `count` cells starts at cell `start` of
the array and wraps around its end; appending, dropping the first cell and
writing inside the window are list operations on what it shows.
-/

namespace CircularWindow

variable {β : Type}

def position (length start offset : Nat) : Nat := (start + offset) % length

def window (blank : β) (cells : List β) (start count : Nat) : List β :=
  (List.range count).map fun offset => cells.getD (position cells.length start offset) blank

theorem position_lt {length start offset : Nat} (nonempty : 0 < length) :
    position length start offset < length :=
  Nat.mod_lt _ nonempty

theorem position_injective {length start first second : Nat}
    (firstBound : first < length) (secondBound : second < length)
    (same : position length start first = position length start second) : first = second := by
  have congruent : first ≡ second [MOD length] := Nat.ModEq.add_left_cancel' start same
  exact Nat.ModEq.eq_of_lt_of_lt congruent firstBound secondBound

theorem position_succ_start (length start offset : Nat) :
    position length ((start + 1) % length) offset = position length start (offset + 1) := by
  simp only [position, Nat.mod_add_mod]
  congr 1
  omega

@[simp] theorem window_length (blank : β) (cells : List β) (start count : Nat) :
    (window blank cells start count).length = count := by
  simp [window]

theorem window_getD (blank : β) (cells : List β) (start count index : Nat)
    (bound : index < count) :
    (window blank cells start count).getD index blank =
      cells.getD (position cells.length start index) blank := by
  simp [window, List.getD, bound]

theorem window_append (blank : β) (cells : List β) (start count : Nat) (value : β)
    (room : count < cells.length) :
    window blank (cells.set (position cells.length start count) value) start (count + 1) =
      window blank cells start count ++ [value] := by
  have lastBound : position cells.length start count < cells.length := position_lt (by omega)
  have older : ∀ offset ∈ List.range count,
      (cells.set (position cells.length start count) value).getD
        (position cells.length start offset) blank =
      cells.getD (position cells.length start offset) blank := by
    intro offset member
    have offsetBound : offset < count := List.mem_range.mp member
    have different : position cells.length start count ≠ position cells.length start offset := by
      intro same
      have := position_injective room (by omega) same
      omega
    simp [List.getD, List.getElem?_set_ne different]
  simp only [window, List.length_set, List.range_succ, List.map_append, List.map_cons, List.map_nil]
  rw [List.map_congr_left older]
  simp [List.getD, lastBound]

theorem window_concat (blank : β) (cells : List β) (start count : Nat) :
    window blank cells start (count + 1) = window blank cells start count ++
      [cells.getD (position cells.length start count) blank] := by
  simp only [window, List.range_succ, List.map_append, List.map_cons, List.map_nil]

theorem window_advance (blank : β) (cells : List β) (start count : Nat) :
    window blank cells start (count + 1) =
      cells.getD (position cells.length start 0) blank ::
        window blank cells ((start + 1) % cells.length) count := by
  simp only [window, List.range_succ_eq_map, List.map_cons, List.map_map]
  congr 1
  apply List.map_congr_left
  intro offset _
  simp [position_succ_start, Function.comp]

theorem window_set (blank : β) (cells : List β) (start count index : Nat) (value : β)
    (fits : count ≤ cells.length) (bound : index < count) :
    window blank (cells.set (position cells.length start index) value) start count =
      (window blank cells start count).set index value := by
  apply List.ext_getElem
  · simp
  · intro offset leftBound rightBound
    have offsetBound : offset < count := by simpa using leftBound
    have positionBound : position cells.length start index < cells.length :=
      position_lt (by omega)
    by_cases same : index = offset
    · subst same
      simp [window, List.getD, positionBound]
    · have different : position cells.length start index ≠ position cells.length start offset := by
        intro equal
        exact same (position_injective (by omega) (by omega) equal)
      simp [window, List.getD, List.getElem?_set_ne different, List.getElem_set_ne same]

end CircularWindow

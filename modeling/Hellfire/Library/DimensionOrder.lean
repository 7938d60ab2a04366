import Mathlib.Logic.Basic

/-!
Dimension-order routing on a grid: a packet travels along its line to the column of its target,
and along that column to the target. The way between two places is the only one, so every place
on it is entered with one heading.
-/

namespace DimensionOrder

structure Place where
  column : Nat
  line : Nat
deriving DecidableEq, Repr

inductive Heading
  | here
  | east
  | west
  | north
  | south
deriving DecidableEq, Repr

def heading (place target : Place) : Heading :=
  if place.line = target.line ∧ place.column = target.column then .here
  else if place.column < target.column then .east
  else if target.column < place.column then .west
  else if target.line < place.line then .south
  else .north

def Place.next (place : Place) : Heading → Place
  | .here => place
  | .east => ⟨place.column + 1, place.line⟩
  | .west => ⟨place.column - 1, place.line⟩
  | .north => ⟨place.column, place.line + 1⟩
  | .south => ⟨place.column, place.line - 1⟩

def Place.Opens (place : Place) : Heading → Prop
  | .west => 0 < place.column
  | .south => 0 < place.line
  | _ => True

/-- A packet on its way from `source` to `target` comes to `place` with this heading. It starts
with the heading `here`. -/
def Enters (source target place : Place) : Heading → Prop
  | .here => place = source
  | .east => place.line = source.line ∧ source.column < place.column ∧
      place.column ≤ target.column
  | .west => place.line = source.line ∧ place.column < source.column ∧
      target.column ≤ place.column
  | .north => place.column = target.column ∧ source.line < place.line ∧ place.line ≤ target.line
  | .south => place.column = target.column ∧ place.line < source.line ∧ target.line ≤ place.line

def hops (source place : Place) : Nat :=
  (place.column - source.column) + (source.column - place.column) +
    ((place.line - source.line) + (source.line - place.line))

variable {source target place : Place} {into onto : Heading}

theorem heading_here_iff : heading place target = .here ↔ place = target := by
  obtain ⟨column, line⟩ := place
  obtain ⟨column', line'⟩ := target
  simp only [heading, Place.mk.injEq]
  constructor
  · intro same
    split at same
    · next equal => exact ⟨equal.2, equal.1⟩
    · repeat' split at same
      all_goals cases same
  · rintro ⟨rfl, rfl⟩
    rw [if_pos ⟨rfl, rfl⟩]

theorem heading_spec (leaves : heading place target = onto) :
    match onto with
    | .here => place.column = target.column ∧ place.line = target.line
    | .east => place.column < target.column
    | .west => target.column < place.column
    | .north => place.column = target.column ∧ place.line < target.line
    | .south => place.column = target.column ∧ target.line < place.line := by
  subst leaves
  unfold heading
  repeat' split
  all_goals grind

theorem Enters.start (source target : Place) : Enters source target source .here := rfl

theorem Enters.unique (first : Enters source target place into)
    (second : Enters source target place onto) : into = onto := by
  cases into <;> cases onto <;> simp only [Enters] at first second
  all_goals first
    | rfl
    | (exfalso; first | omega | (subst first; omega) | (subst second; omega))

theorem Enters.next (enters : Enters source target place into)
    (leaves : heading place target = onto) (moves : onto ≠ .here) :
    Enters source target (place.next onto) onto := by
  have spec := heading_spec leaves
  cases onto with
  | here => exact absurd rfl moves
  | east | west | north | south =>
      cases into <;> simp only [Enters, Place.next] at enters spec ⊢
      all_goals first
        | (subst enters; omega)
        | omega

theorem Enters.before (opens : place.Opens into) (moves : into ≠ .here)
    (enters : Enters source target (place.next into) into) :
    heading place target = into ∧ ∃ earlier, Enters source target place earlier := by
  have corner : ∀ {here : Place}, here.column = source.column → here.line = source.line →
      Enters source target here .here := by
    rintro ⟨column, line⟩ sameColumn sameLine
    simp only at sameColumn sameLine
    rw [sameColumn, sameLine]
    rfl
  cases into with
  | here => exact absurd rfl moves
  | east =>
      simp only [Enters, Place.next] at enters
      refine ⟨by simp only [heading]; grind, ?_⟩
      by_cases first : place.column = source.column
      · exact ⟨.here, corner first enters.1⟩
      · exact ⟨.east, enters.1, by omega, by omega⟩
  | west =>
      simp only [Enters, Place.next, Place.Opens] at enters opens
      refine ⟨by simp only [heading]; grind, ?_⟩
      by_cases first : place.column = source.column
      · exact ⟨.here, corner first enters.1⟩
      · exact ⟨.west, enters.1, by omega, by omega⟩
  | north =>
      simp only [Enters, Place.next] at enters
      refine ⟨by simp only [heading]; grind, ?_⟩
      by_cases turned : source.line < place.line
      · exact ⟨.north, enters.1, turned, by omega⟩
      · have level : place.line = source.line := by omega
        rcases Nat.lt_trichotomy source.column place.column with eastward | first | westward
        · exact ⟨.east, level, eastward, by omega⟩
        · exact ⟨.here, corner first.symm level⟩
        · exact ⟨.west, level, westward, by omega⟩
  | south =>
      simp only [Enters, Place.next, Place.Opens] at enters opens
      refine ⟨by simp only [heading]; grind, ?_⟩
      by_cases turned : place.line < source.line
      · exact ⟨.south, enters.1, turned, by omega⟩
      · have level : place.line = source.line := by omega
        rcases Nat.lt_trichotomy source.column place.column with eastward | first | westward
        · exact ⟨.east, level, eastward, by omega⟩
        · exact ⟨.here, corner first.symm level⟩
        · exact ⟨.west, level, westward, by omega⟩

theorem Enters.hops_next (enters : Enters source target (place.next into) into)
    (opens : place.Opens into) (moves : into ≠ .here) :
    hops source (place.next into) = hops source place + 1 := by
  cases into with
  | here => exact absurd rfl moves
  | east | west | north | south =>
      simp only [Enters, Place.next, Place.Opens] at enters opens
      simp only [hops, Place.next]
      omega

/-- A rank for the links of a grid, below `lines + columns + 2`: the link out of a place with a
heading. -/
def rank (columns lines : Nat) (place : Place) : Heading → Nat
  | .here => 0
  | .north => lines - place.line
  | .south => place.line + 1
  | .east => lines + 1 + (columns - place.column)
  | .west => lines + 1 + (place.column + 1)

theorem rank_lt_bound {columns lines : Nat} (column : place.column < columns)
    (line : place.line < lines) (heading : Heading) :
    rank columns lines place heading < columns + lines + 2 := by
  cases heading <;> simp only [rank] <;> omega

/-- A packet goes on over a link of a smaller rank: the ways turn from the lines to the columns
and never back. -/
theorem Enters.rank_lt {columns lines : Nat} (enters : Enters source target (place.next into) into)
    (leaves : heading (place.next into) target = onto) (opens : place.Opens into)
    (moves : into ≠ .here) (column : (place.next into).column < columns)
    (line : (place.next into).line < lines) :
    rank columns lines (place.next into) onto < rank columns lines place into := by
  have spec := heading_spec leaves
  cases into with
  | here => exact absurd rfl moves
  | east | west | north | south =>
      cases onto <;> simp only [Enters, Place.next, Place.Opens, rank] at *
      all_goals omega

end DimensionOrder

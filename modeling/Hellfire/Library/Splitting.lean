import Mathlib.Data.List.TakeWhile

/-!
Lists that are split at delimiters: the longest segments without a delimiter, with their places.
-/

namespace Splitting

variable {α : Type} {p : α → Bool}

structure MaximalRun (p : α → Bool) (list : List α) (place : Nat) (run : List α) : Prop where
  nonempty : run ≠ []
  free : ∀ x ∈ run, p x = false
  within : ∃ before after, list = before ++ (run ++ after) ∧ before.length = place ∧
    (∀ x ∈ before.getLast?, p x = true) ∧ ∀ x ∈ after.head?, p x = true

inductive Splits (p : α → Bool) : Nat → List α → List (Nat × List α) → Prop
  | blank {start list} : (∀ x ∈ list, p x = true) → Splits p start list []
  | last {start before run} : (∀ x ∈ before, p x = true) → run ≠ [] → (∀ x ∈ run, p x = false) →
      Splits p start (before ++ run) [(start + before.length, run)]
  | next {start before run delimiter after runs} : (∀ x ∈ before, p x = true) → run ≠ [] →
      (∀ x ∈ run, p x = false) → p delimiter = true →
      Splits p (start + before.length + run.length + 1) after runs →
      Splits p start (before ++ (run ++ delimiter :: after)) ((start + before.length, run) :: runs)

theorem cut (p : α → Bool) (list : List α) : ∃ front back, list = front ++ back ∧
    (∀ x ∈ front, p x = true) ∧ ∀ x ∈ back.head?, p x = false := by
  refine ⟨list.takeWhile p, list.dropWhile p, List.takeWhile_append_dropWhile.symm, ?_, ?_⟩
  · exact fun x member => List.mem_takeWhile_imp member
  · intro x first
    have stops := List.head?_dropWhile_not p list
    rw [Option.mem_def.mp first] at stops
    exact Bool.eq_false_iff.mpr (by simpa using stops)

theorem segment (p : α → Bool) (list : List α) : (∀ x ∈ list, p x = true) ∨
    ∃ before run after, list = before ++ (run ++ after) ∧ (∀ x ∈ before, p x = true) ∧ run ≠ [] ∧
      (∀ x ∈ run, p x = false) ∧ ∀ x ∈ after.head?, p x = true := by
  obtain ⟨before, rest, rfl, delimiters, free⟩ := cut p list
  obtain ⟨run, after, rfl, plain, stops⟩ := cut (fun x => !p x) rest
  have clear : ∀ x ∈ run, p x = false := fun x member => by simpa using plain x member
  have stop : ∀ x ∈ after.head?, p x = true := fun x first => by simpa using stops x first
  by_cases none : run = []
  · subst none
    left
    cases after with
    | nil =>
        rw [List.append_nil, List.append_nil]
        exact delimiters
    | cons first others =>
        have first_free := free first rfl
        rw [stop first rfl] at first_free
        cases first_free
  · exact .inr ⟨before, run, after, rfl, delimiters, none, clear, stop⟩

theorem Splits.exists (p : α → Bool) (size : Nat) :
    ∀ (start : Nat) (list : List α), list.length ≤ size → ∃ runs, Splits p start list runs := by
  induction size with
  | zero =>
      intro start list short
      rw [List.length_eq_zero_iff.mp (Nat.le_zero.mp short)]
      exact ⟨[], .blank fun x member => absurd member List.not_mem_nil⟩
  | succ size ih =>
      intro start list short
      rcases segment p list with blank | ⟨before, run, after, rfl, delimiters, nonempty, free, stops⟩
      · exact ⟨[], .blank blank⟩
      · cases after with
        | nil =>
            rw [List.append_nil]
            exact ⟨_, .last delimiters nonempty free⟩
        | cons delimiter after =>
            simp only [List.length_append, List.length_cons] at short
            obtain ⟨runs, split⟩ := ih (start + before.length + run.length + 1) after (by omega)
            exact ⟨_, .next delimiters nonempty free (stops delimiter rfl) split⟩

section Membership

variable {before run after other list : List α} {start place : Nat}

theorem run_unique {after' : List α} (same : run ++ after = other ++ after')
    (free : ∀ x ∈ run, p x = false) (free' : ∀ x ∈ other, p x = false)
    (stops : ∀ x ∈ after.head?, p x = true) (stops' : ∀ x ∈ after'.head?, p x = true) :
    other = run := by
  rcases List.append_eq_append_iff.mp same with ⟨more, rfl, rest⟩ | ⟨more, rfl, rest⟩
  · cases more with
    | nil => exact List.append_nil run
    | cons x more =>
        have stop := stops x (by rw [rest]; rfl)
        rw [free' x (List.mem_append_right _ List.mem_cons_self)] at stop
        cases stop
  · cases more with
    | nil => exact (List.append_nil other).symm
    | cons x more =>
        have stop := stops' x (by rw [rest]; rfl)
        rw [free x (List.mem_append_right _ List.mem_cons_self)] at stop
        cases stop

theorem MaximalRun.cases (delimiters : ∀ x ∈ before, p x = true) (free : ∀ x ∈ run, p x = false)
    (stops : ∀ x ∈ after.head?, p x = true)
    (maximal : MaximalRun p (before ++ (run ++ after)) place other) :
    (place = before.length ∧ other = run) ∨
      ∃ delimiter rest behind, after = delimiter :: rest ∧
        place = before.length + run.length + 1 + behind ∧ MaximalRun p rest behind other := by
  obtain ⟨nonempty, free', front, back, same, rfl, left, right⟩ := maximal
  obtain ⟨first, others, rfl⟩ := List.exists_cons_of_ne_nil nonempty
  have first_free := free' first List.mem_cons_self
  rcases List.append_eq_append_iff.mp same with ⟨middle, rfl, behind⟩ | ⟨middle, rfl, behind⟩
  · -- The segment begins behind the leading delimiters.
    rcases List.append_eq_append_iff.mp behind with ⟨tail, rfl, further⟩ | ⟨tail, rfl, further⟩
    · cases tail with
      | nil =>
          have stop := stops first (by rw [further]; rfl)
          rw [first_free] at stop
          cases stop
      | cons delimiter tail =>
          right
          refine ⟨delimiter, tail ++ (first :: others ++ back), tail.length, further, ?_, nonempty,
            free', tail, back, rfl, rfl, ?_, right⟩
          · simp only [List.length_append, List.length_cons]
            omega
          · intro x last
            refine left x ?_
            rw [← List.append_assoc, List.getLast?_append, List.getLast?_cons, Option.mem_def.mp last]
            rfl
    · left
      cases middle with
      | nil => exact ⟨by rw [List.append_nil], run_unique further.symm free free' stops right⟩
      | cons x middle =>
          -- Its left neighbour would be in the run.
          have some : x :: middle ≠ [] := List.cons_ne_nil x middle
          have stop := left ((x :: middle).getLast some) (by
            rw [List.getLast?_append, List.getLast?_eq_some_getLast some]
            rfl)
          rw [free _ (List.mem_append_left _ (List.getLast_mem some))] at stop
          cases stop
  · left
    cases middle with
    | nil => exact ⟨by rw [List.append_nil], run_unique behind.symm free free' stops right⟩
    | cons x middle =>
        obtain ⟨rfl, _⟩ := List.cons.inj behind
        have stop := delimiters first (List.mem_append_right _ List.mem_cons_self)
        rw [first_free] at stop
        cases stop

theorem last_delimits (delimiters : ∀ x ∈ before, p x = true) : ∀ x ∈ before.getLast?, p x = true :=
  fun _ last => delimiters _ (List.mem_of_mem_getLast? last)

theorem MaximalRun.first (delimiters : ∀ x ∈ before, p x = true) (nonempty : run ≠ [])
    (free : ∀ x ∈ run, p x = false) (stops : ∀ x ∈ after.head?, p x = true) :
    MaximalRun p (before ++ (run ++ after)) before.length run :=
  ⟨nonempty, free, before, after, rfl, rfl, last_delimits delimiters, stops⟩

theorem MaximalRun.behind {delimiter : α} (stop : p delimiter = true)
    (maximal : MaximalRun p after place other) :
    MaximalRun p (list ++ delimiter :: after) (list.length + 1 + place) other := by
  obtain ⟨nonempty, free, front, back, rfl, rfl, left, right⟩ := maximal
  refine ⟨nonempty, free, list ++ delimiter :: front, back, ?_, ?_, ?_, right⟩
  · rw [List.append_assoc, List.cons_append]
  · simp only [List.length_append, List.length_cons]
    omega
  · intro x last
    rw [List.getLast?_append, List.getLast?_cons] at last
    cases ends : front.getLast? with
    | none =>
        rw [ends] at last
        cases last
        exact stop
    | some y =>
        rw [ends] at last
        cases last
        exact left y ends

theorem Splits.mem_iff {runs : List (Nat × List α)} (splits : Splits p start list runs) :
    (place, other) ∈ runs ↔ ∃ behind, place = start + behind ∧ MaximalRun p list behind other := by
  induction splits generalizing place other with
  | @blank start list delimiters =>
      refine ⟨fun member => absurd member List.not_mem_nil, ?_⟩
      rintro ⟨behind, _, nonempty, free, front, back, rfl, _⟩
      obtain ⟨first, others, rfl⟩ := List.exists_cons_of_ne_nil nonempty
      have stop := delimiters first (List.mem_append_right _ (List.mem_append_left _ List.mem_cons_self))
      rw [free first List.mem_cons_self] at stop
      cases stop
  | @last start before run delimiters nonempty free =>
      have stops : ∀ x ∈ ([] : List α).head?, p x = true := fun x first => by cases first
      constructor
      · intro member
        obtain ⟨rfl, rfl⟩ := Prod.mk.inj (List.mem_singleton.mp member)
        have maximal := MaximalRun.first delimiters nonempty free stops
        rw [List.append_nil] at maximal
        exact ⟨before.length, rfl, maximal⟩
      · rintro ⟨behind, rfl, maximal⟩
        rw [← List.append_nil run] at maximal
        rcases maximal.cases delimiters free stops with ⟨rfl, rfl⟩ | ⟨_, _, _, more, _⟩
        · exact List.mem_singleton_self _
        · cases more
  | @next start before run delimiter after runs delimiters nonempty free stop _ ih =>
      have stops : ∀ x ∈ (delimiter :: after).head?, p x = true := by
        intro x first
        cases first
        exact stop
      constructor
      · intro member
        rcases List.mem_cons.mp member with here | later
        · obtain ⟨rfl, rfl⟩ := Prod.mk.inj here
          exact ⟨before.length, rfl, .first delimiters nonempty free stops⟩
        · obtain ⟨behind, rfl, maximal⟩ := ih.mp later
          refine ⟨(before ++ run).length + 1 + behind, ?_, ?_⟩
          · rw [List.length_append]
            omega
          · rw [← List.append_assoc]
            exact maximal.behind stop
      · rintro ⟨behind, rfl, maximal⟩
        rcases maximal.cases delimiters free stops with
          ⟨rfl, rfl⟩ | ⟨_, _, further, same, rfl, maximal⟩
        · exact List.mem_cons_self
        · cases same
          exact List.mem_cons_of_mem _ (ih.mpr ⟨further, by omega, maximal⟩)

theorem Splits.ordered {runs : List (Nat × List α)} (splits : Splits p start list runs) :
    runs.Pairwise fun first second => first.1 + first.2.length < second.1 := by
  induction splits with
  | blank => exact List.Pairwise.nil
  | last => exact List.pairwise_singleton _ _
  | next _ _ _ _ later ih =>
      refine List.pairwise_cons.mpr ⟨?_, ih⟩
      rintro ⟨place, run⟩ member
      obtain ⟨behind, rfl, _⟩ := later.mem_iff.mp member
      simp only
      omega

end Membership

end Splitting

import Mathlib.Data.List.Basic

/-!
Lists in which some elements are loose, so that two loose neighbours can be joined into
one. Merging joins every run of loose elements, and parts that were merged before make
no difference.
-/

namespace MergeRuns

structure Joining (β : Type) where
  loose : β → Bool
  join : β → β → β
  loose_join : ∀ first second, loose first = true → loose second = true →
    loose (join first second) = true
  join_assoc : ∀ first second third, loose first = true → loose second = true →
    loose third = true → join (join first second) third = join first (join second third)

variable {β : Type} (joining : Joining β)

def attach (first : β) : List β → List β
  | [] => [first]
  | next :: rest =>
      if joining.loose first = true ∧ joining.loose next = true then
        joining.join first next :: rest
      else first :: next :: rest

def merge : List β → List β
  | [] => []
  | first :: rest => attach joining first (merge rest)

def Starts (items : List β) : Prop :=
  ∃ first rest, items = first :: rest ∧ joining.loose first = false

variable {joining}

theorem attach_fixed {first : β} (fixed : joining.loose first = false) (items : List β) :
    attach joining first items = first :: items := by
  cases items with
  | nil => rfl
  | cons next rest => simp [attach, fixed]

theorem attach_starts (first : β) {items : List β} (starts : Starts joining items) :
    attach joining first items = first :: items := by
  obtain ⟨next, rest, rfl, fixed⟩ := starts
  simp [attach, fixed]

theorem attach_join {first second : β} (firstLoose : joining.loose first = true)
    (secondLoose : joining.loose second = true) (items : List β) :
    attach joining first (attach joining second items) =
      attach joining (joining.join first second) items := by
  have joined := joining.loose_join first second firstLoose secondLoose
  cases items with
  | nil => simp [attach, firstLoose, secondLoose]
  | cons next rest =>
      by_cases nextLoose : joining.loose next = true
      · have further := joining.loose_join second next secondLoose nextLoose
        simp [attach, firstLoose, secondLoose, nextLoose, joined, further,
          joining.join_assoc first second next firstLoose secondLoose nextLoose]
      · simp [attach, firstLoose, secondLoose, nextLoose]

theorem merge_append (front back : List β) :
    merge joining (front ++ back) = front.foldr (attach joining) (merge joining back) := by
  induction front with
  | nil => rfl
  | cons first front ih => rw [List.cons_append, merge, ih, List.foldr_cons]

theorem foldr_merge (items after : List β) :
    (merge joining items).foldr (attach joining) after = items.foldr (attach joining) after := by
  induction items with
  | nil => rfl
  | cons first items ih =>
      rw [List.foldr_cons, ← ih, merge]
      cases merged : merge joining items with
      | nil => rfl
      | cons next rest =>
          by_cases both : joining.loose first = true ∧ joining.loose next = true
          · simp only [attach, if_pos both, List.foldr_cons]
            exact (attach_join both.1 both.2 _).symm
          · simp only [attach, if_neg both, List.foldr_cons]

theorem merge_merge_append (front back : List β) :
    merge joining (merge joining front ++ back) = merge joining (front ++ back) := by
  rw [merge_append, merge_append, foldr_merge]

theorem merge_merge (items : List β) : merge joining (merge joining items) = merge joining items := by
  have merged : merge joining (merge joining items ++ []) = merge joining (items ++ []) :=
    merge_merge_append items []
  rwa [List.append_nil, List.append_nil] at merged

theorem merge_append_merge (front back : List β) :
    merge joining (front ++ merge joining back) = merge joining (front ++ back) := by
  rw [merge_append, merge_append, merge_merge]

theorem merge_append_congr {front front' back back' : List β}
    (sameFront : merge joining front = merge joining front')
    (sameBack : merge joining back = merge joining back') :
    merge joining (front ++ back) = merge joining (front' ++ back') := by
  rw [← merge_merge_append, ← merge_append_merge, sameFront, sameBack, merge_append_merge,
    merge_merge_append]

theorem merge_fixed {first : β} (fixed : joining.loose first = false) (items : List β) :
    merge joining (first :: items) = first :: merge joining items :=
  attach_fixed fixed _

theorem merge_append_fixed {front : List β}
    (fixed : ∀ item ∈ front, joining.loose item = false) (back : List β) :
    merge joining (front ++ back) = front ++ merge joining back := by
  induction front with
  | nil => rfl
  | cons first front ih =>
      rw [List.cons_append, merge_fixed (fixed first List.mem_cons_self), List.cons_append,
        ih fun item member => fixed item (List.mem_cons_of_mem _ member)]

theorem merge_starts {items : List β} (starts : Starts joining items) :
    Starts joining (merge joining items) := by
  obtain ⟨first, rest, rfl, fixed⟩ := starts
  exact ⟨first, merge joining rest, merge_fixed fixed rest, fixed⟩

theorem starts_of_merge {items : List β} (starts : Starts joining (merge joining items)) :
    Starts joining items := by
  cases items with
  | nil => exact starts
  | cons first items =>
      by_cases firstLoose : joining.loose first = true
      · obtain ⟨head, rest, same, fixed⟩ := starts
        rw [merge] at same
        cases merged : merge joining items with
        | nil =>
            rw [merged, attach, List.cons.injEq] at same
            rw [← same.1, firstLoose] at fixed
            cases fixed
        | cons next others =>
            rw [merged, attach] at same
            split at same
            · rename_i both
              rw [List.cons.injEq] at same
              rw [← same.1, joining.loose_join first next both.1 both.2] at fixed
              cases fixed
            · rw [List.cons.injEq] at same
              rw [← same.1, firstLoose] at fixed
              cases fixed
      · exact ⟨first, items, rfl, by simpa using firstLoose⟩

theorem merge_append_starts (front : List β) {back : List β} (starts : Starts joining back) :
    merge joining (front ++ back) = merge joining front ++ merge joining back := by
  have after := merge_starts starts
  induction front with
  | nil => rfl
  | cons first front ih =>
      rw [List.cons_append, merge, ih, merge]
      cases merge joining front with
      | nil => exact attach_starts first after
      | cons next rest =>
          simp only [List.cons_append, attach]
          split
          · rfl
          · rfl

theorem merge_run {first : β} {run : List β} (firstLoose : joining.loose first = true)
    (loose : ∀ item ∈ run, joining.loose item = true) :
    ∃ whole, merge joining (first :: run) = [whole] ∧ joining.loose whole = true := by
  induction run generalizing first with
  | nil => exact ⟨first, rfl, firstLoose⟩
  | cons next run ih =>
      obtain ⟨whole, merged, wholeLoose⟩ := ih (loose next List.mem_cons_self)
        fun item member => loose item (List.mem_cons_of_mem _ member)
      refine ⟨joining.join first whole, ?_, joining.loose_join _ _ firstLoose wholeLoose⟩
      rw [merge, merged, attach, if_pos ⟨firstLoose, wholeLoose⟩]

theorem merge_eq_nil {items : List β} (empty : merge joining items = []) : items = [] := by
  cases items with
  | nil => rfl
  | cons first items =>
      rw [merge] at empty
      cases merged : merge joining items with
      | nil =>
          rw [merged] at empty
          cases empty
      | cons next rest =>
          rw [merged, attach] at empty
          split at empty
          · cases empty
          · cases empty

def EndsFixed (joining : Joining β) (items : List β) : Prop :=
  ∀ last, items.getLast? = some last → joining.loose last = false

theorem EndsFixed.cons {first : β} {items : List β} (ends : EndsFixed joining items)
    (nonempty : items ≠ []) : EndsFixed joining (first :: items) := by
  intro last found
  rw [List.getLast?_cons_of_ne_nil nonempty] at found
  exact ends last found

theorem merge_append_ends {front : List β} (ends : EndsFixed joining front) (back : List β) :
    merge joining (front ++ back) = merge joining front ++ merge joining back := by
  rcases List.eq_nil_or_concat front with none | ⟨initial, last, whole⟩
  · rw [none]
    rfl
  · rw [List.concat_eq_append] at whole
    subst whole
    have fixed : joining.loose last = false := ends last List.getLast?_concat
    rw [List.append_assoc, List.singleton_append,
      merge_append_starts initial ⟨last, back, rfl, fixed⟩, merge_fixed fixed,
      merge_append_starts initial ⟨last, [], rfl, fixed⟩, merge_fixed fixed, List.append_assoc]
    rfl

structure MaximalRun (joining : Joining β) (items front run back : List β) : Prop where
  split : items = front ++ (run ++ back)
  nonempty : run ≠ []
  loose : ∀ item ∈ run, joining.loose item = true
  before : EndsFixed joining front
  behind : back = [] ∨ Starts joining back

theorem MaximalRun.merged {items front run back : List β}
    (maximal : MaximalRun joining items front run back) :
    merge joining items = merge joining front ++ (merge joining run ++ merge joining back) := by
  rw [maximal.split, merge_append_ends maximal.before]
  rcases maximal.behind with none | starts
  · rw [none, List.append_nil, merge, List.append_nil]
  · rw [merge_append_starts run starts]

theorem MaximalRun.under {item : β} {items front run back : List β}
    (maximal : MaximalRun joining items front run back)
    (ends : front = [] → joining.loose item = false) :
    MaximalRun joining (item :: items) (item :: front) run back := by
  refine ⟨by rw [maximal.split]; rfl, maximal.nonempty, maximal.loose, ?_, maximal.behind⟩
  by_cases none : front = []
  · subst none
    intro last found
    obtain rfl : item = last := by simpa using found
    exact ends rfl
  · exact maximal.before.cons none

theorem MaximalRun.longer {item : β} {items run back : List β}
    (maximal : MaximalRun joining items [] run back) (loose : joining.loose item = true) :
    MaximalRun joining (item :: items) [] (item :: run) back := by
  refine ⟨by rw [maximal.split]; rfl, by simp, ?_, maximal.before, maximal.behind⟩
  intro other member
  rcases List.mem_cons.mp member with rfl | later
  · exact loose
  · exact maximal.loose other later

theorem exists_maximalRun {items : List β} : ∀ {first rest : List β} {whole : β},
    merge joining items = first ++ whole :: rest → joining.loose whole = true →
      ∃ front run back, MaximalRun joining items front run back ∧
        merge joining front = first ∧ merge joining run = [whole] ∧ merge joining back = rest := by
  induction items with
  | nil =>
      intro first rest whole stands
      simp [merge] at stands
  | cons item items ih =>
      intro first rest whole stands loose
      by_cases itemLoose : joining.loose item = true
      · rw [merge] at stands
        cases merged : merge joining items with
        | nil =>
            have none := merge_eq_nil merged
            subst none
            rw [merged, attach] at stands
            obtain ⟨rfl, rfl, rfl⟩ : first = [] ∧ whole = item ∧ rest = [] := by
              cases first with
              | nil => simpa [eq_comm] using stands
              | cons other first => simp at stands
            exact ⟨[], [whole], [], ⟨rfl, by simp, by simpa using loose, by simp [EndsFixed],
              Or.inl rfl⟩, rfl, rfl, rfl⟩
        | cons next others =>
            by_cases nextLoose : joining.loose next = true
            · rw [merged, attach, if_pos ⟨itemLoose, nextLoose⟩] at stands
              cases first with
              | nil =>
                  obtain ⟨rfl, rfl⟩ := List.cons.inj stands
                  have found : merge joining items = [] ++ next :: others := merged
                  obtain ⟨front, run, back, maximal, none, single, rest⟩ := ih found nextLoose
                  have empty := merge_eq_nil none
                  subst empty
                  refine ⟨[], item :: run, back, maximal.longer itemLoose, rfl, ?_, rest⟩
                  rw [merge, single, attach, if_pos ⟨itemLoose, nextLoose⟩]
              | cons other first =>
                  obtain ⟨rfl, same⟩ := List.cons.inj stands
                  rw [same] at merged
                  have found : merge joining items = (next :: first) ++ whole :: rest := merged
                  obtain ⟨front, run, back, maximal, sameFront, rest⟩ := ih found loose
                  have nonempty : front ≠ [] := by
                    rintro rfl
                    cases sameFront
                  refine ⟨item :: front, run, back, maximal.under fun none => absurd none nonempty, ?_,
                    rest⟩
                  rw [merge, sameFront, attach, if_pos ⟨itemLoose, nextLoose⟩]
            · have nextFixed : joining.loose next = false := by simpa using nextLoose
              rw [merged, attach, if_neg fun both => nextLoose both.2] at stands
              cases first with
              | nil =>
                  obtain ⟨rfl, rfl⟩ := List.cons.inj stands
                  exact ⟨[], [item], items, ⟨rfl, by simp, by simpa using loose,
                    by simp [EndsFixed], Or.inr (starts_of_merge ⟨next, others, merged, nextFixed⟩)⟩,
                    rfl, rfl, merged⟩
              | cons other first =>
                  obtain ⟨rfl, same⟩ := List.cons.inj stands
                  obtain ⟨front, run, back, maximal, sameFront, rest⟩ :=
                    ih (merged.trans same) loose
                  have nonempty : front ≠ [] := by
                    rintro rfl
                    rw [← sameFront] at same
                    obtain ⟨rfl, _⟩ := List.cons.inj same
                    exact nextLoose loose
                  refine ⟨item :: front, run, back, maximal.under fun none => absurd none nonempty, ?_,
                    rest⟩
                  rw [merge, sameFront]
                  cases first with
                  | nil => rfl
                  | cons start first =>
                      obtain ⟨rfl, _⟩ := List.cons.inj same
                      rw [attach, if_neg fun both => nextLoose both.2]
      · have itemFixed : joining.loose item = false := by simpa using itemLoose
        rw [merge_fixed itemFixed] at stands
        cases first with
        | nil =>
            obtain ⟨rfl, _⟩ := List.cons.inj stands
            exact absurd loose itemLoose
        | cons other first =>
            obtain ⟨rfl, same⟩ := List.cons.inj stands
            obtain ⟨front, run, back, maximal, sameFront, rest⟩ := ih same loose
            refine ⟨item :: front, run, back, maximal.under fun _ => itemFixed, ?_, rest⟩
            rw [merge_fixed itemFixed, sameFront]

end MergeRuns

import Mathlib.Data.List.Dedup
import Mathlib.Data.List.Induction
import Mathlib.Data.List.Perm.Subperm

/-!
First-in-first-out maps of a fixed capacity, seen from their history of updates. A key that is among
the most recent ones is updated in place, any other key is inserted.
-/

namespace RecentKeys

variable {κ ν : Type}

section Windows

variable (capacity : Nat) (pad key : κ) (inserted : List κ)

def recent : List κ := inserted.drop (inserted.length - capacity)

def padded : List κ := List.replicate (capacity - inserted.length) pad ++ recent capacity inserted

variable {capacity inserted}

theorem recent_of_le (room : inserted.length ≤ capacity) : recent capacity inserted = inserted := by
  rw [recent, Nat.sub_eq_zero_of_le room, List.drop_zero]

@[simp] theorem recent_length :
    (recent capacity inserted).length = min capacity inserted.length := by
  rw [recent, List.length_drop]
  omega

@[simp] theorem padded_length : (padded capacity pad inserted).length = capacity := by
  rw [padded, List.length_append, List.length_replicate, recent_length]
  omega

theorem recent_subset : recent capacity inserted ⊆ inserted := List.drop_subset _ _

theorem padded_concat (positive : 0 < capacity) :
    padded capacity pad (inserted ++ [key]) = (padded capacity pad inserted).tail ++ [key] := by
  by_cases room : inserted.length < capacity
  · have pads : capacity - inserted.length = capacity - (inserted.length + 1) + 1 := by omega
    rw [padded, padded, recent_of_le (Nat.le_of_lt room),
      recent_of_le (by simpa using Nat.succ_le_of_lt room), pads,
      List.replicate_succ, List.cons_append, List.tail_cons, List.length_append, List.append_assoc]
    rfl
  · have none : capacity - inserted.length = 0 := by omega
    have still : capacity - (inserted ++ [key]).length = 0 := by
      rw [List.length_append]
      omega
    rw [padded, padded, none, still, List.replicate_zero, List.nil_append, List.nil_append, recent,
      recent, List.tail_drop, List.length_append, List.length_singleton,
      List.drop_append_of_le_length (by omega)]
    congr 2
    omega

theorem recent_concat_sublist :
    (recent capacity (inserted ++ [key])).Sublist (recent capacity inserted ++ [key]) := by
  rw [recent, recent, ← List.drop_append_of_le_length (Nat.sub_le ..), List.length_append]
  apply List.drop_sublist_drop_left
  omega

theorem padded_pairwise (distinct : (recent capacity inserted).Nodup) :
    (padded capacity pad inserted).Pairwise fun first second => first = second → first = pad := by
  rw [padded, List.pairwise_append]
  refine ⟨?_, ?_, ?_⟩
  · apply List.pairwise_replicate.mpr
    exact Or.inr fun _ => rfl
  · exact distinct.imp fun different same => absurd same different
  · intro first isPad _ _ _
    exact List.eq_of_mem_replicate isPad

end Windows

variable [DecidableEq κ] (capacity : Nat)

def insertions (history : List (κ × ν)) : List κ :=
  history.foldl (fun inserted update =>
    if update.1 ∈ recent capacity inserted then inserted else inserted ++ [update.1]) []

def latest (history : List (κ × ν)) (key : κ) : Option ν :=
  history.foldl (fun found update => if update.1 = key then some update.2 else found) none

section History

variable {capacity} (history : List (κ × ν)) (update : κ × ν) (key : κ)

theorem insertions_concat :
    insertions capacity (history ++ [update]) =
      if update.1 ∈ recent capacity (insertions capacity history) then insertions capacity history
      else insertions capacity history ++ [update.1] := by
  rw [insertions, List.foldl_append]
  rfl

theorem latest_concat :
    latest (history ++ [update]) key =
      if update.1 = key then some update.2 else latest history key := by
  rw [latest, List.foldl_append]
  rfl

theorem recent_nodup : (recent capacity (insertions capacity history)).Nodup := by
  induction history using List.reverseRecOn with
  | nil => simp [insertions, recent]
  | append_singleton history update ih =>
      rw [insertions_concat]
      split
      · exact ih
      · rename_i fresh
        apply List.Nodup.sublist (recent_concat_sublist _)
        rw [List.nodup_append]
        refine ⟨ih, List.nodup_singleton _, ?_⟩
        intro stored member other last same
        rw [List.mem_singleton.mp last] at same
        exact fresh (same ▸ member)

theorem mem_insertions : key ∈ insertions capacity history ↔ key ∈ history.map Prod.fst := by
  induction history using List.reverseRecOn with
  | nil => rfl
  | append_singleton history update ih =>
      rw [insertions_concat, List.map_append, List.mem_append, ← ih]
      split
      · rename_i stored
        constructor
        · exact Or.inl
        · rintro (member | last)
          · exact member
          · rw [List.map_singleton, List.mem_singleton] at last
            exact last ▸ recent_subset stored
      · rw [List.mem_append, List.map_singleton]

/-- As many keys were inserted as there are cells just if so many different ones were updated. -/
theorem capacity_le_insertions :
    capacity ≤ (insertions capacity history).length ↔
      capacity ≤ (history.map Prod.fst).dedup.length := by
  constructor
  · intro full
    have distinct : (recent capacity (insertions capacity history)).Nodup := recent_nodup history
    have stored : recent capacity (insertions capacity history) ⊆ (history.map Prod.fst).dedup :=
      fun key member => List.mem_dedup.mpr ((mem_insertions history key).mp (recent_subset member))
    have counted := (List.subperm_of_subset distinct stored).length_le
    rwa [recent_length, Nat.min_eq_left full] at counted
  · intro full
    have stored : (history.map Prod.fst).dedup ⊆ insertions capacity history :=
      fun key member => (mem_insertions history key).mpr (List.mem_dedup.mp member)
    exact Nat.le_trans full (List.subperm_of_subset (List.nodup_dedup _) stored).length_le

end History

end RecentKeys

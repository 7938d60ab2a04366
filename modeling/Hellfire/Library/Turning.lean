import Mathlib.Data.List.Count

/-!
Queues that are turned, head to tail, until an eligible entry comes up.
-/

namespace Turning

variable {α : Type} {eligible : α → Bool}

structure Found (eligible : α → Bool) (queue before : List α) (chosen : α) (behind : List α)
    (position : Nat) : Prop where
  split : queue = before ++ chosen :: behind
  runs : eligible chosen = true
  count : before.countP eligible = position

def turnedPast (before : List α) (chosen : α) (behind : List α) : List α :=
  behind ++ before ++ [chosen]

theorem exists_first (queue : List α) (present : ∃ entry ∈ queue, eligible entry = true) :
    ∃ before chosen behind, Found eligible queue before chosen behind 0 := by
  induction queue with
  | nil => simp at present
  | cons first queue ih =>
      cases runs : eligible first with
      | true => exact ⟨[], first, queue, rfl, runs, rfl⟩
      | false =>
          have later : ∃ entry ∈ queue, eligible entry = true := by
            obtain ⟨entry, member, ready⟩ := present
            rcases List.mem_cons.mp member with same | later
            · rw [same, runs] at ready
              cases ready
            · exact ⟨entry, later, ready⟩
          obtain ⟨before, chosen, behind, found⟩ := ih later
          refine ⟨first :: before, chosen, behind, by rw [found.split]; rfl, found.runs, ?_⟩
          rw [List.countP_cons, runs, found.count]
          rfl

theorem Found.skipped {queue before behind : List α} {chosen : α}
    (found : Found eligible queue before chosen behind 0) :
    ∀ entry ∈ before, eligible entry = false := by
  intro entry member
  have none := List.countP_eq_zero.mp found.count entry member
  simpa using none

/-- The first eligible entry is the only one in the stretch that ends with it. -/
theorem Found.only {queue skipped rest middle behind : List α} {first chosen : α}
    (head : Found eligible queue skipped first rest 0) (runs : eligible chosen = true)
    (split : skipped ++ [first] = middle ++ chosen :: behind) :
    middle = skipped ∧ chosen = first ∧ behind = [] := by
  rcases List.eq_nil_or_concat behind with none | ⟨others, last, more⟩
  · rw [none] at split
    obtain ⟨same, equal⟩ := List.append_inj' split rfl
    exact ⟨same.symm, (List.singleton_inj.mp equal).symm, none⟩
  · have front : skipped = middle ++ chosen :: others := by
      rw [more, List.concat_eq_append, ← List.cons_append, ← List.append_assoc] at split
      exact (List.append_inj' split rfl).1
    have idle := head.skipped chosen (by simp [front])
    rw [idle] at runs
    cases runs

/-- An entry found after the first eligible one went to the tail is found one position later in
the queue as it was, and turning past it ends in the same queue. -/
theorem Found.later {queue skipped rest before behind : List α} {first chosen : α} {turns : Nat}
    (head : Found eligible queue skipped first rest 0)
    (found : Found eligible (turnedPast skipped first rest) before chosen behind
      (turns % queue.countP eligible)) :
    ∃ before' behind', Found eligible queue before' chosen behind'
        ((turns + 1) % queue.countP eligible) ∧
      turnedPast before' chosen behind' = turnedPast before chosen behind := by
  have total : queue.countP eligible = rest.countP eligible + 1 := by
    rw [head.split, List.countP_append, head.count, Nat.zero_add,
      List.countP_cons_of_pos head.runs]
  have split : before ++ chosen :: behind = rest ++ (skipped ++ [first]) := by
    rw [← found.split, turnedPast, List.append_assoc]
  -- Either the chosen entry comes before the lap ends, or it is the first one again.
  have cases : (∃ others, rest = before ++ chosen :: others ∧
        behind = others ++ (skipped ++ [first])) ∨
      ∃ middle, before = rest ++ middle ∧ skipped ++ [first] = middle ++ chosen :: behind := by
    rcases List.append_eq_append_iff.mp split with ⟨middle, restSplit, tailSplit⟩ |
        ⟨middle, beforeSplit, tailSplit⟩
    · cases middle with
      | nil => exact Or.inr ⟨[], by simpa using restSplit.symm, by simpa using tailSplit.symm⟩
      | cons other others =>
          obtain ⟨rfl, tail⟩ := List.cons.inj tailSplit
          exact Or.inl ⟨others, restSplit, tail⟩
    · exact Or.inr ⟨middle, beforeSplit, tailSplit⟩
  rcases cases with ⟨others, restSplit, tail⟩ | ⟨middle, beforeSplit, tailSplit⟩
  · refine ⟨skipped ++ first :: before, others, ⟨?_, found.runs, ?_⟩, ?_⟩
    · rw [head.split, restSplit]
      simp
    · have fits : before.countP eligible < rest.countP eligible := by
        rw [restSplit, List.countP_append, List.countP_cons_of_pos found.runs]
        omega
      rw [found.count, total] at fits
      have next : (turns + 1) % (rest.countP eligible + 1) =
          turns % (rest.countP eligible + 1) + 1 := by
        rw [Nat.add_mod, Nat.mod_eq_of_lt (show 1 < rest.countP eligible + 1 by omega)]
        exact Nat.mod_eq_of_lt (by omega)
      rw [List.countP_append, head.count, List.countP_cons_of_pos head.runs, found.count, total, next,
        Nat.zero_add]
    · rw [turnedPast, turnedPast, tail]
      simp
  · obtain ⟨rfl, rfl, rfl⟩ := head.only found.runs tailSplit
    refine ⟨middle, rest, ⟨head.split, found.runs, ?_⟩, ?_⟩
    · have lap : rest.countP eligible = turns % (rest.countP eligible + 1) := by
        have count := found.count
        rwa [beforeSplit, List.countP_append, head.count, total] at count
      rw [head.count, total, Nat.add_mod, ← lap]
      cases rest.countP eligible with
      | zero => rfl
      | succ more => rw [Nat.mod_eq_of_lt (show 1 < more + 1 + 1 by omega), Nat.mod_self]
    · rw [turnedPast, turnedPast, beforeSplit]
      simp

end Turning

import Mathlib.Data.List.Nodup
import Mathlib.Data.List.Perm.Subperm

/-!
Chains of cells through a table of successors, as a file allocation table keeps them: chains that
share no cell, with every other cell marked as free.
-/

namespace Chains

variable {α : Type} {next next' : α → α} {last free : α}

inductive Linked (next : α → α) (last : α) : List α → Prop
  | single {cell} : next cell = last → Linked next last [cell]
  | cons {cell follower rest} : next cell = follower → Linked next last (follower :: rest) →
      Linked next last (cell :: follower :: rest)

instance Linked.decidable [DecidableEq α] (next : α → α) (last : α) :
    ∀ chain, Decidable (Linked next last chain)
  | [] => .isFalse nofun
  | [cell] => decidable_of_iff (next cell = last) ⟨.single, fun | .single ends => ends⟩
  | cell :: follower :: rest =>
      have := Linked.decidable next last (follower :: rest)
      decidable_of_iff (next cell = follower ∧ Linked next last (follower :: rest))
        ⟨fun both => .cons both.1 both.2, fun | .cons leads later => ⟨leads, later⟩⟩

theorem Linked.ne_nil {chain : List α} (linked : Linked next last chain) : chain ≠ [] := by
  cases linked with
  | single ends => exact List.cons_ne_nil _ _
  | cons leads rest => exact List.cons_ne_nil _ _

theorem Linked.congr {chain : List α} (linked : Linked next last chain)
    (same : ∀ cell ∈ chain, next' cell = next cell) : Linked next' last chain := by
  induction linked with
  | single ends => exact .single ((same _ List.mem_cons_self).trans ends)
  | cons leads _ ih =>
      refine .cons ((same _ List.mem_cons_self).trans leads) (ih fun cell member => ?_)
      exact same cell (List.mem_cons_of_mem _ member)

theorem Linked.next_eq {before rest : List α} {cell : α}
    (linked : Linked next last (before ++ cell :: rest)) : next cell = rest.head?.getD last := by
  induction before with
  | nil =>
      cases linked with
      | single ends => exact ends
      | cons leads _ => exact leads
  | cons first before ih =>
      cases before with
      | nil =>
          cases linked with
          | cons _ rest => exact ih rest
      | cons second before =>
          cases linked with
          | cons _ rest => exact ih rest

theorem Linked.tail {before rest : List α} {cell : α}
    (linked : Linked next last (before ++ cell :: rest)) : Linked next last (cell :: rest) := by
  induction before with
  | nil => exact linked
  | cons first before ih =>
      cases before with
      | nil =>
          cases linked with
          | cons _ rest => exact ih rest
      | cons second before =>
          cases linked with
          | cons _ rest => exact ih rest

theorem Linked.head_next {rest : List α} {cell : α} (linked : Linked next last (cell :: rest)) :
    next cell = rest.head?.getD last := by
  rw [← List.nil_append (cell :: rest)] at linked
  exact linked.next_eq

theorem Linked.rest {rest : List α} {cell follower : α}
    (linked : Linked next last (cell :: follower :: rest)) : Linked next last (follower :: rest) := by
  cases linked with
  | cons _ rest => exact rest

theorem linked_range' {cell : Nat → α} {count start : Nat}
    (steps : ∀ j, start ≤ j → j < start + count → next (cell j) = cell (j + 1))
    (ends : next (cell (start + count)) = last) :
    Linked next last ((List.range' start (count + 1)).map cell) := by
  induction count generalizing start with
  | zero => exact .single ends
  | succ count ih =>
      have later : Linked next last ((List.range' (start + 1) (count + 1)).map cell) := by
        refine ih (fun j low high => steps j (by omega) (by omega)) ?_
        rw [← ends]
        congr 2
        omega
      exact .cons (steps start (by omega) (by omega)) later

theorem Linked.unique {first : α} {rest rest' : List α} (linked : Linked next last (first :: rest))
    (linked' : Linked next last (first :: rest')) (inside : last ∉ rest) (inside' : last ∉ rest') :
    rest = rest' := by
  induction rest generalizing first rest' with
  | nil =>
      cases linked with
      | single ends =>
          cases linked' with
          | single _ => rfl
          | cons leads _ =>
              rw [ends] at leads
              exact absurd (leads ▸ List.mem_cons_self) inside'
  | cons second rest ih =>
      cases linked with
      | cons leads more =>
          cases linked' with
          | single ends =>
              rw [ends] at leads
              exact absurd (leads ▸ List.mem_cons_self) inside
          | cons leads' more' =>
              obtain rfl := leads.symm.trans leads'
              rw [ih more more' (fun member => inside (List.mem_cons_of_mem _ member))
                fun member => inside' (List.mem_cons_of_mem _ member)]

theorem Linked.last_next {first : α} {rest : List α} (linked : Linked next last (first :: rest)) :
    next (rest.getLastD first) = last := by
  induction rest generalizing first with
  | nil => exact linked.head_next
  | cons second rest ih =>
      rw [List.getLastD_cons]
      exact ih linked.rest

theorem Linked.splice {first place : α} {front back : List α}
    (linked : Linked next last (first :: (front ++ back))) (distinct : (first :: (front ++ back)).Nodup)
    (leads : next' (front.getLastD first) = place) (follows : next' place = next (front.getLastD first))
    (same : ∀ cell ∈ first :: (front ++ back), cell ≠ front.getLastD first → next' cell = next cell) :
    Linked next' last (first :: (front ++ place :: back)) := by
  induction front generalizing first with
  | nil =>
      refine .cons leads ?_
      cases back with
      | nil => exact .single (follows.trans linked.head_next)
      | cons follower back =>
          refine .cons (follows.trans linked.head_next) (linked.rest.congr fun cell member => ?_)
          refine same cell (List.mem_cons_of_mem _ member) ?_
          rintro rfl
          exact (List.nodup_cons.mp distinct).1 member
  | cons second front ih =>
      rw [List.getLastD_cons] at leads follows same
      have apart := List.nodup_cons.mp distinct
      have differs : first ≠ front.getLastD second := by
        intro isLast
        have member : front.getLastD second ∈ second :: front := List.getLastD_mem_cons
        exact apart.1 (isLast ▸ List.mem_append_left back member)
      refine .cons ((same first List.mem_cons_self differs).trans linked.head_next) ?_
      exact ih linked.rest apart.2 leads follows fun cell member =>
        same cell (List.mem_cons_of_mem _ member)

theorem Linked.unlink {first place : α} {front back : List α}
    (linked : Linked next last (first :: (front ++ place :: back)))
    (distinct : (first :: (front ++ place :: back)).Nodup)
    (leads : next' (front.getLastD first) = next place)
    (same : ∀ cell ∈ first :: (front ++ back), cell ≠ front.getLastD first → next' cell = next cell) :
    Linked next' last (first :: (front ++ back)) := by
  induction front generalizing first with
  | nil =>
      have follows := linked.rest.head_next
      cases back with
      | nil => exact .single (leads.trans follows)
      | cons follower back =>
          refine .cons (leads.trans follows) (linked.rest.rest.congr fun cell member => ?_)
          refine same cell (List.mem_cons_of_mem _ member) ?_
          rintro rfl
          exact (List.nodup_cons.mp distinct).1 (List.mem_cons_of_mem _ member)
  | cons second front ih =>
      rw [List.getLastD_cons] at leads same
      have apart := List.nodup_cons.mp distinct
      have differs : first ≠ front.getLastD second := by
        intro isLast
        have member : front.getLastD second ∈ second :: front := List.getLastD_mem_cons
        exact apart.1 (isLast ▸ List.mem_append_left (place :: back) member)
      refine .cons ((same first List.mem_cons_self differs).trans linked.head_next) ?_
      exact ih linked.rest apart.2 leads fun cell member => same cell (List.mem_cons_of_mem _ member)

structure Owned (cell : α → Prop) (next : α → α) (last free : α) (chains : List (List α)) :
    Prop where
  linked : ∀ chain ∈ chains, Linked next last chain
  apart : chains.flatten.Nodup
  inside : ∀ place ∈ chains.flatten, cell place
  spare : ∀ place, cell place → place ∉ chains.flatten → next place = free

variable {cell : α → Prop} {chains chains' : List (List α)}

theorem Owned.perm (owned : Owned cell next last free chains) (same : chains.Perm chains') :
    Owned cell next last free chains' := by
  have flat := same.flatten
  constructor
  · intro chain member
    exact owned.linked chain (same.mem_iff.mpr member)
  · exact flat.nodup_iff.mp owned.apart
  · intro place member
    exact owned.inside place (flat.mem_iff.mpr member)
  · intro place isCell outside
    exact owned.spare place isCell fun member => outside (flat.mem_iff.mp member)

theorem Owned.congr (owned : Owned cell next last free chains)
    (same : ∀ place, cell place → next' place = next place) :
    Owned cell next' last free chains := by
  refine ⟨fun chain member => ?_, owned.apart, owned.inside, fun place isCell outside => ?_⟩
  · refine (owned.linked chain member).congr fun place isPlace => ?_
    exact same place (owned.inside place (List.mem_flatten_of_mem member isPlace))
  · rw [same place isCell]
    exact owned.spare place isCell outside

theorem Owned.used (owned : Owned cell next last free chains) (marks : last ≠ free)
    (mark : ¬cell free) {place : α} (member : place ∈ chains.flatten) : next place ≠ free := by
  obtain ⟨chain, isChain, inChain⟩ := List.mem_flatten.mp member
  obtain ⟨before, rest, rfl⟩ := List.append_of_mem inChain
  rw [(owned.linked _ isChain).next_eq]
  cases rest with
  | nil => exact marks
  | cons follower rest =>
      have follows : follower ∈ before ++ place :: follower :: rest := by simp
      intro isFree
      exact mark (isFree ▸ owned.inside follower (List.mem_flatten_of_mem isChain follows))

theorem Owned.add [DecidableEq α] (owned : Owned cell next last free chains) {place : α}
    (isCell : cell place) (outside : place ∉ chains.flatten) :
    Owned cell (Function.update next place last) last free ([place] :: chains) := by
  have others : ∀ other, other ≠ place → Function.update next place last other = next other :=
    fun other apart => Function.update_of_ne apart _ _
  constructor
  · rw [List.forall_mem_cons]
    refine ⟨.single (Function.update_self _ _ _), fun chain member => ?_⟩
    refine (owned.linked chain member).congr fun other isOther => others other ?_
    rintro rfl
    exact outside (List.mem_flatten_of_mem member isOther)
  · rw [List.flatten_cons, List.singleton_append, List.nodup_cons]
    exact ⟨outside, owned.apart⟩
  · rw [List.flatten_cons, List.singleton_append, List.forall_mem_cons]
    exact ⟨isCell, owned.inside⟩
  · intro other otherCell apart
    rw [List.flatten_cons, List.singleton_append, List.mem_cons, not_or] at apart
    rw [others other apart.1]
    exact owned.spare other otherCell apart.2

theorem Linked.concat [DecidableEq α] {before : List α} {tail place : α}
    (linked : Linked next last (before ++ [tail])) (single : next place = last)
    (apart : (before ++ [tail] ++ [place]).Nodup) :
    Linked (Function.update next tail place) last (before ++ [tail] ++ [place]) := by
  induction before with
  | nil =>
      have differs : place ≠ tail := by
        simp only [List.nil_append, List.singleton_append, List.nodup_cons, List.mem_singleton] at apart
        exact fun same => apart.1 same.symm
      refine .cons (Function.update_self _ _ _) (.single ?_)
      rw [Function.update_of_ne differs, single]
  | cons first before ih =>
      have notTail : first ≠ tail := by
        rintro rfl
        simp at apart
      have rest : Linked (Function.update next tail place) last (before ++ [tail] ++ [place]) := by
        refine ih ?_ (by simpa using (List.nodup_cons.mp (by simpa using apart)).2)
        cases before with
        | nil =>
            cases linked with
            | cons _ rest => exact rest
        | cons second before =>
            cases linked with
            | cons _ rest => exact rest
      cases before with
      | nil =>
          cases linked with
          | cons leads _ =>
              exact .cons (by rw [Function.update_of_ne notTail, leads]) rest
      | cons second before =>
          cases linked with
          | cons leads _ =>
              exact .cons (by rw [Function.update_of_ne notTail, leads]) rest

theorem Owned.extend [DecidableEq α] {before : List α} {tail place : α}
    (owned : Owned cell next last free ((before ++ [tail]) :: [place] :: chains)) :
    Owned cell (Function.update next tail place) last free ((before ++ [tail] ++ [place]) :: chains) := by
  have flat : ((before ++ [tail]) :: [place] :: chains).flatten =
      ((before ++ [tail] ++ [place]) :: chains).flatten := by simp
  have apart := owned.apart
  rw [flat] at apart
  have single : next place = last := by
    cases owned.linked [place] (by simp) with
    | single ends => exact ends
  constructor
  · rw [List.forall_mem_cons]
    constructor
    · refine (owned.linked _ List.mem_cons_self).concat single ?_
      rw [List.flatten_cons] at apart
      exact apart.of_append_left
    · intro chain member
      refine (owned.linked chain (by simp [member])).congr fun other isOther => ?_
      apply Function.update_of_ne
      rintro rfl
      rw [List.flatten_cons] at apart
      exact List.disjoint_of_nodup_append apart (by simp) (List.mem_flatten_of_mem member isOther)
  · exact apart
  · rw [← flat]
    exact owned.inside
  · intro other isCell outside
    rw [← flat] at outside
    have differs : other ≠ tail := by
      rintro rfl
      simp at outside
    rw [Function.update_of_ne differs]
    exact owned.spare other isCell outside

theorem Owned.release {chain : List α} (owned : Owned cell next last free (chain :: chains))
    (freed : ∀ place ∈ chain, next' place = free)
    (same : ∀ place, cell place → place ∉ chain → next' place = next place) :
    Owned cell next' last free chains := by
  have apart := owned.apart
  rw [List.flatten_cons] at apart
  have inside : ∀ place ∈ chains.flatten, cell place := fun place member =>
    owned.inside place (by rw [List.flatten_cons]; exact List.mem_append_right _ member)
  refine ⟨fun other member => ?_, apart.of_append_right, inside, fun place isCell outside => ?_⟩
  · refine (owned.linked other (List.mem_cons_of_mem _ member)).congr fun place isPlace => ?_
    have flat := List.mem_flatten_of_mem member isPlace
    refine same place (inside place flat) fun inChain => ?_
    exact List.disjoint_of_nodup_append apart inChain flat
  · by_cases inChain : place ∈ chain
    · exact freed place inChain
    · rw [same place isCell inChain]
      refine owned.spare place isCell ?_
      rw [List.flatten_cons, List.mem_append, not_or]
      exact ⟨inChain, outside⟩

theorem Owned.count [DecidableEq α] (owned : Owned cell next last free chains) (marks : last ≠ free)
    (mark : ¬cell free) {cells : List α} (distinct : cells.Nodup)
    (all : ∀ place, place ∈ cells ↔ cell place) :
    cells.countP (fun place => next place = free) + chains.flatten.length = cells.length := by
  have perm : (cells.filter fun place => ¬next place = free).Perm chains.flatten := by
    rw [List.perm_ext_iff_of_nodup (distinct.filter _) owned.apart]
    intro place
    simp only [List.mem_filter, decide_eq_true_eq, all]
    constructor
    · rintro ⟨isCell, isUsed⟩
      by_contra outside
      exact isUsed (owned.spare place isCell outside)
    · intro member
      exact ⟨owned.inside place member, owned.used marks mark member⟩
  have split := List.length_eq_countP_add_countP (fun place => decide (next place = free)) (l := cells)
  rw [← perm.length_eq, ← List.countP_eq_length_filter, split]
  congr 1
  apply List.countP_congr
  intro place _
  simp

end Chains

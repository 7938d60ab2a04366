import Mathlib.Data.List.GetD
import Hellfire.Library.Chains
import Hellfire.Library.Machine
import Hellfire.ListCore

/-!
Positions in the lists of `sys/lib/list.c`: all operations count the nodes from zero, but
`hf_list_insert` tests its position only behind the first node.
-/

namespace Hellfire

open Chains Machine

namespace LinkedList

variable {α : Type}

structure Holds (list : LinkedList α) (places : List Nat) (items : List (Option α)) : Prop where
  linked : Linked (fun node => (list.nodes node).next) 0 (list.lst :: places)
  live : list.live.Perm (list.lst :: places)
  distinct : (list.lst :: places).Nodup
  nonnull : 0 ∉ list.lst :: places
  items : places.map (fun node => (list.nodes node).elem) = items

structure Shows (list : LinkedList α) (items : List (Option α)) : Prop where
  count : list.hfListCount = some (items.length : Int)
  get : ∀ pos : Nat, list.hfListGet pos = some (items.getD pos none)

theorem Shows.unique {list : LinkedList α} {items items' : List (Option α)}
    (shows : list.Shows items) (shows' : list.Shows items') : items = items' := by
  have length : items.length = items'.length := by
    have same := Option.some.inj (shows.count.symm.trans shows'.count)
    omega
  apply List.ext_getElem length
  intro pos bound bound'
  have same := (shows.get pos).symm.trans (shows'.get pos)
  simpa [bound, bound'] using same

section Loops

variable {nodes : Nat → ListNode α} {node : Nat} {places : List Nat}

theorem next_cons {place : Nat}
    (linked : Linked (fun node => (nodes node).next) 0 (node :: place :: places)) :
    (nodes node).next = place :=
  linked.head_next

theorem next_nil (linked : Linked (fun node => (nodes node).next) 0 [node]) :
    (nodes node).next = 0 :=
  linked.head_next

theorem lastFrom_eq : ∀ {fuel node}, Linked (fun node => (nodes node).next) 0 (node :: places) →
    0 ∉ places → places.length < fuel → lastFrom nodes fuel node = some (places.getLastD node) := by
  induction places with
  | nil =>
      intro fuel node linked _ enough
      obtain ⟨fuel, rfl⟩ : ∃ less, fuel = less + 1 := ⟨fuel - 1, by omega⟩
      rw [lastFrom, if_pos (next_nil linked)]
      rfl
  | cons place places ih =>
      intro fuel node linked nonnull enough
      obtain ⟨fuel, rfl⟩ : ∃ less, fuel = less + 1 := ⟨fuel - 1, by omega⟩
      rw [List.mem_cons, not_or] at nonnull
      rw [List.length_cons] at enough
      rw [lastFrom, next_cons linked, if_neg (Ne.symm nonnull.1), List.getLastD_cons]
      exact ih linked.rest nonnull.2 (by omega)

theorem insertFrom_end {pos : Int} : ∀ {fuel node i},
    Linked (fun node => (nodes node).next) 0 (node :: places) → 0 ∉ places →
      places.length < fuel → pos ≤ i ∨ i + places.length < pos →
      insertFrom nodes pos fuel node i = some (places.getLastD node) := by
  induction places with
  | nil =>
      intro fuel node i linked _ enough _
      obtain ⟨fuel, rfl⟩ : ∃ less, fuel = less + 1 := ⟨fuel - 1, by omega⟩
      rw [insertFrom, if_pos (next_nil linked)]
      rfl
  | cons place places ih =>
      intro fuel node i linked nonnull enough outside
      obtain ⟨fuel, rfl⟩ : ∃ less, fuel = less + 1 := ⟨fuel - 1, by omega⟩
      rw [List.mem_cons, not_or] at nonnull
      rw [List.length_cons] at enough
      rw [List.length_cons, Int.natCast_succ] at outside
      rw [insertFrom, next_cons linked, if_neg (Ne.symm nonnull.1), if_neg (by omega),
        List.getLastD_cons]
      exact ih linked.rest nonnull.2 (by omega) (by omega)

theorem insertFrom_at {pos : Int} {front back : List Nat} : ∀ {fuel node i},
    Linked (fun node => (nodes node).next) 0 (node :: (front ++ back)) → 0 ∉ front →
      front.length < fuel → front ≠ [] → i + front.length = pos →
      insertFrom nodes pos fuel node i = some (front.getLastD node) := by
  induction front with
  | nil => exact fun _ _ _ some => absurd rfl some
  | cons place front ih =>
      intro fuel node i linked nonnull enough _ reached
      obtain ⟨fuel, rfl⟩ : ∃ less, fuel = less + 1 := ⟨fuel - 1, by omega⟩
      rw [List.mem_cons, not_or] at nonnull
      rw [List.length_cons] at enough
      rw [List.length_cons, Int.natCast_succ] at reached
      rw [insertFrom, next_cons linked, if_neg (Ne.symm nonnull.1), List.getLastD_cons]
      by_cases here : front = []
      · subst here
        rw [if_pos (by simpa using reached)]
        rfl
      · have positive := List.length_pos_iff.mpr here
        rw [if_neg (by omega)]
        exact ih linked.rest nonnull.2 (by omega) here (by omega)

theorem removeFrom_at {pos : Int} {front back : List Nat} {place : Nat} : ∀ {fuel node i},
    Linked (fun node => (nodes node).next) 0 (node :: (front ++ place :: back)) → 0 ∉ front →
      front.length < fuel → i + front.length = pos →
      removeFrom nodes pos fuel node node i = some (place, front.getLastD node) := by
  induction front with
  | nil =>
      intro fuel node i linked _ enough reached
      obtain ⟨fuel, rfl⟩ : ∃ less, fuel = less + 1 := ⟨fuel - 1, by omega⟩
      rw [removeFrom, next_cons linked]
      rw [if_pos (Or.inr (by simpa using reached))]
      rfl
  | cons second front ih =>
      intro fuel node i linked nonnull enough reached
      obtain ⟨fuel, rfl⟩ : ∃ less, fuel = less + 1 := ⟨fuel - 1, by omega⟩
      rw [List.mem_cons, not_or] at nonnull
      rw [List.length_cons] at enough
      rw [List.length_cons, Int.natCast_succ] at reached
      rw [removeFrom, next_cons linked, List.getLastD_cons]
      rw [if_neg (by rintro (null | found) <;> omega)]
      exact ih linked.rest nonnull.2 (by omega) (by omega)

theorem removeFrom_end {pos : Int} : ∀ {fuel node i},
    Linked (fun node => (nodes node).next) 0 (node :: places) → 0 ∉ places →
      places.length < fuel → pos < i ∨ i + places.length ≤ pos →
      removeFrom nodes pos fuel node node i = some (0, places.getLastD node) := by
  induction places with
  | nil =>
      intro fuel node i linked _ enough _
      obtain ⟨fuel, rfl⟩ : ∃ less, fuel = less + 1 := ⟨fuel - 1, by omega⟩
      rw [removeFrom, next_nil linked]
      rfl
  | cons place places ih =>
      intro fuel node i linked nonnull enough outside
      obtain ⟨fuel, rfl⟩ : ∃ less, fuel = less + 1 := ⟨fuel - 1, by omega⟩
      rw [List.mem_cons, not_or] at nonnull
      rw [List.length_cons] at enough
      rw [List.length_cons, Int.natCast_succ] at outside
      rw [removeFrom, next_cons linked, List.getLastD_cons]
      rw [if_neg (by rintro (null | found) <;> omega)]
      exact ih linked.rest nonnull.2 (by omega) (by omega)

theorem nodeFrom_eq {pos : Int} : ∀ {fuel node i},
    Linked (fun node => (nodes node).next) 0 (node :: places) → 0 ∉ places →
      places.length < fuel →
      nodeFrom nodes pos fuel node i =
        some (if i ≤ pos then places.getD (pos - i).toNat 0 else 0) := by
  induction places with
  | nil =>
      intro fuel node i linked _ enough
      obtain ⟨fuel, rfl⟩ : ∃ less, fuel = less + 1 := ⟨fuel - 1, by omega⟩
      rw [nodeFrom, next_nil linked]
      simp
  | cons place places ih =>
      intro fuel node i linked nonnull enough
      obtain ⟨fuel, rfl⟩ : ∃ less, fuel = less + 1 := ⟨fuel - 1, by omega⟩
      rw [List.mem_cons, not_or] at nonnull
      rw [List.length_cons] at enough
      rw [nodeFrom, next_cons linked]
      by_cases here : i = pos
      · rw [if_pos (Or.inr here), if_pos (by omega), here, Int.sub_self]
        rfl
      · rw [if_neg (by rintro (null | found) <;> omega), ih linked.rest nonnull.2 (by omega)]
        by_cases later : i + 1 ≤ pos
        · have offset : (pos - i).toNat = (pos - (i + 1)).toNat + 1 := by omega
          rw [if_pos later, if_pos (by omega), offset, List.getD_cons_succ]
        · rw [if_neg later, if_neg (by omega)]

theorem countFrom_eq : ∀ {fuel node i}, Linked (fun node => (nodes node).next) 0 (node :: places) →
    0 ∉ places → places.length < fuel →
      countFrom nodes fuel node i = some (i + places.length) := by
  induction places with
  | nil =>
      intro fuel node i linked _ enough
      obtain ⟨fuel, rfl⟩ : ∃ less, fuel = less + 1 := ⟨fuel - 1, by omega⟩
      rw [countFrom, next_nil linked]
      simp
  | cons place places ih =>
      intro fuel node i linked nonnull enough
      obtain ⟨fuel, rfl⟩ : ∃ less, fuel = less + 1 := ⟨fuel - 1, by omega⟩
      rw [List.mem_cons, not_or] at nonnull
      rw [List.length_cons] at enough
      rw [countFrom, next_cons linked]
      rw [if_neg (Ne.symm nonnull.1), ih linked.rest nonnull.2 (by omega), List.length_cons,
        Int.natCast_succ]
      congr 1
      omega

end Loops

variable {list : LinkedList α} {places front back : List Nat} {items : List (Option α)}

theorem Holds.fuel (holds : list.Holds places items) : places.length < list.live.length := by
  rw [holds.live.length_eq, List.length_cons]
  exact Nat.lt_succ_self _

theorem Holds.inner (holds : list.Holds places items) : 0 ∉ places :=
  fun member => holds.nonnull (List.mem_cons_of_mem _ member)

theorem Holds.length (holds : list.Holds places items) : places.length = items.length := by
  rw [← holds.items, List.length_map]

theorem Holds.shows (holds : list.Holds places items) : list.Shows items := by
  constructor
  · rw [hfListCount, countFrom_eq holds.linked holds.inner holds.fuel, holds.length, Int.zero_add]
  · intro pos
    have lower : (0 : Int) ≤ pos := Int.natCast_nonneg pos
    rw [hfListGet, nodeFrom_eq holds.linked holds.inner holds.fuel, if_pos lower, Int.sub_zero,
      Int.toNat_natCast, Option.map_some, ← holds.items]
    by_cases inside : pos < places.length
    · have member : places[pos] ∈ places := List.getElem_mem inside
      have nonnull : places[pos] ≠ 0 := fun null => holds.inner (null ▸ member)
      simp [inside, nonnull]
    · simp [inside]

theorem Holds.link {t1 : Nat} {item : Option α} {after : LinkedList α}
    (holds : list.Holds (front ++ back) items) (nonnull : t1 ≠ 0) (fresh : t1 ∉ list.live)
    (same : after.lst = list.lst) (live : after.live = t1 :: list.live)
    (leads : (after.nodes (front.getLastD list.lst)).next = t1)
    (follows : (after.nodes t1).next = (list.nodes (front.getLastD list.lst)).next)
    (elem : (after.nodes t1).elem = item)
    (others : ∀ node, node ≠ t1 → (after.nodes node).elem = (list.nodes node).elem ∧
      (node ≠ front.getLastD list.lst → (after.nodes node).next = (list.nodes node).next)) :
    after.Holds (front ++ t1 :: back)
      (items.take front.length ++ item :: items.drop front.length) := by
  have outside : t1 ∉ list.lst :: (front ++ back) := fun member =>
    fresh (holds.live.mem_iff.mpr member)
  have moved : (list.lst :: (front ++ t1 :: back)).Perm (t1 :: list.lst :: (front ++ back)) :=
    (List.perm_middle.cons _).trans (List.Perm.swap _ _ _)
  have apart : ∀ node ∈ list.lst :: (front ++ back), node ≠ t1 := by
    rintro node member rfl
    exact outside member
  constructor
  · rw [same]
    refine holds.linked.splice holds.distinct leads follows fun node member away => ?_
    exact (others node (apart node member)).2 away
  · rw [same, live]
    exact (holds.live.cons t1).trans moved.symm
  · rw [same, moved.nodup_iff, List.nodup_cons]
    exact ⟨outside, holds.distinct⟩
  · rw [same]
    intro null
    rcases List.mem_cons.mp (moved.mem_iff.mp null) with isNew | old
    · exact nonnull isNew.symm
    · exact holds.nonnull old
  · have kept : ∀ node ∈ front ++ back, (after.nodes node).elem = (list.nodes node).elem :=
      fun node member => (others node (apart node (List.mem_cons_of_mem _ member))).1
    rw [← holds.items, List.map_append, List.map_cons, elem, List.map_append,
      List.take_left' (List.length_map _), List.drop_left' (List.length_map _)]
    congr 1
    · exact List.map_congr_left fun node member => kept node (List.mem_append_left _ member)
    · congr 1
      exact List.map_congr_left fun node member => kept node (List.mem_append_right _ member)

theorem Holds.unlink {place : Nat} {after : LinkedList α}
    (holds : list.Holds (front ++ place :: back) items)
    (same : after.lst = list.lst) (live : after.live = list.live.erase place)
    (leads : (after.nodes (front.getLastD list.lst)).next = (list.nodes place).next)
    (others : ∀ node, (after.nodes node).elem = (list.nodes node).elem ∧
      (node ≠ front.getLastD list.lst → (after.nodes node).next = (list.nodes node).next)) :
    after.Holds (front ++ back) (items.eraseIdx front.length) := by
  have moved : (list.lst :: (front ++ place :: back)).Perm (place :: list.lst :: (front ++ back)) :=
    (List.perm_middle.cons _).trans (List.Perm.swap _ _ _)
  have distinct := moved.nodup_iff.mp holds.distinct
  constructor
  · rw [same]
    refine holds.linked.unlink holds.distinct leads fun node _ away => (others node).2 away
  · rw [same, live]
    have erased := (holds.live.trans moved).erase place
    rwa [List.erase_cons_head] at erased
  · rw [same]
    exact (List.nodup_cons.mp distinct).2
  · rw [same]
    intro null
    exact holds.nonnull (moved.mem_iff.mpr (List.mem_cons_of_mem _ null))
  · have elems : (fun node => (after.nodes node).elem) = fun node => (list.nodes node).elem :=
      funext fun node => (others node).1
    rw [elems, ← holds.items, List.map_append, List.map_append, List.map_cons,
      List.eraseIdx_append_of_length_le (by simp), List.length_map, Nat.sub_self,
      List.eraseIdx_cons_zero]

section Calls

variable {nodes : Nat → ListNode α} {node other next : Nat}

@[simp] theorem setNext_elem : (setNext nodes node next other).elem = (nodes other).elem := by
  by_cases here : other = node
  · rw [here, setNext, Function.update_self]
  · rw [setNext, Function.update_of_ne here]

@[simp] theorem setNext_self : (setNext nodes node next node).next = next := by
  rw [setNext, Function.update_self]

theorem setNext_other (away : other ≠ node) :
    (setNext nodes node next other).next = (nodes other).next := by
  rw [setNext, Function.update_of_ne away]

variable {t1 : Nat} {item : Option α}

theorem Holds.with_node (holds : list.Holds places items) (item : Option α) (fresh : t1 ∉ list.live) :
    Linked (fun node => (Function.update list.nodes t1 ⟨item, 0⟩ node).next) 0
      (list.lst :: places) := by
  refine holds.linked.congr fun node member => ?_
  rw [Function.update_of_ne]
  rintro rfl
  exact fresh (holds.live.mem_iff.mpr member)

theorem Holds.target (holds : list.Holds (front ++ back) items) (fresh : t1 ∉ list.live) :
    front.getLastD list.lst ≠ t1 := by
  rintro rfl
  refine fresh (holds.live.mem_iff.mpr ?_)
  have member : front.getLastD list.lst ∈ list.lst :: front := List.getLastD_mem_cons
  exact (List.cons_subset_cons _ (List.subset_append_left front back)) member

theorem Holds.insert (holds : list.Holds (front ++ back) items) (nonnull : t1 ≠ 0)
    (fresh : t1 ∉ list.live) {pos : Int}
    (found : insertFrom (Function.update list.nodes t1 ⟨item, 0⟩) pos list.live.length list.lst 0 =
      some (front.getLastD list.lst)) :
    ∃ after, list.hfListInsert t1 item pos = some (0, after) ∧
      after.Holds (front ++ t1 :: back)
        (items.take front.length ++ item :: items.drop front.length) := by
  have apart := holds.target fresh
  have inserted : list.hfListInsert t1 item pos = some (0, { list with
      nodes := setNext (setNext (Function.update list.nodes t1 ⟨item, 0⟩) t1
        (Function.update list.nodes t1 ⟨item, 0⟩ (front.getLastD list.lst)).next)
        (front.getLastD list.lst) t1
      live := t1 :: list.live }) := by
    simp only [hfListInsert, if_neg nonnull, found, Option.map_some]
  refine ⟨_, inserted, ?_⟩
  refine holds.link nonnull fresh rfl rfl setNext_self ?_ ?_ fun node away => ⟨?_, fun other => ?_⟩
  · rw [setNext_other (Ne.symm apart), setNext_self, Function.update_of_ne apart]
  · rw [setNext_elem, setNext_elem, Function.update_self]
  · rw [setNext_elem, setNext_elem, Function.update_of_ne away]
  · rw [setNext_other other, setNext_other away, Function.update_of_ne away]

theorem Holds.append (holds : list.Holds places items) (item : Option α) (nonnull : t1 ≠ 0)
    (fresh : t1 ∉ list.live) :
    ∃ after, list.hfListAppend t1 item = some (0, after) ∧
      after.Holds (places ++ [t1]) (items ++ [item]) := by
  have whole : list.Holds (places ++ []) items := by rwa [List.append_nil]
  have apart := whole.target fresh
  have found := lastFrom_eq (holds.with_node item fresh) holds.inner holds.fuel
  have appended : list.hfListAppend t1 item = some (0, { list with
      nodes := setNext (Function.update list.nodes t1 ⟨item, 0⟩) (places.getLastD list.lst) t1
      live := t1 :: list.live }) := by
    simp only [hfListAppend, if_neg nonnull, found, Option.map_some]
  refine ⟨_, appended, ?_⟩
  have whole' : items ++ [item] = items.take places.length ++ item :: items.drop places.length := by
    rw [holds.length, List.take_length, List.drop_length]
  rw [whole']
  refine whole.link nonnull fresh rfl rfl setNext_self ?_ ?_ fun node away => ⟨?_, fun other => ?_⟩
  · rw [setNext_other (Ne.symm apart), Function.update_self, holds.linked.last_next]
  · rw [setNext_elem, Function.update_self]
  · rw [setNext_elem, Function.update_of_ne away]
  · rw [setNext_other other, Function.update_of_ne away]

theorem Holds.remove {place : Nat} (holds : list.Holds (front ++ place :: back) items) :
    ∃ after, list.hfListRemove front.length = some (0, after) ∧
      after.Holds (front ++ back) (items.eraseIdx front.length) := by
  have nonnull : place ≠ 0 := by
    rintro rfl
    exact holds.inner (by simp)
  have inner : 0 ∉ front := fun member => holds.inner (List.mem_append_left _ member)
  have fuel := holds.fuel
  rw [List.length_append, List.length_cons] at fuel
  have found : removeFrom list.nodes front.length list.live.length list.lst list.lst 0 =
      some (place, front.getLastD list.lst) :=
    removeFrom_at holds.linked inner (by omega) (by omega)
  have removed : list.hfListRemove front.length = some (0, { list with
      nodes := setNext list.nodes (front.getLastD list.lst) (list.nodes place).next
      live := list.live.erase place }) := by
    simp only [hfListRemove, found, Option.map_some, if_neg nonnull]
  refine ⟨_, removed, ?_⟩
  exact holds.unlink rfl rfl setNext_self fun node => ⟨setNext_elem, fun other => setNext_other other⟩

theorem Holds.set (holds : list.Holds places items) (item : Option α) {pos : Nat}
    (inside : pos < places.length) :
    ∃ after, list.hfListSet item pos = some (0, after) ∧ after.Holds places (items.set pos item) := by
  have member : places[pos] ∈ places := List.getElem_mem inside
  have nonnull : places[pos] ≠ 0 := fun null => holds.inner (null ▸ member)
  have lower : (0 : Int) ≤ pos := Int.natCast_nonneg pos
  have found : nodeFrom list.nodes pos list.live.length list.lst 0 = some places[pos] := by
    rw [nodeFrom_eq holds.linked holds.inner holds.fuel, if_pos lower, Int.sub_zero,
      Int.toNat_natCast, List.getD_eq_getElem _ _ inside]
  have set : list.hfListSet item pos = some (0, { list with
      nodes := Function.update list.nodes places[pos] { list.nodes places[pos] with elem := item } }) := by
    simp only [hfListSet, found, Option.map_some, if_neg nonnull]
  refine ⟨_, set, ?_⟩
  refine ⟨holds.linked.congr fun node _ => ?_, holds.live, holds.distinct, holds.nonnull, ?_⟩
  · by_cases here : node = places[pos]
    · rw [here]
      simp
    · simp [here]
  · rw [← holds.items]
    have distinct := (List.nodup_cons.mp holds.distinct).2
    apply List.ext_getElem (by simp)
    intro index bound bound'
    have inner : index < places.length := by simpa using bound
    simp only [List.getElem_map, List.getElem_set]
    by_cases here : pos = index
    · subst here
      simp
    · have apart : places[index] ≠ places[pos] := fun same =>
        here (distinct.getElem_inj_iff.mp same).symm
      simp [here, apart]

end Calls

theorem insertFrom_splits {nodes : Nat → ListNode α} {node : Nat} (pos : Int) {fuel : Nat}
    (linked : Linked (fun node => (nodes node).next) 0 (node :: places)) (nonnull : 0 ∉ places)
    (enough : places.length < fuel) :
    ∃ front back, places = front ++ back ∧
      insertFrom nodes pos fuel node 0 = some (front.getLastD node) := by
  by_cases inside : 0 < pos ∧ pos ≤ places.length
  · have count : (places.take pos.toNat).length = pos.toNat := by
      rw [List.length_take]
      omega
    have parts := List.take_append_drop pos.toNat places
    rw [← parts] at linked
    refine ⟨places.take pos.toNat, places.drop pos.toNat, parts.symm, ?_⟩
    refine insertFrom_at linked (fun member => nonnull (List.mem_of_mem_take member)) ?_ ?_ ?_
    · omega
    · intro none
      rw [none, List.length_nil] at count
      omega
    · omega
  · refine ⟨places, [], (List.append_nil _).symm, ?_⟩
    exact insertFrom_end linked nonnull enough (by omega)

end LinkedList

inductive ListOp (α : Type)
  | append (t1 : Nat) (item : Option α)
  | insert (t1 : Nat) (item : Option α) (pos : Int)
  | remove (pos : Int)
  | set (item : Option α) (pos : Int)
deriving DecidableEq, Repr

namespace LinkedList

variable {α : Type}

def call : ListOp α → LinkedList α → Option (Int × LinkedList α)
  | .append t1 item, list => list.hfListAppend t1 item
  | .insert t1 item pos, list => list.hfListInsert t1 item pos
  | .remove pos, list => list.hfListRemove pos
  | .set item pos, list => list.hfListSet item pos

def step (op : ListOp α) (list : LinkedList α) : Except Unit (LinkedList α) :=
  match list.call op with
  | none => .error ()
  | some (_, after) => .ok after

/-- `hf_malloc` returns NULL or a node that is not in use. -/
def allocates : ListOp α → LinkedList α → Prop
  | .append t1 _, list | .insert t1 _ _, list => t1 = 0 ∨ t1 ∉ list.live
  | .remove _, _ | .set _ _, _ => True

instance (op : ListOp α) (list : LinkedList α) : Decidable (allocates op list) :=
  match op with
  | .append t1 _ | .insert t1 _ _ => inferInstanceAs (Decidable (t1 = 0 ∨ t1 ∉ list.live))
  | .remove _ | .set _ _ => .isTrue trivial

theorem hfListInit_holds (nodes : Nat → ListNode α) {lst : Nat} (nonnull : lst ≠ 0) :
    (hfListInit nodes lst).Holds [] [] := by
  refine ⟨.single ?_, List.Perm.refl _, List.nodup_singleton _, ?_, rfl⟩
  · simp [hfListInit]
  · simpa [hfListInit] using nonnull.symm

theorem Holds.call {list : LinkedList α} {places : List Nat} {items : List (Option α)}
    (holds : list.Holds places items) {op : ListOp α} (admitted : allocates op list) :
    ∃ code after places' items', list.call op = some (code, after) ∧ after.Holds places' items' := by
  cases op with
  | append t1 item =>
      by_cases null : t1 = 0
      · exact ⟨-1, list, places, items, by rw [LinkedList.call, hfListAppend, if_pos null], holds⟩
      · obtain ⟨after, done, kept⟩ :=
          holds.append item null (admitted.resolve_left null)
        exact ⟨0, after, _, _, done, kept⟩
  | insert t1 item pos =>
      by_cases null : t1 = 0
      · exact ⟨-1, list, places, items, by rw [LinkedList.call, hfListInsert, if_pos null], holds⟩
      · have fresh := admitted.resolve_left null
        obtain ⟨front, back, rfl, found⟩ :=
          insertFrom_splits pos (holds.with_node item fresh) holds.inner holds.fuel
        obtain ⟨after, done, kept⟩ := holds.insert null fresh found
        exact ⟨0, after, _, _, done, kept⟩
  | remove pos =>
      by_cases inside : 0 ≤ pos ∧ pos < places.length
      · obtain ⟨index, rfl⟩ := Int.eq_ofNat_of_zero_le inside.1
        have bound : index < places.length := by omega
        have count : (places.take index).length = index := by
          rw [List.length_take]
          omega
        have parts := List.take_append_drop index places
        rw [List.drop_eq_getElem_cons bound] at parts
        rw [← parts] at holds
        obtain ⟨after, done, kept⟩ := holds.remove
        rw [count] at done
        exact ⟨0, after, _, _, done, kept⟩
      · have found : removeFrom list.nodes pos list.live.length list.lst list.lst 0 = some (0, _) :=
          removeFrom_end holds.linked holds.inner holds.fuel (by omega)
        exact ⟨-1, list, places, items, by simp [LinkedList.call, hfListRemove, found], holds⟩
  | set item pos =>
      by_cases inside : 0 ≤ pos ∧ pos < places.length
      · obtain ⟨index, rfl⟩ := Int.eq_ofNat_of_zero_le inside.1
        obtain ⟨after, done, kept⟩ := holds.set item (show index < places.length by omega)
        exact ⟨0, after, _, _, done, kept⟩
      · have found : nodeFrom list.nodes pos list.live.length list.lst 0 = some 0 := by
          rw [nodeFrom_eq holds.linked holds.inner holds.fuel]
          split
          · rw [List.getD_eq_default _ _ (by omega)]
          · rfl
        exact ⟨-1, list, places, items, by simp [LinkedList.call, hfListSet, found], holds⟩

theorem reached_holds {nodes : Nat → ListNode α} {lst : Nat} (nonnull : lst ≠ 0)
    {list : LinkedList α} (reached : Reaches step allocates (hfListInit nodes lst) list) :
    ∃ places items, list.Holds places items := by
  refine reached.invariant (fun state => ∃ places items, state.Holds places items)
    ⟨[], [], hfListInit_holds nodes nonnull⟩ ?_
  rintro op before after ⟨places, items, holds⟩ admitted stepped
  obtain ⟨code, next, places', items', done, kept⟩ := holds.call admitted
  rw [step, done] at stepped
  cases stepped
  exact ⟨places', items', kept⟩

theorem append_eq_cons_iff {items : List (Option α)} {item : Option α} :
    items ++ [item] = item :: items ↔ ∀ other ∈ items, other = item := by
  induction items with
  | nil => simp
  | cons first items ih =>
      rw [List.cons_append, List.cons.injEq, List.forall_mem_cons]
      constructor
      · rintro ⟨rfl, same⟩
        exact ⟨rfl, ih.mp same⟩
      · rintro ⟨rfl, same⟩
        exact ⟨rfl, ih.mpr same⟩

theorem Holds.placed {list : LinkedList α} {places : List Nat} {items : List (Option α)}
    {item : Option α} {pos : Nat} (bound : pos ≤ items.length)
    (holds : list.Holds places (items.take pos ++ item :: items.drop pos)) :
    list.hfListGet pos = some item ∧ ∃ restored, list.hfListRemove pos = some (0, restored) ∧
      restored.Shows items := by
  have count : (items.take pos).length = pos := by
    rw [List.length_take]
    omega
  constructor
  · rw [holds.shows.get, List.getD_append_right _ _ _ _ (by omega), count, Nat.sub_self,
      List.getD_cons_zero]
  · have inside : pos < places.length := by
      rw [holds.length, List.length_append, List.length_cons]
      omega
    have front : (places.take pos).length = pos := by
      rw [List.length_take]
      omega
    have parts := List.take_append_drop pos places
    rw [List.drop_eq_getElem_cons inside] at parts
    rw [← parts] at holds
    obtain ⟨restored, done, kept⟩ := holds.remove
    have others : (items.take pos ++ item :: items.drop pos).eraseIdx pos = items := by
      rw [List.eraseIdx_append_of_length_le (by omega), count, Nat.sub_self,
        List.eraseIdx_cons_zero, List.take_append_drop]
    rw [front, others] at kept
    rw [front] at done
    exact ⟨restored, done, kept.shows⟩

/-- `hf_list_insert` puts a pointer where `hf_list_get` and `hf_list_remove` find it exactly when
the position is not 0 or the list holds nothing else. -/
theorem hfListInsert_position {nodes : Nat → ListNode α} {lst : Nat} (nonnull : lst ≠ 0)
    {list : LinkedList α} (reached : Reaches step allocates (hfListInit nodes lst) list) :
    ∃ items, list.Shows items ∧ (∀ other, list.Shows other → other = items) ∧
      ∀ t1 item (pos : Nat), t1 ≠ 0 → t1 ∉ list.live → pos ≤ items.length →
        ∃ after, list.hfListInsert t1 item pos = some (0, after) ∧
          ((after.hfListGet pos = some item ∧
              after.Shows (items.take pos ++ item :: items.drop pos) ∧
              ∃ restored, after.hfListRemove pos = some (0, restored) ∧ restored.Shows items) ↔
            (pos ≠ 0 ∨ ∀ other ∈ items, other = item)) := by
  obtain ⟨places, items, holds⟩ := reached_holds nonnull reached
  refine ⟨items, holds.shows, fun other shows => shows.unique holds.shows, ?_⟩
  intro t1 item pos live fresh bound
  by_cases first : pos = 0
  · subst first
    have found : insertFrom (Function.update list.nodes t1 ⟨item, 0⟩) (0 : Nat) list.live.length
        list.lst 0 = some (places.getLastD list.lst) :=
      insertFrom_end (holds.with_node item fresh) holds.inner holds.fuel (Or.inl (Int.le_refl 0))
    rw [← List.append_nil places] at holds
    obtain ⟨after, done, kept⟩ := holds.insert live fresh found
    have length := holds.length
    rw [List.append_nil] at length
    rw [length, List.take_length, List.drop_length] at kept
    refine ⟨after, done, ?_⟩
    rw [List.take_zero, List.drop_zero, List.nil_append]
    constructor
    · rintro ⟨_, shows, _⟩
      exact Or.inr (append_eq_cons_iff.mp (kept.shows.unique shows))
    · rintro (nonzero | same)
      · exact absurd rfl nonzero
      · rw [append_eq_cons_iff.mpr same] at kept
        obtain ⟨get, remove⟩ := Holds.placed bound kept
        exact ⟨get, kept.shows, remove⟩
  · have count : (places.take pos).length = pos := by
      rw [List.length_take, holds.length]
      omega
    have parts := List.take_append_drop pos places
    rw [← parts] at holds
    have fuel := holds.fuel
    rw [List.length_append] at fuel
    have found : insertFrom (Function.update list.nodes t1 ⟨item, 0⟩) pos list.live.length list.lst 0 =
        some ((places.take pos).getLastD list.lst) := by
      refine insertFrom_at (holds.with_node item fresh) (fun member => holds.inner ?_) (by omega) ?_
        (by omega)
      · exact List.mem_append_left _ member
      · intro none
        rw [none, List.length_nil] at count
        omega
    obtain ⟨after, done, kept⟩ := holds.insert live fresh found
    rw [count] at kept
    obtain ⟨get, remove⟩ := kept.placed bound
    exact ⟨after, done, iff_of_true ⟨get, kept.shows, remove⟩ (Or.inl first)⟩

section Inserted

def newList : LinkedList Nat := hfListInit (fun _ => ⟨none, 0⟩) 8

theorem hfListInsert_position_two :
    ∃ after, (outcome step [.append 16 (some 1), .append 24 (some 2)] newList).hfListInsert 32
      (some 3) 1 = some (0, after) ∧ after.hfListGet 1 = some (some 3) := by
  have reached : Reaches step allocates newList
      (outcome step [.append 16 (some 1), .append 24 (some 2)] newList) :=
    outcome_reaches _ _ (by decide) (by decide)
  obtain ⟨items, shows, _, inserts⟩ := hfListInsert_position (by decide) reached
  have length : items.length = 2 := by
    have count := shows.count
    have two : (outcome step [.append 16 (some 1), .append 24 (some 2)] newList).hfListCount =
        some 2 := by decide
    rw [two, Option.some.injEq] at count
    omega
  obtain ⟨after, done, finds⟩ := inserts 32 (some 3) 1 (by decide) (by decide) (by omega)
  exact ⟨after, done, (finds.mpr (Or.inl (by decide))).1⟩

/-- The new first element goes to the end of the list. -/
theorem insert_at_zero_appends :
    ∃ list after, Reaches step allocates newList list ∧ list.hfListCount = some 1 ∧
      list.hfListGet 0 = some (some 1) ∧ list.hfListInsert 24 (some 2) 0 = some (0, after) ∧
      after.hfListGet 0 = some (some 1) ∧ after.hfListGet 1 = some (some 2) := by
  have reached : Reaches step allocates newList (outcome step [.append 16 (some 1)] newList) :=
    outcome_reaches _ _ (by decide) (by decide)
  have results : ((outcome step [.append 16 (some 1)] newList).hfListInsert 24 (some 2) 0).map
      (fun (code, after) => (code, after.hfListGet 0, after.hfListGet 1)) =
        some (0, some (some 1), some (some 2)) := by decide
  obtain ⟨⟨code, after⟩, done, shown⟩ := Option.map_eq_some_iff.mp results
  simp only [Prod.mk.injEq] at shown
  obtain ⟨rfl, first, second⟩ := shown
  exact ⟨_, after, reached, by decide, by decide, done, first, second⟩

end Inserted

end LinkedList

end Hellfire

import Mathlib.Algebra.BigOperators.Group.Finset.Basic
import Mathlib.Algebra.Order.BigOperators.Group.Finset
import Mathlib.Data.Fintype.BigOperators

/-!
Tasks that take a semaphore as a group: a counter behind a mutex, the first task in waits for
the semaphore and the last one out posts it. A step is one access of the counter or one
operation on a semaphore.
-/

/-! Tasks counted by the places of a program that they are at. -/

namespace Census

variable {ι Place : Type} [Fintype ι] {weight weight' : Place → Nat} {places : ι → Place}

def total (weight : Place → Nat) (places : ι → Place) : Nat := ∑ i, weight (places i)

theorem le_total (weight : Place → Nat) (places : ι → Place) (i : ι) :
    weight (places i) ≤ total weight places :=
  Finset.single_le_sum (f := fun i => weight (places i)) (fun _ _ => Nat.zero_le _) (Finset.mem_univ i)

theorem total_add : total (fun place => weight place + weight' place) places =
    total weight places + total weight' places :=
  Finset.sum_add_distrib

theorem total_eq_zero (none : ∀ i, weight (places i) = 0) : total weight places = 0 :=
  Finset.sum_eq_zero fun i _ => none i

theorem total_le_card (places : ι → Place) (single : ∀ place, weight place ≤ 1) :
    total weight places ≤ Fintype.card ι := by
  have bound := Finset.sum_le_card_nsmul Finset.univ (fun i => weight (places i)) 1
    (fun i _ => single (places i))
  simpa [total] using bound

variable [DecidableEq ι]

theorem total_update (weight : Place → Nat) (places : ι → Place) (i : ι) (place : Place) :
    total weight (Function.update places i place) + weight (places i) =
      total weight places + weight place := by
  have others : ∑ j ∈ Finset.univ.erase i, weight (Function.update places i place j) =
      ∑ j ∈ Finset.univ.erase i, weight (places j) := by
    apply Finset.sum_congr rfl
    intro j member
    rw [Function.update_of_ne (Finset.ne_of_mem_erase member)]
  have after := Finset.add_sum_erase Finset.univ (fun j => weight (Function.update places i place j))
    (Finset.mem_univ i)
  have before := Finset.add_sum_erase Finset.univ (fun j => weight (places j)) (Finset.mem_univ i)
  rw [Function.update_self, others] at after
  unfold total
  omega

theorem alone (weight : Place → Nat) (places : ι → Place) (single : total weight places ≤ 1)
    {i j : ι} (here : 0 < weight (places i))
    (there : 0 < weight (places j)) : i = j := by
  by_contra distinct
  have rest := Finset.add_sum_erase Finset.univ (fun k => weight (places k)) (Finset.mem_univ i)
  have other := Finset.single_le_sum (f := fun k => weight (places k)) (fun _ _ => Nat.zero_le _)
    (Finset.mem_erase.mpr ⟨Ne.symm distinct, Finset.mem_univ j⟩)
  unfold total at single
  omega

end Census

namespace Lightswitch

open Census

inductive Place
  | out
  | load
  | store (count : Int)
  | testOne
  | wait
  | postIn
  | inside
  | loadOut
  | storeOut (count : Int)
  | testZero
  | post
  | postOut

structure Switch where
  mutex : Nat
  count : Int
  room : Nat

def take : Nat → Option Nat
  | 0 => none
  | value + 1 => some value

def step (wrap : Int → Int) (switch : Switch) : Place → Option (Place × Switch)
  | .out => (take switch.mutex).map fun mutex => (.load, { switch with mutex := mutex })
  | .load => some (.store (wrap (switch.count + 1)), switch)
  | .store count => some (.testOne, { switch with count := count })
  | .testOne => some (if switch.count = 1 then .wait else .postIn, switch)
  | .wait => (take switch.room).map fun room => (.postIn, { switch with room := room })
  | .postIn => some (.inside, { switch with mutex := switch.mutex + 1 })
  | .inside => (take switch.mutex).map fun mutex => (.loadOut, { switch with mutex := mutex })
  | .loadOut => some (.storeOut (wrap (switch.count - 1)), switch)
  | .storeOut count => some (.testZero, { switch with count := count })
  | .testZero => some (if switch.count = 0 then .post else .postOut, switch)
  | .post => some (.postOut, { switch with room := switch.room + 1 })
  | .postOut => some (.out, { switch with mutex := switch.mutex + 1 })

namespace Place

def counted : Place → Nat
  | .testOne | .wait | .postIn | .inside | .loadOut | .storeOut _ => 1
  | _ => 0

def testing : Place → Nat
  | .testOne => 1
  | _ => 0

def waiting : Place → Nat
  | .wait => 1
  | _ => 0

def leaving : Place → Nat
  | .testZero => 1
  | _ => 0

def posting : Place → Nat
  | .post => 1
  | _ => 0

/-- Holds the mutex elsewhere. -/
def elsewhere : Place → Nat
  | .load | .store _ | .postIn | .loadOut | .storeOut _ | .postOut => 1
  | _ => 0

/-- Past the test of the counter and not yet out. -/
def letIn : Place → Nat
  | .postIn | .inside | .loadOut | .storeOut _ => 1
  | _ => 0

def locking (place : Place) : Nat :=
  place.testing + place.waiting + place.leaving + place.posting + place.elsewhere

end Place

variable {ι : Type} [Fintype ι] {places : ι → Place} {switch after : Switch} {others : Nat}

structure Held (others : Nat) (switch : Switch) (places : ι → Place) : Prop where
  mutex : switch.mutex + (total Place.testing places + total Place.waiting places +
    total Place.leaving places + total Place.posting places) + total Place.elsewhere places = 1
  count : switch.count = total Place.counted places
  single : switch.room + others ≤ 1
  quiet : total Place.testing places + total Place.waiting places + total Place.leaving places +
    total Place.posting places = 0 →
      (switch.room + others = 0 ∧ 0 < total Place.counted places ∨
        switch.room + others = 1 ∧ total Place.counted places = 0)
  testing : total Place.testing places = 1 →
    (switch.room + others = 0 ∧ 2 ≤ total Place.counted places ∨
      switch.room + others = 1 ∧ total Place.counted places = 1)
  waiting : total Place.waiting places = 1 →
    switch.room + others = 1 ∧ total Place.counted places = 1
  leaving : total Place.leaving places = 1 → switch.room + others = 0
  posting : total Place.posting places = 1 →
    switch.room + others = 0 ∧ total Place.counted places = 0
  stored : ∀ i count, places i = .store count → count = switch.count + 1
  storedOut : ∀ i count, places i = .storeOut count → count = switch.count - 1

theorem take_some {value rest : Nat} (taken : take value = some rest) : value = rest + 1 := by
  cases value with
  | zero => simp [take] at taken
  | succ value => simpa [take] using taken

theorem Held.start (out : ∀ i, places i = .out) : Held 0 ⟨1, 0, 1⟩ places := by
  have none (weight : Place → Nat) (zero : weight .out = 0) : total weight places = 0 :=
    total_eq_zero fun i => by rw [out i, zero]
  constructor
  all_goals
    simp [none Place.testing rfl, none Place.waiting rfl, none Place.leaving rfl,
      none Place.posting rfl, none Place.elsewhere rfl, none Place.counted rfl, out]

theorem Held.spared {others' : Nat} (held : Held others switch places)
    (mutex : after.mutex = switch.mutex) (count : after.count = switch.count)
    (room : after.room + others' = switch.room + others) : Held others' after places := by
  obtain ⟨locked, counted, single, quiet, testing, waiting, leaving, posting, stored, storedOut⟩ := held
  rw [← mutex] at locked
  rw [← count] at counted stored storedOut
  rw [← room] at single quiet testing waiting leaving posting
  exact ⟨locked, counted, single, quiet, testing, waiting, leaving, posting, stored, storedOut⟩

section Steps

variable [DecidableEq ι] {wrap : Int → Int} {i : ι} {place : Place}

theorem Held.stores (held : Held others switch places) {j : ι}
    (here : 0 < (places i).locking) (there : 0 < (places j).locking) : i = j := by
  refine alone Place.locking places ?_ here there
  have mutex := held.mutex
  have sum : total Place.locking places = total Place.testing places + total Place.waiting places +
      total Place.leaving places + total Place.posting places + total Place.elsewhere places := by
    simp only [← total_add]
    rfl
  omega

theorem step_count {current : Place} (stepped : step wrap switch current = some (place, after)) :
    after.count = switch.count ∨ 0 < current.locking := by
  cases current
  case out | wait | inside =>
    simp only [step, Option.map_eq_some_iff, Prod.mk.injEq] at stepped
    obtain ⟨rest, _, _, rfl⟩ := stepped
    exact Or.inl rfl
  case store | storeOut => exact Or.inr (Nat.zero_lt_succ _)
  all_goals
    simp only [step, Option.some.injEq, Prod.mk.injEq] at stepped
    obtain ⟨_, rfl⟩ := stepped
    exact Or.inl rfl

theorem step_store {current : Place} (stepped : step wrap switch current = some (place, after)) :
    (∀ count, place = .store count →
      current = .load ∧ after = switch ∧ count = wrap (switch.count + 1)) ∧
    (∀ count, place = .storeOut count →
      current = .loadOut ∧ after = switch ∧ count = wrap (switch.count - 1)) := by
  cases current
  case out | wait | inside =>
    simp only [step, Option.map_eq_some_iff, Prod.mk.injEq] at stepped
    obtain ⟨rest, _, rfl, _⟩ := stepped
    simp
  case testOne | testZero =>
    simp only [step, Option.some.injEq, Prod.mk.injEq] at stepped
    obtain ⟨rfl, _⟩ := stepped
    constructor <;> intro count <;> split <;> simp
  all_goals
    simp only [step, Option.some.injEq, Prod.mk.injEq] at stepped
    obtain ⟨rfl, rfl⟩ := stepped
    simp [eq_comm]

theorem Held.in_range (held : Held others switch places)
    (wraps : ∀ count : Nat, count ≤ Fintype.card ι → wrap count = count) :
    (places i = .load → wrap (switch.count + 1) = switch.count + 1) ∧
      (places i = .loadOut → wrap (switch.count - 1) = switch.count - 1) := by
  have count := held.count
  have single (place : Place) : place.counted ≤ 1 := by cases place <;> simp [Place.counted]
  constructor
  · intro here
    have more := total_update Place.counted places i .testOne
    have bound := total_le_card (Function.update places i .testOne) single
    rw [here] at more
    simp only [Place.counted] at more
    have wrapped := wraps (total Place.counted places + 1) (by omega)
    rw [count]
    exact_mod_cast wrapped
  · intro here
    have bound := total_le_card places single
    have one := le_total Place.counted places i
    rw [here] at one
    simp only [Place.counted] at one
    have wrapped := wraps (total Place.counted places - 1) (by omega)
    rwa [show ((total Place.counted places - 1 : Nat) : Int) = switch.count - 1 by omega] at wrapped

theorem Held.step_stored (wraps : ∀ count : Nat, count ≤ Fintype.card ι → wrap count = count)
    (held : Held others switch places)
    (stepped : step wrap switch (places i) = some (place, after)) :
    (∀ j count, Function.update places i place j = .store count → count = after.count + 1) ∧
      (∀ j count, Function.update places i place j = .storeOut count → count = after.count - 1) := by
  obtain ⟨loaded, loadedOut⟩ := step_store stepped
  have other (j : ι) (distinct : j ≠ i) (locking : 0 < (places j).locking) :
      after.count = switch.count := by
    rcases step_count stepped with same | mine
    · exact same
    · exact absurd (held.stores locking mine) distinct
  constructor
  · intro j count stores
    by_cases same : j = i
    · subst same
      rw [Function.update_self] at stores
      obtain ⟨here, rfl, rfl⟩ := loaded count stores
      exact (held.in_range wraps).1 here
    · rw [Function.update_of_ne same] at stores
      rw [other j same (by rw [stores]; exact Nat.zero_lt_succ _)]
      exact held.stored j count stores
  · intro j count stores
    by_cases same : j = i
    · subst same
      rw [Function.update_self] at stores
      obtain ⟨here, rfl, rfl⟩ := loadedOut count stores
      exact (held.in_range wraps).2 here
    · rw [Function.update_of_ne same] at stores
      rw [other j same (by rw [stores]; exact Nat.zero_lt_succ _)]
      exact held.storedOut j count stores

theorem Held.step (wraps : ∀ count : Nat, count ≤ Fintype.card ι → wrap count = count)
    (held : Held others switch places)
    (stepped : step wrap switch (places i) = some (place, after)) :
    Held others after (Function.update places i place) := by
  obtain ⟨stored, storedOut⟩ := held.step_stored wraps stepped
  obtain ⟨mutex, count, single, quiet, testing, waiting, leaving, posting, storing, storingOut⟩ := held
  have moved (weight : Place → Nat) := total_update weight places i place
  have testing' := moved Place.testing
  have waiting' := moved Place.waiting
  have leaving' := moved Place.leaving
  have posting' := moved Place.posting
  have elsewhere' := moved Place.elsewhere
  have counted' := moved Place.counted
  clear moved
  cases here : places i
  all_goals
    rw [here] at stepped testing' waiting' leaving' posting' elsewhere' counted'
    simp only [Lightswitch.step, Option.map_eq_some_iff, Option.some.injEq, Prod.mk.injEq] at stepped
  case out | wait | inside =>
    obtain ⟨rest, taken, rfl, rfl⟩ := stepped
    have before := take_some taken
    simp only [Place.testing, Place.waiting, Place.leaving, Place.posting, Place.elsewhere,
      Place.counted] at testing' waiting' leaving' posting' elsewhere' counted'
    refine ⟨?_, ?_, ?_, ?_, ?_, ?_, ?_, ?_, stored, storedOut⟩
    all_goals simp only
    all_goals omega
  case testOne =>
    obtain ⟨rfl, rfl⟩ := stepped
    by_cases tested : switch.count = 1
    · simp only [if_pos tested, Place.testing, Place.waiting, Place.leaving, Place.posting,
        Place.elsewhere, Place.counted]
        at testing' waiting' leaving' posting' elsewhere' counted' stored storedOut ⊢
      refine ⟨?_, ?_, ?_, ?_, ?_, ?_, ?_, ?_, stored, storedOut⟩
      all_goals omega
    · simp only [if_neg tested, Place.testing, Place.waiting, Place.leaving, Place.posting,
        Place.elsewhere, Place.counted]
        at testing' waiting' leaving' posting' elsewhere' counted' stored storedOut ⊢
      refine ⟨?_, ?_, ?_, ?_, ?_, ?_, ?_, ?_, stored, storedOut⟩
      all_goals omega
  case testZero =>
    obtain ⟨rfl, rfl⟩ := stepped
    by_cases tested : switch.count = 0
    · simp only [if_pos tested, Place.testing, Place.waiting, Place.leaving, Place.posting,
        Place.elsewhere, Place.counted]
        at testing' waiting' leaving' posting' elsewhere' counted' stored storedOut ⊢
      refine ⟨?_, ?_, ?_, ?_, ?_, ?_, ?_, ?_, stored, storedOut⟩
      all_goals omega
    · simp only [if_neg tested, Place.testing, Place.waiting, Place.leaving, Place.posting,
        Place.elsewhere, Place.counted]
        at testing' waiting' leaving' posting' elsewhere' counted' stored storedOut ⊢
      refine ⟨?_, ?_, ?_, ?_, ?_, ?_, ?_, ?_, stored, storedOut⟩
      all_goals omega
  case store value =>
    have value := storing i value here
    obtain ⟨rfl, rfl⟩ := stepped
    simp only [Place.testing, Place.waiting, Place.leaving, Place.posting, Place.elsewhere,
      Place.counted] at testing' waiting' leaving' posting' elsewhere' counted'
    refine ⟨?_, ?_, ?_, ?_, ?_, ?_, ?_, ?_, stored, storedOut⟩
    all_goals simp only
    all_goals omega
  case storeOut value =>
    have value := storingOut i value here
    obtain ⟨rfl, rfl⟩ := stepped
    simp only [Place.testing, Place.waiting, Place.leaving, Place.posting, Place.elsewhere,
      Place.counted] at testing' waiting' leaving' posting' elsewhere' counted'
    refine ⟨?_, ?_, ?_, ?_, ?_, ?_, ?_, ?_, stored, storedOut⟩
    all_goals simp only
    all_goals omega
  case load | loadOut =>
    obtain ⟨rfl, rfl⟩ := stepped
    simp only [Place.testing, Place.waiting, Place.leaving, Place.posting, Place.elsewhere,
      Place.counted] at testing' waiting' leaving' posting' elsewhere' counted'
    refine ⟨?_, ?_, ?_, ?_, ?_, ?_, ?_, ?_, stored, storedOut⟩
    all_goals omega
  all_goals
    obtain ⟨rfl, rfl⟩ := stepped
    simp only [Place.testing, Place.waiting, Place.leaving, Place.posting, Place.elsewhere,
      Place.counted] at testing' waiting' leaving' posting' elsewhere' counted'
    refine ⟨?_, ?_, ?_, ?_, ?_, ?_, ?_, ?_, stored, storedOut⟩
    all_goals simp only
    all_goals omega

end Steps

theorem Held.shut (held : Held others switch places) {i : ι} (letIn : 0 < (places i).letIn) :
    switch.room + others = 0 := by
  have mutex := held.mutex
  have quiet := held.quiet
  have testing := held.testing
  have waiting := held.waiting
  have leaving := held.leaving
  have posting := held.posting
  have one := le_total Place.letIn places i
  have counted : total Place.testing places + total Place.waiting places +
      total Place.letIn places = total Place.counted places := by
    rw [← total_add, ← total_add]
    congr 1
    funext place
    cases place <;> rfl
  omega

theorem Held.opened (held : Held others switch places) (out : ∀ i, places i = .out) :
    switch.room + others = 1 := by
  have quiet := held.quiet
  have none (weight : Place → Nat) (zero : weight .out = 0) : total weight places = 0 :=
    total_eq_zero fun i => by rw [out i, zero]
  rw [none Place.testing rfl, none Place.waiting rfl, none Place.leaving rfl,
    none Place.posting rfl, none Place.counted rfl] at quiet
  omega

theorem Held.unlocked (wrap : Int → Int) (held : Held 0 switch places)
    (stuck : ∀ i, places i = .out ∨ places i = .inside ∨
      Lightswitch.step wrap switch (places i) = none) :
    switch.mutex = 1 ∧ ∀ i, places i = .out ∨ places i = .inside := by
  have calm (i : ι) : places i = .out ∨ places i = .inside := by
    rcases stuck i with out | inside | stuck
    · exact Or.inl out
    · exact Or.inr inside
    · cases here : places i
      case out | inside => simp
      case wait =>
        have one := le_total Place.waiting places i
        have mutex := held.mutex
        rw [here] at one
        simp only [Place.waiting] at one
        obtain ⟨room, _⟩ := held.waiting (by omega)
        rw [here] at stuck
        simp [Lightswitch.step, show switch.room = 0 + 1 by omega, take] at stuck
      all_goals
        rw [here] at stuck
        simp [Lightswitch.step] at stuck
  refine ⟨?_, calm⟩
  have none (weight : Place → Nat) (out : weight .out = 0) (inside : weight .inside = 0) :
      total weight places = 0 := by
    apply total_eq_zero
    intro i
    rcases calm i with here | here <;> rw [here]
    · exact out
    · exact inside
  have mutex := held.mutex
  rwa [none Place.testing rfl rfl, none Place.waiting rfl rfl, none Place.leaving rfl rfl,
    none Place.posting rfl rfl, none Place.elsewhere rfl rfl] at mutex

end Lightswitch

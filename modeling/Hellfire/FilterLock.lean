import Mathlib.Data.Finset.Card
import Mathlib.Data.Finset.Filter
import Mathlib.Data.Finset.Range
import Hellfire.FilterLockCore

/-!
Mutual exclusion of the filter lock: on every level the last task to write `waiting` is
held until no other task is on that level, so each level keeps one task back.
-/

namespace Funnel

variable {ι : Type}

structure Gates (last : Nat) (past : Nat → Finset ι) : Prop where
  inside : ∀ gate < last, past (gate + 1) ⊆ past gate
  holds : ∀ gate < last, past (gate + 1) = past gate → (past gate).card ≤ 1

theorem Gates.card_le {last : Nat} {past : Nat → Finset ι} (gates : Gates last past) :
    ∀ gate ≤ last, (past gate).card ≤ max 1 ((past 0).card - gate) := by
  intro gate
  induction gate with
  | zero => exact fun _ => le_max_right _ _
  | succ gate ih =>
      intro within
      have before := ih (by omega)
      have subset := gates.inside gate within
      by_cases all : past (gate + 1) = past gate
      · have one := gates.holds gate within all
        rw [all]
        exact one.trans (le_max_left _ _)
      · have fewer := Finset.card_lt_card (subset.ssubset_of_ne all)
        omega

theorem Gates.last_le_one {last : Nat} {past : Nat → Finset ι} (gates : Gates last past)
    (few : (past 0).card ≤ last + 1) : (past last).card ≤ 1 := by
  have bound := gates.card_le last (Nat.le_refl last)
  omega

end Funnel

namespace Hellfire

open Machine

namespace FilterPc

def announced (maxTasks : Nat) : FilterPc → Nat
  | .outside => 0
  | .setLevel l => l - 1
  | .setWaiting l | .testLevel l _ | .testWaiting l _ => l
  | .inside | .clearLevel => maxTasks - 1

/-- The highest level whose `waiting` the task has written. -/
def entered (maxTasks : Nat) : FilterPc → Nat
  | .outside => 0
  | .setLevel l | .setWaiting l => l - 1
  | .testLevel l _ | .testWaiting l _ => l
  | .inside | .clearLevel => maxTasks - 1

def passed (maxTasks : Nat) : FilterPc → Nat
  | .outside => 0
  | .setLevel l | .setWaiting l | .testLevel l _ | .testWaiting l _ => l - 1
  | .inside | .clearLevel => maxTasks - 1

def cursor (l : Nat) : FilterPc → Nat
  | .testLevel l' k | .testWaiting l' k => if l = l' then k else 0
  | _ => 0

def scanned (maxTasks l : Nat) (pc : FilterPc) : Nat :=
  if l ≤ pc.passed maxTasks then maxTasks else pc.cursor l

def Sound (maxTasks : Nat) : FilterPc → Prop
  | .setLevel l | .setWaiting l | .testLevel l _ | .testWaiting l _ => 1 ≤ l ∧ l < maxTasks
  | .outside | .inside | .clearLevel => True

variable {maxTasks : Nat} {pc : FilterPc}

theorem passed_le_entered : pc.passed maxTasks ≤ pc.entered maxTasks := by
  cases pc <;> simp only [passed, entered] <;> omega

theorem entered_le_passed (sound : pc.Sound maxTasks) :
    pc.entered maxTasks ≤ pc.passed maxTasks + 1 := by
  cases pc <;> simp only [passed, entered, Sound] at sound ⊢ <;> omega

theorem entered_le_announced : pc.entered maxTasks ≤ pc.announced maxTasks := by
  cases pc <;> simp only [announced, entered] <;> omega

theorem scanned_of_passed {l : Nat} (done : l ≤ pc.passed maxTasks) :
    pc.scanned maxTasks l = maxTasks := if_pos done

theorem scanned_on_level {l k : Nat}
    (there : pc = .testLevel l k ∨ pc = .testWaiting l k) (l' : Nat) :
    pc.scanned maxTasks l' =
      if l' ≤ l - 1 then maxTasks else if l' = l then k else 0 := by
  rcases there with rfl | rfl <;> rfl

theorem announced_le (sound : pc.Sound maxTasks) : pc.announced maxTasks ≤ maxTasks - 1 := by
  cases pc <;> simp only [announced, Sound] at sound ⊢ <;> omega

end FilterPc

namespace FilterWorld

variable {config : Config}

theorem levelLoop_sound {l : Nat} (one : 1 ≤ l) :
    (levelLoop config l).Sound config.maxTasks := by
  unfold levelLoop
  split
  · rename_i below
    exact ⟨one, below⟩
  · trivial

theorem levelLoop_facts {l : Nat} (bound : l ≤ config.maxTasks) :
    (levelLoop config l).announced config.maxTasks = l - 1 ∧
      (levelLoop config l).entered config.maxTasks = l - 1 ∧
      (levelLoop config l).passed config.maxTasks = l - 1 := by
  unfold levelLoop
  split
  · exact ⟨rfl, rfl, rfl⟩
  · have last : l = config.maxTasks := by omega
    rw [last]
    exact ⟨rfl, rfl, rfl⟩

theorem levelLoop_scanned {l : Nat} (bound : l ≤ config.maxTasks) (l' : Nat) :
    (levelLoop config l).scanned config.maxTasks l' =
      if l' ≤ l - 1 then config.maxTasks else 0 := by
  have cursor : (levelLoop config l).cursor l' = 0 := by
    unfold levelLoop
    split <;> rfl
  rw [FilterPc.scanned, (levelLoop_facts bound).2.2, cursor]

@[simp] theorem moveTo_mutex (world : FilterWorld config) (i : Nat) (pc : FilterPc) :
    (world.moveTo i pc).mutex = world.mutex := rfl

@[simp] theorem moveTo_same (world : FilterWorld config) (i : Nat) (pc : FilterPc) :
    (world.moveTo i pc).pc i = pc := by
  simp [moveTo]

theorem moveTo_other (world : FilterWorld config) {i j : Nat} (pc : FilterPc) (other : j ≠ i) :
    (world.moveTo i pc).pc j = world.pc j := by
  simp [moveTo, other]

structure Filtered (world : FilterWorld config) : Prop where
  sound : ∀ i, (world.pc i).Sound config.maxTasks
  announced : ∀ i < config.maxTasks,
    (world.mutex.level i).toNat = (world.pc i).announced config.maxTasks
  /-- The last task to write `waiting` on a level is still there as long as anyone is. -/
  last : ∀ l, 1 ≤ l → ∀ i < config.maxTasks, l ≤ (world.pc i).entered config.maxTasks →
    ∃ j < config.maxTasks, (world.mutex.waiting l).toNat = j ∧
      l ≤ (world.pc j).entered config.maxTasks
  /-- It has not found another task there. -/
  alone : ∀ l, 1 ≤ l → ∀ i < config.maxTasks, (world.mutex.waiting l).toNat = i →
    l ≤ (world.pc i).entered config.maxTasks →
    ∀ k < config.maxTasks, k < (world.pc i).scanned config.maxTasks l → k ≠ i →
      (world.pc k).entered config.maxTasks < l

variable {world next : FilterWorld config} {i : Nat}

structure Moves (world next : FilterWorld config) (i : Nat) (pc : FilterPc) : Prop where
  same : next.pc i = pc
  others : ∀ j, j ≠ i → next.pc j = world.pc j
  sound : pc.Sound config.maxTasks
  level : (next.mutex.level i).toNat = pc.announced config.maxTasks
  levels : ∀ j, j ≠ i → next.mutex.level j = world.mutex.level j

theorem Moves.kept_sound {pc : FilterPc} (moves : Moves world next i pc) (filtered : Filtered world) :
    ∀ j, (next.pc j).Sound config.maxTasks := by
  intro j
  by_cases own : j = i
  · rw [own, moves.same]
    exact moves.sound
  · rw [moves.others j own]
    exact filtered.sound j

theorem Moves.kept_announced {pc : FilterPc} (moves : Moves world next i pc)
    (filtered : Filtered world) : ∀ j < config.maxTasks,
      (next.mutex.level j).toNat = (next.pc j).announced config.maxTasks := by
  intro j inside
  by_cases own : j = i
  · rw [own, moves.same]
    exact moves.level
  · rw [moves.others j own, moves.levels j own]
    exact filtered.announced j inside

theorem Filtered.stays {pc : FilterPc} (filtered : Filtered world) (moves : Moves world next i pc)
    (waiting : next.mutex.waiting = world.mutex.waiting)
    (entered : pc.entered config.maxTasks = (world.pc i).entered config.maxTasks)
    (scans : ∀ l, (world.mutex.waiting l).toNat = i →
      ∀ k < config.maxTasks, k < pc.scanned config.maxTasks l → k ≠ i →
        k < (world.pc i).scanned config.maxTasks l ∨ (world.pc k).entered config.maxTasks < l) :
    Filtered next := by
  have levels : ∀ j, (next.pc j).entered config.maxTasks = (world.pc j).entered config.maxTasks := by
    intro j
    by_cases own : j = i
    · rw [own, moves.same, entered]
    · rw [moves.others j own]
  refine ⟨moves.kept_sound filtered, moves.kept_announced filtered, ?_, ?_⟩
  · intro l one j inside within
    rw [levels] at within
    obtain ⟨last, member, written, there⟩ := filtered.last l one j inside within
    exact ⟨last, member, by rw [waiting, written], by rw [levels]; exact there⟩
  · intro l one j inside written within k member found other
    rw [waiting] at written
    rw [levels] at within ⊢
    by_cases own : j = i
    · subst own
      rw [moves.same] at found
      rcases scans l written k member found other with before | now
      · exact filtered.alone l one j inside written within k member before other
      · exact now
    · rw [moves.others j own] at found
      exact filtered.alone l one j inside written within k member found other

theorem Filtered.enters {l : Nat} (filtered : Filtered world)
    (moves : Moves world next i (.testLevel l 0)) (inside : i < config.maxTasks)
    (at_level : world.pc i = .setWaiting l) (written : (next.mutex.waiting l).toNat = i)
    (waiting : ∀ l', l' ≠ l → next.mutex.waiting l' = world.mutex.waiting l') : Filtered next := by
  have before : (world.pc i).entered config.maxTasks = l - 1 := by
    rw [at_level]
    rfl
  have after : (next.pc i).entered config.maxTasks = l := by
    rw [moves.same]
    rfl
  have one : 1 ≤ l := moves.sound.1
  have grows : ∀ j, (world.pc j).entered config.maxTasks ≤ (next.pc j).entered config.maxTasks := by
    intro j
    by_cases own : j = i
    · rw [own, before, after]
      omega
    · rw [moves.others j own]
  have elsewhere : ∀ l', l' ≠ l → ∀ j, l' ≤ (next.pc j).entered config.maxTasks →
      l' ≤ (world.pc j).entered config.maxTasks := by
    intro l' other j within
    by_cases own : j = i
    · rw [own, after] at within
      rw [own, before]
      omega
    · rwa [moves.others j own] at within
  refine ⟨moves.kept_sound filtered, moves.kept_announced filtered, ?_, ?_⟩
  · intro l' one' j member within
    by_cases same : l' = l
    · subst same
      exact ⟨i, inside, written, by rw [after]⟩
    · obtain ⟨last, lastInside, lastWritten, there⟩ :=
        filtered.last l' one' j member (elsewhere l' same j within)
      exact ⟨last, lastInside, by rw [waiting l' same, lastWritten], there.trans (grows last)⟩
  · intro l' one' j member holder within k kInside found other
    by_cases same : l' = l
    · -- The new last writer has not scanned anyone yet.
      subst same
      have own : j = i := holder.symm.trans written
      rw [own, moves.same] at found
      rw [FilterPc.scanned_on_level (.inl rfl), if_neg (by omega), if_pos rfl] at found
      omega
    · rw [waiting l' same] at holder
      have within' := elsewhere l' same j within
      have found' : k < (world.pc j).scanned config.maxTasks l' := by
        by_cases own : j = i
        · rw [own, before] at within'
          rw [own, FilterPc.scanned_of_passed (by rw [at_level]; exact within')]
          exact kInside
        · rwa [moves.others j own] at found
      have apart := filtered.alone l' one' j member holder within' k kInside found' other
      by_contra reaches
      exact absurd (elsewhere l' same k (Nat.not_lt.mp reaches)) (Nat.not_le.mpr apart)

theorem Filtered.leaves (filtered : Filtered world) (moves : Moves world next i .outside)
    (inside : i < config.maxTasks) (all : world.pc i = .clearLevel)
    (waiting : next.mutex.waiting = world.mutex.waiting) : Filtered next := by
  have none : (next.pc i).entered config.maxTasks = 0 := by
    rw [moves.same]
    rfl
  have stays : ∀ j l, 1 ≤ l → l ≤ (next.pc j).entered config.maxTasks → j ≠ i := by
    rintro j l one within rfl
    omega
  refine ⟨moves.kept_sound filtered, moves.kept_announced filtered, ?_, ?_⟩
  · intro l one j member within
    have other := stays j l one within
    rw [moves.others j other] at within
    obtain ⟨last, lastInside, written, there⟩ := filtered.last l one j member within
    have lastOther : last ≠ i := by
      rintro rfl
      -- The holder of the lock is alone on every level whose last writer it is.
      have top := FilterPc.announced_le (filtered.sound j)
      have most : (world.pc j).entered config.maxTasks ≤ config.maxTasks - 1 :=
        FilterPc.entered_le_announced.trans top
      have whole : (world.pc last).scanned config.maxTasks l = config.maxTasks := by
        refine FilterPc.scanned_of_passed ?_
        rw [all]
        exact within.trans most
      have apart := filtered.alone l one last lastInside written there j member
        (by rw [whole]; exact member) other
      omega
    exact ⟨last, lastInside, by rw [waiting, written], by rw [moves.others last lastOther]; exact there⟩
  · intro l one j member written within k kInside found other
    have own := stays j l one within
    rw [waiting] at written
    rw [moves.others j own] at within found
    by_cases gone : k = i
    · rw [gone, none]
      omega
    · rw [moves.others k gone]
      exact filtered.alone l one j member written within k kInside found other

theorem byte_toNat {n : Nat} (small : config.maxTasks ≤ 256) (inside : n < config.maxTasks) :
    (UInt8.ofNat n).toNat = n :=
  UInt8.toNat_ofNat_of_lt' (by simp only [UInt8.size]; omega)

theorem Moves.moveTo {pc : FilterPc} (filtered : Filtered world) (inside : i < config.maxTasks)
    (sound : pc.Sound config.maxTasks)
    (level : pc.announced config.maxTasks = (world.pc i).announced config.maxTasks) :
    Moves world (world.moveTo i pc) i pc :=
  ⟨world.moveTo_same i pc, fun _ other => world.moveTo_other pc other, sound,
    by rw [level]; exact filtered.announced i inside, fun _ _ => rfl⟩

theorem Moves.setLevel {pc : FilterPc} {l : Nat} (sound : pc.Sound config.maxTasks)
    (level : (UInt8.ofNat l).toNat = pc.announced config.maxTasks) :
    Moves world (({ world with mutex := world.mutex.setLevel i l }).moveTo i pc) i pc := by
  refine ⟨moveTo_same _ _ _, fun j other => moveTo_other _ _ other, sound, ?_, ?_⟩
  · simp only [moveTo_mutex, FilterMutex.setLevel, Function.update_self]
    exact level
  · intro j other
    simp only [moveTo_mutex, FilterMutex.setLevel]
    exact Function.update_of_ne other _ _

theorem Filtered.moveTo {pc : FilterPc} (filtered : Filtered world) (inside : i < config.maxTasks)
    (sound : pc.Sound config.maxTasks)
    (announced : pc.announced config.maxTasks = (world.pc i).announced config.maxTasks)
    (entered : pc.entered config.maxTasks = (world.pc i).entered config.maxTasks)
    (scans : ∀ l, (world.mutex.waiting l).toNat = i →
      ∀ k < config.maxTasks, k < pc.scanned config.maxTasks l → k ≠ i →
        k < (world.pc i).scanned config.maxTasks l ∨ (world.pc k).entered config.maxTasks < l) :
    Filtered (world.moveTo i pc) :=
  filtered.stays (.moveTo filtered inside sound announced) rfl entered scans

theorem Filtered.scan {l k k' : Nat} {pc : FilterPc} (filtered : Filtered world)
    (inside : i < config.maxTasks)
    (here : world.pc i = .testLevel l k ∨ world.pc i = .testWaiting l k)
    (there : pc = .testLevel l k' ∨ pc = .testWaiting l k')
    (clear : (world.mutex.waiting l).toNat = i → ∀ j < config.maxTasks, j < k' → j ≠ i →
      j < k ∨ (world.pc j).entered config.maxTasks < l) : Filtered (world.moveTo i pc) := by
  have sound : 1 ≤ l ∧ l < config.maxTasks := by
    have sound := filtered.sound i
    rcases here with here | here <;> rwa [here] at sound
  have levels : (world.pc i).announced config.maxTasks = l ∧
      (world.pc i).entered config.maxTasks = l := by
    rcases here with here | here <;> rw [here] <;> exact ⟨rfl, rfl⟩
  have target : pc.Sound config.maxTasks ∧ pc.announced config.maxTasks = l ∧
      pc.entered config.maxTasks = l := by
    rcases there with rfl | rfl <;> exact ⟨sound, rfl, rfl⟩
  refine filtered.moveTo inside target.1 (target.2.1.trans levels.1.symm)
    (target.2.2.trans levels.2.symm) ?_
  intro l' written j member found other
  rw [FilterPc.scanned_on_level here]
  rw [FilterPc.scanned_on_level there] at found
  by_cases below : l' ≤ l - 1
  · rw [if_pos below]
    exact Or.inl member
  · rw [if_neg below] at found ⊢
    by_cases same : l' = l
    · subst same
      rw [if_pos rfl] at found ⊢
      exact clear written j member found other
    · rw [if_neg same] at found
      omega

theorem Filtered.step (filtered : Filtered world) (small : config.maxTasks ≤ 256)
    (inside : i < config.maxTasks) : Filtered (world.step i) := by
  have sound := filtered.sound i
  have positive := config.positive
  unfold FilterWorld.step
  cases at_pc : world.pc i with
  | outside =>
      obtain ⟨announced, entered, _⟩ := levelLoop_facts positive
      refine filtered.moveTo inside (levelLoop_sound (Nat.le_refl 1)) ?_ ?_ ?_
      · rw [announced, at_pc]
        rfl
      · rw [entered, at_pc]
        rfl
      · intro l _ k member found _
        left
        rw [levelLoop_scanned positive] at found
        rw [at_pc, FilterPc.scanned]
        exact found
  | setLevel l =>
      rw [at_pc] at sound
      refine filtered.stays (.setLevel sound (byte_toNat small sound.2)) rfl ?_ ?_
      · rw [at_pc]
        rfl
      · intro l' _ k _ found _
        rw [at_pc]
        exact Or.inl found
  | setWaiting l =>
      rw [at_pc] at sound
      have level := filtered.announced i inside
      rw [at_pc] at level
      refine filtered.enters ⟨moveTo_same _ _ _, fun j other => moveTo_other _ _ other, sound, level,
        fun _ _ => rfl⟩ inside at_pc ?_ ?_
      · simp only [moveTo_mutex, FilterMutex.setWaiting, Function.update_self]
        exact byte_toNat small inside
      · intro l' other
        simp only [moveTo_mutex, FilterMutex.setWaiting]
        exact Function.update_of_ne other _ _
  | testLevel l k =>
      rw [at_pc] at sound
      simp only
      by_cases more : k < config.maxTasks
      · rw [if_pos more]
        by_cases found : k ≠ i ∧ l ≤ (world.mutex.level k).toNat
        · rw [if_pos found]
          exact filtered.scan inside (.inl at_pc) (.inr rfl) fun _ _ _ before _ => .inl before
        · rw [if_neg found]
          refine filtered.scan inside (.inl at_pc) (.inl rfl) fun _ j member before other => ?_
          by_cases last : j = k
          · subst last
            right
            have below : (world.mutex.level j).toNat < l := by
              by_contra high
              exact found ⟨other, Nat.not_lt.mp high⟩
            rw [filtered.announced j member] at below
            exact FilterPc.entered_le_announced.trans_lt below
          · exact .inl (by omega)
      · rw [if_neg more]
        obtain ⟨announced, entered, _⟩ := levelLoop_facts (show l + 1 ≤ config.maxTasks from sound.2)
        refine filtered.moveTo inside (levelLoop_sound (Nat.le_add_left 1 l)) ?_ ?_ ?_
        · rw [announced, at_pc]
          rfl
        · rw [entered, at_pc]
          rfl
        · intro l' _ j member found _
          left
          rw [levelLoop_scanned (show l + 1 ≤ config.maxTasks from sound.2)] at found
          rw [FilterPc.scanned_on_level (.inl at_pc)]
          split at found <;> split <;> try split
          all_goals omega
  | testWaiting l k =>
      simp only
      by_cases own : (world.mutex.waiting l).toNat = i
      · rw [if_pos own]
        exact filtered.scan inside (.inr at_pc) (.inl rfl) fun _ _ _ before _ => .inl before
      · rw [if_neg own]
        exact filtered.scan inside (.inr at_pc) (.inl rfl) fun written => absurd written own
  | inside =>
      refine filtered.moveTo inside trivial ?_ ?_ fun l _ k _ found _ => .inl ?_
      · rw [at_pc]
        rfl
      · rw [at_pc]
        rfl
      · rw [at_pc]
        exact found
  | clearLevel =>
      exact filtered.leaves (.setLevel trivial rfl) inside at_pc rfl

theorem foldl_setLevel (count : Nat) (mutex : FilterMutex) {i : Nat} (inside : i < count) :
    ((List.range count).foldl (fun m i => m.setLevel i 0) mutex).level i = 0 := by
  induction count with
  | zero => omega
  | succ count ih =>
      rw [List.range_succ, List.foldl_append, List.foldl_cons, List.foldl_nil, FilterMutex.setLevel]
      by_cases last : i = count
      · rw [last]
        exact Function.update_self _ _ _
      · simp only [Function.update_of_ne last]
        exact ih (by omega)

theorem foldl_setWaiting (entries : List Nat) : ∀ mutex : FilterMutex,
    (entries.foldl (fun m i => m.setWaiting i 0) mutex).level = mutex.level := by
  induction entries with
  | nil => exact fun _ => rfl
  | cons entry entries ih =>
      intro mutex
      rw [List.foldl_cons, ih]
      rfl

theorem start_filtered (memory : FilterMutex) : Filtered (start config memory) where
  sound _ := trivial
  announced i inside := by
    have level : (start config memory).mutex.level i = 0 := by
      rw [start, FilterMutex.hfMtxinit, foldl_setWaiting]
      exact foldl_setLevel _ _ inside
    rw [level]
    rfl
  last l one i _ within := by
    have none : l ≤ 0 := within
    omega
  alone l one i _ _ within := by
    have none : l ≤ 0 := within
    omega

theorem Reached.filtered {memory : FilterMutex} (reached : Reached memory world)
    (small : config.maxTasks ≤ 256) : Filtered world := by
  refine reached.invariant Filtered (start_filtered memory) ?_
  intro i before after filtered inside stepped
  cases stepped
  exact filtered.step small inside

def past (world : FilterWorld config) (l : Nat) : Finset Nat :=
  (Finset.range config.maxTasks).filter fun i => l ≤ (world.pc i).passed config.maxTasks

theorem mem_past {l : Nat} :
    i ∈ world.past l ↔ i < config.maxTasks ∧ l ≤ (world.pc i).passed config.maxTasks := by
  simp [past]

theorem Filtered.gates (filtered : Filtered world) :
    Funnel.Gates (config.maxTasks - 1) world.past where
  inside l _ i member := by
    obtain ⟨inside, passed⟩ := mem_past.mp member
    exact mem_past.mpr ⟨inside, by omega⟩
  holds l _ same := by
    refine Finset.card_le_one.mpr fun first firstPast second secondPast => ?_
    have entered : ∀ i ∈ world.past l, i < config.maxTasks ∧
        l + 1 ≤ (world.pc i).passed config.maxTasks := fun i member => mem_past.mp (same ▸ member)
    obtain ⟨firstInside, firstPassed⟩ := entered first firstPast
    obtain ⟨last, lastInside, written, there⟩ := filtered.last (l + 1) (Nat.le_add_left 1 l) first
      firstInside (firstPassed.trans FilterPc.passed_le_entered)
    have near := FilterPc.entered_le_passed (filtered.sound last)
    obtain ⟨_, lastPassed⟩ := entered last (mem_past.mpr ⟨lastInside, by omega⟩)
    have only : ∀ i ∈ world.past l, i = last := by
      intro i member
      obtain ⟨inside, passed⟩ := entered i member
      by_contra other
      have apart := filtered.alone (l + 1) (Nat.le_add_left 1 l) last lastInside written there i inside
        (by rw [FilterPc.scanned_of_passed lastPassed]; exact inside) other
      have reaches : l + 1 ≤ (world.pc i).entered config.maxTasks :=
        passed.trans FilterPc.passed_le_entered
      omega
    rw [only first firstPast, only second secondPast]

/-- At most one task holds the lock, whatever the order of the accesses. -/
theorem filter_lock_exclusive {memory : FilterMutex} (reached : Reached memory world)
    (small : config.maxTasks ≤ 256) {i j : Nat} (first : i < config.maxTasks)
    (second : j < config.maxTasks) (own : world.holds i) (other : world.holds j) : i = j := by
  have all : world.past 0 = Finset.range config.maxTasks := by
    simp [past]
  have few : (world.past 0).card ≤ config.maxTasks - 1 + 1 := by
    rw [all, Finset.card_range]
    omega
  have one := (reached.filtered small).gates.last_le_one few
  have top : ∀ {k}, k < config.maxTasks → world.holds k → k ∈ world.past (config.maxTasks - 1) := by
    intro k inside holds
    refine mem_past.mpr ⟨inside, ?_⟩
    rcases holds with at_pc | at_pc <;> rw [at_pc] <;> exact Nat.le_refl _
  exact Finset.card_le_one.mp one i (top first own) j (top second other)

section Runs

variable {memory : FilterMutex}

theorem Reached.step (reached : Reached memory world) (inside : i < config.maxTasks) :
    Reached memory (world.step i) :=
  Reaches.next reached inside rfl

def zeroed : FilterMutex := ⟨fun _ => 0, fun _ => 0⟩

def ran (config : Config) (turns : List Nat) : FilterWorld config :=
  turns.foldl (fun world i => world.step i) (start config zeroed)

theorem ran_reached {turns : List Nat} (inside : ∀ i ∈ turns, i < config.maxTasks) :
    Reached zeroed (ran config turns) := by
  induction turns using List.reverseRecOn with
  | nil => exact .start
  | append_singleton turns i ih =>
      rw [ran, List.foldl_append, List.foldl_cons, List.foldl_nil]
      exact (ih fun j member => inside j (List.mem_append_left _ member)).step
        (inside i (List.mem_append_right _ (List.mem_singleton.mpr rfl)))

theorem filter_lock_exclusive_first :
    (ran ⟨2, by decide, by decide⟩ [0, 0, 1, 0, 0, 0, 0]).holds 0 ∧
      ∀ j < 2, (ran ⟨2, by decide, by decide⟩ [0, 0, 1, 0, 0, 0, 0]).holds j → j = 0 := by
  have own : (ran ⟨2, by decide, by decide⟩ [0, 0, 1, 0, 0, 0, 0]).holds 0 := .inl (by decide)
  refine ⟨own, fun j inside other => ?_⟩
  exact filter_lock_exclusive (ran_reached (by decide)) (by decide) inside (by decide) other own

theorem step_other (world : FilterWorld config) {i j : Nat} (other : j ≠ i) :
    (world.step i).pc j = world.pc j := by
  unfold FilterWorld.step
  split
  · exact moveTo_other _ _ other
  · exact moveTo_other _ _ other
  · exact moveTo_other _ _ other
  · split
    · split
      · exact moveTo_other _ _ other
      · exact moveTo_other _ _ other
    · exact moveTo_other _ _ other
  · split
    · exact moveTo_other _ _ other
    · exact moveTo_other _ _ other
  · exact moveTo_other _ _ other
  · exact moveTo_other _ _ other

def Leads (i : Nat) (world next : FilterWorld config) : Prop :=
  ∃ count, next = (FilterWorld.step i)^[count] world

theorem Leads.refl (i : Nat) (world : FilterWorld config) : Leads i world world := ⟨0, rfl⟩

theorem Leads.cons {world next : FilterWorld config} (rest : Leads i (world.step i) next) :
    Leads i world next := by
  obtain ⟨count, same⟩ := rest
  exact ⟨count + 1, same⟩

theorem Leads.trans {first second third : FilterWorld config} (before : Leads i first second)
    (after : Leads i second third) : Leads i first third := by
  obtain ⟨count, rfl⟩ := before
  obtain ⟨more, rfl⟩ := after
  exact ⟨more + count, (Function.iterate_add_apply _ _ _ _).symm⟩

theorem Leads.reached {world next : FilterWorld config} (leads : Leads i world next)
    (inside : i < config.maxTasks) (reached : Reached memory world) : Reached memory next := by
  obtain ⟨count, rfl⟩ := leads
  induction count generalizing world with
  | zero => exact reached
  | succ count ih => exact ih (reached.step inside)

theorem Leads.other {world next : FilterWorld config} (leads : Leads i world next) {j : Nat}
    (other : j ≠ i) : next.pc j = world.pc j := by
  obtain ⟨count, rfl⟩ := leads
  induction count generalizing world with
  | zero => rfl
  | succ count ih => exact ih.trans (world.step_other other)

theorem unnamed_scans (wide : 256 ≤ i) {l : Nat} (left : Nat) :
    ∀ (world : FilterWorld config) (k : Nat), k + left = config.maxTasks →
      world.pc i = .testLevel l k →
      ∃ next, Leads i world next ∧ next.pc i = levelLoop config (l + 1) := by
  induction left with
  | zero =>
      intro world k done at_pc
      refine ⟨world.step i, (Leads.refl i _).cons, ?_⟩
      simp only [FilterWorld.step, at_pc]
      rw [if_neg (by omega), moveTo_same]
  | succ left ih =>
      intro world k more at_pc
      have within : k < config.maxTasks := by omega
      by_cases high : k ≠ i ∧ l ≤ (world.mutex.level k).toNat
      · have tested : (world.step i).pc i = .testWaiting l k := by
          simp only [FilterWorld.step, at_pc]
          rw [if_pos within, if_pos high, moveTo_same]
        have unnamed : ((world.step i).mutex.waiting l).toNat ≠ i := by
          have byte := ((world.step i).mutex.waiting l).toNat_lt
          omega
        have passed : ((world.step i).step i).pc i = .testLevel l (k + 1) := by
          rw [FilterWorld.step, tested]
          simp only
          rw [if_neg unnamed, moveTo_same]
        obtain ⟨next, leads, there⟩ := ih _ (k + 1) (by omega) passed
        exact ⟨next, leads.cons.cons, there⟩
      · have passed : (world.step i).pc i = .testLevel l (k + 1) := by
          simp only [FilterWorld.step, at_pc]
          rw [if_pos within, if_neg high, moveTo_same]
        obtain ⟨next, leads, there⟩ := ih _ (k + 1) (by omega) passed
        exact ⟨next, leads.cons, there⟩

theorem unnamed_climbs (wide : 256 ≤ i) (left : Nat) :
    ∀ (world : FilterWorld config) (l : Nat), l + left = config.maxTasks →
      world.pc i = levelLoop config l → ∃ next, Leads i world next ∧ next.pc i = .inside := by
  induction left with
  | zero =>
      intro world l done at_pc
      refine ⟨world, .refl i world, ?_⟩
      rw [at_pc, levelLoop, if_neg (by omega)]
  | succ left ih =>
      intro world l more at_pc
      rw [levelLoop, if_pos (by omega)] at at_pc
      have announced : (world.step i).pc i = .setWaiting l := by
        simp only [FilterWorld.step, at_pc, moveTo_same]
      have entered : ((world.step i).step i).pc i = .testLevel l 0 := by
        rw [FilterWorld.step, announced]
        simp only [moveTo_same]
      obtain ⟨scanned, scans, there⟩ := unnamed_scans wide config.maxTasks _ 0 (by omega) entered
      obtain ⟨next, climbs, inside⟩ := ih scanned (l + 1) (by omega) there
      exact ⟨next, scans.cons.cons.trans climbs, inside⟩

theorem unnamed_locks (wide : 256 ≤ i) (world : FilterWorld config) (out : world.pc i = .outside) :
    ∃ next, Leads i world next ∧ next.pc i = .inside := by
  have positive := config.positive
  have called : (world.step i).pc i = levelLoop config 1 := by
    simp only [FilterWorld.step, out, moveTo_same]
  obtain ⟨next, climbs, inside⟩ := unnamed_climbs wide (config.maxTasks - 1) _ 1 (by omega) called
  exact ⟨next, climbs.cons, inside⟩

/-- With more than 256 tasks the entries of `waiting` cannot tell them apart. -/
theorem wide_ids_collide :
    ∃ (config : Config) (world : FilterWorld config) (i j : Nat), Reached zeroed world ∧
      i < config.maxTasks ∧ j < config.maxTasks ∧ i ≠ j ∧ world.pc i = .inside ∧
      world.pc j = .inside := by
  let config : Config := ⟨258, by decide, by decide⟩
  obtain ⟨first, firstLeads, firstInside⟩ :=
    unnamed_locks (i := 256) (by decide) (start config zeroed) rfl
  obtain ⟨second, secondLeads, secondInside⟩ := unnamed_locks (i := 257) (by decide) first
    (firstLeads.other (by decide))
  exact ⟨config, second, 256, 257,
    secondLeads.reached (by decide) (firstLeads.reached (by decide) .start), by decide, by decide,
    by decide, (secondLeads.other (by decide)).trans firstInside, secondInside⟩

end Runs

end FilterWorld

end Hellfire

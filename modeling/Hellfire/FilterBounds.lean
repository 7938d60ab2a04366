import Hellfire.FilterLock

/-!
Where the filter lock reads and writes: the entries of the two arrays that each access of
the lock's memory falls on, against the lengths that `struct mtx` gives them.
-/

namespace Hellfire

open Machine

inductive FilterArray
  | level
  | waiting
deriving DecidableEq, Repr

def FilterArray.length (maxTasks : Nat) : FilterArray → Nat
  | .level => maxTasks
  | .waiting => maxTasks - 1

structure FilterAccess where
  array : FilterArray
  index : Nat
deriving DecidableEq, Repr

namespace FilterAccess

def Inside (maxTasks : Nat) (access : FilterAccess) : Prop :=
  access.index < access.array.length maxTasks

instance (maxTasks : Nat) (access : FilterAccess) : Decidable (access.Inside maxTasks) :=
  inferInstanceAs (Decidable (access.index < _))

def read (mutex : FilterMutex) (access : FilterAccess) : UInt8 :=
  match access.array with
  | .level => mutex.level access.index
  | .waiting => mutex.waiting access.index

variable {access : FilterAccess}

theorem setLevel_spares (mutex : FilterMutex) {i : Nat} (l : Nat) (other : access ≠ ⟨.level, i⟩) :
    access.read (mutex.setLevel i l) = access.read mutex := by
  obtain ⟨array, index⟩ := access
  cases array with
  | level =>
      refine Function.update_of_ne ?_ _ _
      rintro rfl
      exact other rfl
  | waiting => rfl

theorem setWaiting_spares (mutex : FilterMutex) {l : Nat} (i : Nat) (other : access ≠ ⟨.waiting, l⟩) :
    access.read (mutex.setWaiting l i) = access.read mutex := by
  obtain ⟨array, index⟩ := access
  cases array with
  | level => rfl
  | waiting =>
      refine Function.update_of_ne ?_ _ _
      rintro rfl
      exact other rfl

end FilterAccess

def initAccesses (maxTasks : Nat) : List FilterAccess :=
  (List.range maxTasks).map (FilterAccess.mk .level) ++
    (List.range (maxTasks - 1)).map (FilterAccess.mk .waiting)

/-- The entries that the next step of a task refers to. The condition of the `while` loop reads
`level[k]` for a competitor other than the caller. -/
def FilterPc.accesses (maxTasks i : Nat) : FilterPc → List FilterAccess
  | .outside => []
  | .setLevel _ => [⟨.level, i⟩]
  | .setWaiting l => [⟨.waiting, l⟩]
  | .testLevel _ k => if k < maxTasks ∧ k ≠ i then [⟨.level, k⟩] else []
  | .testWaiting l _ => [⟨.waiting, l⟩]
  | .inside => []
  | .clearLevel => [⟨.level, i⟩]

namespace FilterWorld

variable {config : Config} {memory : FilterMutex} {i : Nat}

structure StaysInside (config : Config) (i : Nat) : Prop where
  init : ∀ access ∈ initAccesses config.maxTasks, access.Inside config.maxTasks
  calls : ∀ (memory : FilterMutex) (world : FilterWorld config), Reached memory world →
    ∀ access ∈ (world.pc i).accesses config.maxTasks i, access.Inside config.maxTasks
  kept : ∀ (memory : FilterMutex) (world : FilterWorld config), Reached memory world →
    ∀ access : FilterAccess, ¬access.Inside config.maxTasks →
      access.read (world.step i).mutex = access.read world.mutex

theorem initAccesses_inside (maxTasks : Nat) :
    ∀ access ∈ initAccesses maxTasks, access.Inside maxTasks := by
  intro access member
  rcases List.mem_append.mp member with first | second
  · obtain ⟨index, below, rfl⟩ := List.mem_map.mp first
    exact List.mem_range.mp below
  · obtain ⟨index, below, rfl⟩ := List.mem_map.mp second
    exact List.mem_range.mp below

theorem foldl_spares (write : FilterMutex → Nat → FilterMutex) (access : FilterAccess)
    (indices : List Nat)
    (spares : ∀ mutex, ∀ index ∈ indices, access.read (write mutex index) = access.read mutex) :
    ∀ mutex, access.read (indices.foldl write mutex) = access.read mutex := by
  induction indices with
  | nil => exact fun _ => rfl
  | cons index indices ih =>
      intro mutex
      rw [List.foldl_cons, ih fun mutex later member =>
        spares mutex later (List.mem_cons_of_mem _ member)]
      exact spares mutex index List.mem_cons_self

theorem init_spares (memory : FilterMutex) {access : FilterAccess} {maxTasks : Nat}
    (outside : ¬access.Inside maxTasks) :
    access.read (memory.hfMtxinit maxTasks) = access.read memory := by
  have spared : access ∉ initAccesses maxTasks := fun member =>
    outside (initAccesses_inside maxTasks access member)
  rw [FilterMutex.hfMtxinit, foldl_spares, foldl_spares]
  · intro mutex cleared member
    refine FilterAccess.setLevel_spares mutex 0 ?_
    rintro rfl
    exact spared (List.mem_append_left _ (List.mem_map_of_mem member))
  · intro mutex cleared member
    refine FilterAccess.setWaiting_spares mutex 0 ?_
    rintro rfl
    exact spared (List.mem_append_right _ (List.mem_map_of_mem member))

theorem step_spares (world : FilterWorld config) {access : FilterAccess}
    (spared : access ∉ (world.pc i).accesses config.maxTasks i) :
    access.read (world.step i).mutex = access.read world.mutex := by
  unfold FilterWorld.step
  cases at_pc : world.pc i with
  | outside | inside => rfl
  | setLevel l | clearLevel =>
      rw [at_pc] at spared
      refine FilterAccess.setLevel_spares world.mutex _ ?_
      rintro rfl
      exact spared List.mem_cons_self
  | setWaiting l =>
      rw [at_pc] at spared
      refine FilterAccess.setWaiting_spares world.mutex _ ?_
      rintro rfl
      exact spared List.mem_cons_self
  | testLevel l k =>
      simp only
      split
      · split <;> rfl
      · rfl
  | testWaiting l k =>
      simp only
      split <;> rfl

theorem step_sound {world : FilterWorld config} {j : Nat}
    (sound : ∀ j, (world.pc j).Sound config.maxTasks) :
    ((world.step i).pc j).Sound config.maxTasks := by
  by_cases own : j = i
  · subst own
    have here := sound j
    unfold FilterWorld.step
    cases at_pc : world.pc j with
    | outside =>
        rw [moveTo_same]
        exact levelLoop_sound (Nat.le_refl 1)
    | setLevel l | setWaiting l =>
        rw [at_pc] at here
        rw [moveTo_same]
        exact here
    | testLevel l k =>
        rw [at_pc] at here
        simp only
        split
        · split
          · rw [moveTo_same]
            exact here
          · rw [moveTo_same]
            exact here
        · rw [moveTo_same]
          exact levelLoop_sound (Nat.le_add_left 1 l)
    | testWaiting l k =>
        rw [at_pc] at here
        simp only
        split
        · rw [moveTo_same]
          exact here
        · rw [moveTo_same]
          exact here
    | inside | clearLevel =>
        rw [moveTo_same]
        trivial
  · rw [world.step_other own]
    exact sound j

theorem Reached.sound {world : FilterWorld config} (reached : Reached memory world) :
    ∀ j, (world.pc j).Sound config.maxTasks := by
  refine reached.invariant (fun world => ∀ j, (world.pc j).Sound config.maxTasks)
    (fun _ => trivial) ?_
  intro i before after sound _ stepped j
  cases stepped
  exact step_sound sound

theorem accesses_outside {pc : FilterPc} (sound : pc.Sound config.maxTasks)
    (caller : i < config.maxTasks) {access : FilterAccess}
    (member : access ∈ pc.accesses config.maxTasks i) :
    ¬access.Inside config.maxTasks ↔ access = ⟨.waiting, config.maxTasks - 1⟩ := by
  have level : ∀ {index}, index < config.maxTasks →
      (¬(FilterAccess.mk .level index).Inside config.maxTasks ↔
        FilterAccess.mk .level index = ⟨.waiting, config.maxTasks - 1⟩) := by
    intro index below
    exact ⟨fun outside => absurd below outside, fun same => by cases same⟩
  have waiting : ∀ {l}, l < config.maxTasks →
      (¬(FilterAccess.mk .waiting l).Inside config.maxTasks ↔
        FilterAccess.mk .waiting l = ⟨.waiting, config.maxTasks - 1⟩) := by
    intro l below
    simp only [FilterAccess.Inside, FilterArray.length, FilterAccess.mk.injEq, true_and]
    omega
  cases pc with
  | outside | inside => cases member
  | setLevel l | clearLevel =>
      cases List.mem_singleton.mp member
      exact level caller
  | setWaiting l | testWaiting l k =>
      cases List.mem_singleton.mp member
      exact waiting sound.2
  | testLevel l k =>
      simp only [FilterPc.accesses] at member
      split at member
      · rename_i competitor
        cases List.mem_singleton.mp member
        exact level competitor.1
      · cases member

theorem Reached.step_keeps {world : FilterWorld config} (reached : Reached memory world)
    (caller : i < config.maxTasks) {access : FilterAccess} (outside : ¬access.Inside config.maxTasks)
    (other : access ≠ ⟨.waiting, config.maxTasks - 1⟩) :
    access.read (world.step i).mutex = access.read world.mutex := by
  refine world.step_spares fun member => ?_
  exact other ((accesses_outside (reached.sound i) caller member).mp outside)

theorem Reached.keeps {world : FilterWorld config} (reached : Reached memory world)
    {access : FilterAccess} (outside : ¬access.Inside config.maxTasks)
    (other : access ≠ ⟨.waiting, config.maxTasks - 1⟩) :
    access.read world.mutex = access.read memory := by
  induction reached with
  | start => exact init_spares memory outside
  | next before caller stepped ih =>
      cases stepped
      exact (Reached.step_keeps before caller outside other).trans ih

structure Lone (world : FilterWorld config) (i : Nat) (pc : FilterPc) : Prop where
  here : world.pc i = pc
  free : ∀ k < config.maxTasks, k ≠ i → world.mutex.level k = 0

theorem Lone.called {world : FilterWorld config} (lone : Lone world i .outside) :
    Lone (world.step i) i (levelLoop config 1) := by
  refine ⟨?_, ?_⟩
  · simp only [FilterWorld.step, lone.here, moveTo_same]
  · simp only [FilterWorld.step, lone.here, moveTo_mutex]
    exact lone.free

theorem Lone.announced {world : FilterWorld config} {l : Nat} (lone : Lone world i (.setLevel l)) :
    Lone (world.step i) i (.setWaiting l) := by
  refine ⟨?_, ?_⟩
  · simp only [FilterWorld.step, lone.here, moveTo_same]
  · intro k below other
    simp only [FilterWorld.step, lone.here, moveTo_mutex, FilterMutex.setLevel]
    rw [Function.update_of_ne other]
    exact lone.free k below other

theorem Lone.entered {world : FilterWorld config} {l : Nat} (lone : Lone world i (.setWaiting l)) :
    Lone (world.step i) i (.testLevel l 0) := by
  refine ⟨?_, ?_⟩
  · simp only [FilterWorld.step, lone.here, moveTo_same]
  · simp only [FilterWorld.step, lone.here, moveTo_mutex, FilterMutex.setWaiting]
    exact lone.free

theorem Lone.looked {world : FilterWorld config} {l k : Nat} (lone : Lone world i (.testLevel l k))
    (one : 1 ≤ l) (below : k < config.maxTasks) : Lone (world.step i) i (.testLevel l (k + 1)) := by
  have empty : ¬(k ≠ i ∧ l ≤ (world.mutex.level k).toNat) := by
    rintro ⟨other, high⟩
    rw [lone.free k below other] at high
    exact absurd (one.trans high) (by decide)
  have stepped : world.step i = world.moveTo i (.testLevel l (k + 1)) := by
    simp only [FilterWorld.step, lone.here]
    rw [if_pos below, if_neg empty]
  rw [stepped]
  exact ⟨moveTo_same _ _ _, lone.free⟩

theorem Lone.finished {world : FilterWorld config} {l : Nat}
    (lone : Lone world i (.testLevel l config.maxTasks)) :
    Lone (world.step i) i (levelLoop config (l + 1)) := by
  have stepped : world.step i = world.moveTo i (levelLoop config (l + 1)) := by
    simp only [FilterWorld.step, lone.here]
    rw [if_neg (Nat.lt_irrefl _)]
  rw [stepped]
  exact ⟨moveTo_same _ _ _, lone.free⟩

theorem Lone.scans {l : Nat} (one : 1 ≤ l) (left : Nat) :
    ∀ (world : FilterWorld config) (k : Nat), k + left = config.maxTasks →
      Lone world i (.testLevel l k) →
      ∃ next, Leads i world next ∧ Lone next i (levelLoop config (l + 1)) := by
  induction left with
  | zero =>
      intro world k done lone
      obtain rfl : k = config.maxTasks := done
      exact ⟨world.step i, (Leads.refl i _).cons, lone.finished⟩
  | succ left ih =>
      intro world k more lone
      obtain ⟨next, leads, there⟩ := ih _ (k + 1) (by omega) (lone.looked one (by omega))
      exact ⟨next, leads.cons, there⟩

theorem Lone.climbs {world : FilterWorld config} (lone : Lone world i .outside) (l : Nat) :
    1 ≤ l → l < config.maxTasks → ∃ next, Leads i world next ∧ Lone next i (.setLevel l) := by
  intro one
  induction l, one using Nat.le_induction with
  | base =>
      intro below
      have called := lone.called
      rw [levelLoop, if_pos below] at called
      exact ⟨world.step i, (Leads.refl i _).cons, called⟩
  | succ l one ih =>
      intro below
      obtain ⟨at_level, climbs, there⟩ := ih (by omega)
      obtain ⟨next, scans, above⟩ :=
        Lone.scans one config.maxTasks _ 0 (Nat.zero_add _) there.announced.entered
      rw [levelLoop, if_pos below] at above
      exact ⟨next, climbs.trans scans.cons.cons, above⟩

theorem start_lone (memory : FilterMutex) : Lone (start config memory) i .outside := by
  refine ⟨rfl, fun k below _ => ?_⟩
  rw [start, FilterMutex.hfMtxinit, foldl_setWaiting]
  exact foldl_setLevel _ _ below

theorem reaches_last_level (memory : FilterMutex) (two : 2 ≤ config.maxTasks)
    (caller : i < config.maxTasks) : ∃ world : FilterWorld config, Reached memory world ∧
      world.pc i = .setWaiting (config.maxTasks - 1) := by
  have alone : Lone (start config memory) i .outside := start_lone memory
  obtain ⟨last, leads, there⟩ := alone.climbs (config.maxTasks - 1) (by omega) (by omega)
  exact ⟨last.step i, (leads.reached caller .start).step caller, there.announced.here⟩

theorem last_level_overwrites (memory : FilterMutex) (two : 2 ≤ config.maxTasks)
    (caller : i < config.maxTasks) : ∃ world : FilterWorld config, Reached memory world ∧
      (FilterAccess.mk .waiting (config.maxTasks - 1)).read world.mutex = UInt8.ofNat i := by
  obtain ⟨world, reached, last⟩ := reaches_last_level (i := i) memory two caller
  refine ⟨world.step i, reached.step caller, ?_⟩
  simp only [FilterWorld.step, last, FilterAccess.read, moveTo_mutex, FilterMutex.setWaiting,
    Function.update_self]

/-- No caller keeps to the arrays: `waiting` has no entry for the last level. Every other access
is within its array, and no other memory changes. -/
theorem filter_lock_leaves_waiting (config : Config) (i : Nat) (two : 2 ≤ config.maxTasks)
    (caller : i < config.maxTasks) :
    ¬StaysInside config i ∧
      ∀ (memory : FilterMutex) (world : FilterWorld config), Reached memory world →
        (∀ access ∈ (world.pc i).accesses config.maxTasks i,
          (¬access.Inside config.maxTasks ↔ access = ⟨.waiting, config.maxTasks - 1⟩)) ∧
        ∀ access : FilterAccess, ¬access.Inside config.maxTasks →
          access ≠ ⟨.waiting, config.maxTasks - 1⟩ →
          access.read (world.step i).mutex = access.read world.mutex := by
  refine ⟨fun stays => ?_, fun memory world reached => ⟨fun access member => ?_, ?_⟩⟩
  · obtain ⟨world, reached, last⟩ := reaches_last_level (i := i) zeroed two caller
    have member : ⟨.waiting, config.maxTasks - 1⟩ ∈ (world.pc i).accesses config.maxTasks i := by
      rw [last]
      exact List.mem_cons_self
    exact Nat.lt_irrefl _ (stays.calls zeroed world reached _ member)
  · exact accesses_outside (reached.sound i) caller member
  · exact fun access outside other => reached.step_keeps caller outside other

theorem filter_lock_leaves_waiting_two : ¬StaysInside ⟨2, by decide, by decide⟩ 1 :=
  (filter_lock_leaves_waiting ⟨2, by decide, by decide⟩ 1 (by decide) (by decide)).1

/-- With two tasks `waiting` has one entry, and the first call writes its entry 1. -/
theorem filter_lock_overruns :
    ¬∀ (config : Config) (i : Nat), 2 ≤ config.maxTasks → i < config.maxTasks →
      StaysInside config i := by
  intro all
  let config : Config := ⟨2, by decide, by decide⟩
  have reached : Reached zeroed (ran config [0, 0]) := ran_reached (by decide)
  exact absurd ((all config 0 (by decide) (by decide)).calls _ _ reached ⟨.waiting, 1⟩ (by decide))
    (by decide)

end FilterWorld

end Hellfire

import Hellfire.Library.Lightswitch
import Hellfire.Library.Machine
import Hellfire.SemaphoreTokens

/-!
Executable model of `app/readers_writers/readers_writers.c`: readers and writers of a
database that keep apart with five semaphores, and what holds in every run of it. Each step
is one call of `hf_semwait` or `hf_sempost`, or one load or store of a counter, so that the
tasks may be interrupted anywhere. The semaphores are numbers, which `semaphore.c` refines.
-/

namespace Hellfire

namespace ReadersWriters

open Machine Census Tokens

inductive Reader
  | waitMtx
  | waitRdb
  | waitRc
  | load
  | store (rc : Int)
  | testOne
  | waitWdb
  | postRc
  | postRdb
  | postMtx
  | reading
  | loadAgain
  | storeAgain (rc : Int)
  | testZero
  | postWdb
  | postRcAgain
  deriving DecidableEq

inductive Writer
  | waitWc
  | load
  | store (wc : Int)
  | testOne
  | waitRdb
  | postWc
  | waitWdb
  | writing
  | waitWcAgain
  | loadAgain
  | storeAgain (wc : Int)
  | testZero
  | postRdb
  | postWcAgain
  deriving DecidableEq

/-- The two counters, and for each semaphore how many calls of `hf_semwait` may still return. -/
structure Shared where
  mtxRc : Nat
  mtxWc : Nat
  mtx : Nat
  wDb : Nat
  rDb : Nat
  rc : Int
  wc : Int

def Reader.step (shared : Shared) : Reader → Option (Reader × Shared)
  | .waitMtx => (hfSemwait shared.mtx).map fun mtx => (.waitRdb, { shared with mtx := mtx })
  | .waitRdb => (hfSemwait shared.rDb).map fun rDb => (.waitRc, { shared with rDb := rDb })
  | .waitRc => (hfSemwait shared.mtxRc).map fun mtxRc => (.load, { shared with mtxRc := mtxRc })
  | .load => some (.store (int32 (shared.rc + 1)), shared)
  | .store rc => some (.testOne, { shared with rc := rc })
  | .testOne => some (if shared.rc = 1 then .waitWdb else .postRc, shared)
  | .waitWdb => (hfSemwait shared.wDb).map fun wDb => (.postRc, { shared with wDb := wDb })
  | .postRc => some (.postRdb, { shared with mtxRc := hfSempost shared.mtxRc })
  | .postRdb => some (.postMtx, { shared with rDb := hfSempost shared.rDb })
  | .postMtx => some (.reading, { shared with mtx := hfSempost shared.mtx })
  | .reading => (hfSemwait shared.mtxRc).map fun mtxRc => (.loadAgain, { shared with mtxRc := mtxRc })
  | .loadAgain => some (.storeAgain (int32 (shared.rc - 1)), shared)
  | .storeAgain rc => some (.testZero, { shared with rc := rc })
  | .testZero => some (if shared.rc = 0 then .postWdb else .postRcAgain, shared)
  | .postWdb => some (.postRcAgain, { shared with wDb := hfSempost shared.wDb })
  | .postRcAgain => some (.waitMtx, { shared with mtxRc := hfSempost shared.mtxRc })

def Writer.step (shared : Shared) : Writer → Option (Writer × Shared)
  | .waitWc => (hfSemwait shared.mtxWc).map fun mtxWc => (.load, { shared with mtxWc := mtxWc })
  | .load => some (.store (int32 (shared.wc + 1)), shared)
  | .store wc => some (.testOne, { shared with wc := wc })
  | .testOne => some (if shared.wc = 1 then .waitRdb else .postWc, shared)
  | .waitRdb => (hfSemwait shared.rDb).map fun rDb => (.postWc, { shared with rDb := rDb })
  | .postWc => some (.waitWdb, { shared with mtxWc := hfSempost shared.mtxWc })
  | .waitWdb => (hfSemwait shared.wDb).map fun wDb => (.writing, { shared with wDb := wDb })
  | .writing => some (.waitWcAgain, { shared with wDb := hfSempost shared.wDb })
  | .waitWcAgain =>
      (hfSemwait shared.mtxWc).map fun mtxWc => (.loadAgain, { shared with mtxWc := mtxWc })
  | .loadAgain => some (.storeAgain (int32 (shared.wc - 1)), shared)
  | .storeAgain wc => some (.testZero, { shared with wc := wc })
  | .testZero => some (if shared.wc = 0 then .postRdb else .postWcAgain, shared)
  | .postRdb => some (.postWcAgain, { shared with rDb := hfSempost shared.rDb })
  | .postWcAgain => some (.waitWc, { shared with mtxWc := hfSempost shared.mtxWc })

structure World (nReaders nWriters : Nat) where
  readers : Fin nReaders → Reader
  writers : Fin nWriters → Writer
  shared : Shared

inductive Task (nReaders nWriters : Nat)
  | reader (i : Fin nReaders)
  | writer (i : Fin nWriters)

namespace World

variable {nReaders nWriters : Nat}

def appMain (nReaders nWriters : Nat) : World nReaders nWriters where
  readers _ := .waitMtx
  writers _ := .waitWc
  shared := ⟨1, 1, 1, 1, 1, 0, 0⟩

/-- One step of a task; an error is a task that waits for a semaphore. -/
def step : Task nReaders nWriters → World nReaders nWriters → Except Unit (World nReaders nWriters)
  | .reader i, world =>
      match (world.readers i).step world.shared with
      | none => .error ()
      | some (place, shared) =>
          .ok { world with readers := Function.update world.readers i place, shared := shared }
  | .writer i, world =>
      match (world.writers i).step world.shared with
      | none => .error ()
      | some (place, shared) =>
          .ok { world with writers := Function.update world.writers i place, shared := shared }

end World

/-! The readers take `w_db` as a group and the writers take `r_db` as a group. -/

def Shared.readers (shared : Shared) : Lightswitch.Switch := ⟨shared.mtxRc, shared.rc, shared.wDb⟩

def Shared.writers (shared : Shared) : Lightswitch.Switch := ⟨shared.mtxWc, shared.wc, shared.rDb⟩

namespace Reader

def switch : Reader → Lightswitch.Place
  | .waitMtx | .waitRdb | .waitRc => .out
  | .load => .load
  | .store rc => .store rc
  | .testOne => .testOne
  | .waitWdb => .wait
  | .postRc => .postIn
  | .postRdb | .postMtx | .reading => .inside
  | .loadAgain => .loadOut
  | .storeAgain rc => .storeOut rc
  | .testZero => .testZero
  | .postWdb => .post
  | .postRcAgain => .postOut

/-- Between `hf_semwait(&mtx)` and `hf_sempost(&mtx)`. -/
def inMtx : Reader → Bool
  | .waitRdb | .waitRc | .load | .store _ | .testOne | .waitWdb | .postRc | .postRdb | .postMtx => true
  | _ => false

/-- Between `hf_semwait(&r_db)` and `hf_sempost(&r_db)`. -/
def inRdb : Reader → Bool
  | .waitRc | .load | .store _ | .testOne | .waitWdb | .postRc | .postRdb => true
  | _ => false

/-- Past the test of `rc` and not yet counted out. -/
def letIn : Reader → Bool
  | .postRc | .postRdb | .postMtx | .reading | .loadAgain | .storeAgain _ => true
  | _ => false

end Reader

namespace Writer

def switch : Writer → Lightswitch.Place
  | .waitWc => .out
  | .load => .load
  | .store wc => .store wc
  | .testOne => .testOne
  | .waitRdb => .wait
  | .postWc => .postIn
  | .waitWdb | .writing | .waitWcAgain => .inside
  | .loadAgain => .loadOut
  | .storeAgain wc => .storeOut wc
  | .testZero => .testZero
  | .postRdb => .post
  | .postWcAgain => .postOut

def writes : Writer → Bool
  | .writing => true
  | _ => false

/-- Past the test of `wc` and not yet counted out. -/
def letIn : Writer → Bool
  | .postWc | .waitWdb | .writing | .waitWcAgain | .loadAgain | .storeAgain _ => true
  | _ => false

end Writer

theorem hfSemwait_eq : hfSemwait = Lightswitch.take := by
  funext semaphore
  cases semaphore <;> rfl

section Steps

variable {shared after : Shared}

theorem Reader.step_switch {current place : Reader}
    (stepped : current.step shared = some (place, after)) :
    (place.switch = current.switch ∧ after.readers = shared.readers) ∨
      Lightswitch.step int32 shared.readers current.switch = some (place.switch, after.readers) := by
  cases current
  case waitMtx | waitRdb | waitRc | waitWdb | reading =>
    simp only [Reader.step, hfSemwait_eq, Option.map_eq_some_iff, Prod.mk.injEq] at stepped
    obtain ⟨rest, taken, rfl, rfl⟩ := stepped
    simp [Reader.switch, Shared.readers, Lightswitch.step, taken]
  case testOne | testZero =>
    simp only [Reader.step, Option.some.injEq, Prod.mk.injEq] at stepped
    obtain ⟨rfl, rfl⟩ := stepped
    right
    split <;> rename_i tested <;> simp [Reader.switch, Shared.readers, Lightswitch.step, tested]
  all_goals
    simp only [Reader.step, Option.some.injEq, Prod.mk.injEq] at stepped
    obtain ⟨rfl, rfl⟩ := stepped
    simp [Reader.switch, Shared.readers, Lightswitch.step, hfSempost]

theorem Reader.step_kept {current place : Reader}
    (stepped : current.step shared = some (place, after)) :
    after.mtx + place.inMtx.toNat = shared.mtx + current.inMtx.toNat ∧
      after.rDb + place.inRdb.toNat = shared.rDb + current.inRdb.toNat ∧
      after.mtxWc = shared.mtxWc ∧ after.wc = shared.wc := by
  cases current
  case waitMtx | waitRdb | waitRc | waitWdb | reading =>
    simp only [Reader.step, hfSemwait_eq, Option.map_eq_some_iff, Prod.mk.injEq] at stepped
    obtain ⟨rest, taken, rfl, rfl⟩ := stepped
    simp [Reader.inMtx, Reader.inRdb, Lightswitch.take_some taken]
  case testOne | testZero =>
    simp only [Reader.step, Option.some.injEq, Prod.mk.injEq] at stepped
    obtain ⟨rfl, rfl⟩ := stepped
    split <;> simp [Reader.inMtx, Reader.inRdb]
  all_goals
    simp only [Reader.step, Option.some.injEq, Prod.mk.injEq] at stepped
    obtain ⟨rfl, rfl⟩ := stepped
    simp [Reader.inMtx, Reader.inRdb, hfSempost]

theorem Writer.step_switch {current place : Writer}
    (stepped : current.step shared = some (place, after)) :
    (place.switch = current.switch ∧ after.writers = shared.writers) ∨
      Lightswitch.step int32 shared.writers current.switch = some (place.switch, after.writers) := by
  cases current
  case waitWc | waitRdb | waitWdb | waitWcAgain =>
    simp only [Writer.step, hfSemwait_eq, Option.map_eq_some_iff, Prod.mk.injEq] at stepped
    obtain ⟨rest, taken, rfl, rfl⟩ := stepped
    simp [Writer.switch, Shared.writers, Lightswitch.step, taken]
  case testOne | testZero =>
    simp only [Writer.step, Option.some.injEq, Prod.mk.injEq] at stepped
    obtain ⟨rfl, rfl⟩ := stepped
    right
    split <;> rename_i tested <;> simp [Writer.switch, Shared.writers, Lightswitch.step, tested]
  all_goals
    simp only [Writer.step, Option.some.injEq, Prod.mk.injEq] at stepped
    obtain ⟨rfl, rfl⟩ := stepped
    simp [Writer.switch, Shared.writers, Lightswitch.step, hfSempost]

theorem Writer.step_kept {current place : Writer}
    (stepped : current.step shared = some (place, after)) :
    after.mtx = shared.mtx ∧
      after.wDb + place.writes.toNat = shared.wDb + current.writes.toNat ∧
      after.mtxRc = shared.mtxRc ∧ after.rc = shared.rc := by
  cases current
  case waitWc | waitRdb | waitWdb | waitWcAgain =>
    simp only [Writer.step, hfSemwait_eq, Option.map_eq_some_iff, Prod.mk.injEq] at stepped
    obtain ⟨rest, taken, rfl, rfl⟩ := stepped
    simp [Writer.writes, Lightswitch.take_some taken]
  case testOne | testZero =>
    simp only [Writer.step, Option.some.injEq, Prod.mk.injEq] at stepped
    obtain ⟨rfl, rfl⟩ := stepped
    split <;> simp [Writer.writes]
  all_goals
    simp only [Writer.step, Option.some.injEq, Prod.mk.injEq] at stepped
    obtain ⟨rfl, rfl⟩ := stepped
    simp [Writer.writes, hfSempost]

theorem Reader.stuck {reader : Reader} (stuck : reader.step shared = none) :
    (reader = .waitMtx ∧ shared.mtx = 0) ∨ (reader = .waitRdb ∧ shared.rDb = 0) ∨
      (reader = .waitRc ∧ shared.mtxRc = 0) ∨ (reader = .waitWdb ∧ shared.wDb = 0) ∨
      (reader = .reading ∧ shared.mtxRc = 0) := by
  cases reader
  case waitMtx | waitRdb | waitRc | waitWdb | reading =>
    have empty := hfSemwait_none (Option.map_eq_none_iff.mp stuck)
    simp [empty]
  all_goals cases stuck

theorem Writer.stuck {writer : Writer} (stuck : writer.step shared = none) :
    (writer = .waitWc ∧ shared.mtxWc = 0) ∨ (writer = .waitRdb ∧ shared.rDb = 0) ∨
      (writer = .waitWdb ∧ shared.wDb = 0) ∨ (writer = .waitWcAgain ∧ shared.mtxWc = 0) := by
  cases writer
  case waitWc | waitRdb | waitWdb | waitWcAgain =>
    have empty := hfSemwait_none (Option.map_eq_none_iff.mp stuck)
    simp [empty]
  all_goals cases stuck

end Steps

namespace World

variable {nReaders nWriters : Nat} {world after : World nReaders nWriters}

structure Ordered (world : World nReaders nWriters) : Prop where
  mtx : world.shared.mtx + total (fun place => place.inMtx.toNat) world.readers = 1
  readers : Lightswitch.Held (total (fun place => place.writes.toNat) world.writers)
    world.shared.readers (Reader.switch ∘ world.readers)
  writers : Lightswitch.Held (total (fun place => place.inRdb.toNat) world.readers)
    world.shared.writers (Writer.switch ∘ world.writers)

theorem Ordered.appMain : Ordered (appMain nReaders nWriters) where
  mtx := by
    have none : total (fun place => place.inMtx.toNat) (World.appMain nReaders nWriters).readers = 0 :=
      total_eq_zero fun _ => rfl
    rw [none]
    rfl
  readers := by
    have none : total (fun place => place.writes.toNat) (World.appMain nReaders nWriters).writers = 0 :=
      total_eq_zero fun _ => rfl
    rw [none]
    exact Lightswitch.Held.start fun _ => rfl
  writers := by
    have none : total (fun place => place.inRdb.toNat) (World.appMain nReaders nWriters).readers = 0 :=
      total_eq_zero fun _ => rfl
    rw [none]
    exact Lightswitch.Held.start fun _ => rfl

theorem wraps {tasks : Nat} (few : tasks < 2147483648) (count : Nat)
    (bound : count ≤ Fintype.card (Fin tasks)) : int32 (count : Int) = count := by
  rw [Fintype.card_fin] at bound
  exact int32_of_range (by omega) (by omega)

theorem Ordered.step {task : Task nReaders nWriters} (fewReaders : nReaders < 2147483648)
    (fewWriters : nWriters < 2147483648) (ordered : Ordered world)
    (stepped : step task world = .ok after) : Ordered after := by
  cases task with
  | reader i =>
      simp only [World.step] at stepped
      split at stepped
      · cases stepped
      · rename_i place shared moved
        cases stepped
        obtain ⟨mtx, rDb, mtxWc, wc⟩ := Reader.step_kept moved
        have inMtx := total_update (fun place => place.inMtx.toNat) world.readers i place
        have inRdb := total_update (fun place => place.inRdb.toNat) world.readers i place
        have before := ordered.mtx
        refine ⟨?_, ?_, ordered.writers.spared mtxWc wc ?_⟩
        · simp only at inMtx ⊢
          omega
        · rw [Function.comp_update]
          rcases Reader.step_switch moved with ⟨place, switch⟩ | grouped
          · have still : (world.readers i).switch = (Reader.switch ∘ world.readers) i := rfl
            rw [place, switch, still, Function.update_eq_self]
            exact ordered.readers
          · exact ordered.readers.step (wraps fewReaders) grouped
        · simp only [Shared.writers] at inRdb ⊢
          omega
  | writer i =>
      simp only [World.step] at stepped
      split at stepped
      · cases stepped
      · rename_i place shared moved
        cases stepped
        obtain ⟨mtx, wDb, mtxRc, rc⟩ := Writer.step_kept moved
        have writes := total_update (fun place => place.writes.toNat) world.writers i place
        have before := ordered.mtx
        refine ⟨?_, ordered.readers.spared mtxRc rc ?_, ?_⟩
        · simp only at ⊢
          omega
        · simp only [Shared.readers] at writes ⊢
          omega
        · rw [Function.comp_update]
          rcases Writer.step_switch moved with ⟨place, switch⟩ | grouped
          · have still : (world.writers i).switch = (Writer.switch ∘ world.writers) i := rfl
            rw [place, switch, still, Function.update_eq_self]
            exact ordered.writers
          · exact ordered.writers.step (wraps fewWriters) grouped

theorem Ordered.reached (fewReaders : nReaders < 2147483648) (fewWriters : nWriters < 2147483648)
    (reached : Reaches World.step (fun _ _ => True) (World.appMain nReaders nWriters) world) :
    Ordered world :=
  reached.invariant Ordered Ordered.appMain fun _ _ _ ordered _ stepped =>
    ordered.step fewReaders fewWriters stepped

theorem Ordered.exclusive (ordered : Ordered world) {i j : Fin nWriters}
    (here : world.writers i = .writing) (there : world.writers j = .writing) : i = j := by
  refine alone (fun place => place.writes.toNat) world.writers ?_ ?_ ?_
  · have single := ordered.readers.single
    omega
  · rw [here]
    decide
  · rw [there]
    decide

theorem Ordered.apart (ordered : Ordered world) {i : Fin nWriters}
    (writing : world.writers i = .writing)
    (j : Fin nReaders) : (world.readers j).letIn = false := by
  by_contra inside
  have shut := ordered.readers.shut (i := j) (by
    simp only [Function.comp_apply]
    cases here : world.readers j <;> simp_all [Reader.letIn, Reader.switch, Lightswitch.Place.letIn])
  have one := le_total (fun place => place.writes.toNat) world.writers i
  rw [writing] at one
  change 1 ≤ _ at one
  omega

/-- No reader comes in once a writer is let in, even while it waits for readers to leave. -/
theorem Ordered.prior (ordered : Ordered world) {i : Fin nWriters}
    (inside : (world.writers i).letIn = true) (j : Fin nReaders) : (world.readers j).inRdb = false := by
  by_contra coming
  have shut := ordered.writers.shut (i := i) (by
    simp only [Function.comp_apply]
    cases here : world.writers i <;> simp_all [Writer.letIn, Writer.switch, Lightswitch.Place.letIn])
  have one := le_total (fun place => place.inRdb.toNat) world.readers j
  simp only [Bool.not_eq_false] at coming
  simp only [coming, Bool.toNat_true] at one
  omega

theorem reader_stuck {i : Fin nReaders} (stuck : ∀ after, World.step (.reader i) world ≠ .ok after) :
    (world.readers i).step world.shared = none := by
  cases moved : (world.readers i).step world.shared with
  | none => rfl
  | some next =>
      have stepped := stuck { world with
        readers := Function.update world.readers i next.1
        shared := next.2 }
      simp [World.step, moved] at stepped

theorem writer_stuck {i : Fin nWriters} (stuck : ∀ after, World.step (.writer i) world ≠ .ok after) :
    (world.writers i).step world.shared = none := by
  cases moved : (world.writers i).step world.shared with
  | none => rfl
  | some next =>
      have stepped := stuck { world with
        writers := Function.update world.writers i next.1
        shared := next.2 }
      simp [World.step, moved] at stepped

section Dead

variable (ordered : Ordered world) (dead : ∀ task after, World.step task world ≠ .ok after)
include dead

theorem nobody_writes : total (fun place => place.writes.toNat) world.writers = 0 := by
  apply total_eq_zero
  intro i
  rcases Writer.stuck (writer_stuck (dead (.writer i))) with
    ⟨here, _⟩ | ⟨here, _⟩ | ⟨here, _⟩ | ⟨here, _⟩ <;> rw [here] <;> rfl

include ordered

theorem Ordered.readers_out (i : Fin nReaders) :
    (world.readers i = .waitMtx ∧ world.shared.mtx = 0) ∨
      (world.readers i = .waitRdb ∧ world.shared.rDb = 0) := by
  have readers i := Reader.stuck (reader_stuck (dead (.reader i)))
  have group := ordered.readers
  rw [nobody_writes dead] at group
  obtain ⟨mtxRc, calm⟩ := group.unlocked int32 (by
    intro i
    simp only [Function.comp_apply]
    rcases readers i with ⟨here, _⟩ | ⟨here, _⟩ | ⟨here, _⟩ | ⟨here, wDb⟩ | ⟨here, _⟩ <;> rw [here]
    · exact Or.inl rfl
    · exact Or.inl rfl
    · exact Or.inl rfl
    · refine Or.inr (Or.inr ?_)
      simp [Lightswitch.step, Reader.switch, Shared.readers, wDb, Lightswitch.take]
    · exact Or.inr (Or.inl rfl))
  have resting := calm i
  simp only [Function.comp_apply] at resting
  simp only [Shared.readers] at mtxRc
  rcases readers i with here | here | ⟨_, locked⟩ | ⟨here, _⟩ | ⟨_, locked⟩
  · exact Or.inl here
  · exact Or.inr here
  · omega
  · rw [here] at resting
    simp [Reader.switch] at resting
  · omega

theorem Ordered.free_wDb : world.shared.wDb = 1 := by
  have group := ordered.readers
  rw [nobody_writes dead] at group
  refine group.opened fun i => ?_
  simp only [Function.comp_apply]
  rcases ordered.readers_out dead i with ⟨here, _⟩ | ⟨here, _⟩ <;> rw [here] <;> rfl

theorem Ordered.nobody_comes : total (fun place => place.inRdb.toNat) world.readers = 0 := by
  apply total_eq_zero
  intro i
  rcases ordered.readers_out dead i with ⟨here, _⟩ | ⟨here, _⟩ <;> rw [here] <;> rfl

theorem Ordered.no_writer (i : Fin nWriters) : False := by
  have writers i := Writer.stuck (writer_stuck (dead (.writer i)))
  have wDb := ordered.free_wDb dead
  have group := ordered.writers
  rw [ordered.nobody_comes dead] at group
  obtain ⟨mtxWc, calm⟩ := group.unlocked int32 (by
    intro i
    simp only [Function.comp_apply]
    rcases writers i with ⟨here, _⟩ | ⟨here, rDb⟩ | ⟨here, _⟩ | ⟨here, _⟩ <;> rw [here]
    · exact Or.inl rfl
    · refine Or.inr (Or.inr ?_)
      simp [Lightswitch.step, Writer.switch, Shared.writers, rDb, Lightswitch.take]
    · exact Or.inr (Or.inl rfl)
    · exact Or.inr (Or.inl rfl))
  have resting := calm i
  simp only [Function.comp_apply] at resting
  simp only [Shared.writers] at mtxWc
  rcases writers i with ⟨_, locked⟩ | ⟨here, _⟩ | ⟨_, locked⟩ | ⟨_, locked⟩
  · omega
  · rw [here] at resting
    simp [Writer.switch] at resting
  · omega
  · omega

theorem Ordered.no_reader (i : Fin nReaders) : False := by
  have group := ordered.writers
  rw [ordered.nobody_comes dead] at group
  have rDb := group.opened fun i => (ordered.no_writer dead i).elim
  simp only [Shared.writers] at rDb
  have first (i : Fin nReaders) : world.readers i = .waitMtx ∧ world.shared.mtx = 0 := by
    rcases ordered.readers_out dead i with here | ⟨_, locked⟩
    · exact here
    · omega
  have outside : total (fun place => place.inMtx.toNat) world.readers = 0 := by
    apply total_eq_zero
    intro i
    rw [(first i).1]
    rfl
  have mtx := ordered.mtx
  have locked := (first i).2
  omega

end Dead

/-- Some task can always go on. -/
theorem Ordered.live (ordered : Ordered world) (someone : 0 < nReaders + nWriters) :
    ∃ task after, World.step task world = .ok after := by
  by_contra dead
  push Not at dead
  by_cases readers : 0 < nReaders
  · exact ordered.no_reader dead ⟨0, readers⟩
  · exact ordered.no_writer dead ⟨0, by omega⟩

/-- A writer writes alone, no reader comes in once a writer is let in, and the tasks never
deadlock. -/
theorem database_kept (fewReaders : nReaders < 2147483648) (fewWriters : nWriters < 2147483648)
    (reached : Reaches World.step (fun _ _ => True) (World.appMain nReaders nWriters) world) :
    (∀ i j, world.writers i = .writing → world.writers j = .writing → i = j) ∧
      (∀ i j, world.writers i = .writing → (world.readers j).letIn = false) ∧
      (∀ i j, (world.writers i).letIn = true → (world.readers j).inRdb = false) ∧
      (0 < nReaders + nWriters → ∃ task after, World.step task world = .ok after) := by
  have ordered := Ordered.reached fewReaders fewWriters reached
  refine ⟨?_, ?_, ?_, ordered.live⟩
  · intro i j here there
    exact ordered.exclusive here there
  · intro i j writing
    exact ordered.apart writing j
  · intro i j inside
    exact ordered.prior inside j

/-- The writer gets to the database while a reader waits for `r_db`. -/
def writerFirst : List (Task 3 1) :=
  [.writer 0, .writer 0, .writer 0, .writer 0, .writer 0, .reader 2, .writer 0, .writer 0]

theorem database_kept_writing :
    let world := outcome World.step writerFirst (World.appMain 3 1)
    world.writers 0 = .writing ∧ world.readers 2 = .waitRdb ∧
      (∀ j, (world.readers j).letIn = false) ∧ (∀ j, (world.readers j).inRdb = false) ∧
      ∃ task after, World.step task world = .ok after := by
  intro world
  have reached : Reaches World.step (fun _ _ => True) (World.appMain 3 1) world :=
    execute_reaches writerFirst _ _ .start (fun _ _ _ => trivial) rfl
  have writing : world.writers 0 = .writing := rfl
  obtain ⟨_, apart, prior, live⟩ := database_kept (by decide) (by decide) reached
  refine ⟨writing, rfl, fun j => apart 0 j writing, fun j => prior 0 j ?_, live (by decide)⟩
  rw [writing]
  rfl

end World

end ReadersWriters

end Hellfire

import Hellfire.Library.DirectMapped
import Hellfire.CacheMapping

/-!
Whole runs of the cache simulator: its sets mirror a cache that knows the numbers of its
blocks, so that hits, misses and times are those of that cache, and more sets never miss more.
-/

namespace Hellfire

open DirectMapped

namespace CacheSim

structure Request where
  write : Bool
  address : Word

def Cache.serve (cache : Cache) (request : Request) : Word × Cache :=
  if request.write then cache.cacheWrite request.address else cache.cacheRead request.address

def Cache.run : List Request → Cache → Word × Cache
  | [], cache => (0, cache)
  | request :: requests, cache =>
      let served := cache.serve request
      let rest := served.2.run requests
      (served.1 + rest.1, rest.2)

/-- The blocks in the lines, and the lines that hold a write which memory does not have. -/
structure Ideal where
  contents : Nat → Option Nat
  dirty : Nat → Bool

def Ideal.empty : Ideal := ⟨fun _ => none, fun _ => false⟩

variable (policy : Policy) (line : Nat → Nat)

def looks (write : Bool) : Bool := !write || policy ≠ .wt

namespace Ideal

variable (ideal : Ideal) (write : Bool) (block : Nat)

/-- The block is looked for and comes from memory. -/
def fetches : Bool := looks policy write && !Holds line ideal.contents block

/-- The word is written to the line alone. -/
def keeps : Bool := write && policy = .wb && Holds line ideal.contents block

/-- What a request moves: the block that it needs, the block that it replaces if memory does not have all
of it, and the word unless the line keeps it. -/
structure Moves where
  write : Bool
  fetched : Bool
  saved : Bool
  stored : Bool

def moves : Moves where
  write := write
  fetched := ideal.fetches policy line write block
  saved := ideal.fetches policy line write block && ideal.dirty (line block)
  stored := write && !ideal.keeps policy line write block

def serve : Ideal where
  contents := if looks policy write then load line ideal.contents block else ideal.contents
  dirty :=
    if ideal.fetches policy line write block then Function.update ideal.dirty (line block) false
    else if ideal.keeps policy line write block then Function.update ideal.dirty (line block) true
    else ideal.dirty

def run : List (Bool × Nat) → Ideal → List Moves × Ideal
  | [], ideal => ([], ideal)
  | (write, block) :: requests, ideal =>
      let rest := run requests (ideal.serve policy line write block)
      (ideal.moves policy line write block :: rest.1, rest.2)

end Ideal

section Contents

variable {policy line}

theorem load_of_holds {contents : Nat → Option Nat} {block : Nat} (held : Holds line contents block) :
    load line contents block = contents := by
  unfold Holds at held
  rw [load, ← held, Function.update_eq_self]

variable {ideal : Ideal} {write : Bool} {block : Nat}

theorem Ideal.serve_contents : (ideal.serve policy line write block).contents =
    if looks policy write then load line ideal.contents block else ideal.contents := rfl

theorem Ideal.serve_held (held : Holds line ideal.contents block) :
    ideal.serve policy line write block =
      ⟨ideal.contents, if write && policy = .wb then Function.update ideal.dirty (line block) true
        else ideal.dirty⟩ := by
  simp [serve, fetches, keeps, held, load_of_holds held]

theorem Ideal.serve_missing (missing : ¬Holds line ideal.contents block) :
    ideal.serve policy line write block =
      if looks policy write then
        ⟨load line ideal.contents block, Function.update ideal.dirty (line block) false⟩
      else ideal := by
  simp only [serve, fetches, keeps, missing, decide_false, Bool.not_false, Bool.and_true, Bool.and_false,
    Bool.false_eq_true, if_false]
  split
  · rfl
  · rfl

end Contents

structure Agrees (sets block : Nat) (cache : Cache) (ideal : Ideal) : Prop where
  shaped : Shaped sets block cache
  absent : ∀ place, ideal.contents place = none → (cache.cacheSets place).valid = false
  present : ∀ place number, ideal.contents place = some number →
    (cache.cacheSets place).valid = true ∧ (cache.cacheSets place).tag.toNat = number / 2 ^ sets ∧
      setOf sets number = place
  dirty : ∀ place, (cache.cacheSets place).dirty = ideal.dirty place
  clean : cache.policy ≠ .wb → ∀ place, ideal.dirty place = false

namespace Agrees

variable {sets block : Nat} {cache : Cache} {ideal : Ideal} (agrees : Agrees sets block cache ideal)

include agrees

theorem found_iff (address : Word) : cache.found address ↔
    Holds (setOf sets) ideal.contents (blockOf block address) := by
  have place := agrees.shaped.toNat_set address
  have tag := agrees.shaped.toNat_tag address
  unfold Cache.found Cache.way Holds
  rw [place, ← BitVec.toNat_inj, tag]
  cases held : ideal.contents (setOf sets (blockOf block address)) with
  | none =>
      rw [agrees.absent _ held]
      simp
  | some number =>
      obtain ⟨valid, tag_eq, place_eq⟩ := agrees.present _ _ held
      rw [valid, tag_eq]
      simp only [true_and, Option.some_inj]
      constructor
      · intro same
        unfold setOf at place_eq
        rw [← Nat.div_add_mod number (2 ^ sets), same, place_eq, Nat.div_add_mod]
      · intro same
        rw [same]

theorem setWay_load {after : Cache} {address : Word} {way : CacheSetWay} {dirty : Nat → Bool}
    (shaped : Shaped sets block after) (valid : way.valid = true) (tag : way.tag = cache.tag address)
    (sets_eq : ∀ place, after.cacheSets place =
      if place = (cache.set address).toNat then way else cache.cacheSets place)
    (dirty_eq : ∀ place, dirty place =
      if place = setOf sets (blockOf block address) then way.dirty else ideal.dirty place)
    (policy_eq : after.policy = cache.policy) (clean : cache.policy ≠ .wb → way.dirty = false) :
    Agrees sets block after
      ⟨load (setOf sets) ideal.contents (blockOf block address), dirty⟩ := by
  have place_eq := agrees.shaped.toNat_set address
  have tag_eq := agrees.shaped.toNat_tag address
  constructor
  · exact shaped
  · intro place none
    rw [sets_eq, place_eq]
    change load (setOf sets) ideal.contents (blockOf block address) place = Option.none at none
    by_cases here : place = setOf sets (blockOf block address)
    · rw [here] at none
      exact absurd (load_same.symm.trans none) (Option.some_ne_none _)
    · rw [if_neg here]
      exact agrees.absent place ((load_other here).symm.trans none)
  · intro place number some
    rw [sets_eq, place_eq]
    change load (setOf sets) ideal.contents (blockOf block address) place = Option.some number at some
    by_cases here : place = setOf sets (blockOf block address)
    · rw [here] at some
      have same : blockOf block address = number := Option.some.inj (load_same.symm.trans some)
      rw [if_pos here, tag, tag_eq, ← same]
      exact ⟨valid, rfl, here.symm⟩
    · rw [if_neg here]
      exact agrees.present place number ((load_other here).symm.trans some)
  · intro place
    change _ = dirty place
    rw [sets_eq, place_eq, dirty_eq]
    split
    · rfl
    · exact agrees.dirty place
  · intro other place
    change dirty place = false
    rw [policy_eq] at other
    rw [dirty_eq]
    split
    · exact clean other
    · exact agrees.clean other place

theorem counted {after : Cache} (config_eq : after.config = cache.config)
    (sets_eq : after.cacheSets = cache.cacheSets) (policy_eq : after.policy = cache.policy) :
    Agrees sets block after ideal := by
  obtain ⟨⟨setMask, setShift, tagMask, tagShift, fits⟩, absent, present, dirty, clean⟩ := agrees
  rw [← config_eq] at setMask setShift tagMask tagShift
  rw [← sets_eq] at absent present dirty
  rw [← policy_eq] at clean
  exact ⟨⟨setMask, setShift, tagMask, tagShift, fits⟩, absent, present, dirty, clean⟩

theorem reshaped {after : Cache} (config_eq : after.config = cache.config) :
    Shaped sets block after := by
  obtain ⟨setMask, setShift, tagMask, tagShift, fits⟩ := agrees.shaped
  rw [← config_eq] at setMask setShift tagMask tagShift
  exact ⟨setMask, setShift, tagMask, tagShift, fits⟩

theorem way_dirty (address : Word) :
    (cache.way address).dirty = ideal.dirty (setOf sets (blockOf block address)) := by
  rw [Cache.way, agrees.dirty, agrees.shaped.toNat_set]

theorem way_clean (address : Word) (other : cache.policy ≠ .wb) : (cache.way address).dirty = false := by
  rw [agrees.way_dirty, agrees.clean other]

theorem replaced (address : Word) (write : Bool) :
    Agrees sets block ((cache.missed.setWay address ⟨true, false, cache.tag address⟩).counted write)
      ⟨load (setOf sets) ideal.contents (blockOf block address),
        Function.update ideal.dirty (setOf sets (blockOf block address)) false⟩ := by
  cases write with
  | false =>
      exact agrees.setWay_load (agrees.reshaped rfl) rfl rfl (fun _ => rfl)
        (fun _ => Function.update_apply ..) rfl fun _ => rfl
  | true =>
      exact agrees.setWay_load (agrees.reshaped rfl) rfl rfl (fun _ => rfl)
        (fun _ => Function.update_apply ..) rfl fun _ => rfl

theorem cacheRead (address : Word) : Agrees sets block (cache.cacheRead address).2
    (ideal.serve cache.policy (setOf sets) false (blockOf block address)) := by
  have held := agrees.found_iff address
  have clean := agrees.way_clean address
  by_cases found : cache.found address
  · have same : (cache.cacheRead address).2 = cache.hit.counted false := by
      unfold Cache.cacheRead
      cases cache.policy <;> simp only [if_pos found]
    rw [same, Ideal.serve_held (held.mp found)]
    exact agrees.counted rfl rfl rfl
  · have same : (cache.cacheRead address).2 =
        (cache.missed.setWay address ⟨true, false, cache.tag address⟩).counted false := by
      unfold Cache.cacheRead
      cases policy_eq : cache.policy with
      | wb => simp only [if_neg found]
      | wt => simp only [if_neg found, clean (by rw [policy_eq]; exact nofun)]
      | wa => simp only [if_neg found, clean (by rw [policy_eq]; exact nofun)]
    rw [same, Ideal.serve_missing (mt held.mpr found)]
    exact agrees.replaced address false

theorem cacheWrite (address : Word) : Agrees sets block (cache.cacheWrite address).2
    (ideal.serve cache.policy (setOf sets) true (blockOf block address)) := by
  have held := agrees.found_iff address
  have clean := agrees.way_clean address
  by_cases found : cache.found address
  · rw [Ideal.serve_held (held.mp found)]
    unfold Cache.cacheWrite
    cases policy_eq : cache.policy with
    | wt => exact agrees.counted rfl rfl rfl
    | wa =>
        simp only [if_pos found]
        exact agrees.counted rfl rfl rfl
    | wb =>
        have same := load_of_holds (held.mp found)
        have valid : ({ cache.way address with dirty := true } : CacheSetWay).valid = true := found.1
        simp only [if_pos found]
        rw [← same]
        exact agrees.setWay_load (agrees.reshaped rfl) valid found.2 (fun _ => rfl)
          (fun _ => Function.update_apply ..) rfl fun other => absurd policy_eq other
  · rw [Ideal.serve_missing (mt held.mpr found)]
    unfold Cache.cacheWrite
    cases policy_eq : cache.policy with
    | wt => exact agrees.counted rfl rfl rfl
    | wa =>
        simp only [if_neg found, clean (by rw [policy_eq]; exact nofun)]
        exact agrees.replaced address true
    | wb =>
        simp only [if_neg found]
        exact agrees.replaced address true

theorem serve (request : Request) : Agrees sets block (cache.serve request).2
    (ideal.serve cache.policy (setOf sets) request.write (blockOf block request.address)) := by
  unfold Cache.serve
  cases request.write with
  | false => exact agrees.cacheRead request.address
  | true => exact agrees.cacheWrite request.address

theorem serve_time (request : Request) {moves : Ideal.Moves}
    (moved : moves = ideal.moves cache.policy (setOf sets) request.write (blockOf block request.address)) :
    (cache.serve request).1 +
        BitVec.ofNat 32 (moves.write && moves.saved).toNat * cache.blockTime =
      BitVec.ofNat 32 (moves.fetched.toNat + moves.saved.toNat) * cache.blockTime +
        BitVec.ofNat 32 moves.stored.toNat * cache.wordTime := by
  have held := agrees.found_iff request.address
  have dirty := agrees.way_dirty request.address
  have clean := agrees.way_clean request.address
  rw [moved]
  unfold Cache.serve Ideal.moves Ideal.fetches Ideal.keeps looks Cache.cacheRead Cache.cacheWrite
  simp only [← held, ← dirty]
  by_cases found : cache.found request.address
  · cases request.write with
    | false => cases cache.policy <;> simp [found]
    | true => cases cache.policy <;> simp [found]
  · cases policy_eq : cache.policy with
    | wt =>
        have unset := clean (by rw [policy_eq]; exact nofun)
        cases request.write <;> simp [found, unset]
    | wa =>
        have unset := clean (by rw [policy_eq]; exact nofun)
        cases request.write with
        | false => simp [found, unset]
        | true =>
            simp only [found, unset, Cache.blockTime]
            simp
            grind
    | wb =>
        cases request.write with
        | false =>
            cases (cache.way request.address).dirty with
            | false => simp [found, Cache.blockTime]
            | true =>
                simp [found, Cache.blockTime]
                grind
        | true =>
            cases (cache.way request.address).dirty with
            | false =>
                simp [found, Cache.blockTime]
                grind
            | true =>
                simp [found, Cache.blockTime]
                grind

theorem serve_access (request : Request) : (cache.serve request).2.access =
    { hits := cache.access.hits + if looks cache.policy request.write = true ∧
        Holds (setOf sets) ideal.contents (blockOf block request.address) then 1 else 0
      misses := cache.access.misses + if looks cache.policy request.write = true ∧
        ¬ Holds (setOf sets) ideal.contents (blockOf block request.address) then 1 else 0
      reads := cache.access.reads + if request.write then 0 else 1
      writes := cache.access.writes + if request.write then 1 else 0 } := by
  have held := agrees.found_iff request.address
  unfold Cache.serve Cache.cacheRead Cache.cacheWrite looks
  simp only [← held]
  cases request.write <;> cases cache.policy <;> by_cases found : cache.found request.address <;>
    simp [found, Cache.counted, Cache.hit, Cache.missed, Cache.setWay]

end Agrees

theorem Cache.serve_kept (cache : Cache) (request : Request) :
    (cache.serve request).2.policy = cache.policy ∧
      (cache.serve request).2.blockTime = cache.blockTime ∧
        (cache.serve request).2.wordTime = cache.wordTime := by
  unfold Cache.serve Cache.cacheRead Cache.cacheWrite
  cases request.write <;> cases policy_eq : cache.policy <;>
    by_cases found : cache.found request.address <;>
    simp [found, policy_eq, Cache.counted, Cache.hit, Cache.missed, Cache.setWay, Cache.blockTime,
      Cache.wordTime]

def numbered (block : Nat) (requests : List Request) : List (Bool × Nat) :=
  requests.map fun request => (request.write, blockOf block request.address)

def looked (policy : Policy) (block : Nat) (requests : List Request) : List Nat :=
  (requests.filter fun request => looks policy request.write).map fun request =>
    blockOf block request.address

section Runs

variable {sets block : Nat}

theorem looked_cons (policy : Policy) (request : Request) (requests : List Request) :
    looked policy block (request :: requests) =
      if looks policy request.write then
        blockOf block request.address :: looked policy block requests
      else looked policy block requests := by
  unfold looked
  rw [List.filter_cons]
  split
  · rw [List.map_cons]
  · rfl

theorem Agrees.run {cache : Cache} {ideal : Ideal} (agrees : Agrees sets block cache ideal)
    (requests : List Request) : Agrees sets block (cache.run requests).2
      (ideal.run cache.policy (setOf sets) (numbered block requests)).2 := by
  induction requests generalizing cache ideal with
  | nil => exact agrees
  | cons request requests ih =>
      have rest := ih (agrees.serve request)
      rw [(cache.serve_kept request).1] at rest
      exact rest

theorem Agrees.run_time {cache : Cache} {ideal : Ideal} (agrees : Agrees sets block cache ideal)
    (requests : List Request) {moves : List Ideal.Moves}
    (moved : moves = (ideal.run cache.policy (setOf sets) (numbered block requests)).1) :
    (cache.run requests).1 +
        BitVec.ofNat 32 (moves.countP fun move => move.write && move.saved) * cache.blockTime =
      BitVec.ofNat 32 (moves.countP (·.fetched) + moves.countP (·.saved)) * cache.blockTime +
        BitVec.ofNat 32 (moves.countP (·.stored)) * cache.wordTime := by
  induction requests generalizing cache ideal moves with
  | nil => simp [moved, Cache.run, numbered, Ideal.run]
  | cons request requests ih =>
      obtain ⟨policy_eq, blockTime_eq, wordTime_eq⟩ := cache.serve_kept request
      have first := agrees.serve_time request rfl
      have rest := ih (agrees.serve request) rfl
      rw [policy_eq, blockTime_eq, wordTime_eq] at rest
      have sum : (cache.run (request :: requests)).1 =
          (cache.serve request).1 + ((cache.serve request).2.run requests).1 := rfl
      have counts (test : Ideal.Moves → Bool) (move : Ideal.Moves) (others : List Ideal.Moves) :
          (move :: others).countP test = (test move).toNat + others.countP test := by
        rw [List.countP_cons, Nat.add_comm]
        cases test move <;> rfl
      rw [sum, moved]
      simp only [numbered, List.map_cons, Ideal.run, counts, BitVec.ofNat_add] at rest first ⊢
      grind

theorem Ideal.run_contents (policy : Policy) (ideal : Ideal) (requests : List Request) :
    (ideal.run policy (setOf sets) (numbered block requests)).2.contents =
      after (setOf sets) ideal.contents (looked policy block requests) := by
  induction requests generalizing ideal with
  | nil => rfl
  | cons request requests ih =>
      have rest := ih (ideal.serve policy (setOf sets) request.write (blockOf block request.address))
      rw [Ideal.serve_contents] at rest
      rw [looked_cons]
      split
      · rename_i look
        rw [if_pos look] at rest
        exact rest
      · rename_i pass
        rw [if_neg pass] at rest
        exact rest

theorem Agrees.run_access {cache : Cache} {ideal : Ideal} (agrees : Agrees sets block cache ideal)
    (requests : List Request) : (cache.run requests).2.access =
      { hits := cache.access.hits +
          BitVec.ofNat 64 (hits (setOf sets) ideal.contents (looked cache.policy block requests))
        misses := cache.access.misses +
          BitVec.ofNat 64 (misses (setOf sets) ideal.contents (looked cache.policy block requests))
        reads := cache.access.reads +
          BitVec.ofNat 64 (requests.countP fun request => !request.write)
        writes := cache.access.writes +
          BitVec.ofNat 64 (requests.countP fun request => request.write) } := by
  induction requests generalizing cache ideal with
  | nil => simp [Cache.run, looked, hits, misses]
  | cons request requests ih =>
      have rest := ih (agrees.serve request)
      have next : (cache.run (request :: requests)).2 = ((cache.serve request).2.run requests).2 := rfl
      rw [next, rest, agrees.serve_access, (cache.serve_kept request).1, Ideal.serve_contents, looked_cons,
        Access.mk.injEq, List.countP_cons, List.countP_cons]
      refine ⟨?_, ?_, ?_, ?_⟩
      · by_cases look : looks cache.policy request.write = true
        · simp only [look, true_and, if_true, hits, BitVec.ofNat_add]
          split
          · grind
          · grind
        · simp [look]
      · by_cases look : looks cache.policy request.write = true
        · simp only [look, true_and, if_true, misses, BitVec.ofNat_add]
          split
          · grind
          · grind
        · simp [look]
      · cases request.write with
        | false => simp [BitVec.ofNat_add]; grind
        | true => simp
      · cases request.write with
        | false => simp
        | true => simp [BitVec.ofNat_add]; grind

theorem cacheInit_agrees (policy : Policy) {lines words : Word} (setup burst : Word)
    (fits : sets + block < 32) (lines_eq : lines.toNat = 2 ^ sets) (words_eq : words.toNat = 2 ^ block) :
    ∃ cache, cacheInit policy lines words setup burst = some cache ∧ Agrees sets block cache .empty ∧
      cache.policy = policy ∧ cache.access = ⟨0, 0, 0, 0⟩ ∧ cache.blockTime = setup + burst ∧
        cache.wordTime = setup + burst / words := by
  obtain ⟨cache, made, shaped, policy_eq, words_eq', penalty, access, sets_eq⟩ :=
    cacheInit_shaped policy setup burst fits lines_eq words_eq
  refine ⟨cache, made, ?_, policy_eq, access, ?_, ?_⟩
  · constructor
    · exact shaped
    · intro place _
      rw [sets_eq]
    · intro place number some
      exact absurd some (Option.some_ne_none number).symm
    · intro place
      rw [sets_eq]
      rfl
    · exact fun _ _ => rfl
  · rw [Cache.blockTime, penalty]
  · rw [Cache.wordTime, penalty, words_eq']

/-- Whatever a program requests, the cache finds the blocks that were the last ones in their
sets, counts the requests that do, and takes the time for what the ideal cache moves, but for the
dirty blocks that a write replaces. -/
theorem cache_run (policy : Policy) {lines words : Word} (setup burst : Word)
    (fits : sets + block < 32) (lines_eq : lines.toNat = 2 ^ sets) (words_eq : words.toNat = 2 ^ block)
    (requests : List Request) {moves : List Ideal.Moves}
    (moved : moves = (Ideal.empty.run policy (setOf sets) (numbered block requests)).1) :
    ∃ cache, cacheInit policy lines words setup burst = some cache ∧
      (∀ address, ((cache.run requests).2.set address).toNat < lines.toNat) ∧
      (∀ address, (cache.run requests).2.found address ↔
        ∃ before since, looked policy block requests = before ++ blockOf block address :: since ∧
          ∀ later ∈ since, setOf sets later ≠ setOf sets (blockOf block address)) ∧
      (cache.run requests).2.access =
        { hits := BitVec.ofNat 64 (hits (setOf sets) (fun _ => none) (looked policy block requests))
          misses := BitVec.ofNat 64 (misses (setOf sets) (fun _ => none) (looked policy block requests))
          reads := BitVec.ofNat 64 (requests.countP fun request => !request.write)
          writes := BitVec.ofNat 64 (requests.countP fun request => request.write) } ∧
      (cache.run requests).1 +
          BitVec.ofNat 32 (moves.countP fun move => move.write && move.saved) * (setup + burst) =
        BitVec.ofNat 32 (moves.countP (·.fetched) + moves.countP (·.saved)) * (setup + burst) +
          BitVec.ofNat 32 (moves.countP (·.stored)) * (setup + burst / words) := by
  obtain ⟨cache, made, agrees, policy_eq, access, blockTime, wordTime⟩ :=
    cacheInit_agrees policy setup burst fits lines_eq words_eq
  refine ⟨cache, made, ?_, ?_, ?_, ?_⟩
  · intro address
    rw [lines_eq]
    exact (agrees.run requests).shaped.set_lt address
  · intro address
    have final := agrees.run requests
    rw [policy_eq] at final
    rw [final.found_iff, Ideal.run_contents]
    exact holds_after_iff fun _ => rfl
  · have counted := agrees.run_access requests
    rw [policy_eq, access] at counted
    have zero (count : Dword) : 0 + count = count := BitVec.zero_add count
    rw [counted]
    simp only [zero, Ideal.empty]
  · rw [← policy_eq] at moved
    have time := agrees.run_time requests moved
    rw [blockTime, wordTime] at time
    exact time

def conflicting : List Request := [⟨false, 0x00⟩, ⟨true, 0x04⟩, ⟨false, 0x20⟩]

def replacing : List Request := conflicting ++ [⟨true, 0x24⟩, ⟨true, 0x00⟩]

/-- The read replaces a dirty block and pays for it, the last write replaces one and does not. -/
theorem cache_run_replacing : ∃ cache, cacheInit .wb 4 2 10 5 = some cache ∧
    (cache.run replacing).2.access = ⟨2, 3, 2, 3⟩ ∧ (cache.run replacing).1 + 15 = 5 * 15 + 12 := by
  have lines_eq : (4 : Word).toNat = 2 ^ 2 := by decide
  have words_eq : (2 : Word).toNat = 2 ^ 1 := by decide
  obtain ⟨cache, made, _, _, access, time⟩ :=
    cache_run .wb 10 5 (by decide : 2 + 1 < 32) lines_eq words_eq replacing rfl
  refine ⟨cache, made, ?_, ?_⟩
  · rw [access]
    rfl
  · exact time

theorem setOf_split {fewer more : Nat} (larger : fewer ≤ more) :
    setOf fewer = setOf fewer ∘ setOf more := by
  funext number
  have divides : 2 ^ fewer ∣ 2 ^ more := pow_dvd_pow 2 larger
  exact (Nat.mod_mod_of_dvd number divides).symm

/-- More sets of the same blocks never miss more, whatever the program requests. -/
theorem more_sets_miss_less (policy : Policy) {fewer more : Nat} (larger : fewer ≤ more)
    {lines lines' words : Word} (setup burst : Word) (fits : more + block < 32)
    (lines_eq : lines.toNat = 2 ^ fewer) (lines_eq' : lines'.toNat = 2 ^ more)
    (words_eq : words.toNat = 2 ^ block) (requests : List Request)
    (short : requests.length < 2 ^ 64) :
    ∃ small large, cacheInit policy lines words setup burst = some small ∧
      cacheInit policy lines' words setup burst = some large ∧
      (∀ address, (small.run requests).2.found address → (large.run requests).2.found address) ∧
      (large.run requests).2.access.misses.toNat ≤ (small.run requests).2.access.misses.toNat := by
  obtain ⟨small, made, agrees, policy_eq, access, _, _⟩ :=
    cacheInit_agrees policy setup burst (by omega : fewer + block < 32) lines_eq words_eq
  obtain ⟨large, made', agrees', policy_eq', access', _, _⟩ :=
    cacheInit_agrees policy setup burst fits lines_eq' words_eq
  have empty : Refines (setOf more) (setOf fewer) (fun _ => none) (fun _ => none) := by
    intro _ held
    exact absurd held (Option.some_ne_none _).symm
  refine ⟨small, large, made, made', ?_, ?_⟩
  · intro address
    have final := agrees.run requests
    have final' := agrees'.run requests
    rw [policy_eq] at final
    rw [policy_eq'] at final'
    rw [final.found_iff, final'.found_iff, Ideal.run_contents, Ideal.run_contents, setOf_split larger]
    exact empty.after (looked policy block requests) (blockOf block address)
  · have fewest : ∀ line : Nat → Nat, misses line (fun _ => none) (looked policy block requests) < 2 ^ 64 := by
      intro line
      have sum : hits line (fun _ => none) (looked policy block requests) +
          misses line (fun _ => none) (looked policy block requests) =
            (looked policy block requests).length := hits_add_misses ..
      have filtered : (looked policy block requests).length ≤ requests.length := by
        rw [looked, List.length_map]
        exact List.length_filter_le ..
      omega
    have less := empty.misses_le (looked policy block requests)
    rw [← setOf_split larger] at less
    rw [agrees.run_access, agrees'.run_access, policy_eq, policy_eq', access, access']
    have zero (count : Dword) : 0 + count = count := BitVec.zero_add count
    simp only [Ideal.empty, zero, BitVec.toNat_ofNat]
    rw [Nat.mod_eq_of_lt (fewest _), Nat.mod_eq_of_lt (fewest _)]
    exact less

theorem more_sets_miss_less_conflicting : ∃ small large, cacheInit .wb 4 2 10 5 = some small ∧
    cacheInit .wb 8 2 10 5 = some large ∧
    (∀ address, (small.run conflicting).2.found address → (large.run conflicting).2.found address) ∧
    (large.run conflicting).2.access.misses.toNat ≤ (small.run conflicting).2.access.misses.toNat := by
  have lines_eq : (4 : Word).toNat = 2 ^ 2 := by decide
  have lines_eq' : (8 : Word).toNat = 2 ^ 3 := by decide
  have words_eq : (2 : Word).toNat = 2 ^ 1 := by decide
  exact more_sets_miss_less .wb (by decide : 2 ≤ 3) 10 5 (by decide : 3 + 1 < 32) lines_eq lines_eq'
    words_eq conflicting (by decide)

end Runs

end CacheSim

end Hellfire

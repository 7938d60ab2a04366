import Hellfire.ArpResolution
import Hellfire.Library.CircularWindow
import Hellfire.Library.RecentKeys
import Mathlib.Data.List.GetD

/-!
The ARP cache as a first-in-first-out map: what `arp_update` and `arp_check` do over any history of
updates that starts from the zeroed cache.
-/

namespace Hellfire

open RecentKeys CircularWindow

def blankEntry : ArpEntry := ⟨Ip.zeros, Mac.any⟩

namespace Station

def ring (station : Station) : List ArpEntry :=
  window blankEntry (List.ofFn station.arpCache) station.arpIndex arpCacheSize

def arpUpdates (station : Station) (history : List (Ip × Mac)) : Station :=
  history.foldl (fun station update => station.arpUpdate update.1 update.2) station

section Ring

variable (station : Station)

theorem ofFn_update (entries : Fin arpCacheSize → ArpEntry) (i : Fin arpCacheSize) (entry : ArpEntry) :
    List.ofFn (Function.update entries i entry) = (List.ofFn entries).set i entry := by
  apply List.ext_getElem
  · rw [List.length_set, List.length_ofFn, List.length_ofFn]
  · intro j _ _
    rw [List.getElem_set, List.getElem_ofFn, List.getElem_ofFn, Function.update_apply]
    simp only [Fin.ext_iff]
    split <;> split <;> first | rfl | omega

def offset (i : Fin arpCacheSize) : Nat := (i + (arpCacheSize - station.arpIndex)) % arpCacheSize

theorem offset_lt (i : Fin arpCacheSize) : station.offset i < arpCacheSize := Nat.mod_lt _ (by decide)

theorem position_offset (i : Fin arpCacheSize) :
    position arpCacheSize station.arpIndex (station.offset i) = i := by
  have index := station.arpIndex.isLt
  have inside := i.isLt
  simp only [position, offset, arpCacheSize] at index inside ⊢
  omega

@[simp] theorem ring_length : station.ring.length = arpCacheSize := window_length _ _ _ _

theorem ring_getElem (i : Fin arpCacheSize) (bound : station.offset i < station.ring.length) :
    station.ring[station.offset i] = station.arpCache i := by
  have shown := window_getD blankEntry (List.ofFn station.arpCache) station.arpIndex arpCacheSize
    (station.offset i) (station.offset_lt i)
  rw [List.length_ofFn, position_offset] at shown
  have inside : (i : Nat) < (List.ofFn station.arpCache).length := by
    rw [List.length_ofFn]
    exact i.isLt
  rw [← List.getD_eq_getElem _ blankEntry bound]
  rw [List.getD_eq_getElem _ blankEntry inside, List.getElem_ofFn] at shown
  exact shown

theorem arpCache_inserted (ip : Ip) (mac : Mac) (unknown : station.arpFind ip = none) :
    (station.arpUpdate ip mac).arpCache =
      Function.update station.arpCache station.arpIndex ⟨ip, mac⟩ := by
  rw [arpUpdate, unknown]

theorem arpCache_refreshed (ip : Ip) (mac : Mac) {i : Fin arpCacheSize}
    (found : station.arpFind ip = some i) : (station.arpUpdate ip mac).arpCache =
      Function.update station.arpCache i { station.arpCache i with mac := mac } := by
  rw [arpUpdate, found]

theorem ring_insert (ip : Ip) (mac : Mac) (unknown : station.arpFind ip = none) :
    (station.arpUpdate ip mac).ring = station.ring.tail ++ [⟨ip, mac⟩] := by
  have index := station.arpIndex.isLt
  have last : position arpCacheSize ((station.arpIndex + 1) % arpCacheSize) 15 = station.arpIndex := by
    simp only [position, arpCacheSize] at index ⊢
    omega
  have size : (List.ofFn station.arpCache).length = arpCacheSize := List.length_ofFn
  have later := window_append blankEntry (List.ofFn station.arpCache)
    ((station.arpIndex + 1) % arpCacheSize) 15 ⟨ip, mac⟩ (by rw [size]; decide)
  have first := window_advance blankEntry (List.ofFn station.arpCache) station.arpIndex 15
  rw [size] at later first
  rw [last, ← ofFn_update] at later
  have rest : station.ring.tail = window blankEntry (List.ofFn station.arpCache)
      ((station.arpIndex + 1) % arpCacheSize) 15 := congrArg List.tail first
  rw [rest, arpUpdate, unknown]
  exact later

theorem ring_update (ip : Ip) (mac : Mac) {i : Fin arpCacheSize} (found : station.arpFind ip = some i) :
    (station.arpUpdate ip mac).ring =
      station.ring.set (station.offset i) { station.arpCache i with mac := mac } := by
  have fits : arpCacheSize ≤ (List.ofFn station.arpCache).length := (List.length_ofFn).ge
  have place := window_set blankEntry (List.ofFn station.arpCache) station.arpIndex arpCacheSize
    (station.offset i) { station.arpCache i with mac := mac } fits (station.offset_lt i)
  rw [List.length_ofFn, position_offset, ← ofFn_update] at place
  rw [arpUpdate, found]
  exact place

theorem mem_ring (entry : ArpEntry) : entry ∈ station.ring ↔ ∃ i, station.arpCache i = entry := by
  constructor
  · intro member
    obtain ⟨place, _, same⟩ := List.mem_map.mp member
    have inside : position (List.ofFn station.arpCache).length station.arpIndex place <
        (List.ofFn station.arpCache).length := position_lt (by rw [List.length_ofFn]; decide)
    rw [List.getD_eq_getElem _ _ inside, List.getElem_ofFn] at same
    exact ⟨_, same⟩
  · rintro ⟨i, rfl⟩
    have bound : station.offset i < station.ring.length := by
      rw [ring_length]
      exact station.offset_lt i
    rw [← station.ring_getElem i bound]
    exact List.getElem_mem bound

theorem offset_injective {i j : Fin arpCacheSize} (same : station.offset i = station.offset j) : i = j := by
  apply Fin.ext
  rw [← station.position_offset i, ← station.position_offset j, same]

end Ring

section History

structure Tracks (history : List (Ip × Mac)) (station : Station) : Prop where
  keys : station.ring.map ArpEntry.ip = padded arpCacheSize Ip.zeros (insertions arpCacheSize history)
  values : ∀ i, (station.arpCache i).ip ≠ Ip.zeros →
    latest history (station.arpCache i).ip = some (station.arpCache i).mac

variable {history : List (Ip × Mac)} {station : Station}

theorem arpFind_some {ip : Ip} {i : Fin arpCacheSize} (found : station.arpFind ip = some i) :
    (station.arpCache i).ip = ip := by
  have matched : ip = (station.arpCache i).ip := by
    simpa using List.find?_some found
  exact matched.symm

theorem mem_keys (tracks : Tracks history station) {ip : Ip} (used : ip ≠ Ip.zeros) :
    ip ∈ recent arpCacheSize (insertions arpCacheSize history) ↔ ∃ i, (station.arpCache i).ip = ip := by
  have member : ip ∈ station.ring.map ArpEntry.ip ↔
      ip ∈ recent arpCacheSize (insertions arpCacheSize history) := by
    rw [tracks.keys, padded, List.mem_append]
    constructor
    · rintro (pad | stored)
      · exact absurd (List.eq_of_mem_replicate pad) used
      · exact stored
    · exact Or.inr
  rw [← member, List.mem_map]
  constructor
  · rintro ⟨entry, inside, rfl⟩
    obtain ⟨i, rfl⟩ := (station.mem_ring entry).mp inside
    exact ⟨i, rfl⟩
  · rintro ⟨i, rfl⟩
    exact ⟨_, (station.mem_ring _).mpr ⟨i, rfl⟩, rfl⟩

theorem Tracks.unique (tracks : Tracks history station) {i j : Fin arpCacheSize}
    (used : (station.arpCache i).ip ≠ Ip.zeros)
    (same : (station.arpCache i).ip = (station.arpCache j).ip) : i = j := by
  have apart : (station.ring.map ArpEntry.ip).Pairwise
      fun first second => first = second → first = Ip.zeros := by
    rw [tracks.keys]
    exact padded_pairwise _ (recent_nodup history)
  have shown : ∀ i (bound : station.offset i < (station.ring.map ArpEntry.ip).length),
      (station.ring.map ArpEntry.ip)[station.offset i] = (station.arpCache i).ip := by
    intro i bound
    rw [List.getElem_map, ring_getElem]
  have inside : ∀ i, station.offset i < (station.ring.map ArpEntry.ip).length := by
    intro i
    rw [List.length_map, ring_length]
    exact station.offset_lt i
  rw [List.pairwise_iff_getElem] at apart
  rcases Nat.lt_trichotomy (station.offset i) (station.offset j) with before | equal | behind
  · have clash := apart _ _ (inside i) (inside j) before
    rw [shown, shown] at clash
    exact absurd (clash same) used
  · exact station.offset_injective equal
  · have clash := apart _ _ (inside j) (inside i) behind
    rw [shown, shown] at clash
    exact absurd (same.trans (clash same.symm)) used

theorem Tracks.update (tracks : Tracks history station) {ip : Ip} (used : ip ≠ Ip.zeros) (mac : Mac) :
    Tracks (history ++ [(ip, mac)]) (station.arpUpdate ip mac) := by
  cases found : station.arpFind ip with
  | some i =>
      have stored := arpFind_some found
      have known := (mem_keys tracks used).mpr ⟨i, stored⟩
      have cache := station.arpCache_refreshed ip mac found
      constructor
      · rw [insertions_concat, if_pos known, ← tracks.keys, ring_update _ _ _ found, List.map_set]
        have bound : station.offset i < (station.ring.map ArpEntry.ip).length := by
          rw [List.length_map, ring_length]
          exact station.offset_lt i
        have kept : (station.arpCache i).ip = (station.ring.map ArpEntry.ip)[station.offset i] := by
          rw [List.getElem_map, ring_getElem]
        rw [kept]
        exact List.set_getElem_self bound
      · intro j filled
        rw [latest_concat]
        rw [cache] at filled ⊢
        by_cases same : j = i
        · subst same
          rw [Function.update_self]
          simp [stored]
        · rw [Function.update_of_ne same] at filled ⊢
          have other : ip ≠ (station.arpCache j).ip := by
            intro equal
            exact same (tracks.unique filled (equal.symm.trans stored.symm))
          rw [if_neg other]
          exact tracks.values j filled
  | none =>
      have unknown : ip ∉ recent arpCacheSize (insertions arpCacheSize history) := by
        rw [mem_keys tracks used]
        rintro ⟨i, stored⟩
        exact Station.arpFind_eq_none.mp found i stored.symm
      have cache := station.arpCache_inserted ip mac found
      constructor
      · rw [insertions_concat, if_neg unknown, padded_concat _ _ (by decide), ← tracks.keys,
          ring_insert _ _ _ found, List.map_append, List.map_tail]
        rfl
      · intro j filled
        rw [latest_concat]
        rw [cache] at filled ⊢
        by_cases same : j = station.arpIndex
        · subst same
          rw [Function.update_self]
          simp
        · rw [Function.update_of_ne same] at filled ⊢
          rw [if_neg (Station.arpFind_eq_none.mp found j)]
          exact tracks.values j filled

theorem Tracks.zeroed (zeroed : ∀ i, station.arpCache i = blankEntry) : Tracks [] station := by
  constructor
  · have blank : station.ring.map ArpEntry.ip = List.replicate arpCacheSize Ip.zeros := by
      apply List.eq_replicate_iff.mpr
      constructor
      · rw [List.length_map, ring_length]
      · intro ip member
        obtain ⟨entry, inside, rfl⟩ := List.mem_map.mp member
        obtain ⟨i, rfl⟩ := (station.mem_ring entry).mp inside
        rw [zeroed i]
        rfl
    exact blank
  · intro i filled
    rw [zeroed i] at filled
    exact absurd rfl filled

theorem tracks_updates (zeroed : ∀ i, station.arpCache i = blankEntry) (history : List (Ip × Mac))
    (nonzero : ∀ update ∈ history, update.1 ≠ Ip.zeros) :
    Tracks history (station.arpUpdates history) := by
  induction history using List.reverseRecOn with
  | nil => exact Tracks.zeroed zeroed
  | append_singleton history update ih =>
      have before := ih fun other member => nonzero other (List.mem_append_left _ member)
      have used := nonzero update (List.mem_append_right _ (List.mem_singleton_self _))
      rw [arpUpdates, List.foldl_append]
      exact before.update used update.2

structure Checks (history : List (Ip × Mac)) (station : Station) (ip : Ip) : Prop where
  cached : (station.arpCheck ip).isSome ↔ ip ∈ recent arpCacheSize (insertions arpCacheSize history)
  newest : ∀ mac, station.arpCheck ip = some mac → latest history ip = some mac

theorem arpCheck_isSome (station : Station) (ip : Ip) :
    (station.arpCheck ip).isSome ↔ ∃ i, (station.arpCache i).ip = ip := by
  rw [arpCheck, Option.isSome_map, ← Option.ne_none_iff_isSome, ne_eq, Station.arpFind_eq_none]
  constructor
  · intro stored
    by_contra absent
    exact stored fun i same => absent ⟨i, same.symm⟩
  · rintro ⟨i, same⟩ absent
    exact absent i same.symm

theorem Tracks.checks (tracks : Tracks history station) {ip : Ip} (used : ip ≠ Ip.zeros) :
    Checks history station ip := by
  constructor
  · rw [mem_keys tracks used, arpCheck_isSome]
  · intro mac found
    obtain ⟨i, at_, rfl⟩ := Option.map_eq_some_iff.mp found
    have stored := arpFind_some at_
    rw [← stored]
    exact tracks.values i (stored ▸ used)

theorem Tracks.checks_zeros_iff (tracks : Tracks history station)
    (nonzero : ∀ update ∈ history, update.1 ≠ Ip.zeros) :
    Checks history station Ip.zeros ↔ arpCacheSize ≤ (insertions arpCacheSize history).length := by
  have never : Ip.zeros ∉ recent arpCacheSize (insertions arpCacheSize history) := by
    intro member
    obtain ⟨update, inside, same⟩ :=
      List.mem_map.mp ((mem_insertions history _).mp (recent_subset member))
    exact nonzero update inside same
  have unused : (station.arpCheck Ip.zeros).isSome ↔
      (insertions arpCacheSize history).length < arpCacheSize := by
    rw [arpCheck_isSome]
    have member : Ip.zeros ∈ station.ring.map ArpEntry.ip ↔ ∃ i, (station.arpCache i).ip = Ip.zeros := by
      rw [List.mem_map]
      constructor
      · rintro ⟨entry, inside, same⟩
        obtain ⟨i, rfl⟩ := (station.mem_ring entry).mp inside
        exact ⟨i, same⟩
      · rintro ⟨i, same⟩
        exact ⟨_, (station.mem_ring _).mpr ⟨i, rfl⟩, same⟩
    rw [← member, tracks.keys, padded, List.mem_append, List.mem_replicate, or_iff_left never]
    constructor
    · rintro ⟨room, -⟩
      omega
    · intro room
      exact ⟨by omega, rfl⟩
  constructor
  · intro checks
    by_contra room
    exact never (checks.cached.mp (unused.mpr (by omega)))
  · intro full
    have none : station.arpCheck Ip.zeros = none := by
      rw [← Option.not_isSome_iff_eq_none, unused]
      omega
    constructor
    · rw [none]
      exact iff_of_false Bool.false_ne_true never
    · intro mac found
      rw [none] at found
      exact absurd found (Option.some_ne_none mac).symm

/-- After any updates from the zeroed cache: no address is stored twice, the addresses that were inserted
last are there in their order, and `arp_check` is right for every address but the one that is all zeros,
and for that one when no entry is unused any more. -/
theorem arp_cache_iff (station : Station) (zeroed : ∀ i, station.arpCache i = blankEntry)
    (history : List (Ip × Mac)) (nonzero : ∀ update ∈ history, update.1 ≠ Ip.zeros) :
    (∀ i j, ((station.arpUpdates history).arpCache i).ip ≠ Ip.zeros →
      ((station.arpUpdates history).arpCache i).ip = ((station.arpUpdates history).arpCache j).ip →
      i = j) ∧
    (station.arpUpdates history).ring.map ArpEntry.ip =
      padded arpCacheSize Ip.zeros (insertions arpCacheSize history) ∧
    ∀ ip, Checks history (station.arpUpdates history) ip ↔
      ip ≠ Ip.zeros ∨ arpCacheSize ≤ (history.map Prod.fst).dedup.length := by
  have tracks := tracks_updates zeroed history nonzero
  refine ⟨fun i j => tracks.unique, tracks.keys, ?_⟩
  intro ip
  by_cases zero : ip = Ip.zeros
  · subst zero
    rw [tracks.checks_zeros_iff nonzero, capacity_le_insertions]
    simp
  · exact iff_of_true (tracks.checks zero) (Or.inl zero)

theorem arp_cache_refreshed :
    Checks [(⟨10, 0, 0, 2⟩, ⟨2, 0, 0, 0, 0, 2⟩), (⟨10, 0, 0, 2⟩, ⟨2, 0, 0, 0, 0, 3⟩)]
      ((Net.stationAt 1).arpUpdates
        [(⟨10, 0, 0, 2⟩, ⟨2, 0, 0, 0, 0, 2⟩), (⟨10, 0, 0, 2⟩, ⟨2, 0, 0, 0, 0, 3⟩)]) ⟨10, 0, 0, 2⟩ :=
  ((arp_cache_iff (Net.stationAt 1) (fun _ => rfl) _ (by decide)).2.2 ⟨10, 0, 0, 2⟩).mpr
    (Or.inl (by decide))

/-- The zeroed cache has an answer for 0.0.0.0. -/
theorem arp_cache_zeros :
    (Net.stationAt 1).arpCheck Ip.zeros = some Mac.any ∧
      ¬ ∀ (station : Station) (history : List (Ip × Mac)), (∀ i, station.arpCache i = blankEntry) →
        (∀ update ∈ history, update.1 ≠ Ip.zeros) →
        ∀ ip, Checks history (station.arpUpdates history) ip := by
  refine ⟨by decide, ?_⟩
  intro all
  have checks := all (Net.stationAt 1) [] (fun _ => rfl) (by decide) Ip.zeros
  exact absurd (checks.cached.mp (by decide)) (by decide)

end History

end Station

end Hellfire

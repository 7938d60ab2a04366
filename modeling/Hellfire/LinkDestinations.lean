import Hellfire.ArpCache

/-!
The link-layer destinations of `netif_send`, for any addresses of the station and any history of its ARP
cache.
-/

namespace Hellfire

namespace Station

def directedBroadcast (station : Station) : Ip :=
  let host := station.mynm.map fun byte => ~~~byte
  let net := station.myip.masked station.mynm
  ⟨net.b0 ||| host.b0, net.b1 ||| host.b1, net.b2 ||| host.b2, net.b3 ||| host.b3⟩

def OwnBroadcast (station : Station) (ip : Ip) : Prop :=
  ip = Ip.zeros ∨ ip = Ip.ones ∨ ip = station.directedBroadcast

instance (station : Station) (ip : Ip) : Decidable (OwnBroadcast station ip) :=
  inferInstanceAs (Decidable (_ ∨ _ ∨ _))

def multicastMac (ip : Ip) : Mac := ⟨0x01, 0x00, 0x5e, ip.b1 &&& 0x7f, ip.b2, ip.b3⟩

/-- What is in the buffer that `netif_send` gives to the driver, and how much of it is given. -/
inductive Delivered (history : List (Ip × Mac)) (station : Station) (ip : Ip) (len : Nat)
    (frame : Frame) : Nat → Prop
  | broadcast : OwnBroadcast station ip → frame.wordAt 12 = frameIp → frame.macAt 0 = Mac.broadcast →
      Delivered history station ip len frame ((len + ethHeaderSize) % 65536)
  | multicast : ¬OwnBroadcast station ip → ip.ipAddrIsmulticast = true → frame.wordAt 12 = frameIp →
      frame.macAt 0 = multicastMac ip →
      Delivered history station ip len frame ((len + ethHeaderSize) % 65536)
  | known : ¬OwnBroadcast station ip → ip.ipAddrIsmulticast = false → frame.wordAt 12 = frameIp →
      frame.macAt 0 ≠ Mac.broadcast → (station.nextHop ip, frame.macAt 0) ∈ history →
      Delivered history station ip len frame ((len + ethHeaderSize) % 65536)
  | request : ¬OwnBroadcast station ip → ip.ipAddrIsmulticast = false →
      (∀ i, (station.arpCache i).ip ≠ station.nextHop ip) →
      ArpFields frame Mac.broadcast station.mymac opArpRequest station.mymac station.myip
        (station.nextHop ip) →
      Delivered history station ip len frame 56

def SendsRight (history : List (Ip × Mac)) (station : Station) (len : Nat) : Prop :=
  ∃ value after size, (Net.netifSend len).run station = some (value, after) ∧
    after.sent = station.sent ++ [after.frame.bytesAt 0 size] ∧
    Delivered history station (station.frame.ipAt 30) len after.frame size

/-- No other net is taken for the broadcast address by its host part, and the entry that is found for the
next hop is neither one that was never used nor one with the broadcast address. -/
structure Reachable (history : List (Ip × Mac)) (station : Station) (ip : Ip) : Prop where
  host : ip.ipAddrIsbroadcast station.mynm = true → OwnBroadcast station ip
  used : ip.ipAddrIsbroadcast station.mynm = false → ip.ipAddrIsmulticast = false →
    station.nextHop ip = Ip.zeros → station.arpCheck Ip.zeros = some Mac.any →
    (Ip.zeros, Mac.any) ∈ history
  single : ip.ipAddrIsbroadcast station.mynm = false → ip.ipAddrIsmulticast = false →
    station.arpCheck (station.nextHop ip) ≠ some Mac.broadcast

section Broadcasts

theorem and_absorbs (net host : UInt8) : (net ||| host) &&& host = host := by
  apply UInt8.toBitVec_inj.mp
  ext i inside
  simp only [UInt8.toBitVec_and, UInt8.toBitVec_or, BitVec.getElem_and, BitVec.getElem_or]
  cases net.toBitVec[i] <;> cases host.toBitVec[i] <;> rfl

theorem isbroadcast_zeros (mask : Ip) : Ip.zeros.ipAddrIsbroadcast mask = true := by
  simp [Ip.ipAddrIsbroadcast, Ip.masked, Ip.map, Ip.zeros]

theorem isbroadcast_ones (mask : Ip) : Ip.ones.ipAddrIsbroadcast mask = true := by
  have whole : ∀ byte : UInt8, 255 &&& byte = byte := fun byte => UInt8.neg_one_and
  simp [Ip.ipAddrIsbroadcast, Ip.masked, Ip.map, Ip.ones, whole]

theorem isbroadcast_directed (station : Station) :
    station.directedBroadcast.ipAddrIsbroadcast station.mynm = true := by
  simp [Ip.ipAddrIsbroadcast, directedBroadcast, Ip.masked, Ip.map, and_absorbs]

theorem OwnBroadcast.isbroadcast {station : Station} {ip : Ip} (own : OwnBroadcast station ip) :
    ip.ipAddrIsbroadcast station.mynm = true := by
  rcases own with rfl | rfl | rfl
  · exact isbroadcast_zeros _
  · exact isbroadcast_ones _
  · exact isbroadcast_directed station

theorem isany_isbroadcast {ip mask : Ip} (other : ip.ipAddrIsbroadcast mask = false) :
    ip.ipAddrIsany = false := by
  have nonzero : ip ≠ Ip.zeros := by
    rintro rfl
    rw [isbroadcast_zeros] at other
    exact Bool.noConfusion other
  exact decide_eq_false nonzero

theorem multicastMac_ne (ip : Ip) : multicastMac ip ≠ Mac.broadcast := by
  intro same
  exact absurd (congrArg Mac.b0 same) (by simp [multicastMac, Mac.broadcast])

end Broadcasts

section Stored

variable {history : List (Ip × Mac)} {station : Station}

def Stored (history : List (Ip × Mac)) (station : Station) : Prop :=
  ∀ i, station.arpCache i = blankEntry ∨
    ((station.arpCache i).ip, (station.arpCache i).mac) ∈ history

theorem Stored.update (stored : Stored history station) (ip : Ip) (mac : Mac) :
    Stored (history ++ [(ip, mac)]) (station.arpUpdate ip mac) := by
  have earlier : ∀ i, station.arpCache i = blankEntry ∨
      ((station.arpCache i).ip, (station.arpCache i).mac) ∈ history ++ [(ip, mac)] :=
    fun i => (stored i).imp_right (List.mem_append_left _)
  have newest : (ip, mac) ∈ history ++ [(ip, mac)] :=
    List.mem_append_right _ (List.mem_singleton_self _)
  intro j
  cases found : station.arpFind ip with
  | some i =>
      rw [station.arpCache_refreshed ip mac found]
      by_cases same : j = i
      · subst same
        right
        rw [Function.update_self, arpFind_some found]
        exact newest
      · rw [Function.update_of_ne same]
        exact earlier j
  | none =>
      rw [station.arpCache_inserted ip mac found]
      by_cases same : j = station.arpIndex
      · subst same
        right
        rw [Function.update_self]
        exact newest
      · rw [Function.update_of_ne same]
        exact earlier j

theorem stored_updates (zeroed : ∀ i, station.arpCache i = blankEntry) (history : List (Ip × Mac)) :
    Stored history (station.arpUpdates history) := by
  induction history using List.reverseRecOn with
  | nil => exact fun i => Or.inl (zeroed i)
  | append_singleton history update ih =>
      rw [arpUpdates, List.foldl_append]
      exact ih.update update.1 update.2

theorem Stored.arpCheck (stored : Stored history station) {ip : Ip} {mac : Mac}
    (found : station.arpCheck ip = some mac) :
    (ip, mac) ∈ history ∨ ip = Ip.zeros ∧ mac = Mac.any := by
  obtain ⟨i, at_, rfl⟩ := Option.map_eq_some_iff.mp found
  rw [← arpFind_some at_]
  rcases stored i with blank | member
  · right
    rw [blank]
    exact ⟨rfl, rfl⟩
  · exact Or.inl member

end Stored

section Destinations

variable {history : List (Ip × Mac)} {station : Station} {ip : Ip} {len : Nat}

theorem resolve_broadcast (taken : ip.ipAddrIsbroadcast station.mynm = true) :
    station.resolve ip = some Mac.broadcast := by
  rw [resolve, taken, Bool.or_true, if_pos rfl]

theorem resolve_multicast (other : ip.ipAddrIsbroadcast station.mynm = false)
    (group : ip.ipAddrIsmulticast = true) : station.resolve ip = some (multicastMac ip) := by
  rw [resolve, other, isany_isbroadcast other, group]
  rfl

theorem resolve_host (other : ip.ipAddrIsbroadcast station.mynm = false)
    (single : ip.ipAddrIsmulticast = false) :
    station.resolve ip = station.arpCheck (station.nextHop ip) := by
  rw [resolve, other, isany_isbroadcast other, single]
  rfl

theorem not_ownBroadcast (other : ip.ipAddrIsbroadcast station.mynm = false) :
    ¬OwnBroadcast station ip := by
  intro own
  rw [own.isbroadcast] at other
  exact Bool.noConfusion other

inductive Sent (history : List (Ip × Mac)) (station : Station) (ip : Ip) (mac : Mac) : Prop
  | broadcast : OwnBroadcast station ip → mac = Mac.broadcast → Sent history station ip mac
  | multicast : ¬OwnBroadcast station ip → ip.ipAddrIsmulticast = true → mac = multicastMac ip →
      Sent history station ip mac
  | known : ¬OwnBroadcast station ip → ip.ipAddrIsmulticast = false → mac ≠ Mac.broadcast →
      (station.nextHop ip, mac) ∈ history → Sent history station ip mac

theorem sendsRight_resolved {mac : Mac} (packet : station.frame.ipAt 30 = ip)
    (resolved : station.resolve ip = some mac) :
    SendsRight history station len ↔ Sent history station ip mac := by
  subst packet
  have sends := Net.run_netifSend_resolved station len resolved
  obtain ⟨target, -, type, -⟩ := framedBy_fields mac station.mymac (show frameIp < 65536 by decide)
    station.frame
  constructor
  · rintro ⟨value, after, size, runs, -, delivered⟩
    rw [sends] at runs
    obtain ⟨-, rfl⟩ := Prod.mk.inj (Option.some.inj runs)
    cases delivered with
    | broadcast own _ all => exact .broadcast own (target.symm.trans all)
    | multicast other group _ mapped => exact .multicast other group (target.symm.trans mapped)
    | known other alone _ single member =>
        have kept := target
        exact .known other alone (fun all => single (target.trans all)) (target ▸ member)
    | request _ _ _ fields =>
        have clash := type.symm.trans fields.type
        exact absurd clash (by decide)
  · intro sent
    refine ⟨_, _, (len + 14) % 65536, sends, rfl, ?_⟩
    cases sent with
    | broadcast own all => exact .broadcast own type (target.trans all)
    | multicast other group mapped => exact .multicast other group type (target.trans mapped)
    | known other alone single member =>
        exact .known other alone type (fun all => single (target.symm.trans all)) (target.symm ▸ member)

theorem sendsRight_unresolved (packet : station.frame.ipAt 30 = ip)
    (other : ip.ipAddrIsbroadcast station.mynm = false) (single : ip.ipAddrIsmulticast = false)
    (unknown : station.arpCheck (station.nextHop ip) = none) : SendsRight history station len := by
  subst packet
  have asks := Net.run_netifSend_unresolved station len ((resolve_host other single).trans unknown)
  have absent : ∀ i, (station.arpCache i).ip ≠ station.nextHop (station.frame.ipAt 30) := by
    have passed := List.find?_eq_none.mp (Option.map_eq_none_iff.mp unknown)
    intro i same
    exact passed i (List.mem_finRange i) (decide_eq_true same.symm)
  exact ⟨_, _, 56, asks, rfl, .request (not_ownBroadcast other) single absent
    (Net.requestFrame_fields station _)⟩

theorem sendsRight_iff (stored : Stored history station) (packet : station.frame.ipAt 30 = ip) :
    SendsRight history station len ↔ Reachable history station ip := by
  by_cases taken : ip.ipAddrIsbroadcast station.mynm = true
  · rw [sendsRight_resolved packet (resolve_broadcast taken)]
    constructor
    · intro sent
      refine ⟨fun _ => ?_, fun other => ?_, fun other => ?_⟩
      · cases sent with
        | broadcast own => exact own
        | multicast _ _ mapped => exact absurd mapped.symm (multicastMac_ne ip)
        | known _ _ single => exact absurd rfl single
      · rw [taken] at other
        exact Bool.noConfusion other
      · rw [taken] at other
        exact Bool.noConfusion other
    · intro reachable
      exact .broadcast (reachable.host taken) rfl
  · have other := Bool.eq_false_of_not_eq_true taken
    have foreign := not_ownBroadcast other
    by_cases group : ip.ipAddrIsmulticast = true
    · rw [sendsRight_resolved packet (resolve_multicast other group)]
      constructor
      · intro _
        refine ⟨fun yes => absurd yes taken, fun _ alone => ?_, fun _ alone => ?_⟩
        · rw [group] at alone
          exact Bool.noConfusion alone
        · rw [group] at alone
          exact Bool.noConfusion alone
      · intro _
        exact .multicast foreign group rfl
    · have alone := Bool.eq_false_of_not_eq_true group
      cases found : station.arpCheck (station.nextHop ip) with
      | none =>
          refine iff_of_true (sendsRight_unresolved packet other alone found)
            ⟨fun yes => absurd yes taken, fun _ _ hop unused => ?_, fun _ _ single => ?_⟩
          · rw [hop, unused] at found
            exact absurd found (Option.some_ne_none _)
          · rw [found] at single
            exact absurd single.symm (Option.some_ne_none _)
      | some mac =>
          rw [sendsRight_resolved packet ((resolve_host other alone).trans found)]
          constructor
          · intro sent
            cases sent with
            | broadcast own => exact absurd own foreign
            | multicast _ yes => exact absurd yes group
            | known _ _ single member =>
                refine ⟨fun yes => absurd yes taken, fun _ _ hop unused => ?_, fun _ _ all => ?_⟩
                · rw [hop] at found member
                  rw [unused] at found
                  rw [Option.some.inj found]
                  exact member
                · rw [found] at all
                  exact single (Option.some.inj all)
          · intro reachable
            have single : mac ≠ Mac.broadcast := by
              rintro rfl
              exact reachable.single other alone found
            have member : (station.nextHop ip, mac) ∈ history := by
              rcases stored.arpCheck found with member | ⟨hop, unused⟩
              · exact member
              · rw [hop, unused] at found ⊢
                exact reachable.used other alone hop found
            exact .known foreign alone single member

/-- From the zeroed cache, after any updates and with any packet in the buffer. -/
theorem netifSend_destination_iff (station : Station) (zeroed : ∀ i, station.arpCache i = blankEntry)
    (history : List (Ip × Mac)) (frame : Frame) (len : Nat) :
    SendsRight history ((station.arpUpdates history).put frame) len ↔
      Reachable history ((station.arpUpdates history).put frame) (frame.ipAt 30) := by
  have stored : Stored history ((station.arpUpdates history).put frame) := stored_updates zeroed history
  exact sendsRight_iff stored rfl

theorem netifSend_destination_host :
    SendsRight [(⟨10, 0, 0, 2⟩, ⟨2, 0, 0, 0, 0, 2⟩)]
      (((Net.stationAt 1).arpUpdates [(⟨10, 0, 0, 2⟩, ⟨2, 0, 0, 0, 0, 2⟩)]).put Net.packetAt.frame) 46 :=
  (netifSend_destination_iff (Net.stationAt 1) (fun _ => rfl) _ _ _).mpr
    ⟨by decide, by decide, by decide⟩

def packetTo (gateway ip : Ip) : Station :=
  { Net.stationAt 1 with mygw := gateway }.put (Frame.store (fun _ => 0) 30 ip.toList)

/-- The packet to the broadcast address of another net is for all stations of the own link, and without a
gateway and an answer a packet goes to the address 00:00:00:00:00:00. -/
theorem netifSend_destination_foreign :
    ((packetTo ⟨10, 0, 0, 254⟩ ⟨192, 255, 255, 255⟩).resolve ⟨192, 255, 255, 255⟩ = some Mac.broadcast ∧
      ¬SendsRight [] (packetTo ⟨10, 0, 0, 254⟩ ⟨192, 255, 255, 255⟩) 46) ∧
    (packetTo Ip.zeros ⟨192, 168, 0, 1⟩).resolve ⟨192, 168, 0, 1⟩ = some Mac.any ∧
      ¬SendsRight [] (packetTo Ip.zeros ⟨192, 168, 0, 1⟩) 46 := by
  have blank : ∀ gateway ip, Stored [] (packetTo gateway ip) := fun _ _ _ => Or.inl rfl
  refine ⟨⟨by decide, ?_⟩, by decide, ?_⟩
  · rw [sendsRight_iff (blank _ _) (show _ = (⟨192, 255, 255, 255⟩ : Ip) by decide)]
    intro reachable
    exact absurd (reachable.host (by decide)) (by decide)
  · rw [sendsRight_iff (blank _ _) (show _ = (⟨192, 168, 0, 1⟩ : Ip) by decide)]
    intro reachable
    exact absurd (reachable.used (by decide) (by decide) (by decide) (by decide)) List.not_mem_nil

end Destinations

end Station

end Hellfire

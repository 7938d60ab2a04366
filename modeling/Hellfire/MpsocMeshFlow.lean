import Hellfire.MpsocMeshGrid

/-!
The mesh as routers, network interfaces and cores between channels.
-/

namespace Hellfire

namespace MpsocSim

open Function DimensionOrder

structure Joined (channel : Channel) (sender receiver : Port) : Prop where
  link : Link channel.phase sender receiver
  out : sender.out = channel.out

def Linked (mesh : Mesh) (world : MeshWorld) (channel : Endpoint → Channel) : Prop :=
  ∀ e, mesh.Inside e → Joined (channel e) (world.port e) (world.port (mesh.peer e))

def Channel.unshown (channel : Channel) (held : List Flit) : List Flit :=
  if channel.phase = .quiet then held else held.tail

def Channel.relayed (channel : Channel) (held : List Flit) : List Flit :=
  unread channel.phase channel.out ++ channel.unshown held

structure Relays (buffer : Buffer) (held : List Flit) (onward : Channel) : Prop where
  holds : buffer.Holds held
  shown : onward.phase ≠ .quiet → ∃ later, held = onward.out :: later

structure Uplink (packets : List Packet) (n : Nat) (buffer : Buffer) (held : List Flit)
    (inward onward : Channel) : Prop where
  relays : Relays buffer held onward
  started : onward.started = packets.map (Tagged.mk n)
  rest : onward.rest = onward.unshown held ++ inward.pending

structure Downlink (received : List Flit) (buffer : Buffer) (held : List Flit)
    (inward onward : Channel) : Prop where
  relays : Relays buffer held onward
  flits : flitsOf (packetsOf inward.started) =
    received ++ (onward.relayed held ++ inward.pending)

structure Writes (isSending : Bool) (offers : List Flit) (onward : Channel) : Prop where
  sending : isSending = decide (onward.phase ≠ .quiet)
  rest : onward.rest = offers

def OnWay (mesh : Mesh) (n i : Nat) (tagged : Tagged) : Prop :=
  tagged.source < mesh.size ∧
    Enters (mesh.place tagged.source) (mesh.target tagged.packet) (mesh.place n) (entry i)

structure Carried (mesh : Mesh) (packets : Nat → List Packet) (world : MeshWorld)
    (channel : Endpoint → Channel) : Prop where
  linked : Linked mesh world channel
  routers : ∀ n < mesh.size, ∃ station, Routes mesh n (world.routers n) station
    (fun i => channel (mesh.peer (.router n i))) (fun k => channel (.router n k))
  uplinks : ∀ n < mesh.size, ∃ held, Uplink (packets n) n ((world.interfaces n).buffers plasma)
    held (channel (.core n)) (channel (.interface n noc))
  downlinks : ∀ n < mesh.size, ∃ held, Downlink (world.received n)
    ((world.interfaces n).buffers noc) held (channel (.router n localPort))
    (channel (.interface n plasma))
  writers : ∀ n < mesh.size, Writes (world.isSending n) (world.offers n) (channel (.core n))
  borders : ∀ n k, mesh.Inside (.outside n k) →
    (channel (.outside n k)).phase = .quiet ∧ (channel (.outside n k)).started = []
  ways : ∀ n < mesh.size, ∀ i < 5, ∀ tagged ∈ (channel (mesh.peer (.router n i))).started,
    OnWay mesh n i tagged

section Links

variable {mesh : Mesh} {world world' : MeshWorld} {channel : Endpoint → Channel} {e : Endpoint}

structure Touches (mesh : Mesh) (world world' : MeshWorld) (e : Endpoint) : Prop where
  outputs : ∀ d, d ≠ e → SameOutput (world.port d) (world'.port d)
  inputs : ∀ d, d ≠ mesh.peer e → SameInput (world.port d) (world'.port d)

theorem Linked.touched (linked : Linked mesh world channel) (wide : mesh.Wide)
    (inside : mesh.Inside e) (touches : Touches mesh world world' e) {after : Channel}
    (joined : Joined after (world'.port e) (world'.port (mesh.peer e))) :
    Linked mesh world' (update channel e after) := by
  intro d inside'
  by_cases here : d = e
  · subst here
    rw [update_self]
    exact joined
  · rw [update_of_ne here]
    have outputs := touches.outputs d here
    have elsewhere : mesh.peer d ≠ mesh.peer e := fun same =>
      here (wide.peer_inj inside' inside same)
    exact ⟨(linked d inside').link.congr outputs (touches.inputs _ elsewhere),
      outputs.out.trans (linked d inside').out⟩

theorem Touches.drive {port : Port} (changed : world'.port = update world.port e port)
    (same : SameInput (world.port e) port) : Touches mesh world world' e := by
  constructor
  · intro d other
    rw [changed, update_of_ne other]
    exact .refl _
  · intro d _
    rw [changed]
    by_cases here : d = e
    · rw [here, update_self]
      exact same
    · rw [update_of_ne here]
      exact .refl _

theorem Touches.take {port : Port}
    (changed : world'.port = update world.port (mesh.peer e) port)
    (same : SameOutput (world.port (mesh.peer e)) port) : Touches mesh world world' e := by
  constructor
  · intro d _
    rw [changed]
    by_cases here : d = mesh.peer e
    · rw [here, update_self]
      exact same
    · rw [update_of_ne here]
      exact .refl _
  · intro d other
    rw [changed, update_of_ne other]
    exact .refl _

theorem SameFeed.update {after : Channel} (same : SameFeed (channel e) after) (d : Endpoint) :
    SameFeed (channel d) (update channel e after d) := by
  by_cases here : d = e
  · rw [here, update_self]
    exact same
  · rw [update_of_ne here]
    exact .refl _

theorem SameDrain.update {after : Channel} (same : SameDrain (channel e) after) (d : Endpoint) :
    SameDrain (channel d) (update channel e after d) := by
  by_cases here : d = e
  · rw [here, update_self]
    exact same
  · rw [update_of_ne here]
    exact .refl _

end Links

section Relaying

variable {buffer : Buffer} {held received offers : List Flit} {packets : List Packet} {n : Nat}
  {inward inward' onward onward' : Channel} {isSending : Bool}

theorem SameDrain.unshown (same : SameDrain onward onward') (held : List Flit) :
    onward'.unshown held = onward.unshown held := by
  simp only [Channel.unshown, same.quiet]

theorem Relays.same (relays : Relays buffer held onward) (same : SameDrain onward onward') :
    Relays buffer held onward' := by
  refine ⟨relays.holds, fun busy => ?_⟩
  rw [same.out]
  exact relays.shown fun quiet => busy (same.quiet.mpr quiet)

theorem Relays.put (relays : Relays buffer held onward) (room : held.length < buffer.max)
    (flit : Flit) : Relays (buffer.put flit) (held ++ [flit]) onward ∧
      onward.unshown (held ++ [flit]) = onward.unshown held ++ [flit] := by
  refine ⟨⟨relays.holds.put room flit, fun busy => ?_⟩, ?_⟩
  · obtain ⟨later, stored⟩ := relays.shown busy
    exact ⟨later ++ [flit], by rw [stored]; rfl⟩
  · by_cases quiet : onward.phase = .quiet
    · rw [Channel.unshown, Channel.unshown, if_pos quiet, if_pos quiet]
    · obtain ⟨later, stored⟩ := relays.shown quiet
      rw [Channel.unshown, Channel.unshown, if_neg quiet, if_neg quiet, stored]
      rfl

theorem Uplink.feed (uplink : Uplink packets n buffer held inward onward)
    (same : SameFeed inward inward') : Uplink packets n buffer held inward' onward :=
  ⟨uplink.relays, uplink.started, by rw [same.pending]; exact uplink.rest⟩

theorem Uplink.drain (uplink : Uplink packets n buffer held inward onward)
    (same : SameDrain onward onward') : Uplink packets n buffer held inward onward' :=
  ⟨uplink.relays.same same, same.started.trans uplink.started,
    by rw [same.rest, same.unshown]; exact uplink.rest⟩

theorem Downlink.feed (downlink : Downlink received buffer held inward onward)
    (same : SameFeed inward inward') : Downlink received buffer held inward' onward :=
  ⟨downlink.relays, by rw [same.started, same.pending]; exact downlink.flits⟩

theorem Downlink.drain (downlink : Downlink received buffer held inward onward)
    (same : SameDrain onward onward') {received' : List Flit}
    (passed : received' ++ unread onward'.phase onward'.out =
      received ++ unread onward.phase onward.out) :
    Downlink received' buffer held inward onward' := by
  refine ⟨downlink.relays.same same, ?_⟩
  rw [downlink.flits, Channel.relayed, Channel.relayed, same.unshown, List.append_assoc,
    List.append_assoc, ← List.append_assoc, ← passed, List.append_assoc]

theorem Downlink.extend (downlink : Downlink received buffer held inward onward) {tagged : Tagged}
    (started : inward'.started = inward.started ++ [tagged])
    (pending : inward'.pending = inward.pending ++ tagged.packet.flits) :
    Downlink received buffer held inward' onward := by
  refine ⟨downlink.relays, ?_⟩
  rw [started, pending, packetsOf, List.map_append, flitsOf_append]
  rw [show inward.started.map Tagged.packet = packetsOf inward.started from rfl, downlink.flits]
  simp [flitsOf]

theorem Writes.drain (writes : Writes isSending offers onward) (same : SameDrain onward onward') :
    Writes isSending offers onward' := by
  refine ⟨?_, same.rest.trans writes.rest⟩
  rw [writes.sending]
  exact decide_eq_decide.mpr (not_congr same.quiet.symm)

end Relaying

end MpsocSim

end Hellfire

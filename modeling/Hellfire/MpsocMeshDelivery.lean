import Hellfire.MpsocMeshTurns

/-!
What the cores of the mesh read: the packets that were sent to them, whole, and those of each
sender in the order in which it wrote them.
-/

namespace Hellfire

namespace MpsocSim

open Function DimensionOrder

def Tagged.between (mesh : Mesh) (s d : Nat) (tagged : Tagged) : Bool :=
  tagged.source = s ∧ mesh.headerToDecimal tagged.packet.header = d

theorem entry_injective {i j : Nat} (bound : i < 5) (bound' : j < 5) (same : entry i = entry j) :
    i = j := by
  rcases port_cases bound with rfl | rfl | rfl | rfl | rfl <;>
    rcases port_cases bound' with rfl | rfl | rfl | rfl | rfl <;>
    first | rfl | cases same

section OneRouter

variable {mesh : Mesh} {n i k s d : Nat} {router : Router} {station : Station}
  {ins outs : Nat → Channel} {tagged : Tagged}

theorem mem_takenFrom {closed : List Transfer} :
    tagged ∈ takenFrom closed i ↔ ∃ transfer ∈ closed, transfer.input = i ∧
      transfer.tagged = tagged := by
  simp only [takenFrom, List.mem_map, List.mem_filter, decide_eq_true_eq, and_assoc]

theorem mem_passedTo {closed : List Transfer} :
    tagged ∈ passedTo closed k ↔ ∃ transfer ∈ closed, transfer.output = k ∧
      transfer.tagged = tagged := by
  simp only [passedTo, List.mem_map, List.mem_filter, decide_eq_true_eq, and_assoc]

theorem Routes.origin (routes : Routes mesh n router station ins outs) (bound : k < 5)
    (member : tagged ∈ (outs k).started) : mesh.dest n tagged.packet.header = k ∧
      ∃ i < 5, tagged ∈ (ins i).started := by
  have passed : tagged ∈ passedTo station.closed k → mesh.dest n tagged.packet.header = k ∧
      ∃ i < 5, tagged ∈ (ins i).started := by
    intro old
    obtain ⟨transfer, known, output, rfl⟩ := mem_passedTo.mp old
    obtain ⟨inside, way⟩ := routes.routed transfer known
    refine ⟨way ▸ output, transfer.input, inside, ?_⟩
    rw [routes.streams _ inside]
    exact List.mem_append_left _ (mem_takenFrom.mpr ⟨transfer, known, rfl, rfl⟩)
  rcases routes.started bound with started | ⟨i, inside, first, later, coming, way, started⟩
  · rw [started] at member
    exact passed member
  · rw [started] at member
    rcases List.mem_append.mp member with old | last
    · exact passed old
    · obtain rfl := List.mem_singleton.mp last
      refine ⟨way, i, inside, ?_⟩
      rw [routes.streams i inside, coming]
      exact List.mem_append_right _ List.mem_cons_self

theorem filter_transfers {closed : List Transfer} {c : Transfer → Bool} {p : Tagged → Bool}
    (only : ∀ transfer ∈ closed, p transfer.tagged = true → c transfer = true) :
    ((closed.filter c).map Transfer.tagged).filter p = (closed.map Transfer.tagged).filter p := by
  rw [List.filter_map, List.filter_map, List.filter_filter]
  refine congrArg _ (List.filter_congr fun transfer member => ?_)
  cases holds : p transfer.tagged with
  | false => simp [holds]
  | true => simp [holds, only transfer member holds]

theorem between_iff : tagged.between mesh s d = true ↔
    tagged.source = s ∧ mesh.headerToDecimal tagged.packet.header = d := by
  rw [Tagged.between, decide_eq_true_eq]

theorem between_dest {other : Tagged} (first : tagged.between mesh s d = true)
    (second : other.between mesh s d = true) (n : Nat) :
    mesh.dest n tagged.packet.header = mesh.dest n other.packet.header := by
  rw [between_iff] at first second
  simp only [Mesh.dest, first.2, second.2]

theorem between_input {j : Nat} {other : Tagged} (first : tagged.between mesh s d = true)
    (second : other.between mesh s d = true) (way : OnWay mesh n i tagged)
    (way' : OnWay mesh n j other) (bound : i < 5) (bound' : j < 5) : i = j := by
  rw [between_iff] at first second
  obtain ⟨_, enters⟩ := way
  obtain ⟨_, enters'⟩ := way'
  rw [Mesh.target, first.1, first.2] at enters
  rw [Mesh.target, second.1, second.2] at enters'
  exact entry_injective bound bound' (enters.unique enters')

theorem Routes.forwarded (routes : Routes mesh n router station ins outs)
    (ways : ∀ i < 5, ∀ tagged ∈ (ins i).started, OnWay mesh n i tagged) (inside : i < 5)
    (came : OnWay mesh n i tagged) (flows : tagged.between mesh s d = true)
    (leaves : mesh.dest n tagged.packet.header = k) :
    (passedTo station.closed k).filter (Tagged.between mesh s d) =
      (takenFrom station.closed i).filter (Tagged.between mesh s d) := by
  rw [passedTo, takenFrom, filter_transfers, filter_transfers]
  · intro transfer known flows'
    obtain ⟨inside', _⟩ := routes.routed transfer known
    have came' : transfer.tagged ∈ (ins transfer.input).started := by
      rw [routes.streams _ inside']
      exact List.mem_append_left _ (mem_takenFrom.mpr ⟨transfer, known, rfl, rfl⟩)
    exact decide_eq_true
      (between_input flows' flows (ways _ inside' _ came') came inside' inside)
  · intro transfer known flows'
    rw [(routes.routed transfer known).2, between_dest flows' flows, leaves]
    exact decide_eq_true rfl

theorem Routes.inOrder (routes : Routes mesh n router station ins outs) (bound : k < 5)
    (ways : ∀ i < 5, ∀ tagged ∈ (ins i).started, OnWay mesh n i tagged) {whole : List Tagged}
    (inputs : ∀ i < 5, (ins i).started.filter (Tagged.between mesh s d) <+: whole) :
    (outs k).started.filter (Tagged.between mesh s d) <+: whole := by
  by_cases none : (outs k).started.filter (Tagged.between mesh s d) = []
  · rw [none]
    exact List.nil_prefix
  obtain ⟨sample, member⟩ := List.exists_mem_of_ne_nil _ none
  obtain ⟨member, flows⟩ := List.mem_filter.mp member
  obtain ⟨leaves, i, inside, came⟩ := routes.origin bound member
  refine List.IsPrefix.trans ?_ (inputs i inside)
  have closed := routes.forwarded ways inside (ways i inside sample came) flows leaves
  rw [routes.streams i inside, List.filter_append, ← closed]
  rcases routes.started bound with started | ⟨j, inside', first, later, coming, _, started⟩
  · rw [started]
    exact List.prefix_append _ _
  · rw [started, List.filter_append]
    by_cases flows' : first.between mesh s d = true
    · have came' : first ∈ (ins j).started := by
        rw [routes.streams j inside', coming]
        exact List.mem_append_right _ List.mem_cons_self
      have here : j = i := between_input flows' flows (ways j inside' first came')
        (ways i inside sample came) inside' inside
      subst here
      rw [coming, List.filter_cons_of_pos flows', List.filter_cons_of_pos flows', List.filter_nil]
      exact (List.prefix_append_right_inj _).mpr ⟨_, rfl⟩
    · rw [List.filter_cons_of_neg flows', List.filter_nil, List.append_nil]
      exact List.prefix_append _ _

end OneRouter

section WholeMesh

variable {mesh : Mesh} {packets : Nat → List Packet} {world : MeshWorld}
  {channel : Endpoint → Channel} {n i s d : Nat}

/-- Wherever packets from one core to another come in, they are the first of those that the
sender wrote. By induction on the hops from the sender. -/
theorem Carried.inOrder (carried : Carried mesh packets world channel) (wide : mesh.Wide)
    (length : Nat) : ∀ n < mesh.size, ∀ i < 5, hops (mesh.place s) (mesh.place n) = length →
      (channel (mesh.peer (.router n i))).started.filter (Tagged.between mesh s d) <+:
        ((packets s).map (Tagged.mk s)).filter (Tagged.between mesh s d) := by
  induction length using Nat.strong_induction_on with
  | h length ih =>
      intro n known i bound far
      by_cases none :
          (channel (mesh.peer (.router n i))).started.filter (Tagged.between mesh s d) = []
      · rw [none]
        exact List.nil_prefix
      obtain ⟨sample, member⟩ := List.exists_mem_of_ne_nil _ none
      obtain ⟨member, flows⟩ := List.mem_filter.mp member
      obtain ⟨_, enters⟩ := carried.ways n known i bound sample member
      rw [(between_iff.mp flows).1] at enters
      cases wide.joint known bound with
      | here is_local joined =>
          rw [is_local] at enters
          have same : n = s := Mesh.place_injective enters
          obtain ⟨held, uplink⟩ := carried.uplinks n known
          have written : (channel (mesh.peer (.router n i))).started =
              (packets s).map (Tagged.mk s) := by
            rw [joined, uplink.started, same]
          exact written ▸ List.prefix_rfl
      | border _ joined =>
          have border : mesh.Inside (.outside n i) := ⟨known, bound, joined⟩
          rw [joined, (carried.borders n i border).2] at member
          cases member
      | across m k _ _ known' bound' _ joined back =>
          obtain ⟨station, routes⟩ := carried.routers m known'
          cases wide.joint known' bound' with
          | here _ elsewhere =>
              rw [back] at elsewhere
              cases elsewhere
          | border _ elsewhere =>
              rw [back] at elsewhere
              cases elsewhere
          | across n' i' _ _ _ _ _ there _ place into moves opens =>
              rw [back, Endpoint.router.injEq] at there
              obtain ⟨rfl, rfl⟩ := there
              rw [place, into] at enters
              have nearer := enters.hops_next opens moves
              rw [← place, far] at nearer
              rw [joined]
              exact routes.inOrder bound' (carried.ways m known') fun j inside =>
                ih _ (by omega) m known' j inside rfl

theorem Carried.arrived (carried : Carried mesh packets world channel)
    (known : d < mesh.size) {tagged : Tagged}
    (member : tagged ∈ (channel (.router d localPort)).started) :
    tagged.source < mesh.size ∧ mesh.headerToDecimal tagged.packet.header = d := by
  obtain ⟨station, routes⟩ := carried.routers d known
  obtain ⟨leaves, i, inside, came⟩ := routes.origin (show localPort < 5 by decide) member
  refine ⟨(carried.ways d known i inside tagged came).1, ?_⟩
  have turns := mesh.heading_target d tagged.packet
  rw [leaves] at turns
  exact (Mesh.place_injective (heading_here_iff.mp turns)).symm

theorem Carried.ordered (carried : Carried mesh packets world channel) (wide : mesh.Wide)
    (known : d < mesh.size) (s : Nat) :
    (channel (.router d localPort)).started.filter (Tagged.between mesh s d) <+:
      ((packets s).map (Tagged.mk s)).filter (Tagged.between mesh s d) := by
  obtain ⟨station, routes⟩ := carried.routers d known
  exact routes.inOrder (show localPort < 5 by decide) (carried.ways d known)
    fun j inside => carried.inOrder wide _ d known j inside rfl

theorem Carried.ofSender (carried : Carried mesh packets world channel) (known : d < mesh.size)
    (s : Nat) : (channel (.router d localPort)).started.filter (Tagged.between mesh s d) =
      (channel (.router d localPort)).started.filter fun tagged => tagged.source = s := by
  refine List.filter_congr fun tagged member => ?_
  rw [Tagged.between, (carried.arrived known member).2]
  simp

theorem written_between (mesh : Mesh) (packets : Nat → List Packet) (s d : Nat) :
    packetsOf (((packets s).map (Tagged.mk s)).filter (Tagged.between mesh s d)) =
      (packets s).filter fun packet => mesh.headerToDecimal packet.header = d := by
  rw [List.filter_map, packetsOf_map]
  refine List.filter_congr fun packet _ => ?_
  simp [Tagged.between]

/-- Whatever the programs do and however long the mesh runs, each core reads the flits of packets
that were written for it, one packet after the other, and the packets of each sender come in the
order in which it wrote them: nothing is lost, doubled, mixed or changed on the way. -/
theorem mesh_delivery (wide : mesh.Wide) (packetSize : Nat)
    (memory interfaceMemory : Nat → Nat → List Flit) (packets : Nat → List Packet)
    (act : Nat → CoreAct) (turns : List Turn) (known : d < mesh.size) :
    ∃ arrived : List Tagged,
      ((MeshWorld.boot mesh packetSize memory interfaceMemory (fun n => flitsOf (packets n))
        act).ticks mesh packetSize turns).received d <+: flitsOf (packetsOf arrived) ∧
      (∀ tagged ∈ arrived, tagged.source < mesh.size ∧
        mesh.headerToDecimal tagged.packet.header = d) ∧
      ∀ s, packetsOf (arrived.filter fun tagged => tagged.source = s) <+:
        (packets s).filter fun packet => mesh.headerToDecimal packet.header = d := by
  obtain ⟨_, booted⟩ := Carried.boot wide packetSize memory interfaceMemory packets act
  obtain ⟨channel, carried⟩ := booted.run wide packetSize turns
  obtain ⟨held, downlink⟩ := carried.downlinks d known
  refine ⟨(channel (.router d localPort)).started, ?_, fun tagged => carried.arrived known, ?_⟩
  · rw [downlink.flits]
    exact List.prefix_append _ _
  · intro s
    rw [← carried.ofSender known, ← written_between]
    exact (carried.ordered wide known s).map Tagged.packet

def returning (n : Nat) : List Packet := if n = 3 then [⟨0x11, [9], by decide⟩] else []

def returningRun : MeshWorld :=
  (MeshWorld.boot ⟨2, 2⟩ 4 (fun _ _ => List.replicate 4 0) (fun _ _ => List.replicate 4 0)
    (fun n => flitsOf (returning n)) (fun _ => .nocWrite)).ticks ⟨2, 2⟩ 4
      (List.replicate 12 ⟨fun _ => .nocWrite, fun _ => true⟩ ++
        List.replicate 120 ⟨fun _ => .nocRead, fun _ => true⟩)

set_option maxRecDepth 100000 in
/-- A core that wrote a packet for its own router has read all of it after 132 turns. -/
theorem mesh_delivery_returning : returningRun.received 3 = [0x11, 1, 9] ∧ ∃ arrived : List Tagged,
    [0x11, 1, 9] <+: flitsOf (packetsOf arrived) ∧
    (∀ tagged ∈ arrived, tagged.source < Mesh.size ⟨2, 2⟩ ∧
      Mesh.headerToDecimal ⟨2, 2⟩ tagged.packet.header = 3) ∧
    ∀ s, packetsOf (arrived.filter fun tagged => tagged.source = s) <+:
      (returning s).filter fun packet => Mesh.headerToDecimal ⟨2, 2⟩ packet.header = 3 := by
  have read : returningRun.received 3 = [0x11, 1, 9] := by decide +kernel
  have delivery := @mesh_delivery ⟨2, 2⟩ 3 ⟨by decide, by decide⟩ 4 (fun _ _ => List.replicate 4 0)
    (fun _ _ => List.replicate 4 0) returning (fun _ => .nocWrite)
    (List.replicate 12 ⟨fun _ => .nocWrite, fun _ => true⟩ ++
      List.replicate 120 ⟨fun _ => .nocRead, fun _ => true⟩) (by decide)
  rw [← returningRun, read] at delivery
  exact ⟨read, delivery⟩

end WholeMesh

end MpsocSim

end Hellfire

import Hellfire.MpsocMeshInterfaces

/-!
Whole turns of the loop: the links are synchronized, every node is clocked, and every core runs.
-/

namespace Hellfire

namespace MpsocSim

open Function DimensionOrder

section Synchronizing

variable {mesh : Mesh} {packets : Nat → List Packet} {world : MeshWorld}
  {channel : Endpoint → Channel} {e : Endpoint} {n : Nat}

theorem Mesh.Wide.peer_ne_self (wide : mesh.Wide) (inside : mesh.Inside e) : mesh.peer e ≠ e := by
  cases e with
  | router n k => exact wide.peer_ne inside.1 inside.2 k
  | interface n p =>
      simp only [Mesh.peer]
      split_ifs <;> simp
  | core | outside => simp [Mesh.peer]

def MeshWorld.synchronizePeer (mesh : Mesh) (world : MeshWorld) (e : Endpoint) : MeshWorld :=
  match mesh.peer e with
  | .outside _ _ => world
  | d => world.synchronize e d

theorem synchronizePeer_real (real : (mesh.peer e).Real) :
    world.synchronizePeer mesh e = world.synchronize e (mesh.peer e) := by
  rw [MeshWorld.synchronizePeer]
  cases same : mesh.peer e with
  | outside =>
      rw [same] at real
      exact real.elim
  | router | interface | core => rfl

structure Clears (world after : MeshWorld) : Prop where
  kept : ∀ d, (world.port d).inAck = false → (after.port d).inAck = false

theorem Phase.next_quiet (phase : Phase) : phase.next = .quiet ↔ phase = .quiet := by
  cases phase <;> simp [Phase.next]

theorem synchronize_port (world : MeshWorld) {d : Endpoint} (real : d.Real) (real' : e.Real) :
    (world.synchronize d e).port = update (update world.port d
      (synchronizePorts (world.port d) (world.port e)).1) e
      (synchronizePorts (world.port d) (world.port e)).2 := by
  rw [MeshWorld.synchronize]
  simp only
  rw [setPort_port real', setPort_port real]

theorem Carried.synchronize (carried : Carried mesh packets world channel) (wide : mesh.Wide)
    (inside : mesh.Inside e) (real : e.Real) (real' : (mesh.peer e).Real) :
    ∃ channel', Carried mesh packets (world.synchronize e (mesh.peer e)) channel' ∧
      Clears world (world.synchronize e (mesh.peer e)) ∧
      ((world.synchronize e (mesh.peer e)).port (mesh.peer e)).inAck = false := by
  have joined := carried.linked e inside
  obtain ⟨link, out, input, output⟩ := joined.link.synchronize
  have apart := wide.peer_ne_self inside
  have ports := synchronize_port world real real'
  have same : SameInside world (world.synchronize e (mesh.peer e)) :=
    (setPort_inside e _).trans (setPort_inside _ _)
  have touches : Touches mesh world (world.synchronize e (mesh.peer e)) e := by
    constructor
    · intro d other
      rw [ports]
      by_cases here : d = mesh.peer e
      · rw [here, update_self]
        exact output
      · rw [update_of_ne here, update_of_ne other]
        exact .refl _
    · intro d other
      rw [ports, update_of_ne other]
      by_cases here : d = e
      · rw [here, update_self]
        exact input
      · rw [update_of_ne here]
        exact .refl _
  let after : Channel := { channel e with phase := (channel e).phase.next }
  have feed : SameFeed (channel e) after := by
    refine ⟨rfl, ?_⟩
    simp only [Channel.pending, after, unread_next]
  have drain : SameDrain (channel e) after := ⟨Phase.next_quiet _, rfl, rfl, rfl⟩
  have clear : ((world.synchronize e (mesh.peer e)).port (mesh.peer e)).inAck = false := by
    rw [ports, update_self, link.taken]
    exact decide_eq_false (Phase.next_ne_taken _)
  refine ⟨_, carried.unseen wide inside feed drain touches ?_ same, ⟨fun d fresh => ?_⟩, clear⟩
  · rw [ports, update_self, update_of_ne (Ne.symm apart), update_self]
    exact ⟨link, out.trans joined.out⟩
  · by_cases here : d = mesh.peer e
    · rw [here]
      exact clear
    · rw [(touches.inputs d here).inAck]
      exact fresh

theorem Carried.synchronizePeer (carried : Carried mesh packets world channel) (wide : mesh.Wide)
    (inside : mesh.Inside e) (real : e.Real) :
    ∃ channel', Carried mesh packets (world.synchronizePeer mesh e) channel' ∧
      Clears world (world.synchronizePeer mesh e) ∧
      ((world.synchronizePeer mesh e).port (mesh.peer e)).inAck = false := by
  by_cases real' : (mesh.peer e).Real
  · rw [synchronizePeer_real real']
    exact carried.synchronize wide inside real real'
  · cases same : mesh.peer e with
    | outside m k =>
        rw [MeshWorld.synchronizePeer, same]
        exact ⟨channel, carried, ⟨fun _ fresh => fresh⟩, rfl⟩
    | router | interface | core =>
        rw [same] at real'
        exact absurd trivial real'

theorem Carried.synchronizeAll (carried : Carried mesh packets world channel) (wide : mesh.Wide)
    (es : List Endpoint) (known : ∀ e ∈ es, mesh.Inside e ∧ e.Real) :
    ∃ channel', Carried mesh packets (es.foldl (MeshWorld.synchronizePeer mesh) world) channel' ∧
      Clears world (es.foldl (MeshWorld.synchronizePeer mesh) world) ∧ ∀ e ∈ es,
        ((es.foldl (MeshWorld.synchronizePeer mesh) world).port (mesh.peer e)).inAck = false := by
  induction es generalizing world channel with
  | nil => exact ⟨channel, carried, ⟨fun _ fresh => fresh⟩, fun e member => by cases member⟩
  | cons e es ih =>
      obtain ⟨inside, real⟩ := known e List.mem_cons_self
      obtain ⟨channel', first, clears, clear⟩ := carried.synchronizePeer wide inside real
      obtain ⟨channel'', others, clears', all⟩ :=
        ih first fun d member => known d (List.mem_cons_of_mem _ member)
      refine ⟨channel'', others, ⟨fun d fresh => clears'.kept d (clears.kept d fresh)⟩, ?_⟩
      intro d member
      rcases List.mem_cons.mp member with rfl | later
      · exact clears'.kept _ clear
      · exact all d later

def sendersOf (n : Nat) : List Endpoint :=
  [.router n localPort, .router n south, .router n north, .router n east, .router n west,
    .interface n noc, .interface n plasma, .core n]

theorem synchronizeIf_peer (world : MeshWorld) {k : Nat} {d : Endpoint} {flag : Bool}
    {opens : Prop} [Decidable opens]
    (joined : mesh.peer (.router n k) = if opens then d else .outside n k) (real : d.Real)
    (agrees : flag = true ↔ opens) :
    world.synchronizeIf flag (.router n k) d = world.synchronizePeer mesh (.router n k) := by
  rw [MeshWorld.synchronizeIf]
  by_cases room : opens
  · rw [if_pos room] at joined
    rw [if_pos (agrees.mpr room), synchronizePeer_real (by rwa [joined]), joined]
  · rw [if_neg room] at joined
    rw [if_neg fun flagged => room (agrees.mp flagged), MeshWorld.synchronizePeer, joined]

theorem synchronizeNode_eq (wide : mesh.Wide) (known : n < mesh.size) (world : MeshWorld) :
    world.synchronizeNode mesh n = (sendersOf n).foldl (MeshWorld.synchronizePeer mesh) world := by
  have below := wide.column_lt n
  have above := Mesh.line_lt known
  have columns := wide.width
  have lines := wide.height
  simp only [sendersOf, List.foldl_cons, List.foldl_nil, MeshWorld.synchronizeNode,
    MeshWorld.synchronizeRouter, MeshWorld.synchronizeNetworkInterface,
    MeshWorld.synchronizeCore]
  rw [synchronizeIf_peer (k := south) _ rfl trivial, synchronizeIf_peer (k := north) _ rfl trivial,
    synchronizeIf_peer (k := east) _ rfl trivial, synchronizeIf_peer (k := west) _ rfl trivial]
  · rfl
  · split_ifs <;> simp <;> omega
  · split_ifs <;> simp <;> omega
  · split_ifs <;> simp <;> omega
  · split_ifs <;> simp <;> omega

theorem sender_mem {e : Endpoint} (inside : mesh.Inside e) (real : e.Real) :
    ∃ n < mesh.size, e ∈ sendersOf n := by
  cases e with
  | router n k =>
      refine ⟨n, inside.1, ?_⟩
      rcases port_cases inside.2 with rfl | rfl | rfl | rfl | rfl <;> simp [sendersOf]
  | interface n p =>
      refine ⟨n, inside.1, ?_⟩
      rcases Mesh.interface_cases inside.2 with rfl | rfl <;> simp [sendersOf]
  | core n => exact ⟨n, inside, by simp [sendersOf]⟩
  | outside => exact real.elim

theorem sendersOf_inside (known : n < mesh.size) (member : e ∈ sendersOf n) :
    mesh.Inside e ∧ e.Real := by
  simp only [sendersOf, List.mem_cons, List.not_mem_nil, or_false] at member
  rcases member with rfl | rfl | rfl | rfl | rfl | rfl | rfl | rfl
  all_goals first
    | exact ⟨⟨known, by decide⟩, trivial⟩
    | exact ⟨known, trivial⟩

theorem synchronizeNodes_eq (wide : mesh.Wide) (nodes : List Nat)
    (known : ∀ n ∈ nodes, n < mesh.size) (world : MeshWorld) :
    nodes.foldl (MeshWorld.synchronizeNode mesh) world =
      (nodes.flatMap sendersOf).foldl (MeshWorld.synchronizePeer mesh) world := by
  induction nodes generalizing world with
  | nil => rfl
  | cons n nodes ih =>
      rw [List.foldl_cons, List.flatMap_cons, List.foldl_append,
        synchronizeNode_eq wide (known n List.mem_cons_self)]
      exact ih (fun m member => known m (List.mem_cons_of_mem _ member)) _

theorem Carried.synchronizeNodes (carried : Carried mesh packets world channel)
    (wide : mesh.Wide) : ∃ channel', Carried mesh packets
      ((List.range mesh.size).foldl (MeshWorld.synchronizeNode mesh) world) channel' ∧
      ∀ d, mesh.Inside d → d.Real → (((List.range mesh.size).foldl
        (MeshWorld.synchronizeNode mesh) world).port d).inAck = false := by
  have nodes : ∀ n ∈ List.range mesh.size, n < mesh.size := fun n member =>
    List.mem_range.mp member
  rw [synchronizeNodes_eq wide _ nodes]
  obtain ⟨channel', kept, _, all⟩ := carried.synchronizeAll wide
    ((List.range mesh.size).flatMap sendersOf) fun e member => by
      obtain ⟨n, within, sender⟩ := List.mem_flatMap.mp member
      exact sendersOf_inside (nodes n within) sender
  refine ⟨channel', kept, fun d inside _ => ?_⟩
  obtain ⟨sender, back⟩ := wide.peer_inside inside
  by_cases real : (mesh.peer d).Real
  · obtain ⟨n, within, member⟩ := sender_mem sender real
    have clear := all (mesh.peer d)
      (List.mem_flatMap.mpr ⟨n, List.mem_range.mpr within, member⟩)
    rwa [back] at clear
  · have joined := kept.linked _ sender
    rw [back] at joined
    cases from_ : mesh.peer d with
    | outside m k =>
        rw [from_] at sender joined
        rw [joined.link.taken, (kept.borders m k sender).1]
        rfl
    | router | interface | core =>
        rw [from_] at real
        exact absurd trivial real

end Synchronizing

section Turns

variable {mesh : Mesh} {packets : Nat → List Packet} {world : MeshWorld}
  {channel : Endpoint → Channel} {n : Nat}

theorem Carried.clockNode (carried : Carried mesh packets world channel) (wide : mesh.Wide)
    (known : n < mesh.size) (routers : ∀ i < 5, ((world.routers n).ports i).inAck = false)
    (interfaces : ∀ p < 2, ((world.interfaces n).ports p).inAck = false) :
    ∃ channel', Carried mesh packets (world.clockNode mesh n) channel' := by
  simp only [MeshWorld.clockNode]
  split
  · obtain ⟨_, cycled⟩ := carried.cycleRouter wide known routers
    exact cycled.cycleNetworkInterface wide known interfaces
  · exact carried.cycleNetworkInterface wide known interfaces

theorem clockNode_other (mesh : Mesh) (world : MeshWorld) {m : Nat} (other : m ≠ n) :
    (world.clockNode mesh n).routers m = world.routers m ∧
      (world.clockNode mesh n).interfaces m = world.interfaces m := by
  simp only [MeshWorld.clockNode]
  split <;> simp [MeshWorld.cycleRouter, MeshWorld.cycleNetworkInterface, update_of_ne other]

theorem clockNode_cores (world : MeshWorld) : (world.clockNode mesh n).cores = world.cores := by
  simp only [MeshWorld.clockNode]
  split <;> rfl

theorem Carried.clockNodes (carried : Carried mesh packets world channel) (wide : mesh.Wide)
    (nodes : List Nat) (distinct : nodes.Nodup)
    (fresh : ∀ n ∈ nodes, n < mesh.size ∧ (∀ i < 5, ((world.routers n).ports i).inAck = false) ∧
      ∀ p < 2, ((world.interfaces n).ports p).inAck = false) :
    ∃ channel', Carried mesh packets (nodes.foldl (MeshWorld.clockNode mesh) world) channel' ∧
      (nodes.foldl (MeshWorld.clockNode mesh) world).cores = world.cores := by
  induction nodes generalizing world channel with
  | nil => exact ⟨channel, carried, rfl⟩
  | cons n nodes ih =>
      obtain ⟨absent, distinct⟩ := List.nodup_cons.mp distinct
      obtain ⟨known, routers, interfaces⟩ := fresh n List.mem_cons_self
      obtain ⟨_, clocked⟩ := carried.clockNode wide known routers interfaces
      obtain ⟨channel', all, cores⟩ := ih clocked distinct fun m member => by
        have other : m ≠ n := by
          rintro rfl
          exact absent member
        obtain ⟨router, interface⟩ := clockNode_other mesh world other
        rw [router, interface]
        exact fresh m (List.mem_cons_of_mem _ member)
      exact ⟨channel', all, cores.trans (clockNode_cores world)⟩

theorem cycleCore_other (world : MeshWorld) {packetSize m : Nat} {act : Nat → CoreAct}
    (other : m ≠ n) : (world.cycleCore packetSize act n).cores m = world.cores m := by
  simp only [MeshWorld.cycleCore, MeshWorld.nocWrite, MeshWorld.nocRead]
  repeat' split
  all_goals first
    | rfl
    | exact update_of_ne other _ _

theorem Carried.cycleCores (carried : Carried mesh packets world channel) (wide : mesh.Wide)
    (packetSize : Nat) (act : Nat → CoreAct) (nodes : List Nat) (distinct : nodes.Nodup)
    (fresh : ∀ n ∈ nodes, n < mesh.size ∧ (world.cores n).inAck = false) :
    ∃ channel', Carried mesh packets
      (nodes.foldl (MeshWorld.cycleCore packetSize act) world) channel' := by
  induction nodes generalizing world channel with
  | nil => exact ⟨channel, carried⟩
  | cons n nodes ih =>
      obtain ⟨absent, distinct⟩ := List.nodup_cons.mp distinct
      obtain ⟨known, clear⟩ := fresh n List.mem_cons_self
      obtain ⟨_, cycled⟩ := carried.cycleCore wide known packetSize act clear
      refine ih cycled distinct fun m member => ?_
      have other : m ≠ n := by
        rintro rfl
        exact absent member
      rw [cycleCore_other world other]
      exact fresh m (List.mem_cons_of_mem _ member)

theorem Carried.counted (carried : Carried mesh packets world channel) (remaining : Nat → Int)
    (cycles : Nat) : Carried mesh packets
      { world with flitsRemaining := remaining, gcycles := cycles } channel :=
  ⟨carried.linked, carried.routers, carried.uplinks, carried.downlinks, carried.writers,
    carried.borders, carried.ways⟩

theorem Carried.raise (carried : Carried mesh packets world channel) (packetSize : Nat)
    (enabled : Nat → Bool) (nodes : List Nat) :
    Carried mesh packets (nodes.foldl (MeshWorld.raise packetSize enabled) world) channel := by
  induction nodes generalizing world with
  | nil => exact carried
  | cons n nodes ih =>
      refine ih ?_
      rw [MeshWorld.raise]
      split
      · exact carried.counted _ world.gcycles
      · exact carried

theorem Carried.finishAll (carried : Carried mesh packets world channel) (wide : mesh.Wide)
    (nodes : List Nat) (known : ∀ n ∈ nodes, n < mesh.size) : ∃ channel', Carried mesh packets
      (nodes.foldl MeshWorld.finishSending world) channel' := by
  induction nodes generalizing world channel with
  | nil => exact ⟨channel, carried⟩
  | cons n nodes ih =>
      obtain ⟨_, finished⟩ := carried.finishSending wide (known n List.mem_cons_self)
      exact ih finished fun m member => known m (List.mem_cons_of_mem _ member)

theorem Carried.tick (carried : Carried mesh packets world channel) (wide : mesh.Wide)
    (packetSize : Nat) (turn : Turn) :
    ∃ channel', Carried mesh packets (world.tick mesh packetSize turn) channel' := by
  have nodes : ∀ n ∈ List.range mesh.size, n < mesh.size := fun n member =>
    List.mem_range.mp member
  simp only [MeshWorld.tick]
  have raised := carried.raise packetSize turn.enabled (List.range mesh.size)
  generalize (List.range mesh.size).foldl (MeshWorld.raise packetSize turn.enabled) world = before
    at raised ⊢
  have counted := raised.counted before.flitsRemaining ((before.gcycles + 1) % 2 ^ 64)
  obtain ⟨_, finished⟩ := counted.finishAll wide _ nodes
  obtain ⟨_, synchronized, clear⟩ := finished.synchronizeNodes wide
  obtain ⟨_, clocked, cores⟩ := synchronized.clockNodes wide _ List.nodup_range
    fun n member => ⟨nodes n member,
      fun i bound => clear (.router n i) ⟨nodes n member, bound⟩ trivial,
      fun p bound => clear (.interface n p) ⟨nodes n member, bound⟩ trivial⟩
  refine clocked.cycleCores wide packetSize turn.act _ List.nodup_range
    fun n member => ⟨nodes n member, ?_⟩
  rw [cores]
  exact clear (.core n) (nodes n member) trivial

def startChannel (packets : Nat → List Packet) : Endpoint → Channel
  | .interface n p =>
      if p = noc then ⟨.quiet, 0, (packets n).map (Tagged.mk n), flitsOf (packets n)⟩
      else ⟨.quiet, 0, [], []⟩
  | .core n => ⟨.quiet, 0, [], flitsOf (packets n)⟩
  | _ => ⟨.quiet, 0, [], []⟩

theorem startChannel_quiet (packets : Nat → List Packet) (e : Endpoint) :
    (startChannel packets e).phase = .quiet ∧ (startChannel packets e).out = 0 := by
  cases e with
  | interface n p =>
      simp only [startChannel]
      split <;> exact ⟨rfl, rfl⟩
  | router | core | outside => exact ⟨rfl, rfl⟩

theorem packetsOf_map (n : Nat) (packets : List Packet) :
    packetsOf (packets.map (Tagged.mk n)) = packets := by
  rw [packetsOf, List.map_map]
  exact List.map_id packets

theorem startChannel_into (mesh : Mesh) (packets : Nat → List Packet) (n i : Nat) :
    (i = localPort ∧ startChannel packets (mesh.peer (.router n i)) =
      ⟨.quiet, 0, (packets n).map (Tagged.mk n), flitsOf (packets n)⟩) ∨
      startChannel packets (mesh.peer (.router n i)) = ⟨.quiet, 0, [], []⟩ := by
  by_cases here : i = localPort
  · rw [here]
    exact .inl ⟨rfl, rfl⟩
  · simp only [Mesh.peer, if_neg here]
    split_ifs <;> exact .inr rfl

theorem Carried.load (mesh : Mesh) (memory interfaceMemory : Nat → Nat → List Flit)
    (packets : Nat → List Packet) : Carried mesh packets
      (MeshWorld.load memory interfaceMemory fun n => flitsOf (packets n))
      (startChannel packets) := by
  have clean : ∀ e, (MeshWorld.load memory interfaceMemory fun n => flitsOf (packets n)).port e =
      cleanPort := by
    intro e
    cases e <;> rfl
  have nothing : ∀ {buffer : Buffer} {channel : Channel}, buffer.Holds [] →
      channel.phase = .quiet → Relays buffer [] channel :=
    fun holds quiet => ⟨holds, fun busy => absurd quiet busy⟩
  refine ⟨?_, ?_, ?_, ?_, ?_, ?_, ?_⟩
  · intro e _
    obtain ⟨quiet, out⟩ := startChannel_quiet packets e
    rw [clean, clean]
    exact ⟨quiet ▸ .clean, out.symm⟩
  · intro n _
    refine ⟨_, Routes.load (memory n) (fun k _ => rfl) (fun k _ => ⟨rfl, rfl⟩) fun i _ => ?_⟩
    rcases startChannel_into mesh packets n i with ⟨_, whole⟩ | empty
    · rw [whole, packetsOf_map]
      rfl
    · rw [empty]
      rfl
  · intro n _
    exact ⟨[], nothing (.create _) rfl, rfl, rfl⟩
  · intro n _
    exact ⟨[], nothing (.create _) rfl, rfl⟩
  · intro n _
    exact ⟨rfl, rfl⟩
  · intro n k _
    exact ⟨rfl, rfl⟩
  · intro n known i _ tagged member
    rcases startChannel_into mesh packets n i with ⟨rfl, whole⟩ | empty
    · rw [whole] at member
      obtain ⟨packet, _, rfl⟩ := List.mem_map.mp member
      exact ⟨known, rfl⟩
    · rw [empty] at member
      cases member

theorem Carried.boot (wide : mesh.Wide) (packetSize : Nat)
    (memory interfaceMemory : Nat → Nat → List Flit) (packets : Nat → List Packet)
    (act : Nat → CoreAct) : ∃ channel, Carried mesh packets (MeshWorld.boot mesh packetSize memory
      interfaceMemory (fun n => flitsOf (packets n)) act) channel :=
  (Carried.load mesh memory interfaceMemory packets).cycleCores wide packetSize act _
    List.nodup_range fun _ member => ⟨List.mem_range.mp member, rfl⟩

theorem Carried.run (carried : Carried mesh packets world channel) (wide : mesh.Wide)
    (packetSize : Nat) (turns : List Turn) :
    ∃ channel', Carried mesh packets (world.ticks mesh packetSize turns) channel' := by
  induction turns generalizing world channel with
  | nil => exact ⟨channel, carried⟩
  | cons turn turns ih =>
      obtain ⟨_, ticked⟩ := carried.tick wide packetSize turn
      exact ih ticked

end Turns

end MpsocSim

end Hellfire

import Hellfire.MpsocMeshDelivery

/-!
The mesh does not block itself: as long as something is under way and the cores read, something
can move.
-/

namespace Hellfire

namespace MpsocSim

open Function DimensionOrder

section Sizes

def Router.sizes (router : Router) (k : Nat) : Nat := (router.buffers k).max

def NetworkInterface.sizes (ni : NetworkInterface) (p : Nat) : Nat := (ni.buffers p).max

def MeshWorld.sizes (world : MeshWorld) : (Nat → Nat → Nat) × (Nat → Nat → Nat) :=
  (fun n => (world.routers n).sizes, fun n => (world.interfaces n).sizes)

theorem update_sizes {buffers : Nat → Buffer} {i : Nat} {buffer : Buffer}
    (same : buffer.max = (buffers i).max) (k : Nat) :
    (update buffers i buffer k).max = (buffers k).max := by
  by_cases here : k = i
  · rw [here, update_self, same]
  · rw [update_of_ne here]

theorem put_sizes (buffers : Nat → Buffer) (i : Nat) (flit : Flit) (k : Nat) :
    (update buffers i ((buffers i).put flit) k).max = (buffers k).max :=
  update_sizes (show ((buffers i).put flit).max = (buffers i).max from rfl) k

theorem take_sizes (buffers : Nat → Buffer) (i k : Nat) :
    (update buffers i (buffers i).take.2 k).max = (buffers k).max :=
  update_sizes (show (buffers i).take.2.max = (buffers i).max from rfl) k

variable {mesh : Mesh} {world : MeshWorld}

theorem receiveOne_sizes (router : Router) (i : Nat) :
    (router.receiveOne i).sizes = router.sizes := by
  funext k
  simp only [Router.receiveOne]
  split_ifs
  · exact put_sizes router.buffers i _ k
  · rfl
  · rfl

theorem connect_sizes (mesh : Mesh) (n : Nat) (router : Router) :
    (router.connect mesh n).sizes = router.sizes := by
  simp only [Router.connect]
  split_ifs <;> rfl

theorem forwardOne_sizes (router : Router) (i : Nat) :
    (router.forwardOne i).sizes = router.sizes := by
  funext k
  simp only [Router.forwardOne, Router.forwardData]
  split
  · rfl
  · split_ifs
    · exact take_sizes router.buffers i k
    · rfl
  · split_ifs
    · exact take_sizes router.buffers i k
    · rfl
  · split_ifs
    · rfl
    · exact take_sizes router.buffers i k
    · rfl
    · rfl
  · split_ifs
    · rfl
    · exact take_sizes router.buffers i k
    · rfl
    · rfl

theorem foldl_kept {α β γ : Type} (value : α → γ) (step : α → β → α)
    (kept : ∀ state item, value (step state item) = value state) (items : List β) (state : α) :
    value (items.foldl step state) = value state := by
  induction items generalizing state with
  | nil => rfl
  | cons item items ih =>
      rw [List.foldl_cons, ih]
      exact kept state item

theorem cycleRouter_sizes (mesh : Mesh) (n : Nat) (router : Router) :
    (router.cycleRouter mesh n).sizes = router.sizes := by
  rw [Router.cycleRouter]
  calc ((((router.receive).connect mesh n).forward).turn mesh n).sizes
      = (((router.receive).connect mesh n).forward).sizes := rfl
    _ = ((router.receive).connect mesh n).sizes := foldl_kept _ _ forwardOne_sizes _ _
    _ = (router.receive).sizes := connect_sizes mesh n _
    _ = router.sizes := foldl_kept _ _ receiveOne_sizes _ _

theorem interface_sizes (ni : NetworkInterface) : ni.cycle.sizes = ni.sizes := by
  have accepted : ∀ p (ni : NetworkInterface), (ni.accept p).sizes = ni.sizes := by
    intro p ni
    funext k
    rw [accept_eq]
    split_ifs
    · exact put_sizes ni.buffers p _ k
    · rfl
    · rfl
  have released : ∀ b p (ni : NetworkInterface), (ni.release b p).sizes = ni.sizes := by
    intro b p ni
    funext k
    rw [NetworkInterface.release]
    split_ifs
    · exact take_sizes ni.buffers b k
    · rfl
  have presented : ∀ b p (ni : NetworkInterface), (ni.present b p).sizes = ni.sizes := by
    intro b p ni
    rw [NetworkInterface.present]
    split_ifs <;> rfl
  have emitted : ∀ b p (ni : NetworkInterface), (ni.emit b p).sizes = ni.sizes := by
    intro b p ni
    rw [NetworkInterface.emit]
    split_ifs
    · rw [presented, released]
    · rfl
  rw [NetworkInterface.cycle, emitted, emitted, accepted, accepted]

theorem setRouter_sizes {n : Nat} {router : Router}
    (same : router.sizes = (world.routers n).sizes) :
    (world.setRouter n router).sizes = world.sizes := by
  refine Prod.ext (funext fun m => ?_) rfl
  simp only [MeshWorld.sizes, MeshWorld.setRouter]
  by_cases here : m = n
  · rw [here, update_self, same]
  · rw [update_of_ne here]

theorem setInterface_sizes {n : Nat} {interface : NetworkInterface}
    (same : interface.sizes = (world.interfaces n).sizes) :
    (world.setInterface n interface).sizes = world.sizes := by
  refine Prod.ext rfl (funext fun m => ?_)
  simp only [MeshWorld.sizes, MeshWorld.setInterface]
  by_cases here : m = n
  · rw [here, update_self, same]
  · rw [update_of_ne here]

theorem setPort_sizes (world : MeshWorld) (e : Endpoint) (port : Port) :
    (world.setPort e port).sizes = world.sizes := by
  cases e with
  | router n k => exact setRouter_sizes rfl
  | interface n p => exact setInterface_sizes rfl
  | core | outside => rfl

theorem synchronize_sizes (world : MeshWorld) (d e : Endpoint) :
    (world.synchronize d e).sizes = world.sizes := by
  simp only [MeshWorld.synchronize]
  rw [setPort_sizes, setPort_sizes]

theorem synchronizeIf_sizes (world : MeshWorld) (flag : Bool) (d e : Endpoint) :
    (world.synchronizeIf flag d e).sizes = world.sizes := by
  rw [MeshWorld.synchronizeIf]
  split_ifs
  · exact synchronize_sizes world d e
  · rfl

theorem synchronizeNode_sizes (world : MeshWorld) (n : Nat) :
    (world.synchronizeNode mesh n).sizes = world.sizes := by
  simp only [MeshWorld.synchronizeNode, MeshWorld.synchronizeCore,
    MeshWorld.synchronizeNetworkInterface, MeshWorld.synchronizeRouter, synchronize_sizes,
    synchronizeIf_sizes]

theorem clockNode_sizes (world : MeshWorld) (n : Nat) :
    (world.clockNode mesh n).sizes = world.sizes := by
  have interfaces : ∀ world : MeshWorld, (world.cycleNetworkInterface n).sizes = world.sizes :=
    fun world => setInterface_sizes (interface_sizes _)
  simp only [MeshWorld.clockNode]
  split_ifs
  · rw [interfaces]
    exact setRouter_sizes (cycleRouter_sizes mesh n _)
  · exact interfaces world

theorem cycleCore_sizes (packetSize : Nat) (act : Nat → CoreAct) (world : MeshWorld) (n : Nat) :
    (world.cycleCore packetSize act n).sizes = world.sizes := by
  simp only [MeshWorld.cycleCore, MeshWorld.nocWrite, MeshWorld.nocRead]
  repeat' split
  all_goals rfl

theorem tick_sizes (packetSize : Nat) (world : MeshWorld) (turn : Turn) :
    (world.tick mesh packetSize turn).sizes = world.sizes := by
  simp only [MeshWorld.tick]
  rw [foldl_kept MeshWorld.sizes _ (cycleCore_sizes packetSize turn.act),
    foldl_kept MeshWorld.sizes _ clockNode_sizes,
    foldl_kept MeshWorld.sizes _ synchronizeNode_sizes, foldl_kept MeshWorld.sizes]
  · refine foldl_kept MeshWorld.sizes _ (fun world n => ?_) _ world
    rw [MeshWorld.raise]
    split_ifs <;> rfl
  · intro world n
    rw [MeshWorld.finishSending]
    split_ifs <;> rfl

theorem ticks_sizes (packetSize : Nat) (turns : List Turn) (world : MeshWorld) :
    (world.ticks mesh packetSize turns).sizes = world.sizes :=
  foldl_kept MeshWorld.sizes _ (tick_sizes packetSize) turns world

end Sizes

def Router.due (router : Router) : Router := { router with routingDelay := fun _ => 0 }

def Router.sameDelays (router after : Router) : Router :=
  { after with routingDelay := router.routingDelay }

/-- Something can move: one of the functions that the loop calls changes more than a counter, with
the arbiter of a router at the right input and its delays over. -/
inductive Moves (mesh : Mesh) (world : MeshWorld) : Prop
  | synchronize (e : Endpoint) : mesh.Inside e → e.Real → world.synchronizePeer mesh e ≠ world →
      Moves mesh world
  | receive (n i : Nat) : n < mesh.size → i < 5 →
      (world.routers n).receiveOne i ≠ world.routers n → Moves mesh world
  | connect (n i : Nat) : n < mesh.size → i < 5 →
      (Router.connect mesh n { world.routers n with arbiter := i }).status ≠
        (world.routers n).status → Moves mesh world
  | forward (n i : Nat) : n < mesh.size → i < 5 →
      (world.routers n).sameDelays ((world.routers n).due.forwardOne i) ≠ world.routers n →
      Moves mesh world
  | accept (n p : Nat) : n < mesh.size → (world.interfaces n).accept p ≠ world.interfaces n →
      Moves mesh world
  | emitUp (n : Nat) : n < mesh.size →
      (world.interfaces n).emit plasma noc ≠ world.interfaces n → Moves mesh world
  | emitDown (n : Nat) : n < mesh.size →
      (world.interfaces n).emit noc plasma ≠ world.interfaces n → Moves mesh world
  | finishSending (n : Nat) : n < mesh.size → world.finishSending n ≠ world → Moves mesh world

section Still

variable {mesh : Mesh} {packets : Nat → List Packet} {world : MeshWorld}
  {channel : Endpoint → Channel} {n i k : Nat} {station : Station}

theorem Carried.settled (carried : Carried mesh packets world channel) (wide : mesh.Wide)
    (still : ¬Moves mesh world) {e : Endpoint} (inside : mesh.Inside e) (real : e.Real)
    (real' : (mesh.peer e).Real) :
    (channel e).phase ≠ .offered ∧ (channel e).phase ≠ .taken := by
  have same : world.synchronize e (mesh.peer e) = world := by
    rw [← synchronizePeer_real real']
    by_contra moves
    exact still (.synchronize e inside real moves)
  have ports := synchronize_port world real real'
  rw [same] at ports
  have joined := carried.linked e inside
  obtain ⟨next, _⟩ := joined.link.synchronize
  have sender : world.port e = (synchronizePorts (world.port e) (world.port (mesh.peer e))).1 := by
    have shown := congrFun ports e
    rwa [update_of_ne (Ne.symm (wide.peer_ne_self inside)), update_self] at shown
  have receiver : world.port (mesh.peer e) =
      (synchronizePorts (world.port e) (world.port (mesh.peer e))).2 := by
    have shown := congrFun ports (mesh.peer e)
    rwa [update_self] at shown
  rw [← sender, ← receiver] at next
  constructor
  · intro offered
    have before := joined.link.requested
    rw [next.requested, offered] at before
    simp [Phase.next] at before
  · intro taken
    have before := joined.link.acknowledge
    rw [next.acknowledge, taken] at before
    simp [Phase.next] at before

theorem Carried.waits (carried : Carried mesh packets world channel) (wide : mesh.Wide)
    (still : ¬Moves mesh world) (known : n < mesh.size) (bound : i < 5)
    (requested : (channel (mesh.peer (.router n i))).phase = .requested) :
    ((world.routers n).buffers i).isFull = true := by
  by_contra room
  have same : (world.routers n).receiveOne i = world.routers n := by
    by_contra moves
    exact still (.receive n i known bound moves)
  obtain ⟨sender, back⟩ := wide.peer_inside (e := .router n i) ⟨known, bound⟩
  have link := (carried.linked _ sender).link
  rw [back, requested] at link
  have request : ((world.routers n).ports i).inRequest = true := link.requested
  have taken := congrArg (fun router : Router => (router.ports i).inAck) same
  rw [Router.receiveOne, if_pos request, if_pos (by simpa using room)] at taken
  simp only [update_self] at taken
  have fresh : ((world.routers n).ports i).inAck = false := link.taken
  rw [← taken] at fresh
  cases fresh

theorem full_nonempty {buffer : Buffer} {stored : List Flit} (holds : buffer.Holds stored)
    (full : buffer.isFull = true) (room : 0 < buffer.max) : stored ≠ [] := by
  rw [holds.isFull, decide_eq_true_eq] at full
  rintro rfl
  rw [List.length_nil] at full
  omega

theorem empty_room {buffer : Buffer} (holds : buffer.Holds []) (room : 0 < buffer.max) :
    buffer.isFull = false := by
  cases full : buffer.isFull with
  | false => rfl
  | true => exact absurd rfl (full_nonempty holds full room)

theorem accepts {ni : NetworkInterface} {p : Nat} {sender : Port}
    (link : Link .requested sender (ni.ports p)) (room : (ni.buffers p).isFull = false) :
    ni.accept p ≠ ni := by
  intro unchanged
  rw [accept_eq, if_pos (show (ni.ports p).inRequest = true from link.requested),
    if_pos room] at unchanged
  have acked := congrArg (fun ni : NetworkInterface => (ni.ports p).inAck) unchanged
  simp only [NetworkInterface.takeInput, update_self] at acked
  rw [show (ni.ports p).inAck = false from link.taken] at acked
  cases acked

theorem Routes.contended (routes : Routes mesh n (world.routers n) station
      (fun i => channel (mesh.peer (.router n i))) (fun k => channel (.router n k)))
    (still : ¬Moves mesh world) (known : n < mesh.size) (bound : i < 5)
    (idle : (world.routers n).status i = .idle) (stored : station.contents i ≠ []) :
    ∃ first later, station.coming i = first :: later ∧ ∃ j < 5,
      (world.routers n).status j ≠ .idle ∧
      (world.routers n).redirectTo j = mesh.dest n first.packet.header := by
  have some_flit : ((world.routers n).buffers i).isEmpty = false := by
    rw [(routes.holds i bound).isEmpty]
    exact decide_eq_false stored
  obtain ⟨_, first, later, coming, header⟩ := routes.waiting bound idle some_flit
  refine ⟨first, later, coming, ?_⟩
  by_contra free
  refine still (.connect n i known bound fun same => ?_)
  have unused : ({ world.routers n with arbiter := i } : Router).inUse i
      (mesh.dest n ((world.routers n).buffers i).read) = false := by
    rw [Router.inUse, List.any_eq_false]
    intro j member
    simp only [decide_eq_true_eq]
    rintro ⟨_, busy, dest⟩
    rw [header] at dest
    exact free ⟨j, List.mem_range.mp member, busy, dest⟩
  have connected := congrFun same i
  simp only [Router.connect] at connected
  rw [if_pos ⟨idle, some_flit⟩, if_pos unused] at connected
  simp only [update_self] at connected
  rw [idle] at connected
  cases connected

section Forwarding

variable (router : Router)

theorem forwardOne_header (delays : router.status i = .routingDelay)
    (elapsed : router.routingDelay i ≤ 0) (some_flit : (router.buffers i).isEmpty = false) :
    (router.forwardOne i).status i = .routingHeader := by
  simp only [Router.forwardOne, delays]
  rw [if_pos ⟨elapsed, some_flit⟩]
  simp only [Router.setStatus, update_self]

theorem forwardOne_payload (header : router.status i = .routingHeader)
    (ack : (router.ports (router.redirectTo i)).outAck = true)
    (some_flit : (router.buffers i).isEmpty = false) :
    (router.forwardOne i).status i = .routingPayload := by
  simp only [Router.forwardOne, header]
  rw [if_pos ⟨ack, some_flit⟩]
  simp only [Router.setStatus, update_self]

theorem forwardOne_data (sending : router.status i = .routingPayload ∨ router.status i = .routingData)
    (ack : (router.ports (router.redirectTo i)).outAck = true) :
    router.forwardOne i = if router.packetsRemaining i = 0 then (router.setStatus i .routingData).close i
      else if (router.buffers i).isEmpty = false then
        ((router.setStatus i .routingData).send i).setRemaining i (router.packetsRemaining i - 1)
      else router.setStatus i .routingData := by
  have same : router.forwardOne i = router.forwardData i := by
    rcases sending with payload | data
    · simp only [Router.forwardOne, payload]
    · simp only [Router.forwardOne, data]
  rw [same, Router.forwardData, if_pos ack]
  rfl

end Forwarding

theorem still_forward (still : ¬Moves mesh world) (known : n < mesh.size) (bound : i < 5) :
    (world.routers n).sameDelays ((world.routers n).due.forwardOne i) = world.routers n := by
  by_contra moves
  exact still (.forward n i known bound moves)

theorem Routes.starves (routes : Routes mesh n (world.routers n) station
      (fun i => channel (mesh.peer (.router n i))) (fun k => channel (.router n k)))
    (linked : Linked mesh world channel) (still : ¬Moves mesh world) (known : n < mesh.size)
    (bound : i < 5) (busy : (world.routers n).status i ≠ .idle)
    (settled : (channel (.router n ((world.routers n).redirectTo i))).phase = .quiet ∨
      (channel (.router n ((world.routers n).redirectTo i))).phase = .acknowledged) :
    station.contents i = [] ∧ (channel (mesh.peer (.router n i))).pending ≠ [] := by
  have bound' := routes.bound bound busy
  obtain ⟨first, later, coming, _, occupied⟩ := routes.connected i bound busy
  have link := (linked (.router n ((world.routers n).redirectTo i)) ⟨known, bound'⟩).link
  -- A connection that has sent something waits for an acknowledged output.
  have ready : station.taken i ≠ [] →
      ((world.routers n).ports ((world.routers n).redirectTo i)).outAck = true := by
    intro some_flit
    cases occupied with
    | waiting none _ => exact absurd none some_flit
    | sending _ used _ _ =>
        have acknowledged := settled.resolve_left used
        rw [acknowledged] at link
        exact link.acknowledge
  have same := still_forward still known bound
  have statuses : ((world.routers n).due.forwardOne i).status i = (world.routers n).status i := by
    have shown := congrArg (fun router : Router => router.status i) same
    exact shown
  have remaining : ((world.routers n).due.forwardOne i).packetsRemaining i =
      (world.routers n).packetsRemaining i := by
    have shown := congrArg (fun router : Router => router.packetsRemaining i) same
    exact shown
  have nonempty : station.contents i ≠ [] → ((world.routers n).due.buffers i).isEmpty = false := by
    intro some_flit
    exact (routes.holds i bound).isEmpty.trans (decide_eq_false some_flit)
  have flits := routes.flits i bound
  have progress := routes.progress i bound
  rw [coming, packetsOf, List.map_cons, flitsOf_cons] at flits
  cases status : (world.routers n).status i with
  | idle => exact absurd status busy
  | routingDelay =>
      rw [status] at progress
      have empty : station.contents i = [] := by
        by_contra some_flit
        have moved := forwardOne_header (world.routers n).due status (Int.le_refl 0)
          (nonempty some_flit)
        rw [statuses, status] at moved
        cases moved
      refine ⟨empty, fun nothing => ?_⟩
      rw [progress.2, empty, nothing] at flits
      cases flits
  | routingHeader =>
      rw [status] at progress
      obtain ⟨packet, others, whole, taken⟩ := progress
      have ack := ready (by rw [taken]; simp)
      have empty : station.contents i = [] := by
        by_contra some_flit
        have moved := forwardOne_payload (world.routers n).due status ack
          (nonempty some_flit)
        rw [statuses, status] at moved
        cases moved
      refine ⟨empty, fun nothing => ?_⟩
      rw [taken, empty, nothing, Packet.flits] at flits
      simp at flits
  | routingPayload | routingData =>
      rw [status] at progress
      obtain ⟨packet, others, sent, rest, whole, split, taken, count⟩ := progress
      have ack := ready (by rw [taken]; simp)
      have moved := forwardOne_data (world.routers n).due (by simp [Router.due, status]) ack
      rw [moved] at statuses remaining
      have more : ¬(world.routers n).due.packetsRemaining i = 0 := by
        intro last
        rw [if_pos last, status] at statuses
        simp [Router.close] at statuses
      rw [if_neg more] at remaining
      have empty : station.contents i = [] := by
        by_contra some_flit
        rw [if_pos (nonempty some_flit)] at remaining
        simp [Router.setRemaining, Router.due] at remaining
      refine ⟨empty, fun nothing => more ?_⟩
      rw [coming, packetsOf, List.map_cons] at whole
      obtain ⟨rfl, _⟩ := List.cons.inj whole
      have lengths := congrArg List.length flits
      rw [taken, empty, nothing, Packet.flits, split] at lengths
      simp only [List.length_append, List.length_cons, List.length_nil] at lengths
      have none : rest.length = 0 := by omega
      rw [show (world.routers n).due.packetsRemaining i = _ from count, none]
      rfl

end Still

def linkRank (mesh : Mesh) (n k : Nat) : Nat :=
  rank mesh.width mesh.height (mesh.place n) (exit k)

theorem linkRank_lt {mesh : Mesh} (wide : mesh.Wide) {n : Nat} (known : n < mesh.size) (k : Nat) :
    linkRank mesh n k < mesh.width + mesh.height + 2 :=
  rank_lt_bound (wide.column_lt n) (Mesh.line_lt known) (exit k)

theorem OnWay.descends {mesh : Mesh} (wide : mesh.Wide) {n k m j : Nat} {tagged : Tagged}
    (known : n < mesh.size) (bound : k < 5) (joined : mesh.peer (.router n k) = .router m j)
    (way : OnWay mesh m j tagged) :
    linkRank mesh m (mesh.dest m tagged.packet.header) < linkRank mesh n k := by
  cases wide.joint known bound with
  | here _ elsewhere =>
      rw [joined] at elsewhere
      cases elsewhere
  | border _ elsewhere =>
      rw [joined] at elsewhere
      cases elsewhere
  | across m' j' _ _ known' _ _ joined' _ place into moves opens =>
      rw [joined, Endpoint.router.injEq] at joined'
      obtain ⟨rfl, rfl⟩ := joined'
      have turns := mesh.heading_target m tagged.packet
      have enters := way.2
      have column : (mesh.place m).column < mesh.width := wide.column_lt m
      have line : (mesh.place m).line < mesh.height := Mesh.line_lt known'
      rw [place] at turns enters column line
      rw [into] at enters
      rw [linkRank, linkRank, place]
      exact enters.rank_lt turns opens moves column line

/-- The mesh when nothing can move, every core that is not sending has written its packets, no core has
a flit to read, and every header names a router. -/
structure AtRest (mesh : Mesh) (packets : Nat → List Packet) (world : MeshWorld)
    (channel : Endpoint → Channel) : Prop where
  carried : Carried mesh packets world channel
  wide : mesh.Wide
  still : ¬Moves mesh world
  routerRoom : ∀ n < mesh.size, ∀ k < 5, 0 < ((world.routers n).buffers k).max
  interfaceRoom : ∀ n < mesh.size, ∀ p < 2, 0 < ((world.interfaces n).buffers p).max
  named : ∀ n < mesh.size, ∀ packet ∈ packets n, mesh.headerToDecimal packet.header < mesh.size
  written : ∀ n < mesh.size, world.isSending n = false → world.offers n = []
  read : ∀ n < mesh.size, (world.cores n).inRequest = false

theorem Carried.sent {mesh : Mesh} {packets : Nat → List Packet} {world : MeshWorld}
    {channel : Endpoint → Channel} {n i : Nat} (carried : Carried mesh packets world channel)
    (wide : mesh.Wide) (known : n < mesh.size) (bound : i < 5) {tagged : Tagged}
    (member : tagged ∈ (channel (mesh.peer (.router n i))).started) :
    tagged.packet ∈ packets tagged.source := by
  have ordered := carried.inOrder (s := tagged.source)
    (d := mesh.headerToDecimal tagged.packet.header) wide _ n known i bound rfl
  have found := ordered.subset (List.mem_filter.mpr ⟨member, between_iff.mpr ⟨rfl, rfl⟩⟩)
  obtain ⟨packet, known, same⟩ := List.mem_map.mp (List.mem_filter.mp found).1
  rw [← same]
  exact known

theorem Mesh.Wide.dest_real {mesh : Mesh} (wide : mesh.Wide) {n : Nat} (known : n < mesh.size)
    {flit : Flit} (named : mesh.headerToDecimal flit < mesh.size) :
    (mesh.peer (.router n (mesh.dest n flit))).Real := by
  have column := wide.column_lt (mesh.headerToDecimal flit)
  have line := Mesh.line_lt named
  have line' := Mesh.line_lt known
  simp only [Mesh.dest]
  split_ifs with here eastward westward southward
  · exact trivial
  · rw [show mesh.peer (.router n east) = .router (n + 1) west from if_pos (by omega)]
    exact trivial
  · rw [show mesh.peer (.router n west) = .router (n - 1) east from if_pos (by omega)]
    exact trivial
  · rw [show mesh.peer (.router n south) = .router (n - mesh.width) north from if_pos (by omega)]
    exact trivial
  · rw [show mesh.peer (.router n north) = .router (n + mesh.width) south from if_pos (by omega)]
    exact trivial

namespace AtRest

variable {mesh : Mesh} {packets : Nat → List Packet} {world : MeshWorld}
  {channel : Endpoint → Channel} {n i k : Nat} {station : Station}

theorem calm (rest : AtRest mesh packets world channel) {e : Endpoint} (inside : mesh.Inside e)
    (real : e.Real) (real' : (mesh.peer e).Real) (unasked : (channel e).phase ≠ .requested) :
    (channel e).phase = .quiet ∨ (channel e).phase = .acknowledged := by
  obtain ⟨offered, taken⟩ := rest.carried.settled rest.wide rest.still inside real real'
  cases phase : (channel e).phase with
  | quiet => exact .inl rfl
  | offered => exact absurd phase offered
  | requested => exact absurd phase unasked
  | taken => exact absurd phase taken
  | acknowledged => exact .inr rfl

theorem calm_unread {channel : Channel}
    (calm : channel.phase = .quiet ∨ channel.phase = .acknowledged) :
    unread channel.phase channel.out = [] := by
  rcases calm with quiet | acknowledged
  · rw [quiet]
    rfl
  · rw [acknowledged]
    rfl

theorem empties {ni : NetworkInterface} {held : List Flit} {onward : Channel} {b p : Nat}
    {receiver : Port} (relays : Relays (ni.buffers b) held onward)
    (link : Link onward.phase (ni.ports p) receiver) (same : ni.emit b p = ni)
    (calm : onward.phase = .quiet ∨ onward.phase = .acknowledged) :
    held = [] ∧ onward.phase = .quiet := by
  have empty : held = [] := by
    by_contra some_flit
    have nonempty : (ni.buffers b).isEmpty = false := by
      rw [relays.holds.isEmpty]
      exact decide_eq_false some_flit
    rw [NetworkInterface.emit, if_pos nonempty] at same
    rcases calm with quiet | acknowledged
    · have unacknowledged : ¬(ni.ports p).outAck = true := by
        rw [link.acknowledge, quiet]
        simp
      have shown := congrArg (fun ni : NetworkInterface => (ni.ports p).outRequest) same
      rw [NetworkInterface.release, if_neg unacknowledged, NetworkInterface.present,
        if_pos nonempty] at shown
      simp only [update_self] at shown
      rw [link.request, quiet] at shown
      cases shown
    · have ack : (ni.ports p).outAck = true := by
        rw [link.acknowledge, acknowledged]
        rfl
      have fewer := congrArg (fun ni : NetworkInterface => (ni.buffers b).size) same
      have kept : ∀ ni : NetworkInterface, (ni.present b p).buffers = ni.buffers := by
        intro ni
        rw [NetworkInterface.present]
        split_ifs <;> rfl
      simp only [kept] at fewer
      rw [NetworkInterface.release, if_pos ack] at fewer
      simp only [update_self, Buffer.take] at fewer
      omega
  refine ⟨empty, calm.resolve_right fun acknowledged => ?_⟩
  obtain ⟨later, stored⟩ := relays.shown (by simp [acknowledged])
  rw [empty] at stored
  cases stored

theorem silent (rest : AtRest mesh packets world channel) (known : n < mesh.size)
    (calm : (channel (.core n)).phase = .quiet ∨ (channel (.core n)).phase = .acknowledged) :
    world.isSending n = false := by
  rw [(rest.carried.writers n known).sending]
  rcases calm with quiet | acknowledged
  · exact decide_eq_false (not_not_intro quiet)
  · have sending : world.isSending n = true := by
      rw [(rest.carried.writers n known).sending, acknowledged]
      rfl
    have link := (rest.carried.linked (.core n) known).link
    rw [acknowledged] at link
    have ack : (world.cores n).outAck = true := link.acknowledge
    refine absurd (Moves.finishSending n known fun same => ?_) rest.still
    have after := congrFun (congrArg MeshWorld.isSending same) n
    rw [MeshWorld.finishSending, if_pos ⟨sending, ack⟩] at after
    simp only [update_self, sending] at after
    cases after

theorem uplink_dry (rest : AtRest mesh packets world channel) (known : n < mesh.size)
    (unasked : (channel (.interface n noc)).phase ≠ .requested) :
    (channel (.interface n noc)).pending = [] := by
  have carried := rest.carried
  obtain ⟨held, uplink⟩ := carried.uplinks n known
  have inside : mesh.Inside (.interface n noc) := ⟨known, by decide⟩
  have same : (world.interfaces n).emit plasma noc = world.interfaces n := by
    by_contra moves
    exact rest.still (.emitUp n known moves)
  have calm := rest.calm inside trivial trivial unasked
  obtain ⟨rfl, quiet⟩ := empties uplink.relays (carried.linked _ inside).link same calm
  -- The core has no flit at its port either: the buffer would take it.
  have core : mesh.Inside (.core n) := known
  have joined := carried.linked _ core
  have asked : (channel (.core n)).phase ≠ .requested := by
    intro requested
    have link := joined.link
    rw [requested] at link
    exact rest.still (.accept n plasma known
      (accepts link (empty_room uplink.relays.holds (rest.interfaceRoom n known plasma (by decide)))))
  have core_calm := rest.calm core trivial trivial asked
  rw [Channel.pending, uplink.rest, Channel.unshown, if_pos quiet, Channel.pending,
    calm_unread core_calm, (carried.writers n known).rest,
    rest.written n known (rest.silent known core_calm), quiet]
  rfl

theorem downlink_dry (rest : AtRest mesh packets world channel) (known : n < mesh.size) :
    (channel (.router n localPort)).phase ≠ .requested ∧
      flitsOf (packetsOf (channel (.router n localPort)).started) =
        world.received n ++ (channel (.router n localPort)).pending := by
  have carried := rest.carried
  obtain ⟨held, downlink⟩ := carried.downlinks n known
  have inside : mesh.Inside (.interface n plasma) := ⟨known, by decide⟩
  have link := (carried.linked _ inside).link
  have unasked : (channel (.interface n plasma)).phase ≠ .requested := by
    intro requested
    rw [requested] at link
    have request : (world.cores n).inRequest = true := link.requested
    rw [rest.read n known] at request
    cases request
  have same : (world.interfaces n).emit noc plasma = world.interfaces n := by
    by_contra moves
    exact rest.still (.emitDown n known moves)
  obtain ⟨rfl, quiet⟩ := empties downlink.relays link same
    (rest.calm inside trivial trivial unasked)
  have flits := downlink.flits
  rw [Channel.relayed, Channel.unshown, if_pos quiet, quiet] at flits
  refine ⟨fun requested => ?_, flits⟩
  have inside' : mesh.Inside (.router n localPort) := ⟨known, by decide⟩
  have link' := (carried.linked _ inside').link
  rw [requested] at link'
  exact rest.still (.accept n noc known
    (accepts link' (empty_room downlink.relays.holds (rest.interfaceRoom n known noc (by decide)))))

theorem onward_real (rest : AtRest mesh packets world channel) (known : n < mesh.size)
    (bound : i < 5) {tagged : Tagged}
    (member : tagged ∈ (channel (mesh.peer (.router n i))).started) :
    (mesh.peer (.router n (mesh.dest n tagged.packet.header))).Real := by
  have known' := (rest.carried.ways n known i bound tagged member).1
  exact rest.wide.dest_real known
    (rest.named _ known' _ (rest.carried.sent rest.wide known bound member))

/-- A packet whose flits have not all come in is still on the link behind the router. -/
theorem feeding (rest : AtRest mesh packets world channel) (known : n < mesh.size) (bound : i < 5)
    (routes : Routes mesh n (world.routers n) station
      (fun i => channel (mesh.peer (.router n i))) (fun k => channel (.router n k)))
    (empty : station.contents i = [])
    (pending : (channel (mesh.peer (.router n i))).pending ≠ []) :
    ∃ m k, m < mesh.size ∧ k < 5 ∧ mesh.peer (.router n i) = .router m k ∧
      mesh.peer (.router m k) = .router n i ∧ (channel (.router m k)).phase ≠ .requested ∧
      (channel (.router m k)).rest ≠ [] := by
  have unasked : (channel (mesh.peer (.router n i))).phase ≠ .requested := by
    intro requested
    exact full_nonempty (routes.holds i bound)
      (rest.carried.waits rest.wide rest.still known bound requested)
      (rest.routerRoom n known i bound) empty
  cases rest.wide.joint known bound with
  | here _ joined =>
      rw [joined] at unasked pending
      exact absurd (rest.uplink_dry known unasked) pending
  | border _ joined =>
      have border : mesh.Inside (.outside n i) := ⟨known, bound, joined⟩
      have streams := routes.streams i bound
      have flits := routes.flits i bound
      rw [joined, (rest.carried.borders n i border).2] at streams
      rw [(List.append_eq_nil_iff.mp streams.symm).2] at flits
      exact absurd (List.append_eq_nil_iff.mp (List.append_eq_nil_iff.mp flits.symm).2).2 pending
  | across m k _ _ known' bound' _ joined back =>
      refine ⟨m, k, known', bound', joined, back, ?_⟩
      rw [joined] at unasked pending
      refine ⟨unasked, fun none => pending ?_⟩
      have calm := rest.calm (e := .router m k) ⟨known', bound'⟩ trivial (by rw [back]; trivial)
        unasked
      rw [Channel.pending, calm_unread calm, none]
      rfl

/-- A connection whose output has no flit to be taken waits for one of its packet, which is on
the link behind the router. -/
theorem starved (rest : AtRest mesh packets world channel) (known : n < mesh.size) (bound : i < 5)
    (routes : Routes mesh n (world.routers n) station
      (fun i => channel (mesh.peer (.router n i))) (fun k => channel (.router n k)))
    (busy : (world.routers n).status i ≠ .idle)
    (unasked : (channel (.router n ((world.routers n).redirectTo i))).phase ≠ .requested) :
    ∃ m k, m < mesh.size ∧ k < 5 ∧ mesh.peer (.router m k) = .router n i ∧
      (channel (.router m k)).phase ≠ .requested ∧ (channel (.router m k)).rest ≠ [] ∧
      linkRank mesh n ((world.routers n).redirectTo i) < linkRank mesh m k := by
  obtain ⟨first, later, coming, dest, _⟩ := routes.connected i bound busy
  have came : first ∈ (channel (mesh.peer (.router n i))).started := by
    have streams := routes.streams i bound
    rw [streams, coming]
    exact List.mem_append_right _ List.mem_cons_self
  have real := rest.onward_real known bound came
  rw [← dest] at real
  have calm := rest.calm (e := .router n ((world.routers n).redirectTo i))
    ⟨known, routes.bound bound busy⟩ trivial real unasked
  obtain ⟨empty, pending⟩ := routes.starves rest.carried.linked rest.still known bound busy calm
  obtain ⟨m, k, known', bound', _, back, unasked', some_flit⟩ :=
    rest.feeding known bound routes empty pending
  refine ⟨m, k, known', bound', back, unasked', some_flit, ?_⟩
  rw [dest]
  exact (rest.carried.ways n known i bound first came).descends rest.wide known' bound' back

/-- No connection waits for flits: they would wait further and further up. By induction on the
rank of the link, downwards. -/
theorem no_starving (rest : AtRest mesh packets world channel) (above : Nat) :
    ∀ n < mesh.size, ∀ k < 5, mesh.width + mesh.height + 2 ≤ linkRank mesh n k + above →
      (channel (.router n k)).phase ≠ .requested → (channel (.router n k)).rest = [] := by
  induction above with
  | zero =>
      intro n known k _ high
      exact absurd high (Nat.not_le_of_lt (linkRank_lt rest.wide known k))
  | succ above ih =>
      intro n known k bound high unasked
      by_contra some_flit
      obtain ⟨station, routes⟩ := rest.carried.routers n known
      have used : ∃ i < 5, (world.routers n).status i ≠ .idle ∧
          (world.routers n).redirectTo i = k := by
        by_contra free
        exact some_flit (routes.unused k bound fun i inside busy same =>
          free ⟨i, inside, busy, same⟩).rest
      obtain ⟨i, inside, busy, rfl⟩ := used
      obtain ⟨m, j, known', bound', _, unasked', waits, higher⟩ :=
        rest.starved known inside routes busy unasked
      exact waits (ih m known' j bound' (by omega) unasked')

/-- No flit waits at a router: the one in front of it would wait for an output, and so on. By
induction on the rank of the link, upwards. -/
theorem no_blocking (rest : AtRest mesh packets world channel) (length : Nat) :
    ∀ n < mesh.size, ∀ k < 5, linkRank mesh n k = length →
      (channel (.router n k)).phase ≠ .requested := by
  induction length using Nat.strong_induction_on with
  | h length ih =>
      intro n known k bound rank requested
      have link := (rest.carried.linked (.router n k) ⟨known, bound⟩).link
      rw [requested] at link
      cases rest.wide.joint known bound with
      | here is_local _ =>
          rw [is_local] at requested
          exact (rest.downlink_dry known).1 requested
      | border _ joined =>
          rw [joined] at link
          have request := link.requested
          cases request
      | across m j _ _ known' bound' _ joined back =>
          obtain ⟨station, routes⟩ := rest.carried.routers m known'
          have stored : station.contents j ≠ [] := by
            refine full_nonempty (routes.holds j bound') ?_ (rest.routerRoom m known' j bound')
            exact rest.carried.waits rest.wide rest.still known' bound' (by rw [back]; exact requested)
          -- Some connection of the router uses the output that the first packet needs.
          obtain ⟨first, later, coming, i, inside, busy, dest⟩ : ∃ first later,
              station.coming j = first :: later ∧ ∃ i < 5, (world.routers m).status i ≠ .idle ∧
              (world.routers m).redirectTo i = mesh.dest m first.packet.header := by
            by_cases idle : (world.routers m).status j = .idle
            · exact routes.contended rest.still known' bound' idle stored
            · obtain ⟨first, later, coming, dest, _⟩ := routes.connected j bound' idle
              exact ⟨first, later, coming, j, bound', idle, dest⟩
          have came : first ∈ (channel (mesh.peer (.router m j))).started := by
            have streams := routes.streams j bound'
            rw [streams, coming]
            exact List.mem_append_right _ List.mem_cons_self
          have descends := (rest.carried.ways m known' j bound' first came).descends rest.wide known
            bound joined
          rw [← dest, rank] at descends
          have unasked := ih _ descends m known' _ (routes.bound inside busy) rfl
          obtain ⟨m', k', known'', bound'', _, unasked', waits, _⟩ :=
            rest.starved known' inside routes busy unasked
          exact waits (rest.no_starving _ m' known'' k' bound'' (Nat.le_add_left _ _) unasked')

theorem idle (rest : AtRest mesh packets world channel) (known : n < mesh.size) (bound : i < 5) :
    (world.routers n).status i = .idle := by
  by_contra busy
  obtain ⟨station, routes⟩ := rest.carried.routers n known
  have unasked := rest.no_blocking _ n known _ (routes.bound bound busy) rfl
  obtain ⟨m, k, known', bound', _, unasked', waits, _⟩ :=
    rest.starved known bound routes busy unasked
  exact waits (rest.no_starving _ m known' k bound' (Nat.le_add_left _ _) unasked')

theorem passed (rest : AtRest mesh packets world channel) (known : n < mesh.size) :
    ∃ station, Routes mesh n (world.routers n) station
      (fun i => channel (mesh.peer (.router n i))) (fun k => channel (.router n k)) ∧
      (∀ i < 5, (channel (mesh.peer (.router n i))).started = takenFrom station.closed i) ∧
      ∀ k < 5, Vacant station.closed k (channel (.router n k)) := by
  obtain ⟨station, routes⟩ := rest.carried.routers n known
  have vacant : ∀ m < mesh.size, ∀ k < 5, ∀ station, Routes mesh m (world.routers m) station
      (fun i => channel (mesh.peer (.router m i))) (fun k => channel (.router m k)) →
      Vacant station.closed k (channel (.router m k)) := by
    intro m known' k bound station routes
    exact routes.unused k bound fun i inside busy => absurd (rest.idle known' inside) busy
  refine ⟨station, routes, fun i bound => ?_, fun k bound => vacant n known k bound station routes⟩
  have empty : station.contents i = [] := by
    by_contra stored
    obtain ⟨_, _, _, j, inside, busy, _⟩ :=
      routes.contended rest.still known bound (rest.idle known bound) stored
    exact busy (rest.idle known inside)
  have dry : (channel (mesh.peer (.router n i))).pending = [] := by
    by_contra pending
    obtain ⟨m, k, known', bound', _, _, _, waits⟩ := rest.feeding known bound routes empty pending
    obtain ⟨station', routes'⟩ := rest.carried.routers m known'
    exact waits (vacant m known' k bound' station' routes').rest
  have progress := routes.progress i bound
  rw [rest.idle known bound] at progress
  have flits := routes.flits i bound
  rw [progress, empty, dry] at flits
  have streams := routes.streams i bound
  rw [streams]
  cases coming : station.coming i with
  | nil => exact List.append_nil _
  | cons first later =>
      rw [coming, packetsOf, List.map_cons, flitsOf_cons, Packet.flits] at flits
      cases flits

/-- The packets from one core to another go on from router to router. By induction on the rank of
the link that the next one takes. -/
theorem onward (rest : AtRest mesh packets world channel) {s d : Nat} {sample : Tagged}
    (flows : sample.between mesh s d = true) {whole : List Tagged} (member : sample ∈ whole)
    (length : Nat) : ∀ n < mesh.size, ∀ i < 5,
      linkRank mesh n (mesh.dest n sample.packet.header) = length →
      (channel (mesh.peer (.router n i))).started.filter (Tagged.between mesh s d) = whole →
      (channel (.router d localPort)).started.filter (Tagged.between mesh s d) = whole := by
  induction length using Nat.strong_induction_on with
  | h length ih =>
      intro n known i bound rank came
      obtain ⟨station, routes, taken, vacant⟩ := rest.passed known
      have member' : sample ∈ (channel (mesh.peer (.router n i))).started :=
        (List.mem_filter.mp (came ▸ member)).1
      have way := rest.carried.ways n known i bound sample member'
      have leaves := routes.forwarded (rest.carried.ways n known) bound way flows rfl
      have bound' := dest_lt mesh n sample.packet.header
      have real := rest.onward_real known bound member'
      have turns := mesh.heading_target n sample.packet
      generalize mesh.dest n sample.packet.header = k at *
      rw [← taken i bound, came, ← (vacant k bound').started] at leaves
      cases rest.wide.joint known bound' with
      | here is_local _ =>
          rw [is_local] at turns leaves
          have there := Mesh.place_injective (heading_here_iff.mp turns)
          rw [there, (between_iff.mp flows).2] at leaves
          exact leaves
      | border _ joined =>
          rw [joined] at real
          exact real.elim
      | across m j _ _ known' inside _ joined back =>
          rw [← back] at leaves
          have member'' : sample ∈ (channel (mesh.peer (.router m j))).started :=
            (List.mem_filter.mp (leaves ▸ member)).1
          have descends := (rest.carried.ways m known' j inside sample member'').descends
            rest.wide known bound' joined
          rw [rank] at descends
          exact ih _ descends m known' j inside rfl leaves

theorem complete (rest : AtRest mesh packets world channel) {d : Nat} (known : d < mesh.size)
    {s : Nat} (known' : s < mesh.size) :
    (channel (.router d localPort)).started.filter (Tagged.between mesh s d) =
      ((packets s).map (Tagged.mk s)).filter (Tagged.between mesh s d) := by
  by_cases none : ((packets s).map (Tagged.mk s)).filter (Tagged.between mesh s d) = []
  · have ordered := rest.carried.ordered rest.wide known s
    rw [none] at ordered ⊢
    exact List.prefix_nil.mp ordered
  · obtain ⟨sample, member⟩ := List.exists_mem_of_ne_nil _ none
    obtain ⟨held, uplink⟩ := rest.carried.uplinks s known'
    refine rest.onward (List.mem_filter.mp member).2 member _ s known' localPort (by decide) rfl ?_
    rw [show mesh.peer (.router s localPort) = .interface s noc from rfl, uplink.started]

end AtRest

def Delivered (mesh : Mesh) (packets : Nat → List Packet) (world : MeshWorld) (d : Nat) : Prop :=
  ∃ arrived : List Tagged, world.received d = flitsOf (packetsOf arrived) ∧
    (∀ tagged ∈ arrived, tagged.source < mesh.size) ∧
    ∀ s < mesh.size, packetsOf (arrived.filter fun tagged => tagged.source = s) =
      (packets s).filter fun packet => mesh.headerToDecimal packet.header = d

theorem AtRest.delivered {mesh : Mesh} {packets : Nat → List Packet} {world : MeshWorld}
    {channel : Endpoint → Channel} (rest : AtRest mesh packets world channel) {d : Nat}
    (known : d < mesh.size) : Delivered mesh packets world d := by
  obtain ⟨station, _, _, vacant⟩ := rest.passed known
  obtain ⟨_, flits⟩ := rest.downlink_dry known
  have local_ := vacant localPort (by decide)
  refine ⟨(channel (.router d localPort)).started, ?_,
    fun tagged member => (rest.carried.arrived known member).1, fun s known' => ?_⟩
  · rw [flits, Channel.pending_quiet local_.quiet, local_.rest, List.append_nil]
  · rw [← rest.carried.ofSender known, ← written_between, rest.complete known known']

theorem cycleCores_sizes (packetSize : Nat) (act : Nat → CoreAct) (nodes : List Nat)
    (world : MeshWorld) :
    (nodes.foldl (MeshWorld.cycleCore packetSize act) world).sizes = world.sizes :=
  foldl_kept MeshWorld.sizes _ (cycleCore_sizes packetSize act) nodes world

/-- The mesh never blocks itself. At any time in any run, a core that is not sending has a flit to
write, or a core has one to read, or something moves in the mesh, or every core has got all the packets
that were written for it. -/
theorem mesh_progress {mesh : Mesh} (wide : mesh.Wide) (packetSize : Nat)
    {memory interfaceMemory : Nat → Nat → List Flit} {packets : Nat → List Packet}
    (rooms : ∀ n < mesh.size, (∀ k < 5, memory n k ≠ []) ∧ ∀ p < 2, interfaceMemory n p ≠ [])
    (named : ∀ n < mesh.size, ∀ packet ∈ packets n,
      mesh.headerToDecimal packet.header < mesh.size) (act : Nat → CoreAct) (turns : List Turn) :
    let world := (MeshWorld.boot mesh packetSize memory interfaceMemory
      (fun n => flitsOf (packets n)) act).ticks mesh packetSize turns
    (∃ n < mesh.size, world.isSending n = false ∧ world.offers n ≠ []) ∨
      (∃ n < mesh.size, (world.cores n).inRequest = true) ∨ Moves mesh world ∨
      ∀ d < mesh.size, Delivered mesh packets world d := by
  intro world
  obtain ⟨_, booted⟩ := Carried.boot wide packetSize memory interfaceMemory packets act
  obtain ⟨channel, carried⟩ : ∃ channel, Carried mesh packets world channel :=
    booted.run wide packetSize turns
  have sizes : world.sizes =
      (MeshWorld.load memory interfaceMemory fun n => flitsOf (packets n)).sizes :=
    (ticks_sizes packetSize turns _).trans (cycleCores_sizes packetSize act _ _)
  by_cases writes : ∃ n < mesh.size, world.isSending n = false ∧ world.offers n ≠ []
  · exact .inl writes
  by_cases reads : ∃ n < mesh.size, (world.cores n).inRequest = true
  · exact .inr (.inl reads)
  by_cases moves : Moves mesh world
  · exact .inr (.inr (.inl moves))
  refine .inr (.inr (.inr fun d known => AtRest.delivered ⟨carried, wide, moves, ?_, ?_, named,
    ?_, ?_⟩ known))
  · intro n inside k bound
    have size : ((world.routers n).buffers k).max = (memory n k).length :=
      congrFun (congrFun (congrArg Prod.fst sizes) n) k
    rw [size]
    exact List.length_pos_iff.mpr ((rooms n inside).1 k bound)
  · intro n inside p bound
    have size : ((world.interfaces n).buffers p).max = (interfaceMemory n p).length :=
      congrFun (congrFun (congrArg Prod.snd sizes) n) p
    rw [size]
    exact List.length_pos_iff.mpr ((rooms n inside).2 p bound)
  · intro n inside silent
    by_contra more
    exact writes ⟨n, inside, silent, more⟩
  · intro n inside
    cases asked : (world.cores n).inRequest with
    | false => rfl
    | true => exact absurd ⟨n, inside, asked⟩ reads

def crossing (n : Nat) : List Packet := if n = 0 then [⟨0x11, [7, 8], by decide⟩] else []

def crossingTurn : Turn := ⟨fun n => if n = 3 then .nocRead else .nocWrite, fun _ => true⟩

theorem crossing_named : ∀ n < Mesh.size ⟨2, 2⟩, ∀ packet ∈ crossing n,
    Mesh.headerToDecimal ⟨2, 2⟩ packet.header < Mesh.size ⟨2, 2⟩ := by
  intro n _ packet member
  by_cases first : n = 0
  · rw [crossing, if_pos first, List.mem_singleton] at member
    rw [member]
    decide
  · rw [crossing, if_neg first] at member
    cases member

def crossingRun : MeshWorld :=
  (MeshWorld.boot ⟨2, 2⟩ 64 (fun _ _ => List.replicate 4 0) (fun _ _ => List.replicate 64 0)
    (fun n => flitsOf (crossing n)) (fun _ => .nocWrite)).ticks ⟨2, 2⟩ 64 (List.replicate 7 crossingTurn)

/-- After seven turns the core waits to write its last flit, nothing has arrived, and something moves. -/
theorem mesh_progress_crossing : crossingRun.offers 0 = [8] ∧ crossingRun.isSending 0 = true ∧
    crossingRun.received 3 = [] ∧ Moves ⟨2, 2⟩ crossingRun := by
  have seen : (∀ n < 4, crossingRun.isSending n = false → crossingRun.offers n = []) ∧
      (∀ n < 4, (crossingRun.cores n).inRequest = false) ∧ crossingRun.received 3 = [] ∧
      crossingRun.offers 0 = [8] ∧ crossingRun.isSending 0 = true := by
    decide +kernel
  obtain ⟨written, read, nothing, offers, sending⟩ := seen
  have room : ∀ count, 0 < count → List.replicate count (0 : Flit) ≠ [] := fun count some_ =>
    List.ne_nil_of_length_pos (by rwa [List.length_replicate])
  refine ⟨offers, sending, nothing, ?_⟩
  have progress := @mesh_progress ⟨2, 2⟩ ⟨by decide, by decide⟩ 64 (fun _ _ => List.replicate 4 0)
    (fun _ _ => List.replicate 64 0) crossing
    (fun _ _ => ⟨fun _ _ => room 4 (by decide), fun _ _ => room 64 (by decide)⟩) crossing_named
    (fun _ => .nocWrite) (List.replicate 7 crossingTurn)
  dsimp only at progress
  rw [← crossingRun] at progress
  rcases progress with
    ⟨n, known, silent, more⟩ | ⟨n, known, asked⟩ | moves | delivered
  · exact absurd (written n known silent) more
  · exact absurd (asked.symm.trans (read n known)) (by decide)
  · exact moves
  · obtain ⟨arrived, flits, _, whole⟩ := delivered 3 (by decide)
    have none : arrived = [] := by
      cases arrived with
      | nil => rfl
      | cons first later =>
          have empty := nothing.symm.trans flits
          rw [packetsOf, List.map_cons, flitsOf_cons, Packet.flits] at empty
          cases empty
    subst none
    exact absurd (congrArg List.length (whole 0 (by decide))) (by decide)

end MpsocSim

end Hellfire

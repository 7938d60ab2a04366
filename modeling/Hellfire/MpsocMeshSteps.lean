import Hellfire.MpsocMeshFlow

/-!
The stages of a turn of the loop, one port at a time: each keeps the mesh carried.
-/

namespace Hellfire

namespace MpsocSim

open Function DimensionOrder

section Ports

variable {world : MeshWorld} {n k p : Nat}

def MeshWorld.setRouter (n : Nat) (router : Router) (world : MeshWorld) : MeshWorld :=
  { world with routers := update world.routers n router }

def MeshWorld.setInterface (n : Nat) (interface : NetworkInterface) (world : MeshWorld) :
    MeshWorld :=
  { world with interfaces := update world.interfaces n interface }

theorem setRouter_port {router : Router} {port : Port}
    (changed : router.ports = update (world.routers n).ports k port) :
    (world.setRouter n router).port = update world.port (.router n k) port := by
  funext d
  cases d with
  | router m j =>
      simp only [MeshWorld.port, MeshWorld.setRouter]
      by_cases here : m = n
      · subst here
        rw [update_self, changed]
        by_cases there : j = k
        · rw [there, update_self, update_self]
        · rw [update_of_ne there, update_of_ne fun same => there (Endpoint.router.inj same).2]
          rfl
      · rw [update_of_ne here, update_of_ne fun same => here (Endpoint.router.inj same).1]
        rfl
  | interface | core | outside => rw [update_of_ne (by simp)]; rfl

theorem setInterface_port {interface : NetworkInterface} {port : Port}
    (changed : interface.ports = update (world.interfaces n).ports p port) :
    (world.setInterface n interface).port = update world.port (.interface n p) port := by
  funext d
  cases d with
  | interface m j =>
      simp only [MeshWorld.port, MeshWorld.setInterface]
      by_cases here : m = n
      · subst here
        rw [update_self, changed]
        by_cases there : j = p
        · rw [there, update_self, update_self]
        · rw [update_of_ne there, update_of_ne fun same => there (Endpoint.interface.inj same).2]
          rfl
      · rw [update_of_ne here, update_of_ne fun same => here (Endpoint.interface.inj same).1]
        rfl
  | router | core | outside => rw [update_of_ne (by simp)]; rfl

theorem setCore_port (port : Port) :
    ({ world with cores := update world.cores n port } : MeshWorld).port =
      update world.port (.core n) port := by
  funext d
  cases d with
  | core m =>
      simp only [MeshWorld.port]
      by_cases here : m = n
      · rw [here, update_self, update_self]
      · rw [update_of_ne here, update_of_ne fun same => here (Endpoint.core.inj same)]
        rfl
  | router | interface | outside => rw [update_of_ne (by simp)]; rfl

def Endpoint.Real : Endpoint → Prop
  | .outside _ _ => False
  | _ => True

theorem setPort_port {e : Endpoint} (real : e.Real) (port : Port) :
    (world.setPort e port).port = update world.port e port := by
  cases e with
  | router n k => exact setRouter_port rfl
  | interface n p => exact setInterface_port rfl
  | core n => exact setCore_port port
  | outside => exact real.elim

structure SameInside (world world' : MeshWorld) : Prop where
  routers : ∀ n, ∃ ports, world'.routers n = { world.routers n with ports := ports }
  buffers : ∀ n, (world'.interfaces n).buffers = (world.interfaces n).buffers
  received : world'.received = world.received
  isSending : world'.isSending = world.isSending
  offers : world'.offers = world.offers

theorem SameInside.trans {world' world'' : MeshWorld} (first : SameInside world world')
    (second : SameInside world' world'') : SameInside world world'' := by
  refine ⟨fun n => ?_, fun n => (second.buffers n).trans (first.buffers n),
    second.received.trans first.received, second.isSending.trans first.isSending,
    second.offers.trans first.offers⟩
  obtain ⟨_, same⟩ := first.routers n
  obtain ⟨ports, same'⟩ := second.routers n
  exact ⟨ports, by rw [same', same]⟩

theorem setPort_inside (e : Endpoint) (port : Port) : SameInside world (world.setPort e port) := by
  cases e with
  | router n k =>
      refine ⟨fun m => ?_, fun _ => rfl, rfl, rfl, rfl⟩
      by_cases here : m = n
      · exact ⟨update (world.routers m).ports k port, by
          simp only [MeshWorld.setPort, here, update_self]⟩
      · exact ⟨(world.routers m).ports, by simp only [MeshWorld.setPort, update_of_ne here]⟩
  | interface n p =>
      refine ⟨fun m => ⟨_, rfl⟩, fun m => ?_, rfl, rfl, rfl⟩
      by_cases here : m = n
      · simp only [MeshWorld.setPort, here, update_self]
      · simp only [MeshWorld.setPort, update_of_ne here]
  | core n => exact ⟨fun m => ⟨_, rfl⟩, fun _ => rfl, rfl, rfl, rfl⟩
  | outside => exact ⟨fun m => ⟨_, rfl⟩, fun _ => rfl, rfl, rfl, rfl⟩

end Ports

section Views

variable {mesh : Mesh} {packets : Nat → List Packet} {world world' : MeshWorld}
  {channel : Endpoint → Channel} {e : Endpoint} {after : Channel} {n k : Nat}

theorem Routes.setPorts {router : Router} {station : Station} {ins outs : Nat → Channel}
    (routes : Routes mesh n router station ins outs) (ports : Nat → Port) :
    Routes mesh n { router with ports := ports } station ins outs :=
  ⟨routes.arbiter, routes.holds, routes.flits, routes.progress, routes.streams, routes.unused,
    routes.connected, routes.apart, routes.routed⟩

theorem same_unread {before : Channel} (feed : SameFeed before after)
    (drain : SameDrain before after) :
    unread after.phase after.out = unread before.phase before.out := by
  have pending := feed.pending
  rw [Channel.pending, Channel.pending, drain.rest] at pending
  exact List.append_cancel_right pending

theorem Carried.unseen (carried : Carried mesh packets world channel) (wide : mesh.Wide)
    (inside : mesh.Inside e) (feed : SameFeed (channel e) after)
    (drain : SameDrain (channel e) after) (touches : Touches mesh world world' e)
    (joined : Joined after (world'.port e) (world'.port (mesh.peer e)))
    (same : SameInside world world') : Carried mesh packets world' (update channel e after) := by
  have feeds : ∀ d, SameFeed (channel d) (update channel e after d) := feed.update
  have drains : ∀ d, SameDrain (channel d) (update channel e after d) := drain.update
  refine ⟨carried.linked.touched wide inside touches joined, ?_, ?_, ?_, ?_, ?_, ?_⟩
  · intro n known
    obtain ⟨ports, kept⟩ := same.routers n
    obtain ⟨station, routes⟩ := carried.routers n known
    rw [kept]
    exact ⟨station, (routes.setPorts ports).congr (fun i _ => feeds _) fun k _ => drains _⟩
  · intro n known
    obtain ⟨held, uplink⟩ := carried.uplinks n known
    rw [same.buffers]
    exact ⟨held, (uplink.feed (feeds _)).drain (drains _)⟩
  · intro n known
    obtain ⟨held, downlink⟩ := carried.downlinks n known
    rw [same.buffers, same.received]
    exact ⟨held, (downlink.feed (feeds _)).drain (drains _)
      (congrArg _ (same_unread (feeds _) (drains _)))⟩
  · intro n known
    rw [same.isSending, same.offers]
    exact (carried.writers n known).drain (drains _)
  · intro n k border
    obtain ⟨quiet, none⟩ := carried.borders n k border
    exact ⟨(drains _).quiet.mpr quiet, (drains _).started.trans none⟩
  · intro n known i bound tagged member
    refine carried.ways n known i bound tagged ?_
    rwa [← (drains (mesh.peer (.router n i))).started]

inductive Fed (before after : Channel) : Prop
  | same : SameFeed before after → Fed before after
  | more (tagged : Tagged) : after.started = before.started ++ [tagged] →
      after.pending = before.pending ++ tagged.packet.flits → Fed before after

theorem SameFeed.of_eq {before : Channel} (same : before = after) : SameFeed before after :=
  same ▸ .refl _

theorem SameDrain.of_eq {before : Channel} (same : before = after) : SameDrain before after :=
  same ▸ .refl _

theorem Carried.fedRouter (carried : Carried mesh packets world channel) (wide : mesh.Wide)
    (fed : Fed (channel e) after) (known : n < mesh.size) (other : ∀ j, e ≠ .router n j) :
    ∃ station, Routes mesh n (world.routers n) station
      (fun i => update channel e after (mesh.peer (.router n i)))
      (fun j => update channel e after (.router n j)) := by
  obtain ⟨station, routes⟩ := carried.routers n known
  have outs : ∀ j < 5, SameDrain (channel (.router n j)) (update channel e after (.router n j)) :=
    fun j _ => .of_eq (update_of_ne (Ne.symm (other j)) _ _).symm
  cases fed with
  | same feed => exact ⟨station, routes.congr (fun i _ => feed.update _) outs⟩
  | more tagged started pending =>
      by_cases into : ∃ i < 5, mesh.peer (.router n i) = e
      · obtain ⟨i, bound, rfl⟩ := into
        refine ⟨_, (routes.extend started pending).congr (fun j bound' => .of_eq ?_) outs⟩
        by_cases here : j = i
        · rw [here, update_self, update_self]
        · rw [update_of_ne here, update_of_ne]
          intro same
          exact here (Endpoint.router.inj
            (wide.peer_inj ⟨known, bound'⟩ ⟨known, bound⟩ same)).2
      · refine ⟨station, routes.congr (fun i bound => .of_eq (update_of_ne ?_ _ _).symm) outs⟩
        intro same
        exact into ⟨i, bound, same⟩

theorem Carried.fedDownlink (carried : Carried mesh packets world channel)
    (fed : Fed (channel e) after) (known : n < mesh.size) (other : e ≠ .interface n plasma) :
    ∃ held, Downlink (world.received n) ((world.interfaces n).buffers noc) held
      (update channel e after (.router n localPort))
      (update channel e after (.interface n plasma)) := by
  obtain ⟨held, downlink⟩ := carried.downlinks n known
  rw [update_of_ne (Ne.symm other)]
  cases fed with
  | same feed => exact ⟨held, downlink.feed (feed.update _)⟩
  | more tagged started pending =>
      by_cases here : Endpoint.router n localPort = e
      · subst here
        rw [update_self]
        exact ⟨held, downlink.extend started pending⟩
      · rw [update_of_ne here]
        exact ⟨held, downlink⟩

theorem Carried.drainedRouter (carried : Carried mesh packets world channel)
    (drain : SameDrain (channel e) after) (known : n < mesh.size)
    (other : ∀ i < 5, mesh.peer (.router n i) ≠ e) :
    ∃ station, Routes mesh n (world.routers n) station
      (fun i => update channel e after (mesh.peer (.router n i)))
      (fun j => update channel e after (.router n j)) := by
  obtain ⟨station, routes⟩ := carried.routers n known
  exact ⟨station, routes.congr (fun i bound => .of_eq (update_of_ne (other i bound) _ _).symm)
    fun j _ => drain.update _⟩

end Views

section Routers

variable {mesh : Mesh} {packets : Nat → List Packet} {world : MeshWorld}
  {channel : Endpoint → Channel} {ins : Nat → Channel} {before after : Channel} {flit : Flit}
  {request : Bool} {n i k : Nat}

theorem Drives.fed (drives : Drives mesh n ins k before after flit request) :
    Fed before after := by
  cases drives with
  | start _ tagged _ _ _ _ _ _ started pending => exact .more tagged started pending
  | offer _ _ _ same => exact .same same
  | withdraw _ _ _ same => exact .same same

theorem Drives.joined (drives : Drives mesh n ins k before after flit request)
    {sender receiver : Port} (joined : Joined before sender receiver) :
    Joined after (sender.drive flit request) receiver := by
  have link := joined.link
  cases drives with
  | start _ _ quiet offered out =>
      rw [quiet] at link
      exact ⟨offered ▸ link.offer (.inl rfl) flit, out.symm⟩
  | offer acknowledged offered out =>
      rw [acknowledged] at link
      exact ⟨offered ▸ link.offer (.inr rfl) flit, out.symm⟩
  | withdraw acknowledged quiet out =>
      rw [acknowledged] at link
      exact ⟨quiet ▸ link.withdraw 0, out.symm⟩

theorem Mesh.Wide.peer_ne (wide : mesh.Wide) (known : n < mesh.size) (bound : i < 5) (k : Nat) :
    mesh.peer (.router n i) ≠ .router n k := by
  intro same
  cases wide.joint known bound with
  | here _ joined =>
      rw [joined] at same
      cases same
  | border _ joined =>
      rw [joined] at same
      cases same
  | across m j _ _ _ _ other joined =>
      rw [joined] at same
      exact other (Endpoint.router.inj same).1

theorem Mesh.heading_target (mesh : Mesh) (n : Nat) (packet : Packet) :
    heading (mesh.place n) (mesh.target packet) = exit (mesh.dest n packet.header) := by
  simp only [heading, dest, place, target, apply_ite exit]
  rfl

theorem OnWay.across (wide : mesh.Wide) {tagged : Tagged} {m j : Nat}
    (way : OnWay mesh n i tagged) (known : n < mesh.size)
    (leaves : mesh.dest n tagged.packet.header = k)
    (joined : mesh.peer (.router n k) = .router m j) : OnWay mesh m j tagged := by
  have bound : k < 5 := leaves ▸ dest_lt mesh n _
  have turns := mesh.heading_target n tagged.packet
  rw [leaves] at turns
  cases wide.joint known bound with
  | here _ elsewhere =>
      rw [joined] at elsewhere
      cases elsewhere
  | border _ elsewhere =>
      rw [joined] at elsewhere
      cases elsewhere
  | across m' j' _ _ _ _ _ joined' _ place into moves =>
      rw [joined, Endpoint.router.injEq] at joined'
      obtain ⟨rfl, rfl⟩ := joined'
      refine ⟨way.1, ?_⟩
      rw [place, into]
      exact way.2.next turns moves

theorem Carried.drives (carried : Carried mesh packets world channel) (wide : mesh.Wide)
    (known : n < mesh.size) (bound : k < 5) {router : Router} {station : Station}
    (changed : router.ports =
      update (world.routers n).ports k (((world.routers n).ports k).drive flit request))
    (drives : Drives mesh n (fun i => channel (mesh.peer (.router n i))) k
      (channel (.router n k)) after flit request)
    (routes : Routes mesh n router station (fun i => channel (mesh.peer (.router n i)))
      (update (fun j => channel (.router n j)) k after)) :
    Carried mesh packets (world.setRouter n router) (update channel (.router n k) after) := by
  have inside : mesh.Inside (.router n k) := ⟨known, bound⟩
  have ports := setRouter_port changed
  refine ⟨carried.linked.touched wide inside (.drive ports (sameInput_drive _ _ _)) ?_,
    ?_, ?_, ?_, ?_, ?_, ?_⟩
  · rw [ports, update_self, update_of_ne (wide.peer_ne known bound k)]
    exact drives.joined (carried.linked _ inside)
  · intro m known'
    by_cases here : m = n
    · subst here
      simp only [MeshWorld.setRouter, update_self]
      refine ⟨station, routes.congr
        (fun i bound' => .of_eq (update_of_ne (wide.peer_ne known bound' k) _ _).symm)
        fun j _ => .of_eq ?_⟩
      by_cases there : j = k
      · rw [there, update_self, update_self]
      · rw [update_of_ne there, update_of_ne fun same => there (Endpoint.router.inj same).2]
    · have kept : (world.setRouter n router).routers m = world.routers m := update_of_ne here _ _
      rw [kept]
      exact carried.fedRouter wide drives.fed known'
        fun _ same => here (Endpoint.router.inj same).1.symm
  · intro m known'
    rw [update_of_ne (by simp), update_of_ne (by simp)]
    exact carried.uplinks m known'
  · intro m known'
    exact carried.fedDownlink drives.fed known' (by simp)
  · intro m known'
    rw [update_of_ne (by simp)]
    exact carried.writers m known'
  · intro m j border
    rw [update_of_ne (by simp)]
    exact carried.borders m j border
  · intro m known' i bound' tagged member
    by_cases into : mesh.peer (.router m i) = .router n k
    · have joined : mesh.peer (.router n k) = .router m i := by
        rw [← into]
        exact (wide.peer_inside (e := .router m i) ⟨known', bound'⟩).2
      have old : tagged ∈ (channel (.router n k)).started → OnWay mesh m i tagged := by
        rw [← into]
        exact carried.ways m known' i bound' tagged
      rw [into, update_self] at member
      cases drives with
      | start i' new _ _ _ inside' first leaves started =>
          rw [started] at member
          rcases List.mem_append.mp member with before | last
          · exact old before
          · rw [List.mem_singleton.mp last]
            exact (carried.ways n known i' inside' new first).across wide known leaves joined
      | offer _ _ _ same =>
          rw [same.started] at member
          exact old member
      | withdraw _ _ _ same =>
          rw [same.started] at member
          exact old member
    · rw [update_of_ne into] at member
      exact carried.ways m known' i bound' tagged member

theorem Carried.rerouted (carried : Carried mesh packets world channel) {router : Router}
    {station : Station} (ports : router.ports = (world.routers n).ports)
    (routes : Routes mesh n router station (fun i => channel (mesh.peer (.router n i)))
      (fun j => channel (.router n j))) :
    Carried mesh packets (world.setRouter n router) channel := by
  have kept : (world.setRouter n router).port = world.port := by
    have changed : router.ports =
        update (world.routers n).ports 0 (world.port (.router n 0)) := by
      rw [ports]
      exact (update_eq_self 0 _).symm
    rw [setRouter_port changed, update_eq_self]
  refine ⟨?_, ?_, carried.uplinks, carried.downlinks, carried.writers, carried.borders,
    carried.ways⟩
  · intro e inside
    rw [kept]
    exact carried.linked e inside
  · intro m known
    by_cases here : m = n
    · subst here
      simp only [MeshWorld.setRouter, update_self]
      exact ⟨station, routes⟩
    · simp only [MeshWorld.setRouter, update_of_ne here]
      exact carried.routers m known

theorem Carried.moved (carried : Carried mesh packets world channel) (wide : mesh.Wide)
    (known : n < mesh.size) {router : Router}
    (moved : Moved mesh n (fun i => channel (mesh.peer (.router n i)))
      (fun j => channel (.router n j)) (world.routers n) router) :
    ∃ channel', Carried mesh packets (world.setRouter n router) channel' := by
  cases moved with
  | kept station ports routes => exact ⟨channel, carried.rerouted ports routes⟩
  | driven k after flit request station bound ports drives routes =>
      exact ⟨_, carried.drives wide known bound ports drives routes⟩

theorem Carried.forwardOne (carried : Carried mesh packets world channel) (wide : mesh.Wide)
    (known : n < mesh.size) (bound : i < 5) :
    ∃ channel', Carried mesh packets (world.setRouter n ((world.routers n).forwardOne i))
      channel' := by
  obtain ⟨station, routes⟩ := carried.routers n known
  refine carried.moved wide known (routes.forwardOne bound fun k bound' ack => ?_)
  exact (carried.linked (.router n k) ⟨known, bound'⟩).link.acknowledged ack

@[simp] theorem setRouter_setRouter (router router' : Router) :
    (world.setRouter n router).setRouter n router' = world.setRouter n router' := by
  simp only [MeshWorld.setRouter, update_idem]

@[simp] theorem setRouter_routers (router : Router) :
    (world.setRouter n router).routers n = router := by
  simp only [MeshWorld.setRouter, update_self]

theorem Carried.forwardAll (carried : Carried mesh packets world channel) (wide : mesh.Wide)
    (known : n < mesh.size) (ports : List Nat) (bounds : ∀ i ∈ ports, i < 5) :
    ∃ channel', Carried mesh packets
      (world.setRouter n (ports.foldl Router.forwardOne (world.routers n))) channel' := by
  induction ports generalizing world channel with
  | nil =>
      obtain ⟨station, routes⟩ := carried.routers n known
      exact ⟨channel, carried.rerouted rfl routes⟩
  | cons i ports ih =>
      obtain ⟨channel', moved⟩ := carried.forwardOne wide known (bounds i List.mem_cons_self)
      obtain ⟨channel'', whole⟩ := ih moved fun j member => bounds j (List.mem_cons_of_mem _ member)
      rw [setRouter_setRouter, setRouter_routers] at whole
      exact ⟨channel'', whole⟩

section Taking

def Channel.take (channel : Channel) : Channel := { channel with phase := .taken }

theorem Channel.take_pending (requested : before.phase = .requested) :
    before.pending = before.out :: before.take.pending := by
  rw [Channel.pending, Channel.pending, Channel.take, requested]
  rfl

theorem SameDrain.take (requested : before.phase = .requested) : SameDrain before before.take := by
  refine ⟨?_, rfl, rfl, rfl⟩
  rw [requested, Channel.take]
  exact iff_of_false (by simp) (by simp)

theorem Joined.take {sender receiver : Port} (joined : Joined before sender receiver)
    (requested : before.phase = .requested) :
    Joined before.take sender { receiver with inAck := true } := by
  have link := joined.link
  rw [requested] at link
  exact ⟨⟨link.request, link.acknowledge, link.requested, rfl, fun other => by cases other⟩,
    joined.out⟩

theorem Joined.input {sender receiver : Port} (joined : Joined before sender receiver)
    (requested : before.phase = .requested) : receiver.input = before.out :=
  (joined.link.same requested).trans joined.out

end Taking

theorem Mesh.peer_router (mesh : Mesh) (n k : Nat) : mesh.peer (.router n k) = .interface n noc ∨
    (∃ m j, mesh.peer (.router n k) = .router m j) ∨ mesh.peer (.router n k) = .outside n k := by
  simp only [peer]
  split_ifs <;> simp

theorem Mesh.peer_router_core (mesh : Mesh) (n k m : Nat) :
    mesh.peer (.router n k) ≠ .core m := by
  rcases mesh.peer_router n k with joined | ⟨_, _, joined⟩ | joined <;> simp [joined]

theorem Mesh.peer_router_plasma (mesh : Mesh) (n k m : Nat) :
    mesh.peer (.router n k) ≠ .interface m plasma := by
  rcases mesh.peer_router n k with joined | ⟨_, _, joined⟩ | joined <;>
    simp [joined, noc, plasma]

def Router.takeInput (i : Nat) (router : Router) : Router :=
  { router with
    buffers := update router.buffers i ((router.buffers i).put (router.ports i).input)
    ports := update router.ports i { router.ports i with inAck := true } }

theorem Carried.receiveOne (carried : Carried mesh packets world channel) (wide : mesh.Wide)
    (known : n < mesh.size) (bound : i < 5)
    (fresh : ((world.routers n).ports i).inAck = false) :
    ∃ channel', Carried mesh packets (world.setRouter n ((world.routers n).receiveOne i))
      channel' := by
  obtain ⟨sender, back⟩ := wide.peer_inside (e := .router n i) ⟨known, bound⟩
  have joined := carried.linked _ sender
  rw [back] at joined
  obtain ⟨station, routes⟩ := carried.routers n known
  simp only [Router.receiveOne]
  split
  · next request =>
      split
      · next room =>
          have requested := joined.link.pending request fresh
          have drain := SameDrain.take requested
          have drains : ∀ d, SameDrain (channel d) (update channel (mesh.peer (.router n i))
            (channel (mesh.peer (.router n i))).take d) := drain.update
          have ports : (world.setRouter n ((world.routers n).takeInput i)).port =
              update world.port (.router n i) { world.port (.router n i) with inAck := true } :=
            setRouter_port rfl
          have touches : Touches mesh world (world.setRouter n ((world.routers n).takeInput i))
              (mesh.peer (.router n i)) := by
            refine .take (back.symm ▸ ports) ?_
            rw [back]
            exact ⟨rfl, rfl, rfl⟩
          refine ⟨update channel _ (channel (mesh.peer (.router n i))).take,
            carried.linked.touched wide sender touches ?_, ?_, ?_, ?_, ?_, ?_, ?_⟩
          · rw [back]
            rw [ports, update_self, update_of_ne (wide.peer_ne known bound i)]
            exact joined.take requested
          · intro m known'
            by_cases here : m = n
            · subst here
              have received := routes.receive bound drain.started (Channel.take_pending requested)
                room (update (world.routers m).ports i
                  { (world.routers m).ports i with inAck := true })
              rw [← joined.input requested] at received
              simp only [setRouter_routers]
              refine ⟨_, received.congr (fun j bound' => .of_eq ?_) fun k _ => drains _⟩
              by_cases there : j = i
              · rw [there, update_self, update_self]
              · rw [update_of_ne there, update_of_ne]
                intro same
                exact there (Endpoint.router.inj
                  (wide.peer_inj ⟨known, bound'⟩ ⟨known, bound⟩ same)).2
            · simp only [MeshWorld.setRouter, update_of_ne here]
              refine carried.drainedRouter drain known' fun j bound' same => here ?_
              exact (Endpoint.router.inj
                (wide.peer_inj ⟨known', bound'⟩ ⟨known, bound⟩ same)).1
          · intro m known'
            obtain ⟨held, uplink⟩ := carried.uplinks m known'
            rw [update_of_ne (mesh.peer_router_core n i m).symm]
            exact ⟨held, uplink.drain (drains _)⟩
          · intro m known'
            obtain ⟨held, downlink⟩ := carried.downlinks m known'
            rw [update_of_ne (mesh.peer_router_plasma n i m).symm, update_of_ne]
            · exact ⟨held, downlink⟩
            · intro same
              rw [← same] at back
              cases back
          · intro m known'
            exact (carried.writers m known').drain (drains _)
          · intro m k border
            obtain ⟨quiet, none⟩ := carried.borders m k border
            exact ⟨(drains _).quiet.mpr quiet, (drains _).started.trans none⟩
          · intro m known' j bound' tagged member
            refine carried.ways m known' j bound' tagged ?_
            rwa [← (drains _).started]
      · exact ⟨channel, carried.rerouted rfl routes⟩
  · exact ⟨channel, carried.rerouted rfl routes⟩

theorem Carried.receiveAll (carried : Carried mesh packets world channel) (wide : mesh.Wide)
    (known : n < mesh.size) (ports : List Nat) (distinct : ports.Nodup)
    (fresh : ∀ i ∈ ports, i < 5 ∧ ((world.routers n).ports i).inAck = false) :
    ∃ channel', Carried mesh packets
      (world.setRouter n (ports.foldl Router.receiveOne (world.routers n))) channel' := by
  induction ports generalizing world channel with
  | nil =>
      obtain ⟨station, routes⟩ := carried.routers n known
      exact ⟨channel, carried.rerouted rfl routes⟩
  | cons i ports ih =>
      obtain ⟨absent, distinct⟩ := List.nodup_cons.mp distinct
      obtain ⟨bound, first⟩ := fresh i List.mem_cons_self
      obtain ⟨channel', received⟩ := carried.receiveOne wide known bound first
      have others : ∀ j ∈ ports, j < 5 ∧
          (((world.routers n).receiveOne i).ports j).inAck = false := by
        intro j member
        have other : j ≠ i := by
          rintro rfl
          exact absent member
        obtain ⟨bound', clear⟩ := fresh j (List.mem_cons_of_mem _ member)
        refine ⟨bound', ?_⟩
        rw [Router.receiveOne]
        split_ifs
        · simp only [update_of_ne other, clear]
        · exact clear
        · exact clear
      obtain ⟨channel'', whole⟩ := ih received distinct (by rwa [setRouter_routers])
      rw [setRouter_setRouter, setRouter_routers] at whole
      exact ⟨channel'', whole⟩

theorem connect_ports (mesh : Mesh) (n : Nat) (router : Router) :
    (router.connect mesh n).ports = router.ports := by
  simp only [Router.connect]
  split_ifs <;> rfl

theorem Carried.cycleRouter (carried : Carried mesh packets world channel) (wide : mesh.Wide)
    (known : n < mesh.size) (fresh : ∀ i < 5, ((world.routers n).ports i).inAck = false) :
    ∃ channel', Carried mesh packets (world.cycleRouter mesh n) channel' := by
  have bounds : ∀ i ∈ List.range 5, i < 5 := fun i member => List.mem_range.mp member
  obtain ⟨_, received⟩ := carried.receiveAll wide known (List.range 5) List.nodup_range
    fun i member => ⟨bounds i member, fresh i (bounds i member)⟩
  obtain ⟨station, routes⟩ := received.routers n known
  have connected := received.rerouted (connect_ports mesh n _) routes.connect
  obtain ⟨channel', forwarded⟩ := connected.forwardAll wide known (List.range 5) bounds
  obtain ⟨station', routes'⟩ := forwarded.routers n known
  have turned := forwarded.rerouted (show (Router.turn mesh n _).ports = _ from rfl) routes'.turn
  simp only [setRouter_setRouter, setRouter_routers] at turned
  exact ⟨channel', turned⟩

end Routers

end MpsocSim

end Hellfire

import Hellfire.MpsocMeshSteps

/-!
The network interfaces and the cores of the mesh: each of their steps keeps it carried.
-/

namespace Hellfire

namespace MpsocSim

open Function DimensionOrder

section Interfaces

structure Emitting (b p : Nat) (receiver : Port) (ni : NetworkInterface) (held : List Flit)
    (onward : Channel) : Prop where
  relays : Relays (ni.buffers b) held onward
  joined : Joined onward (ni.ports p) receiver

structure Beside (b p : Nat) (ni after : NetworkInterface) : Prop where
  ports : after.ports = update ni.ports p (after.ports p)
  input : SameInput (ni.ports p) (after.ports p)
  buffers : ∀ q, q ≠ b → after.buffers q = ni.buffers q

variable {b p : Nat} {receiver : Port} {ni after : NetworkInterface} {held : List Flit}
  {onward : Channel}

theorem Beside.refl (b p : Nat) (ni : NetworkInterface) : Beside b p ni ni :=
  ⟨(update_eq_self p ni.ports).symm, .refl _, fun _ _ => rfl⟩

theorem Beside.trans {after' : NetworkInterface} (first : Beside b p ni after)
    (second : Beside b p after after') : Beside b p ni after' := by
  refine ⟨?_, ⟨second.input.input.trans first.input.input,
    second.input.inRequest.trans first.input.inRequest,
    second.input.inAck.trans first.input.inAck⟩,
    fun q other => (second.buffers q other).trans (first.buffers q other)⟩
  rw [second.ports, first.ports, update_idem, update_self]

theorem release_beside (b p : Nat) (ni : NetworkInterface) :
    Beside b p ni (ni.release b p) := by
  rw [NetworkInterface.release]
  split
  · refine ⟨?_, ?_, fun q other => update_of_ne other _ _⟩
    · simp only [update_self]
    · simp only [update_self]
      exact sameInput_drive _ _ _
  · exact .refl b p ni

theorem present_beside (b p : Nat) (ni : NetworkInterface) :
    Beside b p ni (ni.present b p) := by
  rw [NetworkInterface.present]
  split
  · refine ⟨?_, ?_, fun _ _ => rfl⟩
    · simp only [update_self]
    · simp only [update_self]
      exact ⟨rfl, rfl, rfl⟩
  · exact .refl b p ni

theorem emit_beside (b p : Nat) (ni : NetworkInterface) : Beside b p ni (ni.emit b p) := by
  rw [NetworkInterface.emit]
  split
  · exact (release_beside b p ni).trans (present_beside b p _)
  · exact .refl b p ni

theorem Emitting.release (emitting : Emitting b p receiver ni held onward)
    (some_flit : held ≠ []) : ∃ held' onward', Emitting b p receiver (ni.release b p) held' onward' ∧
      onward'.relayed held' = onward.relayed held ∧ onward'.started = onward.started ∧
      onward'.phase ≠ .acknowledged := by
  obtain ⟨⟨holds, shown⟩, ⟨link, out⟩⟩ := emitting
  rw [NetworkInterface.release]
  split
  · next ack =>
      have acknowledged := link.acknowledged ack
      obtain ⟨flit, later, rfl⟩ := List.exists_cons_of_ne_nil some_flit
      rw [acknowledged] at link
      refine ⟨later, ⟨.quiet, 0, onward.started, onward.rest⟩, ⟨⟨?_, ?_⟩, ?_⟩, ?_, rfl, by simp⟩
      · simp only [update_self]
        exact holds.take.2.2
      · exact fun busy => absurd rfl busy
      · simp only [update_self]
        exact ⟨link.withdraw 0, rfl⟩
      · rw [Channel.relayed, Channel.relayed, Channel.unshown, Channel.unshown, acknowledged]
        rfl
  · next ack =>
      refine ⟨held, onward, ⟨⟨holds, shown⟩, ⟨link, out⟩⟩, rfl, rfl, fun acknowledged => ?_⟩
      rw [link.acknowledge, acknowledged] at ack
      exact ack rfl

theorem show_drive {port : Port} (fresh : port.outAck = false) (out : Flit) :
    { port with out := out, outRequest := true } = port.drive out true := by
  cases port
  simp only at fresh
  rw [fresh]
  rfl

theorem Emitting.present (emitting : Emitting b p receiver ni held onward)
    (fresh : onward.phase ≠ .acknowledged) :
    ∃ onward', Emitting b p receiver (ni.present b p) held onward' ∧
      onward'.relayed held = onward.relayed held ∧ onward'.started = onward.started := by
  obtain ⟨⟨holds, shown⟩, ⟨link, out⟩⟩ := emitting
  rw [NetworkInterface.present]
  split
  · next some_flit =>
      rw [holds.isEmpty, decide_eq_false_iff_not] at some_flit
      obtain ⟨flit, later, rfl⟩ := List.exists_cons_of_ne_nil some_flit
      have oldest := holds.take.1
      have unacknowledged : (ni.ports p).outAck = false := by
        rw [link.acknowledge]
        exact decide_eq_false fresh
      by_cases quiet : onward.phase = .quiet
      · refine ⟨⟨.offered, flit, onward.started, onward.rest⟩,
          ⟨⟨holds, fun _ => ⟨later, rfl⟩⟩, ?_⟩, ?_, rfl⟩
        · simp only [update_self, oldest]
          rw [show_drive unacknowledged]
          exact ⟨link.offer (.inl quiet) flit, rfl⟩
        · rw [Channel.relayed, Channel.relayed, Channel.unshown, Channel.unshown, quiet]
          rfl
      · obtain ⟨_, first⟩ := shown quiet
        have same : { ni.ports p with out := (ni.buffers b).read, outRequest := true } =
            ni.ports p := by
          have asked : (ni.ports p).outRequest = true := by
            rw [link.request]
            exact decide_eq_true quiet
          rw [oldest, (List.cons.inj first).1, ← out]
          cases ports : ni.ports p
          rw [ports] at asked
          simp only at asked
          rw [asked]
        refine ⟨onward, ⟨⟨holds, shown⟩, ?_⟩, rfl, rfl⟩
        simp only [same, update_self]
        exact ⟨link, out⟩
  · exact ⟨onward, ⟨⟨holds, shown⟩, ⟨link, out⟩⟩, rfl, rfl⟩

theorem Emitting.emit (emitting : Emitting b p receiver ni held onward) :
    ∃ held' onward', Emitting b p receiver (ni.emit b p) held' onward' ∧
      onward'.relayed held' = onward.relayed held ∧ onward'.started = onward.started := by
  rw [NetworkInterface.emit]
  split
  · next some_flit =>
      rw [emitting.relays.holds.isEmpty, decide_eq_false_iff_not] at some_flit
      obtain ⟨held', _, released, same, started, fresh⟩ := emitting.release some_flit
      obtain ⟨onward', presented, same', started'⟩ := released.present fresh
      exact ⟨held', onward', presented, same'.trans same, started'.trans started⟩
  · exact ⟨held, onward, emitting, rfl, rfl⟩

end Interfaces

section Stages

variable {mesh : Mesh} {packets : Nat → List Packet} {world : MeshWorld}
  {channel : Endpoint → Channel} {n : Nat}

theorem Carried.keptRouter (carried : Carried mesh packets world channel) {e : Endpoint}
    {after : Channel} {m : Nat} (known : m < mesh.size)
    (other : ∀ i < 5, mesh.peer (.router m i) ≠ e) (other' : ∀ k, Endpoint.router m k ≠ e) :
    ∃ station, Routes mesh m (world.routers m) station
      (fun i => update channel e after (mesh.peer (.router m i)))
      (fun k => update channel e after (.router m k)) := by
  obtain ⟨station, routes⟩ := carried.routers m known
  exact ⟨station, routes.congr
    (fun i bound => .of_eq (update_of_ne (other i bound) _ _).symm)
    fun k _ => .of_eq (update_of_ne (other' k) _ _).symm⟩

theorem setInterface_buffers {interface : NetworkInterface} {q : Nat}
    (same : interface.buffers q = (world.interfaces n).buffers q) (m : Nat) :
    ((world.setInterface n interface).interfaces m).buffers q =
      (world.interfaces m).buffers q := by
  simp only [MeshWorld.setInterface]
  by_cases here : m = n
  · rw [here, update_self, same]
  · rw [update_of_ne here]

theorem setInterface_other {interface : NetworkInterface} {m : Nat} (other : m ≠ n) :
    (world.setInterface n interface).interfaces m = world.interfaces m :=
  update_of_ne other _ _

@[simp] theorem setInterface_interfaces (interface : NetworkInterface) :
    (world.setInterface n interface).interfaces n = interface := by
  simp only [MeshWorld.setInterface, update_self]

@[simp] theorem setInterface_setInterface (interface interface' : NetworkInterface) :
    (world.setInterface n interface).setInterface n interface' =
      world.setInterface n interface' := by
  simp only [MeshWorld.setInterface, update_idem]

theorem Carried.emitUp (carried : Carried mesh packets world channel) (wide : mesh.Wide)
    (known : n < mesh.size) : ∃ channel', Carried mesh packets
      (world.setInterface n ((world.interfaces n).emit plasma noc)) channel' := by
  have inside : mesh.Inside (.interface n noc) := ⟨known, by decide⟩
  obtain ⟨held, uplink⟩ := carried.uplinks n known
  have beside := emit_beside plasma noc (world.interfaces n)
  have emitting : Emitting plasma noc (world.port (.router n localPort)) (world.interfaces n) held
      (channel (.interface n noc)) := ⟨uplink.relays, carried.linked _ inside⟩
  obtain ⟨held', onward, emitted, same, started⟩ := emitting.emit
  let after : Channel :=
    { onward with rest := onward.unshown held' ++ (channel (.core n)).pending }
  have feed : SameFeed (channel (.interface n noc)) after := by
    refine ⟨started, ?_⟩
    rw [Channel.pending, Channel.pending, uplink.rest, ← List.append_assoc, ← List.append_assoc]
    exact congrArg (· ++ _) same
  have ports : (world.setInterface n ((world.interfaces n).emit plasma noc)).port =
      update world.port (.interface n noc) (((world.interfaces n).emit plasma noc).ports noc) :=
    setInterface_port beside.ports
  refine ⟨update channel (.interface n noc) after,
    carried.linked.touched wide inside (.drive ports beside.input) ?_, ?_, ?_, ?_, ?_, ?_, ?_⟩
  · rw [ports, update_self, show mesh.peer (.interface n noc) = .router n localPort from rfl,
      update_of_ne (by simp)]
    exact ⟨emitted.joined.link, emitted.joined.out⟩
  · intro m known'
    exact carried.fedRouter wide (.same feed) known' fun _ => by simp
  · intro m known'
    by_cases here : m = n
    · subst here
      rw [setInterface_interfaces, update_self, update_of_ne (by simp)]
      exact ⟨held', ⟨emitted.relays.holds, emitted.relays.shown⟩, started.trans uplink.started, rfl⟩
    · rw [setInterface_other here, update_of_ne (by simp), update_of_ne (by simp [here])]
      exact carried.uplinks m known'
  · intro m known'
    rw [setInterface_buffers (beside.buffers noc (by decide)), update_of_ne (by simp),
      update_of_ne (by simp [plasma, noc])]
    exact carried.downlinks m known'
  · intro m known'
    rw [update_of_ne (by simp)]
    exact carried.writers m known'
  · intro m k border
    rw [update_of_ne (by simp)]
    exact carried.borders m k border
  · intro m known' i bound tagged member
    refine carried.ways m known' i bound tagged ?_
    rwa [← (feed.update _).started]

theorem Carried.emitDown (carried : Carried mesh packets world channel) (wide : mesh.Wide)
    (known : n < mesh.size) : ∃ channel', Carried mesh packets
      (world.setInterface n ((world.interfaces n).emit noc plasma)) channel' := by
  have inside : mesh.Inside (.interface n plasma) := ⟨known, by decide⟩
  obtain ⟨held, downlink⟩ := carried.downlinks n known
  have beside := emit_beside noc plasma (world.interfaces n)
  have emitting : Emitting noc plasma (world.port (.core n)) (world.interfaces n) held
      (channel (.interface n plasma)) := ⟨downlink.relays, carried.linked _ inside⟩
  obtain ⟨held', onward, emitted, same, started⟩ := emitting.emit
  have ports : (world.setInterface n ((world.interfaces n).emit noc plasma)).port =
      update world.port (.interface n plasma) (((world.interfaces n).emit noc plasma).ports plasma) :=
    setInterface_port beside.ports
  refine ⟨update channel (.interface n plasma) onward,
    carried.linked.touched wide inside (.drive ports beside.input) ?_, ?_, ?_, ?_, ?_, ?_, ?_⟩
  · rw [ports, update_self, show mesh.peer (.interface n plasma) = .core n from rfl,
      update_of_ne (by simp)]
    exact emitted.joined
  · intro m known'
    exact carried.keptRouter known' (fun i _ => mesh.peer_router_plasma m i n) fun _ => by simp
  · intro m known'
    rw [setInterface_buffers (beside.buffers plasma (by decide)), update_of_ne (by simp),
      update_of_ne (by simp [plasma, noc])]
    exact carried.uplinks m known'
  · intro m known'
    by_cases here : m = n
    · subst here
      rw [setInterface_interfaces, update_self, update_of_ne (by simp)]
      exact ⟨held', emitted.relays, by rw [same]; exact downlink.flits⟩
    · rw [setInterface_other here, update_of_ne (by simp), update_of_ne (by simp [here])]
      exact carried.downlinks m known'
  · intro m known'
    rw [update_of_ne (by simp)]
    exact carried.writers m known'
  · intro m k border
    rw [update_of_ne (by simp)]
    exact carried.borders m k border
  · intro m known' i bound tagged member
    rw [update_of_ne (mesh.peer_router_plasma m i n)] at member
    exact carried.ways m known' i bound tagged member

def NetworkInterface.takeInput (p : Nat) (ni : NetworkInterface) : NetworkInterface :=
  { ni with
    buffers := update ni.buffers p ((ni.buffers p).put (ni.ports p).input)
    ports := update ni.ports p { ni.ports p with inAck := true } }

theorem accept_eq (p : Nat) (ni : NetworkInterface) : ni.accept p =
    if (ni.ports p).inRequest = true then
      if (ni.buffers p).isFull = false then ni.takeInput p else ni
    else ni := rfl

theorem takeInput_buffers {p q : Nat} (ni : NetworkInterface) (other : q ≠ p) :
    (ni.takeInput p).buffers q = ni.buffers q := update_of_ne other _ _

theorem Buffer.Holds.room {buffer : Buffer} {stored : List Flit} (holds : buffer.Holds stored)
    (room : buffer.isFull = false) : stored.length < buffer.max := by
  rw [holds.isFull, decide_eq_false_iff_not] at room
  exact Nat.lt_of_le_of_ne holds.bound room

theorem Carried.acceptPlasma (carried : Carried mesh packets world channel) (wide : mesh.Wide)
    (known : n < mesh.size) (fresh : ((world.interfaces n).ports plasma).inAck = false) :
    ∃ channel', Carried mesh packets
      (world.setInterface n ((world.interfaces n).accept plasma)) channel' := by
  have inside : mesh.Inside (.core n) := known
  have joined := carried.linked _ inside
  have unchanged : world.setInterface n (world.interfaces n) = world := by
    simp only [MeshWorld.setInterface, update_eq_self]
  rw [accept_eq]
  split
  · next request =>
      split
      · next room =>
          have requested := joined.link.pending request fresh
          have input : ((world.interfaces n).ports plasma).input = (channel (.core n)).out :=
            joined.input requested
          have drain := SameDrain.take requested
          have drains : ∀ d, SameDrain (channel d)
            (update channel (.core n) (channel (.core n)).take d) := drain.update
          have ports : (world.setInterface n ((world.interfaces n).takeInput plasma)).port =
              update world.port (.interface n plasma)
                { world.port (.interface n plasma) with inAck := true } := setInterface_port rfl
          refine ⟨update channel _ (channel (.core n)).take, carried.linked.touched wide inside
            (.take ports ⟨rfl, rfl, rfl⟩) ?_, ?_, ?_, ?_, ?_, ?_, ?_⟩
          · rw [ports, show mesh.peer (.core n) = .interface n plasma from rfl, update_self,
              update_of_ne (by simp)]
            exact joined.take requested
          · intro m known'
            exact carried.keptRouter known' (fun i _ => mesh.peer_router_core m i n)
              fun _ => by simp
          · intro m known'
            by_cases here : m = n
            · subst here
              obtain ⟨held, uplink⟩ := carried.uplinks m known
              obtain ⟨relays, more⟩ := uplink.relays.put (uplink.relays.holds.room room)
                (channel (.core m)).out
              simp only [setInterface_interfaces, NetworkInterface.takeInput, update_self]
              rw [update_of_ne (by simp)]
              refine ⟨held ++ [(channel (.core m)).out], ?_, uplink.started, ?_⟩
              · rw [input]
                exact relays
              · rw [uplink.rest, more, Channel.take_pending requested, List.append_assoc]
                rfl
            · rw [setInterface_other here, update_of_ne (by simp [here]), update_of_ne (by simp)]
              exact carried.uplinks m known'
          · intro m known'
            rw [setInterface_buffers (takeInput_buffers _ (by decide)), update_of_ne (by simp),
              update_of_ne (by simp)]
            exact carried.downlinks m known'
          · intro m known'
            exact (carried.writers m known').drain (drains _)
          · intro m k border
            rw [update_of_ne (by simp)]
            exact carried.borders m k border
          · intro m known' i bound tagged member
            rw [update_of_ne (mesh.peer_router_core m i n)] at member
            exact carried.ways m known' i bound tagged member
      · exact ⟨channel, by rwa [unchanged]⟩
  · exact ⟨channel, by rwa [unchanged]⟩

theorem Carried.acceptNoc (carried : Carried mesh packets world channel) (wide : mesh.Wide)
    (known : n < mesh.size) (fresh : ((world.interfaces n).ports noc).inAck = false) :
    ∃ channel', Carried mesh packets
      (world.setInterface n ((world.interfaces n).accept noc)) channel' := by
  have inside : mesh.Inside (.router n localPort) := ⟨known, by decide⟩
  have inside' : mesh.Inside (.interface n noc) := ⟨known, by decide⟩
  have joined := carried.linked _ inside
  have unchanged : world.setInterface n (world.interfaces n) = world := by
    simp only [MeshWorld.setInterface, update_eq_self]
  rw [accept_eq]
  split
  · next request =>
      split
      · next room =>
          have requested := joined.link.pending request fresh
          have input : ((world.interfaces n).ports noc).input = (channel (.router n localPort)).out :=
            joined.input requested
          have drain := SameDrain.take requested
          have drains : ∀ d, SameDrain (channel d)
            (update channel (.router n localPort) (channel (.router n localPort)).take d) :=
            drain.update
          have ports : (world.setInterface n ((world.interfaces n).takeInput noc)).port =
              update world.port (.interface n noc)
                { world.port (.interface n noc) with inAck := true } := setInterface_port rfl
          refine ⟨update channel _ (channel (.router n localPort)).take,
            carried.linked.touched wide inside (.take ports ⟨rfl, rfl, rfl⟩) ?_,
            ?_, ?_, ?_, ?_, ?_, ?_⟩
          · rw [ports, show mesh.peer (.router n localPort) = .interface n noc from rfl,
              update_self, update_of_ne (by simp)]
            exact joined.take requested
          · intro m known'
            simp only [MeshWorld.setInterface]
            refine carried.drainedRouter drain known' fun i bound same => ?_
            have back := (wide.peer_inside (e := .router m i) ⟨known', bound⟩).2
            rw [same] at back
            cases back
          · intro m known'
            rw [setInterface_buffers (takeInput_buffers _ (by decide)), update_of_ne (by simp),
              update_of_ne (by simp)]
            exact carried.uplinks m known'
          · intro m known'
            by_cases here : m = n
            · subst here
              obtain ⟨held, downlink⟩ := carried.downlinks m known
              obtain ⟨relays, more⟩ := downlink.relays.put (downlink.relays.holds.room room)
                (channel (.router m localPort)).out
              simp only [setInterface_interfaces, NetworkInterface.takeInput, update_self]
              rw [update_of_ne (by simp)]
              refine ⟨held ++ [(channel (.router m localPort)).out], ?_, ?_⟩
              · rw [input]
                exact relays
              · have flits := downlink.flits
                rw [Channel.take_pending requested] at flits
                rw [Channel.relayed, more, ← List.append_assoc _ _ [_], List.append_assoc _ [_]]
                exact flits
            · rw [setInterface_other here, update_of_ne (by simp [here]), update_of_ne (by simp)]
              exact carried.downlinks m known'
          · intro m known'
            exact (carried.writers m known').drain (drains _)
          · intro m k border
            rw [update_of_ne (by simp)]
            exact carried.borders m k border
          · intro m known' i bound tagged member
            refine carried.ways m known' i bound tagged ?_
            rwa [← (drains _).started]
      · exact ⟨channel, by rwa [unchanged]⟩
  · exact ⟨channel, by rwa [unchanged]⟩

theorem accept_inAck {p q : Nat} (ni : NetworkInterface) (other : q ≠ p) :
    ((ni.accept p).ports q).inAck = (ni.ports q).inAck := by
  rw [accept_eq]
  split_ifs
  · simp only [NetworkInterface.takeInput, update_of_ne other]
  · rfl
  · rfl

theorem Carried.cycleNetworkInterface (carried : Carried mesh packets world channel)
    (wide : mesh.Wide) (known : n < mesh.size)
    (fresh : ∀ p < 2, ((world.interfaces n).ports p).inAck = false) :
    ∃ channel', Carried mesh packets (world.cycleNetworkInterface n) channel' := by
  obtain ⟨_, first⟩ := carried.acceptPlasma wide known (fresh plasma (by decide))
  have clear : (((world.setInterface n ((world.interfaces n).accept plasma)).interfaces n).ports
      noc).inAck = false := by
    rw [setInterface_interfaces, accept_inAck _ (by decide)]
    exact fresh noc (by decide)
  obtain ⟨_, second⟩ := first.acceptNoc wide known clear
  obtain ⟨_, third⟩ := second.emitUp wide known
  obtain ⟨channel', last⟩ := third.emitDown wide known
  simp only [setInterface_setInterface, setInterface_interfaces] at last
  exact ⟨channel', last⟩

theorem Carried.coreDrives (carried : Carried mesh packets world channel) (wide : mesh.Wide)
    (known : n < mesh.size) {port : Port} {sending : Bool} {offers : List Flit} {after : Channel}
    (feed : SameFeed (channel (.core n)) after)
    (joined : Joined after port (world.port (.interface n plasma)))
    (same : SameInput (world.cores n) port) (writes : Writes sending offers after) :
    Carried mesh packets { world with
      cores := update world.cores n port
      isSending := update world.isSending n sending
      offers := update world.offers n offers } (update channel (.core n) after) := by
  have inside : mesh.Inside (.core n) := known
  have ports : ({ world with
      cores := update world.cores n port
      isSending := update world.isSending n sending
      offers := update world.offers n offers } : MeshWorld).port =
      update world.port (.core n) port := setCore_port port
  refine ⟨carried.linked.touched wide inside (.drive ports same) ?_, ?_, ?_, ?_, ?_, ?_, ?_⟩
  · rw [ports, update_self, show mesh.peer (.core n) = .interface n plasma from rfl,
      update_of_ne (by simp)]
    exact joined
  · intro m known'
    exact carried.keptRouter known' (fun i _ => mesh.peer_router_core m i n) fun _ => by simp
  · intro m known'
    obtain ⟨held, uplink⟩ := carried.uplinks m known'
    rw [update_of_ne (show Endpoint.interface m noc ≠ .core n by simp)]
    exact ⟨held, uplink.feed (feed.update _)⟩
  · intro m known'
    rw [update_of_ne (by simp), update_of_ne (by simp)]
    exact carried.downlinks m known'
  · intro m known'
    simp only
    by_cases here : m = n
    · subst here
      simp only [update_self]
      exact writes
    · rw [update_of_ne here, update_of_ne here, update_of_ne (by simp [here])]
      exact carried.writers m known'
  · intro m k border
    rw [update_of_ne (by simp)]
    exact carried.borders m k border
  · intro m known' i bound tagged member
    rw [update_of_ne (mesh.peer_router_core m i n)] at member
    exact carried.ways m known' i bound tagged member

theorem Carried.finishSending (carried : Carried mesh packets world channel) (wide : mesh.Wide)
    (known : n < mesh.size) : ∃ channel', Carried mesh packets (world.finishSending n) channel' := by
  rw [MeshWorld.finishSending]
  split
  · next done =>
      have joined := carried.linked (.core n) known
      have acknowledged := joined.link.acknowledged done.2
      have link := joined.link
      rw [acknowledged] at link
      let after : Channel := ⟨.quiet, 0, (channel (.core n)).started, (channel (.core n)).rest⟩
      have writes : Writes false (world.offers n) after := ⟨rfl, (carried.writers n known).rest⟩
      have feed : SameFeed (channel (.core n)) after :=
        ⟨rfl, (Channel.pending_acknowledged acknowledged).symm⟩
      have driven := carried.coreDrives wide known feed ⟨link.withdraw 0, rfl⟩
        (sameInput_drive _ _ _) writes
      rw [update_eq_self n world.offers] at driven
      exact ⟨_, driven⟩
  · exact ⟨channel, carried⟩

theorem Carried.nocWrite (carried : Carried mesh packets world channel) (wide : mesh.Wide)
    (known : n < mesh.size) (ready : world.isSending n = false) :
    ∃ channel', Carried mesh packets (world.nocWrite n) channel' := by
  have joined := carried.linked (.core n) known
  obtain ⟨sending, rest⟩ := carried.writers n known
  have quiet : (channel (.core n)).phase = .quiet := by simpa [sending] using ready
  rw [MeshWorld.nocWrite]
  cases offers : world.offers n with
  | nil => exact ⟨channel, carried⟩
  | cons flit others =>
      rw [offers] at rest
      let after : Channel := ⟨.offered, flit, (channel (.core n)).started, others⟩
      have writes : Writes true others after := ⟨rfl, rfl⟩
      have feed : SameFeed (channel (.core n)) after := by
        refine ⟨rfl, ?_⟩
        rw [Channel.pending_quiet quiet, rest]
        rfl
      exact ⟨_, carried.coreDrives wide known feed ⟨joined.link.offer (.inl quiet) flit, rfl⟩
        (sameInput_drive _ _ _) writes⟩

theorem Carried.nocRead (carried : Carried mesh packets world channel) (wide : mesh.Wide)
    (known : n < mesh.size) (packetSize : Nat) (fresh : (world.cores n).inAck = false) :
    ∃ channel', Carried mesh packets (world.nocRead packetSize n) channel' := by
  have inside : mesh.Inside (.interface n plasma) := ⟨known, by decide⟩
  have joined := carried.linked _ inside
  rw [MeshWorld.nocRead]
  split
  · exact ⟨channel, carried.linked, carried.routers, carried.uplinks, carried.downlinks,
      carried.writers, carried.borders, carried.ways⟩
  · split
    · next request =>
        have requested := joined.link.pending request fresh
        have input : (world.cores n).input = (channel (.interface n plasma)).out :=
          joined.input requested
        have drain := SameDrain.take requested
        have drains : ∀ d, SameDrain (channel d) (update channel (.interface n plasma)
          (channel (.interface n plasma)).take d) := drain.update
        have ports : ({ world with
            cores := update world.cores n { world.cores n with inAck := true }
            flitsRemaining := update world.flitsRemaining n (world.flitsRemaining n - 1)
            received := update world.received n
              (world.received n ++ [(world.cores n).input]) } : MeshWorld).port =
            update world.port (.core n) { world.port (.core n) with inAck := true } :=
          setCore_port _
        refine ⟨update channel _ (channel (.interface n plasma)).take,
          carried.linked.touched wide inside (.take ports ⟨rfl, rfl, rfl⟩) ?_,
          ?_, ?_, ?_, ?_, ?_, ?_⟩
        · rw [ports, show mesh.peer (.interface n plasma) = .core n from rfl, update_self,
            update_of_ne (by simp)]
          exact joined.take requested
        · intro m known'
          exact carried.keptRouter known' (fun i _ => mesh.peer_router_plasma m i n)
            fun _ => by simp
        · intro m known'
          rw [update_of_ne (by simp), update_of_ne (by simp [noc, plasma])]
          exact carried.uplinks m known'
        · intro m known'
          obtain ⟨held, downlink⟩ := carried.downlinks m known'
          rw [update_of_ne (show Endpoint.router m localPort ≠ .interface n plasma by simp)]
          refine ⟨held, downlink.drain (drains _) ?_⟩
          simp only
          by_cases here : m = n
          · subst here
            rw [update_self, update_self, requested, input, Channel.take, List.append_assoc]
            rfl
          · rw [update_of_ne here, update_of_ne (by simp [here])]
        · intro m known'
          rw [update_of_ne (by simp)]
          exact carried.writers m known'
        · intro m k border
          rw [update_of_ne (by simp)]
          exact carried.borders m k border
        · intro m known' i bound tagged member
          rw [update_of_ne (mesh.peer_router_plasma m i n)] at member
          exact carried.ways m known' i bound tagged member
    · exact ⟨channel, carried⟩

theorem Carried.cycleCore (carried : Carried mesh packets world channel) (wide : mesh.Wide)
    (known : n < mesh.size) (packetSize : Nat) (act : Nat → CoreAct)
    (fresh : (world.cores n).inAck = false) :
    ∃ channel', Carried mesh packets (world.cycleCore packetSize act n) channel' := by
  rw [MeshWorld.cycleCore]
  split
  · next ready =>
      cases act n with
      | compute => exact ⟨channel, carried⟩
      | nocWrite => exact carried.nocWrite wide known ready
      | nocRead => exact carried.nocRead wide known packetSize fresh
  · exact ⟨channel, carried⟩

end Stages

end MpsocSim

end Hellfire

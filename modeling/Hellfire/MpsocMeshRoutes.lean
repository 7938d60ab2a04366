import Hellfire.Library.DimensionOrder
import Hellfire.MpsocMeshCore
import Hellfire.Wormhole

/-!
One router between the channels of its ports. A channel is told apart from the ports at its ends:
it has the packets that were started on it, the flits of the last one that its sender has still to
offer, and the flit that the receiver has still to take.
-/

namespace Hellfire

namespace MpsocSim

open Function DimensionOrder

structure Tagged where
  source : Nat
  packet : Packet

def packetsOf (tagged : List Tagged) : List Packet := tagged.map Tagged.packet

structure Channel where
  phase : Phase
  out : Flit
  started : List Tagged
  rest : List Flit

def Channel.pending (channel : Channel) : List Flit :=
  unread channel.phase channel.out ++ channel.rest

structure Transfer where
  input : Nat
  output : Nat
  tagged : Tagged

def takenFrom (closed : List Transfer) (i : Nat) : List Tagged :=
  (closed.filter fun transfer => transfer.input = i).map Transfer.tagged

def passedTo (closed : List Transfer) (k : Nat) : List Tagged :=
  (closed.filter fun transfer => transfer.output = k).map Transfer.tagged

/-- The packets that a router has forwarded and, for each input, those that were not forwarded
yet, what was taken from the buffer for the first of them, and what the buffer holds. -/
structure Station where
  closed : List Transfer
  coming : Nat → List Tagged
  taken : Nat → List Flit
  contents : Nat → List Flit

structure Vacant (closed : List Transfer) (k : Nat) (channel : Channel) : Prop where
  quiet : channel.phase = .quiet
  started : channel.started = passedTo closed k
  rest : channel.rest = []

inductive Occupied (closed : List Transfer) (k : Nat) (taken : List Flit) (first : Tagged)
    (channel : Channel) : Prop
  | waiting : taken = [] → Vacant closed k channel → Occupied closed k taken first channel
  | sending : taken ≠ [] → channel.phase ≠ .quiet →
      channel.started = passedTo closed k ++ [first] →
      first.packet.flits = taken ++ channel.rest → Occupied closed k taken first channel

structure Routes (mesh : Mesh) (n : Nat) (router : Router) (station : Station)
    (ins outs : Nat → Channel) : Prop where
  arbiter : router.arbiter < 5
  holds : ∀ i < 5, (router.buffers i).Holds (station.contents i)
  flits : ∀ i < 5, flitsOf (packetsOf (station.coming i)) =
    station.taken i ++ (station.contents i ++ (ins i).pending)
  progress : ∀ i < 5, Progress (router.status i) (router.packetsRemaining i)
    (packetsOf (station.coming i)) (station.taken i)
  streams : ∀ i < 5, (ins i).started = takenFrom station.closed i ++ station.coming i
  unused : ∀ k < 5, (∀ i < 5, router.status i ≠ .idle → router.redirectTo i ≠ k) →
    Vacant station.closed k (outs k)
  connected : ∀ i < 5, router.status i ≠ .idle → ∃ first later,
    station.coming i = first :: later ∧
    router.redirectTo i = mesh.dest n first.packet.header ∧
    Occupied station.closed (router.redirectTo i) (station.taken i) first
      (outs (router.redirectTo i))
  apart : ∀ i < 5, ∀ j < 5, i ≠ j → router.status i ≠ .idle → router.status j ≠ .idle →
    router.redirectTo i ≠ router.redirectTo j
  routed : ∀ transfer ∈ station.closed, transfer.input < 5 ∧
    transfer.output = mesh.dest n transfer.tagged.packet.header

structure SameFeed (before after : Channel) : Prop where
  started : after.started = before.started
  pending : after.pending = before.pending

structure SameDrain (before after : Channel) : Prop where
  quiet : after.phase = .quiet ↔ before.phase = .quiet
  out : after.out = before.out
  started : after.started = before.started
  rest : after.rest = before.rest

theorem SameFeed.refl (channel : Channel) : SameFeed channel channel := ⟨rfl, rfl⟩

theorem SameDrain.refl (channel : Channel) : SameDrain channel channel :=
  ⟨Iff.rfl, rfl, rfl, rfl⟩

variable {mesh : Mesh} {n i k : Nat} {router : Router} {station : Station}
  {ins outs ins' outs' : Nat → Channel}

theorem Vacant.same {closed : List Transfer} {channel channel' : Channel}
    (vacant : Vacant closed k channel) (same : SameDrain channel channel') :
    Vacant closed k channel' :=
  ⟨same.quiet.mpr vacant.quiet, same.started.trans vacant.started, same.rest.trans vacant.rest⟩

theorem Occupied.same {closed : List Transfer} {taken : List Flit} {first : Tagged}
    {channel channel' : Channel} (occupied : Occupied closed k taken first channel)
    (same : SameDrain channel channel') : Occupied closed k taken first channel' := by
  cases occupied with
  | waiting none vacant => exact .waiting none (vacant.same same)
  | sending some_flit busy started flits =>
      exact .sending some_flit (fun quiet => busy (same.quiet.mp quiet))
        (same.started.trans started) (by rw [same.rest]; exact flits)

namespace Routes

theorem bound (routes : Routes mesh n router station ins outs) (inside : i < 5)
    (busy : router.status i ≠ .idle) : router.redirectTo i < 5 := by
  obtain ⟨first, _, _, dest, _⟩ := routes.connected i inside busy
  rw [dest]
  exact dest_lt mesh n _

theorem congr (routes : Routes mesh n router station ins outs)
    (feeds : ∀ i < 5, SameFeed (ins i) (ins' i)) (drains : ∀ k < 5, SameDrain (outs k) (outs' k)) :
    Routes mesh n router station ins' outs' := by
  refine ⟨routes.arbiter, routes.holds, ?_, routes.progress, ?_, ?_, ?_, routes.apart,
    routes.routed⟩
  · intro i inside
    rw [(feeds i inside).pending]
    exact routes.flits i inside
  · intro i inside
    rw [(feeds i inside).started]
    exact routes.streams i inside
  · intro k inside free
    exact (routes.unused k inside free).same (drains k inside)
  · intro i inside busy
    obtain ⟨first, later, coming, dest, occupied⟩ := routes.connected i inside busy
    exact ⟨first, later, coming, dest, occupied.same (drains _ (routes.bound inside busy))⟩

theorem inlet (routes : Routes mesh n router station ins outs) (inside : i < 5) :
    Inlet cleanPort cleanPort (ins i).pending (router.buffers i) (router.status i)
      (router.packetsRemaining i)
      ⟨packetsOf (station.coming i), station.taken i, station.contents i, .quiet⟩ :=
  ⟨routes.holds i inside, .clean, routes.flits i inside, routes.progress i inside⟩

theorem extend (routes : Routes mesh n router station ins outs) {channel : Channel}
    {tagged : Tagged} (started : channel.started = (ins i).started ++ [tagged])
    (pending : channel.pending = (ins i).pending ++ tagged.packet.flits) :
    Routes mesh n router
      { station with coming := update station.coming i (station.coming i ++ [tagged]) }
      (update ins i channel) outs := by
  have longer : ∀ j, packetsOf (update station.coming i (station.coming i ++ [tagged]) j) =
      packetsOf (station.coming j) ++ if j = i then [tagged.packet] else [] := by
    intro j
    by_cases here : j = i
    · rw [here, update_self, if_pos rfl, packetsOf, packetsOf, List.map_append]
      rfl
    · rw [update_of_ne here, if_neg here, List.append_nil]
  refine ⟨routes.arbiter, routes.holds, ?_, ?_, ?_, routes.unused, ?_, routes.apart,
    routes.routed⟩
  · intro j inside
    simp only
    rw [longer]
    by_cases here : j = i
    · subst here
      rw [if_pos rfl, update_self, flitsOf_append, routes.flits j inside, pending]
      simp [flitsOf]
    · rw [if_neg here, update_of_ne here, List.append_nil]
      exact routes.flits j inside
  · intro j inside
    have progress := routes.progress j inside
    simp only
    rw [longer]
    cases status : router.status j with
    | idle =>
        rw [status] at progress
        exact progress
    | routingDelay =>
        rw [status] at progress
        exact ⟨by simp [progress.1], progress.2⟩
    | routingHeader =>
        rw [status] at progress
        obtain ⟨packet, later, first, taken⟩ := progress
        exact ⟨packet, later ++ _, by rw [first]; rfl, taken⟩
    | routingPayload | routingData =>
        rw [status] at progress
        obtain ⟨packet, later, sent, rest, first, others⟩ := progress
        exact ⟨packet, later ++ _, sent, rest, by rw [first]; rfl, others⟩
  · intro j inside
    simp only
    by_cases here : j = i
    · subst here
      rw [update_self, update_self, started, routes.streams j inside, List.append_assoc]
    · rw [update_of_ne here, update_of_ne here]
      exact routes.streams j inside
  · intro j inside busy
    obtain ⟨first, later, coming, others⟩ := routes.connected j inside busy
    simp only
    by_cases here : j = i
    · subst here
      rw [update_self, coming]
      exact ⟨first, later ++ [tagged], rfl, others⟩
    · rw [update_of_ne here]
      exact ⟨first, later, coming, others⟩

theorem receive (routes : Routes mesh n router station ins outs) (inside : i < 5)
    {channel : Channel} {flit : Flit} (started : channel.started = (ins i).started)
    (pending : (ins i).pending = flit :: channel.pending)
    (room : (router.buffers i).isFull = false) (ports : Nat → Port) :
    Routes mesh n
      { router with
        buffers := update router.buffers i ((router.buffers i).put flit), ports := ports }
      { station with contents := update station.contents i (station.contents i ++ [flit]) }
      (update ins i channel) outs := by
  have space : (station.contents i).length < (router.buffers i).max := by
    have holds := routes.holds i inside
    rw [holds.isFull, decide_eq_false_iff_not] at room
    exact Nat.lt_of_le_of_ne holds.bound room
  refine ⟨routes.arbiter, ?_, ?_, routes.progress, ?_, routes.unused, routes.connected,
    routes.apart, routes.routed⟩
  · intro j inside'
    by_cases here : j = i
    · subst here
      simp only [update_self]
      exact (routes.holds j inside).put space flit
    · simp only [update_of_ne here]
      exact routes.holds j inside'
  · intro j inside'
    by_cases here : j = i
    · subst here
      simp only [update_self]
      rw [routes.flits j inside, pending]
      simp
    · simp only [update_of_ne here]
      exact routes.flits j inside'
  · intro j inside'
    by_cases here : j = i
    · subst here
      rw [update_self, started]
      exact routes.streams j inside
    · rw [update_of_ne here]
      exact routes.streams j inside'

end Routes

section Forwarding

inductive Drives (mesh : Mesh) (n : Nat) (ins : Nat → Channel) (k : Nat) (before after : Channel) :
    Flit → Bool → Prop
  | start {flit : Flit} (i : Nat) (tagged : Tagged) : before.phase = .quiet →
      after.phase = .offered → after.out = flit → i < 5 → tagged ∈ (ins i).started →
      mesh.dest n tagged.packet.header = k → after.started = before.started ++ [tagged] →
      after.pending = before.pending ++ tagged.packet.flits →
      Drives mesh n ins k before after flit true
  | offer {flit : Flit} : before.phase = .acknowledged → after.phase = .offered →
      after.out = flit → SameFeed before after → Drives mesh n ins k before after flit true
  | withdraw : before.phase = .acknowledged → after.phase = .quiet → after.out = 0 →
      SameFeed before after → Drives mesh n ins k before after 0 false

theorem takenFrom_close (closed : List Transfer) (transfer : Transfer) (j : Nat) :
    takenFrom (closed ++ [transfer]) j =
      takenFrom closed j ++ if j = transfer.input then [transfer.tagged] else [] := by
  unfold takenFrom
  by_cases here : j = transfer.input
  · simp [here]
  · simp [here, Ne.symm here]

theorem passedTo_close (closed : List Transfer) (transfer : Transfer) (j : Nat) :
    passedTo (closed ++ [transfer]) j =
      passedTo closed j ++ if j = transfer.output then [transfer.tagged] else [] := by
  unfold passedTo
  by_cases here : j = transfer.output
  · simp [here]
  · simp [here, Ne.symm here]

theorem Vacant.beside {closed : List Transfer} {transfer : Transfer} {channel : Channel}
    (vacant : Vacant closed k channel) (other : k ≠ transfer.output) :
    Vacant (closed ++ [transfer]) k channel := by
  refine ⟨vacant.quiet, ?_, vacant.rest⟩
  rw [passedTo_close, if_neg other, List.append_nil]
  exact vacant.started

theorem Occupied.beside {closed : List Transfer} {transfer : Transfer} {channel : Channel}
    {taken : List Flit} {first : Tagged} (occupied : Occupied closed k taken first channel)
    (other : k ≠ transfer.output) : Occupied (closed ++ [transfer]) k taken first channel := by
  cases occupied with
  | waiting none vacant => exact .waiting none (vacant.beside other)
  | sending some_flit busy started flits =>
      refine .sending some_flit busy ?_ flits
      rw [passedTo_close, if_neg other, List.append_nil]
      exact started

theorem Channel.pending_quiet {channel : Channel} (quiet : channel.phase = .quiet) :
    channel.pending = channel.rest := by
  rw [Channel.pending, quiet]
  rfl

theorem Channel.pending_acknowledged {channel : Channel}
    (acknowledged : channel.phase = .acknowledged) : channel.pending = channel.rest := by
  rw [Channel.pending, acknowledged]
  rfl

namespace Routes

theorem send (routes : Routes mesh n router station ins outs) (inside : i < 5)
    (busy : router.status i ≠ .idle) {after : Router} {status : Status} {remaining : Int}
    (sends : Sends router after i status remaining) (still : status ≠ .idle) {flit : Flit}
    {rest : List Flit} (stored : station.contents i = flit :: rest)
    (ready : station.taken i ≠ [] → (outs (router.redirectTo i)).phase = .acknowledged)
    (progress : Progress status remaining (packetsOf (station.coming i))
      (station.taken i ++ [flit])) :
    ∃ channel station', Drives mesh n ins (router.redirectTo i) (outs (router.redirectTo i))
        channel flit true ∧
      Routes mesh n after station' ins (update outs (router.redirectTo i) channel) := by
  obtain ⟨first, later, coming, dest, occupied⟩ := routes.connected i inside busy
  generalize same : router.redirectTo i = k at *
  -- The flit is the next one of the packet.
  obtain ⟨more, split⟩ : ∃ more, first.packet.flits = station.taken i ++ flit :: more := by
    obtain ⟨packet, others, whole, more, split⟩ := progress.started still
    rw [coming] at whole
    obtain ⟨rfl, _⟩ := List.cons.inj whole
    exact ⟨more, by rw [← split]; simp⟩
  have other_idle : ∀ j, after.status j ≠ .idle ↔ router.status j ≠ .idle := by
    intro j
    rw [sends.status]
    by_cases here : j = i
    · rw [here, update_self]
      exact iff_of_true still busy
    · rw [update_of_ne here]
  -- Whether the packet is started here or not, its rest is what comes behind the flit.
  obtain ⟨channel, drives, offered, started, left⟩ : ∃ channel,
      Drives mesh n ins k (outs k) channel flit true ∧ channel.phase = .offered ∧
      channel.started = passedTo station.closed k ++ [first] ∧ channel.rest = more := by
    cases occupied with
    | waiting none vacant =>
        rw [none, List.nil_append] at split
        refine ⟨⟨.offered, flit, (outs k).started ++ [first], more⟩,
          .start i first vacant.quiet rfl rfl inside ?_ dest.symm rfl ?_, rfl, ?_, rfl⟩
        · rw [routes.streams i inside, coming]
          simp
        · rw [Channel.pending_quiet vacant.quiet, vacant.rest, split]
          rfl
        · rw [vacant.started]
    | sending some_flit _ started flits =>
        have left : (outs k).rest = flit :: more :=
          List.append_cancel_left (flits.symm.trans split)
        have acknowledged := ready some_flit
        refine ⟨⟨.offered, flit, (outs k).started, more⟩, .offer acknowledged rfl rfl ⟨rfl, ?_⟩,
          rfl, started, rfl⟩
        rw [Channel.pending_acknowledged acknowledged, left]
        rfl
  refine ⟨channel, { station with
    taken := update station.taken i (station.taken i ++ [flit])
    contents := update station.contents i rest }, drives, ?_⟩
  have inlet := routes.inlet inside
  refine ⟨?_, ?_, ?_, ?_, routes.streams, ?_, ?_, ?_, routes.routed⟩
  · rw [sends.arbiter]
    exact routes.arbiter
  · intro j inside'
    rw [sends.buffers]
    by_cases here : j = i
    · subst here
      have holds := routes.holds j inside
      rw [stored] at holds
      simp only [update_self]
      exact holds.take.2.2
    · simp only [update_of_ne here]
      exact routes.holds j inside'
  · intro j inside'
    by_cases here : j = i
    · subst here
      simp only [update_self]
      rw [routes.flits j inside, stored]
      simp
    · simp only [update_of_ne here]
      exact routes.flits j inside'
  · intro j inside'
    rw [sends.status, sends.remaining]
    by_cases here : j = i
    · subst here
      simp only [update_self]
      exact progress
    · simp only [update_of_ne here]
      exact routes.progress j inside'
  · intro j inside' free
    have elsewhere : j ≠ k := by
      rintro rfl
      exact free i inside ((other_idle i).mpr busy) (by rw [sends.redirectTo, same])
    rw [update_of_ne elsewhere]
    refine routes.unused j inside' fun m bounded open_ => ?_
    rw [← sends.redirectTo]
    exact free m bounded ((other_idle m).mpr open_)
  · intro j inside' open_
    have open' := (other_idle j).mp open_
    rw [sends.redirectTo]
    by_cases here : j = i
    · subst here
      refine ⟨first, later, coming, by rw [same]; exact dest, ?_⟩
      simp only [same, update_self]
      exact .sending (by simp) (by simp [offered]) started (by rw [split, left]; simp)
    · obtain ⟨head, others, queue, goes, used⟩ := routes.connected j inside' open'
      have elsewhere : router.redirectTo j ≠ k := by
        rw [← same]
        exact routes.apart j inside' i inside here open' busy
      simp only [update_of_ne here, update_of_ne elsewhere]
      exact ⟨head, others, queue, goes, used⟩
  · intro j inside' m bounded other
    rw [other_idle, other_idle, sends.redirectTo]
    exact routes.apart j inside' m bounded other

theorem close (routes : Routes mesh n router station ins outs) (inside : i < 5)
    (busy : router.status i ≠ .idle) {after : Router} (closes : Closes router after i)
    (acknowledged : (outs (router.redirectTo i)).phase = .acknowledged) {packet : Packet}
    {packets : List Packet} (coming : packetsOf (station.coming i) = packet :: packets)
    (whole : station.taken i = packet.flits) :
    ∃ channel station', Drives mesh n ins (router.redirectTo i) (outs (router.redirectTo i))
        channel 0 false ∧
      Routes mesh n after station' ins (update outs (router.redirectTo i) channel) := by
  obtain ⟨first, later, queue, dest, occupied⟩ := routes.connected i inside busy
  generalize same : router.redirectTo i = k at *
  rw [queue] at coming
  obtain ⟨rfl, _⟩ := List.cons.inj coming
  have nonempty : station.taken i ≠ [] := by
    rw [whole, Packet.flits]
    exact List.cons_ne_nil _ _
  obtain ⟨started, rest⟩ : (outs k).started = passedTo station.closed k ++ [first] ∧
      (outs k).rest = [] := by
    cases occupied with
    | waiting none _ => exact absurd none nonempty
    | sending _ _ started flits =>
        rw [whole] at flits
        exact ⟨started, List.self_eq_append_right.mp flits⟩
  have others : ∀ j, after.status j ≠ .idle → j ≠ i ∧ router.status j ≠ .idle ∧
      after.redirectTo j = router.redirectTo j := by
    intro j open_
    rw [closes.status] at open_
    have here : j ≠ i := by
      rintro rfl
      rw [update_self] at open_
      exact open_ rfl
    rw [update_of_ne here] at open_
    rw [closes.redirectTo, update_of_ne here]
    exact ⟨here, open_, rfl⟩
  refine ⟨⟨.quiet, 0, (outs k).started, []⟩, { station with
      closed := station.closed ++ [⟨i, k, first⟩]
      coming := update station.coming i later
      taken := update station.taken i [] },
    .withdraw acknowledged rfl rfl ⟨rfl, ?_⟩, ?_⟩
  · rw [Channel.pending_acknowledged acknowledged, rest]
    rfl
  have inlet := routes.flits i inside
  rw [queue, packetsOf, List.map_cons, flitsOf_cons, whole] at inlet
  have behind := List.append_cancel_left inlet
  refine ⟨?_, ?_, ?_, ?_, ?_, ?_, ?_, ?_, ?_⟩
  · rw [closes.arbiter]
    exact routes.arbiter
  · rw [closes.buffers]
    exact routes.holds
  · intro j inside'
    by_cases here : j = i
    · subst here
      simp only [update_self]
      exact behind
    · simp only [update_of_ne here]
      exact routes.flits j inside'
  · intro j inside'
    rw [closes.status, closes.remaining]
    by_cases here : j = i
    · subst here
      simp only [update_self]
      rfl
    · simp only [update_of_ne here]
      exact routes.progress j inside'
  · intro j inside'
    rw [takenFrom_close, routes.streams j inside']
    by_cases here : j = i
    · subst here
      simp only [↓reduceIte, update_self]
      rw [queue, List.append_assoc]
      rfl
    · simp only [if_neg here, update_of_ne here, List.append_nil]
  · intro j inside' free
    by_cases here : j = k
    · subst here
      rw [update_self]
      refine ⟨rfl, ?_, rfl⟩
      rw [passedTo_close, if_pos rfl]
      exact started
    · rw [update_of_ne here]
      refine (routes.unused j inside' fun m bounded open_ => ?_).beside here
      by_cases again : m = i
      · rw [again, same]
        exact Ne.symm here
      · have still : after.status m ≠ .idle := by
          rw [closes.status, update_of_ne again]
          exact open_
        rw [← (others m still).2.2]
        exact free m bounded still
  · intro j inside' open_
    obtain ⟨here, open', kept⟩ := others j open_
    obtain ⟨head, tail, waits, goes, used⟩ := routes.connected j inside' open'
    have elsewhere : router.redirectTo j ≠ k := by
      rw [← same]
      exact routes.apart j inside' i inside here open' busy
    simp only [kept, update_of_ne here, update_of_ne elsewhere]
    exact ⟨head, tail, waits, goes, used.beside elsewhere⟩
  · intro j inside' m bounded other open_ open'
    rw [(others j open_).2.2, (others m open').2.2]
    exact routes.apart j inside' m bounded other (others j open_).2.1 (others m open').2.1
  · intro transfer member
    rcases List.mem_append.mp member with old | new
    · exact routes.routed transfer old
    · rw [List.mem_singleton.mp new]
      exact ⟨inside, dest⟩

end Routes

inductive Moved (mesh : Mesh) (n : Nat) (ins outs : Nat → Channel) (before after : Router) : Prop
  | kept (station : Station) : after.ports = before.ports →
      Routes mesh n after station ins outs → Moved mesh n ins outs before after
  | driven (k : Nat) (channel : Channel) (flit : Flit) (request : Bool) (station : Station) :
      k < 5 → after.ports = update before.ports k ((before.ports k).drive flit request) →
      Drives mesh n ins k (outs k) channel flit request →
      Routes mesh n after station ins (update outs k channel) → Moved mesh n ins outs before after

namespace Routes

theorem setStatus (routes : Routes mesh n router station ins outs) (inside : i < 5)
    (busy : router.status i ≠ .idle) {status : Status} (still : status ≠ .idle)
    (progress : Progress status (router.packetsRemaining i) (packetsOf (station.coming i))
      (station.taken i)) : Routes mesh n (router.setStatus i status) station ins outs := by
  have occupied : ∀ j, update router.status i status j ≠ .idle ↔ router.status j ≠ .idle := by
    intro j
    by_cases here : j = i
    · rw [here, update_self]
      exact iff_of_true still busy
    · rw [update_of_ne here]
  refine ⟨routes.arbiter, routes.holds, routes.flits, ?_, routes.streams, ?_, ?_, ?_,
    routes.routed⟩
  · intro j inside'
    simp only [Router.setStatus]
    by_cases here : j = i
    · subst here
      rw [update_self]
      exact progress
    · rw [update_of_ne here]
      exact routes.progress j inside'
  · intro k bounded free
    exact routes.unused k bounded fun j inside' open_ => free j inside' ((occupied j).mpr open_)
  · intro j inside' open_
    exact routes.connected j inside' ((occupied j).mp open_)
  · intro j inside' m bounded other open_ open'
    exact routes.apart j inside' m bounded other ((occupied j).mp open_) ((occupied m).mp open')

theorem forwardData (routes : Routes mesh n router station ins outs) (inside : i < 5)
    (acks : ∀ k < 5, (router.ports k).outAck = true → (outs k).phase = .acknowledged)
    (sending : router.status i = .routingPayload ∨ router.status i = .routingData) :
    Moved mesh n ins outs router (router.forwardData i) := by
  obtain ⟨finished, next, progress⟩ := (routes.inlet inside).data sending
  have busy : router.status i ≠ .idle := by
    rcases sending with payload | data
    · simp [payload]
    · simp [data]
  have bounded := routes.bound inside busy
  simp only [Router.forwardData]
  split
  · next ack =>
      have acknowledged := acks _ bounded ack
      split
      · next last =>
          obtain ⟨packet, later, first, whole⟩ := finished last
          have closes : Closes router ((router.setStatus i .routingData).close i) i := by
            refine ⟨rfl, rfl, rfl, ?_, rfl, rfl⟩
            simp only [Router.close, Router.setStatus, update_idem]
          obtain ⟨channel, station', drives, kept⟩ :=
            routes.close inside busy closes acknowledged first whole
          exact .driven _ channel 0 false station' bounded rfl drives kept
      · next more =>
          split
          · next some_flit =>
              obtain ⟨rest, stored⟩ := (routes.inlet inside).stored some_flit
              have sends : Sends router (((router.setStatus i .routingData).send
                  i).setRemaining i (router.packetsRemaining i - 1)) i .routingData
                  (router.packetsRemaining i - 1) := ⟨rfl, rfl, rfl, rfl, rfl, rfl⟩
              obtain ⟨channel, station', drives, kept⟩ := routes.send inside busy sends (by simp)
                stored (fun _ => acknowledged) (next more _ rest stored)
              exact .driven _ channel _ true station' bounded rfl drives kept
          · exact .kept station rfl (routes.setStatus inside busy (by simp) progress)
  · exact .kept station rfl routes

theorem counted (routes : Routes mesh n router station ins outs) (delays : Nat → Int) :
    Routes mesh n { router with routingDelay := delays } station ins outs :=
  ⟨routes.arbiter, routes.holds, routes.flits, routes.progress, routes.streams, routes.unused,
    routes.connected, routes.apart, routes.routed⟩

theorem forwardOne (routes : Routes mesh n router station ins outs) (inside : i < 5)
    (acks : ∀ k < 5, (router.ports k).outAck = true → (outs k).phase = .acknowledged) :
    Moved mesh n ins outs router (router.forwardOne i) := by
  have inlet := routes.inlet inside
  cases status : router.status i with
  | idle =>
      simp only [Router.forwardOne, status]
      exact .kept station rfl routes
  | routingDelay =>
      simp only [Router.forwardOne, status]
      rw [status] at inlet
      have busy : router.status i ≠ .idle := by simp [status]
      split
      · next due =>
          obtain ⟨rest, stored⟩ := inlet.stored due.2
          let counted : Router := { router with
            routingDelay := update router.routingDelay i (router.routingDelay i - 1) }
          have sends : Sends router ((counted.send i).setStatus i .routingHeader) i
              .routingHeader (router.packetsRemaining i) :=
            ⟨rfl, rfl, rfl, rfl, (update_eq_self i _).symm, rfl⟩
          obtain ⟨channel, station', drives, kept⟩ := routes.send inside busy sends (by simp)
            stored (fun some_flit => absurd inlet.progress.2 some_flit) (inlet.header stored)
          exact .driven _ channel _ true station' (routes.bound inside busy) rfl drives kept
      · exact .kept station rfl (routes.counted _)
  | routingHeader =>
      simp only [Router.forwardOne, status]
      rw [status] at inlet
      have busy : router.status i ≠ .idle := by simp [status]
      split
      · next due =>
          obtain ⟨rest, stored⟩ := inlet.stored due.2
          have sends : Sends router (((router.send i).setRemaining i
              (router.buffers i).read.toNat).setStatus i .routingPayload) i .routingPayload
              (router.buffers i).read.toNat := ⟨rfl, rfl, rfl, rfl, rfl, rfl⟩
          have bounded := routes.bound inside busy
          obtain ⟨channel, station', drives, kept⟩ := routes.send inside busy sends (by simp)
            stored (fun _ => acks _ bounded due.1) (inlet.count stored)
          exact .driven _ channel _ true station' bounded rfl drives kept
      · exact .kept station rfl routes
  | routingPayload =>
      simp only [Router.forwardOne, status]
      exact routes.forwardData inside acks (Or.inl status)
  | routingData =>
      simp only [Router.forwardOne, status]
      exact routes.forwardData inside acks (Or.inr status)

theorem waiting (routes : Routes mesh n router station ins outs) (inside : i < 5)
    (idle : router.status i = .idle) (some_flit : (router.buffers i).isEmpty = false) :
    station.taken i = [] ∧ ∃ first later, station.coming i = first :: later ∧
      (router.buffers i).read = first.packet.header := by
  have inlet := routes.inlet inside
  have nothing : station.taken i = [] := by
    have progress := inlet.progress
    rwa [idle] at progress
  refine ⟨nothing, ?_⟩
  obtain ⟨rest, stored⟩ := inlet.stored some_flit
  have flits := inlet.flits
  simp only at stored flits
  rw [nothing, stored, List.nil_append] at flits
  cases coming : station.coming i with
  | nil =>
      rw [coming] at flits
      cases flits
  | cons first later =>
      rw [coming, packetsOf, List.map_cons, flitsOf_cons, Packet.flits] at flits
      exact ⟨first, later, rfl, ((List.cons.inj flits).1).symm⟩

theorem connects (routes : Routes mesh n router station ins outs) (inside : i < 5)
    (idle : router.status i = .idle) (some_flit : (router.buffers i).isEmpty = false)
    (unused : router.inUse i (mesh.dest n (router.buffers i).read) = false) (delay : Int) :
    Routes mesh n { router with
      redirectTo := update router.redirectTo i (mesh.dest n (router.buffers i).read)
      status := update router.status i .routingDelay
      routingDelay := update router.routingDelay i delay } station ins outs := by
  obtain ⟨nothing, first, later, coming, header⟩ := routes.waiting inside idle some_flit
  rw [header] at unused ⊢
  have destBound := dest_lt mesh n first.packet.header
  generalize way : mesh.dest n first.packet.header = dest at *
  have free : ∀ j < 5, j ≠ i → router.status j ≠ .idle → router.redirectTo j ≠ dest := by
    intro j bounded other busy same
    have none := List.any_eq_false.mp unused j (List.mem_range.mpr bounded)
    simp only [decide_eq_true_eq] at none
    exact none ⟨other, busy, same⟩
  have vacant : Vacant station.closed dest (outs dest) := by
    refine routes.unused dest destBound fun j bounded busy => ?_
    by_cases here : j = i
    · rw [here] at busy
      exact absurd idle busy
    · exact free j bounded here busy
  refine ⟨routes.arbiter, routes.holds, routes.flits, ?_, routes.streams, ?_, ?_, ?_,
    routes.routed⟩
  · intro j bounded
    simp only
    by_cases here : j = i
    · subst here
      rw [update_self]
      refine ⟨?_, nothing⟩
      rw [coming, packetsOf, List.map_cons]
      exact List.cons_ne_nil _ _
    · rw [update_of_ne here]
      exact routes.progress j bounded
  · intro k bounded others
    refine routes.unused k bounded fun j bounded' busy => ?_
    have here : j ≠ i := by
      rintro rfl
      exact busy idle
    have elsewhere := others j bounded'
    simp only [update_of_ne here] at elsewhere
    exact elsewhere busy
  · intro j bounded busy
    simp only at busy ⊢
    by_cases here : j = i
    · subst here
      rw [update_self]
      exact ⟨first, later, coming, way.symm, .waiting nothing vacant⟩
    · rw [update_of_ne here] at busy ⊢
      exact routes.connected j bounded busy
  · intro j bounded m bounded' other busy busy'
    simp only at busy busy' ⊢
    by_cases here : j = i
    · have there : m ≠ i := fun same => other (here.trans same.symm)
      rw [update_of_ne there] at busy' ⊢
      rw [here, update_self]
      exact Ne.symm (free m bounded' there busy')
    · rw [update_of_ne here] at busy ⊢
      by_cases there : m = i
      · rw [there, update_self]
        exact free j bounded here busy
      · rw [update_of_ne there] at busy' ⊢
        exact routes.apart j bounded m bounded' other busy busy'

theorem connect (routes : Routes mesh n router station ins outs) :
    Routes mesh n (router.connect mesh n) station ins outs := by
  simp only [Router.connect]
  split
  · next idle =>
      split
      · next unused => exact routes.connects routes.arbiter idle.1 idle.2 unused _
      · exact routes
  · exact routes

theorem turn (routes : Routes mesh n router station ins outs) :
    Routes mesh n (router.turn mesh n) station ins outs :=
  ⟨skipBorder_lt mesh n (Nat.mod_lt _ (by decide)), routes.holds, routes.flits, routes.progress,
    routes.streams, routes.unused, routes.connected, routes.apart, routes.routed⟩

theorem started (routes : Routes mesh n router station ins outs) (inside : k < 5) :
    (outs k).started = passedTo station.closed k ∨ ∃ i < 5, ∃ first later,
      station.coming i = first :: later ∧ mesh.dest n first.packet.header = k ∧
      (outs k).started = passedTo station.closed k ++ [first] := by
  by_cases used : ∃ i < 5, router.status i ≠ .idle ∧ router.redirectTo i = k
  · obtain ⟨i, bounded, busy, rfl⟩ := used
    obtain ⟨first, later, coming, way, occupied⟩ := routes.connected i bounded busy
    cases occupied with
    | waiting _ vacant => exact .inl vacant.started
    | sending _ _ started _ => exact .inr ⟨i, bounded, first, later, coming, way.symm, started⟩
  · refine .inl (routes.unused k inside fun i bounded busy same => ?_).started
    exact used ⟨i, bounded, busy, same⟩

theorem load (memory : Nat → List Flit) (quiet : ∀ k < 5, (outs k).phase = .quiet)
    (empty : ∀ k < 5, (outs k).started = [] ∧ (outs k).rest = [])
    (streams : ∀ i < 5, flitsOf (packetsOf (ins i).started) = (ins i).pending) :
    Routes mesh n (loadRouter memory)
      ⟨[], fun i => (ins i).started, fun _ => [], fun _ => []⟩ ins outs := by
  have idle : ∀ i, ¬(loadRouter memory).status i ≠ .idle := fun _ busy => busy rfl
  refine ⟨Nat.succ_pos 4, fun i _ => .create (memory i), ?_, fun i _ => rfl, fun i _ => rfl, ?_, ?_, ?_,
    ?_⟩
  · intro i inside
    rw [streams i inside]
    rfl
  · intro k inside _
    exact ⟨quiet k inside, (empty k inside).1, (empty k inside).2⟩
  · intro i _ busy
    exact absurd busy (idle i)
  · intro i _ _ _ _ busy
    exact absurd busy (idle i)
  · intro transfer member
    cases member

end Routes

end Forwarding

end MpsocSim

end Hellfire

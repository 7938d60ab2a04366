import Hellfire.Library.Machine
import Hellfire.MpsocLinks

/-!
Wormhole switching in a router of the mesh: a connection keeps its output from the header of a
packet to its last flit, so the neighbour on an output accepts whole packets.
-/

namespace Hellfire

namespace MpsocSim

open Function Machine

def flitsOf (packets : List Packet) : List Flit := packets.flatMap Packet.flits

structure Connection where
  input : Nat
  output : Nat
  packet : Packet

def fromInput (closed : List Connection) (i : Nat) : List Packet :=
  (closed.filter fun connection => connection.input = i).map Connection.packet

def onOutput (closed : List Connection) (k : Nat) : List Packet :=
  (closed.filter fun connection => connection.output = k).map Connection.packet

/-- An input: the packets that were not forwarded yet, what was taken from the buffer for the
first of them, what the buffer holds, and the phase of the link behind it. -/
structure Lane where
  coming : List Packet
  taken : List Flit
  contents : List Flit
  phase : Phase

structure Outgoing where
  phase : Phase
  part : List Flit

/-- What a connection has taken from its buffer, by its status. -/
def Progress (status : Status) (remaining : Int) (coming : List Packet) (taken : List Flit) :
    Prop :=
  match status with
  | .idle => taken = []
  | .routingDelay => coming ≠ [] ∧ taken = []
  | .routingHeader => ∃ packet later, coming = packet :: later ∧ taken = [packet.header]
  | .routingPayload | .routingData => ∃ packet later sent rest, coming = packet :: later ∧
      packet.payload = sent ++ rest ∧
      taken = packet.header :: UInt16.ofNat packet.payload.length :: sent ∧
      remaining = (rest.length : Int)

structure Inlet (neighbour port : Port) (offers : List Flit) (buffer : Buffer) (status : Status)
    (remaining : Int) (lane : Lane) : Prop where
  holds : buffer.Holds lane.contents
  link : Link lane.phase neighbour port
  flits : flitsOf lane.coming =
    lane.taken ++ (lane.contents ++ (unread lane.phase neighbour.out ++ offers))
  progress : Progress status remaining lane.coming lane.taken

structure Outlet (port neighbour : Port) (accepted finished : List Flit) (outgoing : Outgoing) :
    Prop where
  link : Link outgoing.phase port neighbour
  flits : accepted ++ unread outgoing.phase port.out = finished ++ outgoing.part
  quiet : outgoing.part = [] → outgoing.phase = .quiet

structure Wormhole (packets : Nat → List Packet) (world : RouterWorld) (closed : List Connection)
    (lanes : Nat → Lane) (outs : Nat → Outgoing) : Prop where
  arbiter : world.router.arbiter < 5
  inlets : ∀ i < 5, Inlet (world.neighbours i) (world.router.ports i) (world.offers i)
    (world.router.buffers i) (world.router.status i) (world.router.packetsRemaining i) (lanes i)
  streams : ∀ i < 5, packets i = fromInput closed i ++ (lanes i).coming
  outlets : ∀ k < 5, Outlet (world.router.ports k) (world.neighbours k) (world.accepted k)
    (flitsOf (onOutput closed k)) (outs k)
  sources : ∀ i < 5, world.router.status i ≠ .idle → world.router.redirectTo i < 5 ∧
    (lanes i).taken = (outs (world.router.redirectTo i)).part
  free : ∀ k < 5, (∀ i < 5, world.router.status i ≠ .idle → world.router.redirectTo i ≠ k) →
    (outs k).part = []
  apart : ∀ i < 5, ∀ j < 5, i ≠ j → world.router.status i ≠ .idle →
    world.router.status j ≠ .idle → world.router.redirectTo i ≠ world.router.redirectTo j
  known : ∀ connection ∈ closed, connection.input < 5 ∧ connection.output < 5

variable {packets : Nat → List Packet} {world : RouterWorld} {closed : List Connection}
  {lanes : Nat → Lane} {outs : Nat → Outgoing} {i : Nat}

section Forwarding

structure Sends (before after : Router) (i : Nat) (status : Status) (remaining : Int) : Prop where
  arbiter : after.arbiter = before.arbiter
  buffers : after.buffers = update before.buffers i (before.buffers i).take.2
  ports : after.ports = update before.ports (before.redirectTo i)
    ((before.ports (before.redirectTo i)).drive (before.buffers i).read true)
  status : after.status = update before.status i status
  remaining : after.packetsRemaining = update before.packetsRemaining i remaining
  redirectTo : after.redirectTo = before.redirectTo

theorem sameInput_update {ports : Nat → Port} {dest : Nat} {port : Port}
    (same : SameInput (ports dest) port) (k : Nat) :
    SameInput (ports k) (update ports dest port k) := by
  by_cases here : k = dest
  · rw [here, update_self]
    exact same
  · rw [update_of_ne here]
    exact .refl _

theorem Inlet.same_port {neighbour port port' : Port} {offers : List Flit} {buffer : Buffer}
    {status : Status} {remaining : Int} {lane : Lane}
    (inlet : Inlet neighbour port offers buffer status remaining lane)
    (same : SameInput port port') : Inlet neighbour port' offers buffer status remaining lane :=
  ⟨inlet.holds, inlet.link.congr (.refl _) same, inlet.flits, inlet.progress⟩

@[simp] theorem flitsOf_cons (packet : Packet) (packets : List Packet) :
    flitsOf (packet :: packets) = packet.flits ++ flitsOf packets :=
  List.flatMap_cons

@[simp] theorem flitsOf_append (first second : List Packet) :
    flitsOf (first ++ second) = flitsOf first ++ flitsOf second :=
  List.flatMap_append

section Ends

variable {neighbour port port' : Port} {offers accepted finished : List Flit} {buffer : Buffer}
  {status status' : Status} {remaining remaining' : Int} {lane : Lane} {outgoing : Outgoing}

theorem Inlet.sends (inlet : Inlet neighbour port offers buffer status remaining lane)
    (same : SameInput port port') {flit : Flit} {rest : List Flit}
    (stored : lane.contents = flit :: rest)
    (progress : Progress status' remaining' lane.coming (lane.taken ++ [flit])) :
    buffer.read = flit ∧ Inlet neighbour port' offers buffer.take.2 status' remaining'
      { lane with taken := lane.taken ++ [flit], contents := rest } := by
  have holds := inlet.holds
  rw [stored] at holds
  obtain ⟨oldest, _, fewer⟩ := holds.take
  refine ⟨oldest, fewer, inlet.link.congr (.refl _) same, ?_, progress⟩
  have flits := inlet.flits
  rw [stored] at flits
  rw [flits]
  simp

theorem Outlet.sends (outlet : Outlet port neighbour accepted finished outgoing)
    (ready : outgoing.phase = .quiet ∨ outgoing.phase = .acknowledged) (flit : Flit) :
    Outlet (port.drive flit true) neighbour accepted finished
      ⟨.offered, outgoing.part ++ [flit]⟩ := by
  refine ⟨outlet.link.offer ready flit, ?_, by simp⟩
  have nothing : unread outgoing.phase port.out = [] := by
    rcases ready with quiet | acknowledged
    · rw [quiet]
      rfl
    · rw [acknowledged]
      rfl
  have flits := outlet.flits
  rw [nothing, List.append_nil] at flits
  rw [flits, List.append_assoc]
  rfl

theorem Inlet.closes (inlet : Inlet neighbour port offers buffer status remaining lane)
    (same : SameInput port port') {packet : Packet} {later : List Packet}
    (first : lane.coming = packet :: later) (whole : lane.taken = packet.flits) :
    Inlet neighbour port' offers buffer .idle 0 { lane with coming := later, taken := [] } := by
  refine ⟨inlet.holds, inlet.link.congr (.refl _) same, ?_, rfl⟩
  have flits := inlet.flits
  rw [first, flitsOf_cons, whole] at flits
  exact List.append_cancel_left flits

theorem Outlet.closes (outlet : Outlet port neighbour accepted finished outgoing)
    (acknowledged : outgoing.phase = .acknowledged) :
    Outlet (port.drive 0 false) neighbour accepted (finished ++ outgoing.part) ⟨.quiet, []⟩ := by
  have link := outlet.link
  have flits := outlet.flits
  rw [acknowledged] at link flits
  refine ⟨link.withdraw 0, ?_, fun _ => rfl⟩
  simpa [unread] using flits

end Ends

theorem Wormhole.sends (worm : Wormhole packets world closed lanes outs) (bound : i < 5)
    {after : Router} {status : Status} {remaining : Int}
    (sends : Sends world.router after i status remaining)
    (connected : world.router.status i ≠ .idle) (still : status ≠ .idle) {flit : Flit}
    {rest : List Flit} (stored : (lanes i).contents = flit :: rest)
    (ready : (outs (world.router.redirectTo i)).phase = .quiet ∨
      (outs (world.router.redirectTo i)).phase = .acknowledged)
    (progress : Progress status remaining (lanes i).coming ((lanes i).taken ++ [flit])) :
    ∃ lanes' outs', Wormhole packets { world with router := after } closed lanes' outs' := by
  obtain ⟨destBound, whole⟩ := worm.sources i bound connected
  let dest := world.router.redirectTo i
  let lane : Lane := { lanes i with taken := (lanes i).taken ++ [flit], contents := rest }
  let outgoing : Outgoing := ⟨.offered, (outs dest).part ++ [flit]⟩
  have ports : ∀ k, SameInput (world.router.ports k) (after.ports k) := by
    intro k
    rw [sends.ports]
    exact sameInput_update (sameInput_drive _ _ _) k
  obtain ⟨oldest, inlet⟩ := (worm.inlets i bound).sends (ports i) stored progress
  have occupied : ∀ j, after.status j ≠ .idle ↔ world.router.status j ≠ .idle := by
    intro j
    rw [sends.status]
    by_cases here : j = i
    · rw [here, update_self]
      exact iff_of_true still connected
    · rw [update_of_ne here]
  refine ⟨update lanes i lane, update outs dest outgoing,
    ⟨?_, ?_, ?_, ?_, ?_, ?_, ?_, worm.known⟩⟩
  · simp only
    rw [sends.arbiter]
    exact worm.arbiter
  · intro j inside
    by_cases here : j = i
    · subst here
      simp only [sends.buffers, sends.status, sends.remaining, update_self]
      exact inlet
    · simp only [sends.buffers, sends.status, sends.remaining, update_of_ne here]
      exact (worm.inlets j inside).same_port (ports j)
  · intro j inside
    by_cases here : j = i
    · subst here
      rw [update_self]
      exact worm.streams j inside
    · rw [update_of_ne here]
      exact worm.streams j inside
  · intro k inside
    by_cases here : k = dest
    · rw [here]
      simp only [sends.ports, oldest]
      rw [show world.router.redirectTo i = dest from rfl, update_self, update_self]
      exact (worm.outlets dest destBound).sends ready flit
    · simp only [sends.ports]
      rw [show world.router.redirectTo i = dest from rfl, update_of_ne here, update_of_ne here]
      exact worm.outlets k inside
  · intro j inside busy
    simp only at busy ⊢
    rw [occupied] at busy
    rw [sends.redirectTo]
    by_cases here : j = i
    · rw [here, update_self, show world.router.redirectTo i = dest from rfl, update_self]
      exact ⟨destBound, congrArg (· ++ [flit]) whole⟩
    · have other : world.router.redirectTo j ≠ dest :=
        worm.apart j inside i bound here busy connected
      rw [update_of_ne here, update_of_ne other]
      exact worm.sources j inside busy
  · intro k inside unused
    simp only at unused ⊢
    have other : k ≠ dest := by
      rintro rfl
      exact unused i bound ((occupied i).mpr connected) (by rw [sends.redirectTo])
    rw [update_of_ne other]
    refine worm.free k inside fun j inside' busy => ?_
    have elsewhere := unused j inside' ((occupied j).mpr busy)
    rwa [sends.redirectTo] at elsewhere
  · intro j inside k inside' other
    simp only
    rw [occupied, occupied, sends.redirectTo]
    exact worm.apart j inside k inside' other

theorem fromInput_close (closed : List Connection) (input output : Nat) (packet : Packet) (j : Nat) :
    fromInput (closed ++ [⟨input, output, packet⟩]) j =
      fromInput closed j ++ if j = input then [packet] else [] := by
  unfold fromInput
  by_cases here : j = input
  · simp [here]
  · simp [here, Ne.symm here]

theorem onOutput_close (closed : List Connection) (input output : Nat) (packet : Packet) (k : Nat) :
    onOutput (closed ++ [⟨input, output, packet⟩]) k =
      onOutput closed k ++ if k = output then [packet] else [] := by
  unfold onOutput
  by_cases here : k = output
  · simp [here]
  · simp [here, Ne.symm here]

structure Closes (before after : Router) (i : Nat) : Prop where
  arbiter : after.arbiter = before.arbiter
  buffers : after.buffers = before.buffers
  ports : after.ports = update before.ports (before.redirectTo i)
    ((before.ports (before.redirectTo i)).drive 0 false)
  status : after.status = update before.status i .idle
  remaining : after.packetsRemaining = update before.packetsRemaining i 0
  redirectTo : after.redirectTo = update before.redirectTo i nonePort

theorem Wormhole.closes (worm : Wormhole packets world closed lanes outs) (bound : i < 5)
    {after : Router} (closes : Closes world.router after i)
    (connected : world.router.status i ≠ .idle)
    (acknowledged : (outs (world.router.redirectTo i)).phase = .acknowledged) {packet : Packet}
    {later : List Packet} (first : (lanes i).coming = packet :: later)
    (whole : (lanes i).taken = packet.flits) :
    ∃ closed' lanes' outs', Wormhole packets { world with router := after } closed' lanes' outs' := by
  obtain ⟨destBound, same⟩ := worm.sources i bound connected
  let dest := world.router.redirectTo i
  let lane : Lane := { lanes i with coming := later, taken := [] }
  have ports : ∀ k, SameInput (world.router.ports k) (after.ports k) := by
    intro k
    rw [closes.ports]
    exact sameInput_update (sameInput_drive _ _ _) k
  -- Another connection stays open and has another output.
  have others : ∀ j, after.status j ≠ .idle → j ≠ i ∧ world.router.status j ≠ .idle ∧
      after.redirectTo j = world.router.redirectTo j := by
    intro j busy
    rw [closes.status] at busy
    have here : j ≠ i := by
      rintro rfl
      rw [update_self] at busy
      exact busy rfl
    rw [update_of_ne here] at busy
    rw [closes.redirectTo, update_of_ne here]
    exact ⟨here, busy, rfl⟩
  refine ⟨closed ++ [⟨i, dest, packet⟩], update lanes i lane, update outs dest ⟨.quiet, []⟩,
    ⟨?_, ?_, ?_, ?_, ?_, ?_, ?_, ?_⟩⟩
  · simp only
    rw [closes.arbiter]
    exact worm.arbiter
  · intro j inside
    by_cases here : j = i
    · subst here
      simp only [closes.buffers, closes.status, closes.remaining, update_self]
      exact (worm.inlets j bound).closes (ports j) first whole
    · simp only [closes.buffers, closes.status, closes.remaining, update_of_ne here]
      exact (worm.inlets j inside).same_port (ports j)
  · intro j inside
    rw [fromInput_close, worm.streams j inside]
    by_cases here : j = i
    · rw [here, update_self, if_pos rfl, first, List.append_assoc]
      rfl
    · rw [update_of_ne here, if_neg here, List.append_nil]
  · intro k inside
    rw [onOutput_close]
    by_cases here : k = dest
    · rw [here, if_pos rfl]
      simp only [closes.ports]
      rw [show world.router.redirectTo i = dest from rfl, update_self, update_self]
      have outlet := (worm.outlets dest destBound).closes acknowledged
      rw [← show (lanes i).taken = (outs dest).part from same, whole] at outlet
      simpa [flitsOf] using outlet
    · rw [if_neg here, List.append_nil]
      simp only [closes.ports]
      rw [show world.router.redirectTo i = dest from rfl, update_of_ne here, update_of_ne here]
      exact worm.outlets k inside
  · intro j inside busy
    obtain ⟨here, open_, kept⟩ := others j busy
    have elsewhere : world.router.redirectTo j ≠ dest :=
      worm.apart j inside i bound here open_ connected
    simp only
    rw [kept, update_of_ne here, update_of_ne elsewhere]
    exact worm.sources j inside open_
  · intro k inside unused
    by_cases here : k = dest
    · rw [here, update_self]
    · rw [update_of_ne here]
      refine worm.free k inside fun j inside' busy => ?_
      by_cases same : j = i
      · rw [same]
        exact Ne.symm here
      · have open_ : after.status j ≠ .idle := by
          rw [closes.status, update_of_ne same]
          exact busy
        have elsewhere := unused j inside' open_
        simp only at elsewhere
        rwa [(others j open_).2.2] at elsewhere
  · intro j inside k inside' other busy busy'
    obtain ⟨_, open_, kept⟩ := others j busy
    obtain ⟨_, open', kept'⟩ := others k busy'
    simp only
    rw [kept, kept']
    exact worm.apart j inside k inside' other open_ open'
  · intro connection member
    rcases List.mem_append.mp member with old | new
    · exact worm.known connection old
    · rw [List.mem_singleton.mp new]
      exact ⟨bound, destBound⟩

theorem Inlet.next {neighbour port : Port} {offers : List Flit} {buffer : Buffer} {status : Status}
    {remaining : Int} {lane : Lane}
    (inlet : Inlet neighbour port offers buffer status remaining lane) {flit : Flit}
    {rest more : List Flit} {packet : Packet} {later : List Packet}
    (stored : lane.contents = flit :: rest) (first : lane.coming = packet :: later) {next : Flit}
    (split : packet.flits = lane.taken ++ next :: more) : flit = next := by
  have flits := inlet.flits
  rw [first, flitsOf_cons, split, stored, List.append_assoc] at flits
  have tails := List.append_cancel_left flits
  simp only [List.cons_append, List.cons.injEq] at tails
  exact tails.1.symm

variable {flit : Flit} {rest : List Flit}

theorem Inlet.header {neighbour port : Port} {offers : List Flit} {buffer : Buffer}
    {remaining : Int} {lane : Lane}
    (inlet : Inlet neighbour port offers buffer .routingDelay remaining lane)
    (stored : lane.contents = flit :: rest) :
    Progress .routingHeader remaining lane.coming (lane.taken ++ [flit]) := by
  obtain ⟨some_packet, none⟩ := inlet.progress
  obtain ⟨packet, later, first⟩ := List.exists_cons_of_ne_nil some_packet
  have same := inlet.next stored first (by rw [none, List.nil_append]; rfl)
  refine ⟨packet, later, first, ?_⟩
  rw [none, same]
  rfl

theorem Inlet.count {neighbour port : Port} {offers : List Flit} {buffer : Buffer}
    {remaining : Int} {lane : Lane}
    (inlet : Inlet neighbour port offers buffer .routingHeader remaining lane)
    (stored : lane.contents = flit :: rest) :
    Progress .routingPayload flit.toNat lane.coming (lane.taken ++ [flit]) := by
  obtain ⟨packet, later, first, header⟩ := inlet.progress
  have same := inlet.next stored first (by rw [header]; rfl)
  refine ⟨packet, later, [], packet.payload, first, rfl, ?_, ?_⟩
  · rw [header, same]
    rfl
  · rw [same, UInt16.toNat_ofNat_of_lt' packet.counted]

theorem Inlet.data {neighbour port : Port} {offers : List Flit} {buffer : Buffer} {status : Status}
    {remaining : Int} {lane : Lane}
    (inlet : Inlet neighbour port offers buffer status remaining lane)
    (sending : status = .routingPayload ∨ status = .routingData) :
    (remaining = 0 → ∃ packet later, lane.coming = packet :: later ∧ lane.taken = packet.flits) ∧
      (remaining ≠ 0 → ∀ flit rest, lane.contents = flit :: rest →
        Progress .routingData (remaining - 1) lane.coming (lane.taken ++ [flit])) ∧
      Progress .routingData remaining lane.coming lane.taken := by
  have progress : Progress .routingData remaining lane.coming lane.taken := by
    rcases sending with rfl | rfl
    · exact inlet.progress
    · exact inlet.progress
  obtain ⟨packet, later, sent, unsent, first, split, taken, count⟩ := progress
  refine ⟨fun done => ⟨packet, later, first, ?_⟩, fun more flit rest stored => ?_,
    packet, later, sent, unsent, first, split, taken, count⟩
  · have none : unsent = [] := List.length_eq_zero_iff.mp (by omega)
    rw [none, List.append_nil] at split
    rw [taken, Packet.flits, ← split]
  · cases unsent with
    | nil => exact absurd count more
    | cons next unsent =>
        have whole : packet.flits = lane.taken ++ next :: unsent := by
          rw [taken, Packet.flits, split]
          rfl
        have same := inlet.next stored first whole
        refine ⟨packet, later, sent ++ [flit], unsent, first, ?_, ?_, ?_⟩
        · rw [split, same, List.append_assoc]
          rfl
        · rw [taken]
          rfl
        · rw [count, List.length_cons]
          omega

theorem Inlet.stored {neighbour port : Port} {offers : List Flit} {buffer : Buffer}
    {status : Status} {remaining : Int} {lane : Lane}
    (inlet : Inlet neighbour port offers buffer status remaining lane)
    (some_flit : buffer.isEmpty = false) :
    ∃ rest, lane.contents = buffer.read :: rest := by
  have holds := inlet.holds
  rw [holds.isEmpty, decide_eq_false_iff_not] at some_flit
  obtain ⟨flit, rest, stored⟩ := List.exists_cons_of_ne_nil some_flit
  rw [stored] at holds
  exact ⟨rest, by rw [stored, holds.take.1]⟩

theorem Wormhole.acknowledged (worm : Wormhole packets world closed lanes outs) (bound : i < 5)
    (connected : world.router.status i ≠ .idle)
    (ack : (world.router.ports (world.router.redirectTo i)).outAck = true) :
    (outs (world.router.redirectTo i)).phase = .acknowledged :=
  (worm.outlets _ (worm.sources i bound connected).1).link.acknowledged ack

theorem Wormhole.setStatus (worm : Wormhole packets world closed lanes outs) (bound : i < 5)
    {status : Status} (connected : world.router.status i ≠ .idle) (still : status ≠ .idle)
    (progress : Progress status (world.router.packetsRemaining i) (lanes i).coming
      (lanes i).taken) :
    Wormhole packets { world with router := world.router.setStatus i status } closed lanes outs := by
  have occupied : ∀ j, update world.router.status i status j ≠ .idle ↔
      world.router.status j ≠ .idle := by
    intro j
    by_cases here : j = i
    · rw [here, update_self]
      exact iff_of_true still connected
    · rw [update_of_ne here]
  refine ⟨worm.arbiter, ?_, worm.streams, worm.outlets, ?_, ?_, ?_, worm.known⟩
  · intro j inside
    have inlet := worm.inlets j inside
    refine ⟨inlet.holds, inlet.link, inlet.flits, ?_⟩
    simp only [Router.setStatus]
    by_cases here : j = i
    · subst here
      rw [update_self]
      exact progress
    · rw [update_of_ne here]
      exact inlet.progress
  · intro j inside busy
    exact worm.sources j inside ((occupied j).mp busy)
  · intro k inside unused
    exact worm.free k inside fun j inside' busy => unused j inside' ((occupied j).mpr busy)
  · intro j inside k inside' other busy busy'
    exact worm.apart j inside k inside' other ((occupied j).mp busy) ((occupied k).mp busy')

theorem Wormhole.forwardData (worm : Wormhole packets world closed lanes outs) (bound : i < 5)
    (sending : world.router.status i = .routingPayload ∨ world.router.status i = .routingData) :
    ∃ closed' lanes' outs', Wormhole packets { world with router := world.router.forwardData i }
      closed' lanes' outs' := by
  have inlet := worm.inlets i bound
  obtain ⟨finished, next, progress⟩ := inlet.data sending
  have connected : world.router.status i ≠ .idle := by
    rcases sending with payload | data
    · simp [payload]
    · simp [data]
  simp only [Router.forwardData]
  split
  · next ack =>
      have acknowledged := worm.acknowledged bound connected ack
      split
      · next last =>
          obtain ⟨packet, later, first, whole⟩ := finished last
          have closes : Closes world.router ((world.router.setStatus i .routingData).close i) i := by
            refine ⟨rfl, rfl, rfl, ?_, rfl, rfl⟩
            simp only [Router.close, Router.setStatus, update_idem]
          exact worm.closes bound closes connected acknowledged first whole
      · next more =>
          split
          · next some_flit =>
              obtain ⟨rest, stored⟩ := inlet.stored some_flit
              have sends : Sends world.router (((world.router.setStatus i .routingData).send
                  i).setRemaining i (world.router.packetsRemaining i - 1)) i .routingData
                  (world.router.packetsRemaining i - 1) := ⟨rfl, rfl, rfl, rfl, rfl, rfl⟩
              obtain ⟨lanes', outs', kept⟩ := worm.sends bound sends connected (by simp) stored
                (Or.inr acknowledged) (next more _ rest stored)
              exact ⟨closed, lanes', outs', kept⟩
          · exact ⟨closed, lanes, outs, worm.setStatus bound connected (by simp) progress⟩
  · exact ⟨closed, lanes, outs, worm⟩

theorem Wormhole.forwardOne (worm : Wormhole packets world closed lanes outs) (bound : i < 5) :
    ∃ closed' lanes' outs', Wormhole packets { world with router := world.router.forwardOne i }
      closed' lanes' outs' := by
  have inlet := worm.inlets i bound
  cases status : world.router.status i with
  | idle =>
      simp only [Router.forwardOne, status]
      exact ⟨closed, lanes, outs, worm⟩
  | routingDelay =>
      simp only [Router.forwardOne, status]
      rw [status] at inlet
      have connected : world.router.status i ≠ .idle := by simp [status]
      split
      · next due =>
          obtain ⟨rest, stored⟩ := inlet.stored due.2
          obtain ⟨_, whole⟩ := worm.sources i bound connected
          rw [inlet.progress.2] at whole
          obtain ⟨destBound, _⟩ := worm.sources i bound connected
          have quiet := (worm.outlets _ destBound).quiet whole.symm
          let counted : Router := { world.router with
            routingDelay := update world.router.routingDelay i (world.router.routingDelay i - 1) }
          have sends : Sends world.router ((counted.send i).setStatus i .routingHeader) i
              .routingHeader (world.router.packetsRemaining i) :=
            ⟨rfl, rfl, rfl, rfl, (update_eq_self i _).symm, rfl⟩
          obtain ⟨lanes', outs', kept⟩ := worm.sends bound sends connected (by simp) stored
            (Or.inl quiet) (inlet.header stored)
          exact ⟨closed, lanes', outs', kept⟩
      · exact ⟨closed, lanes, outs, worm.arbiter, worm.inlets, worm.streams, worm.outlets,
          worm.sources, worm.free, worm.apart, worm.known⟩
  | routingHeader =>
      simp only [Router.forwardOne, status]
      rw [status] at inlet
      have connected : world.router.status i ≠ .idle := by simp [status]
      split
      · next due =>
          obtain ⟨rest, stored⟩ := inlet.stored due.2
          have sends : Sends world.router (((world.router.send i).setRemaining i
              (world.router.buffers i).read.toNat).setStatus i .routingPayload) i .routingPayload
              (world.router.buffers i).read.toNat := ⟨rfl, rfl, rfl, rfl, rfl, rfl⟩
          obtain ⟨lanes', outs', kept⟩ := worm.sends bound sends connected (by simp) stored
            (Or.inr (worm.acknowledged bound connected due.1)) (inlet.count stored)
          exact ⟨closed, lanes', outs', kept⟩
      · exact ⟨closed, lanes, outs, worm⟩
  | routingPayload =>
      simp only [Router.forwardOne, status]
      exact worm.forwardData bound (Or.inl status)
  | routingData =>
      simp only [Router.forwardOne, status]
      exact worm.forwardData bound (Or.inr status)

end Forwarding

section Cycle

theorem Wormhole.forwardAll (ports : List Nat) : ∀ {world closed lanes outs},
    Wormhole packets world closed lanes outs → (∀ i ∈ ports, i < 5) →
      ∃ closed' lanes' outs', Wormhole packets
        { world with router := ports.foldl Router.forwardOne world.router } closed' lanes' outs' := by
  induction ports with
  | nil => exact fun worm _ => ⟨_, _, _, worm⟩
  | cons i ports ih =>
      intro world closed lanes outs worm bounds
      obtain ⟨closed', lanes', outs', kept⟩ := worm.forwardOne (bounds i List.mem_cons_self)
      obtain ⟨closed'', lanes'', outs'', whole⟩ :=
        ih kept fun j member => bounds j (List.mem_cons_of_mem _ member)
      exact ⟨closed'', lanes'', outs'', whole⟩

theorem dest_lt (mesh : Mesh) (n : Nat) (flit : Flit) : mesh.dest n flit < 5 := by
  simp only [Mesh.dest]
  repeat' split
  all_goals decide

theorem Wormhole.connects (worm : Wormhole packets world closed lanes outs) (bound : i < 5)
    (idle : world.router.status i = .idle)
    (some_flit : (world.router.buffers i).isEmpty = false) {dest : Nat} (destBound : dest < 5)
    (unused : world.router.inUse i dest = false) (delay : Int) :
    Wormhole packets { world with router := { world.router with
      redirectTo := update world.router.redirectTo i dest
      status := update world.router.status i .routingDelay
      routingDelay := update world.router.routingDelay i delay } } closed lanes outs := by
  have inlet := worm.inlets i bound
  have free : ∀ j < 5, j ≠ i → world.router.status j ≠ .idle →
      world.router.redirectTo j ≠ dest := by
    intro j inside other busy same
    have none := List.any_eq_false.mp unused j (List.mem_range.mpr inside)
    simp only [decide_eq_true_eq] at none
    exact none ⟨other, busy, same⟩
  have nothing : (lanes i).taken = [] := by
    have progress := inlet.progress
    rwa [idle] at progress
  have part : (outs dest).part = [] := by
    refine worm.free dest destBound fun j inside busy => ?_
    by_cases here : j = i
    · rw [here] at busy
      exact absurd idle busy
    · exact free j inside here busy
  refine ⟨worm.arbiter, ?_, worm.streams, worm.outlets, ?_, ?_, ?_, worm.known⟩
  · intro j inside
    by_cases here : j = i
    · subst here
      refine ⟨inlet.holds, inlet.link, inlet.flits, ?_⟩
      simp only [update_self]
      refine ⟨?_, nothing⟩
      intro none
      obtain ⟨rest, stored⟩ := inlet.stored some_flit
      have flits := inlet.flits
      rw [none, stored, nothing] at flits
      cases flits
    · simp only [update_of_ne here]
      exact worm.inlets j inside
  · intro j inside busy
    simp only at busy ⊢
    by_cases here : j = i
    · rw [here, update_self]
      exact ⟨destBound, nothing.trans part.symm⟩
    · rw [update_of_ne here] at busy ⊢
      exact worm.sources j inside busy
  · intro k inside unused
    refine worm.free k inside fun j inside' busy => ?_
    have here : j ≠ i := by
      rintro rfl
      exact busy idle
    have elsewhere := unused j inside'
    simp only [update_of_ne here] at elsewhere
    exact elsewhere busy
  · intro j inside k inside' other busy busy'
    simp only at busy busy' ⊢
    by_cases here : j = i
    · have there : k ≠ i := fun same => other (here.trans same.symm)
      rw [update_of_ne there] at busy' ⊢
      rw [here, update_self]
      exact Ne.symm (free k inside' there busy')
    · rw [update_of_ne here] at busy ⊢
      by_cases there : k = i
      · rw [there, update_self]
        exact free j inside here busy
      · rw [update_of_ne there] at busy' ⊢
        exact worm.apart j inside k inside' other busy busy'

theorem Wormhole.connect (worm : Wormhole packets world closed lanes outs) (mesh : Mesh) (n : Nat) :
    Wormhole packets { world with router := world.router.connect mesh n } closed lanes outs := by
  simp only [Router.connect]
  split
  · next idle =>
      split
      · next unused =>
          exact worm.connects worm.arbiter idle.1 idle.2 (dest_lt mesh n _) unused _
      · exact worm
  · exact worm

theorem skipBorder_lt (mesh : Mesh) (n : Nat) {arbiter : Nat} (bound : arbiter < 5) :
    Router.skipBorder mesh n arbiter < 5 := by
  have inside : ∀ {turns : Prop} [Decidable turns] {taken kept : Nat}, taken < 5 → kept < 5 →
      (if turns then taken else kept) < 5 := by
    intro turns _ taken kept fits rest
    split <;> assumption
  rw [Router.skipBorder]
  repeat' apply inside
  all_goals first
    | exact bound
    | decide

theorem Wormhole.turn (worm : Wormhole packets world closed lanes outs) (mesh : Mesh) (n : Nat) :
    Wormhole packets { world with router := world.router.turn mesh n } closed lanes outs :=
  ⟨skipBorder_lt mesh n (Nat.mod_lt _ (by decide)), worm.inlets, worm.streams, worm.outlets,
    worm.sources, worm.free, worm.apart, worm.known⟩

theorem Wormhole.receiveOne (worm : Wormhole packets world closed lanes outs) (bound : i < 5)
    (fresh : (lanes i).phase ≠ .taken) :
    ∃ lane, Wormhole packets { world with router := world.router.receiveOne i } closed
      (update lanes i lane) outs := by
  simp only [Router.receiveOne]
  split
  · next request =>
      split
      · next room =>
          have inlet := worm.inlets i bound
          have requested : (lanes i).phase = .requested := by
            have asked := inlet.link.requested
            rw [request] at asked
            simpa [fresh] using asked.symm
          have space : (lanes i).contents.length < (world.router.buffers i).max := by
            rw [inlet.holds.isFull, decide_eq_false_iff_not] at room
            exact Nat.lt_of_le_of_ne inlet.holds.bound room
          let flit := (world.router.ports i).input
          refine ⟨{ lanes i with contents := (lanes i).contents ++ [flit], phase := .taken },
            worm.arbiter, ?_, ?_, ?_, ?_, worm.free, worm.apart, worm.known⟩
          · intro j inside
            by_cases here : j = i
            · subst here
              simp only [update_self]
              have link := inlet.link
              have flits := inlet.flits
              rw [requested] at link flits
              refine ⟨inlet.holds.put space flit, ⟨link.request, link.acknowledge, link.requested, rfl,
                fun other => by cases other⟩, ?_, inlet.progress⟩
              rw [flits, show flit = (world.neighbours j).out from link.same rfl]
              simp [unread]
            · simp only [update_of_ne here]
              exact worm.inlets j inside
          · intro j inside
            by_cases here : j = i
            · subst here
              rw [update_self]
              exact worm.streams j inside
            · rw [update_of_ne here]
              exact worm.streams j inside
          · intro k inside
            have outlet := worm.outlets k inside
            by_cases here : k = i
            · subst here
              simp only [update_self]
              exact ⟨outlet.link.congr ⟨rfl, rfl, rfl⟩ (.refl _), outlet.flits, outlet.quiet⟩
            · simp only [update_of_ne here]
              exact outlet
          · intro j inside busy
            by_cases here : j = i
            · subst here
              rw [update_self]
              exact worm.sources j inside busy
            · rw [update_of_ne here]
              exact worm.sources j inside busy
      · exact ⟨lanes i, by rw [update_eq_self]; exact worm⟩
  · exact ⟨lanes i, by rw [update_eq_self]; exact worm⟩

theorem Wormhole.receiveAll (ports : List Nat) : ∀ {world lanes},
    Wormhole packets world closed lanes outs → ports.Nodup →
      (∀ i ∈ ports, i < 5 ∧ (lanes i).phase ≠ .taken) →
      ∃ lanes', Wormhole packets
        { world with router := ports.foldl Router.receiveOne world.router } closed lanes' outs := by
  induction ports with
  | nil => exact fun worm _ _ => ⟨_, worm⟩
  | cons i ports ih =>
      intro world lanes worm distinct fresh
      obtain ⟨absent, distinct⟩ := List.nodup_cons.mp distinct
      obtain ⟨bound, first⟩ := fresh i List.mem_cons_self
      obtain ⟨lane, kept⟩ := worm.receiveOne bound first
      refine ih kept distinct fun j member => ?_
      have other : j ≠ i := by
        rintro rfl
        exact absent member
      rw [update_of_ne other]
      exact fresh j (List.mem_cons_of_mem _ member)

theorem Wormhole.receive (worm : Wormhole packets world closed lanes outs)
    (fresh : ∀ i < 5, (lanes i).phase ≠ .taken) :
    ∃ lanes', Wormhole packets { world with router := world.router.receive } closed lanes' outs :=
  worm.receiveAll (List.range 5) List.nodup_range fun i member =>
    ⟨List.mem_range.mp member, fresh i (List.mem_range.mp member)⟩

theorem Wormhole.cycleRouter (worm : Wormhole packets world closed lanes outs) (mesh : Mesh)
    (n : Nat) (fresh : ∀ i < 5, (lanes i).phase ≠ .taken) :
    ∃ closed' lanes' outs', Wormhole packets
      { world with router := world.router.cycleRouter mesh n } closed' lanes' outs' := by
  obtain ⟨_, received⟩ := worm.receive fresh
  obtain ⟨closed', lanes', outs', forwarded⟩ := (received.connect mesh n).forwardAll
    (List.range 5) fun i member => List.mem_range.mp member
  exact ⟨closed', lanes', outs', forwarded.turn mesh n⟩

end Cycle

section Neighbours

def RouterWorld.at (world : RouterWorld) (k : Nat) (port neighbour : Port)
    (offers accepted : List Flit) : RouterWorld :=
  { world with
    router := { world.router with ports := update world.router.ports k port }
    neighbours := update world.neighbours k neighbour
    offers := update world.offers k offers
    accepted := update world.accepted k accepted }

theorem Wormhole.relink (worm : Wormhole packets world closed lanes outs) {k : Nat} (bound : k < 5)
    {port neighbour : Port} {offers accepted : List Flit} {into onto : Phase}
    (inlet : Inlet neighbour port offers (world.router.buffers k) (world.router.status k)
      (world.router.packetsRemaining k) { lanes k with phase := into })
    (outlet : Outlet port neighbour accepted (flitsOf (onOutput closed k))
      { outs k with phase := onto }) :
    Wormhole packets (world.at k port neighbour offers accepted) closed
      (update lanes k { lanes k with phase := into })
      (update outs k { outs k with phase := onto }) := by
  have sameLane : ∀ j, (update lanes k { lanes k with phase := into } j).coming = (lanes j).coming ∧
      (update lanes k { lanes k with phase := into } j).taken = (lanes j).taken := by
    intro j
    by_cases here : j = k
    · rw [here, update_self]
      exact ⟨rfl, rfl⟩
    · rw [update_of_ne here]
      exact ⟨rfl, rfl⟩
  have samePart : ∀ j, (update outs k { outs k with phase := onto } j).part = (outs j).part := by
    intro j
    by_cases here : j = k
    · rw [here, update_self]
    · rw [update_of_ne here]
  refine ⟨worm.arbiter, ?_, ?_, ?_, ?_, ?_, worm.apart, worm.known⟩
  · intro j inside
    by_cases here : j = k
    · subst here
      simp only [RouterWorld.at, update_self]
      exact inlet
    · simp only [RouterWorld.at, update_of_ne here]
      exact worm.inlets j inside
  · intro j inside
    rw [(sameLane j).1]
    exact worm.streams j inside
  · intro j inside
    by_cases here : j = k
    · subst here
      simp only [RouterWorld.at, update_self]
      exact outlet
    · simp only [RouterWorld.at, update_of_ne here]
      exact worm.outlets j inside
  · intro j inside busy
    rw [(sameLane j).2, samePart]
    exact worm.sources j inside busy
  · intro j inside unused
    rw [samePart]
    exact worm.free j inside unused

variable {k : Nat}

theorem Inlet.same_neighbour {neighbour neighbour' port : Port} {offers : List Flit}
    {buffer : Buffer} {status : Status} {remaining : Int} {lane : Lane}
    (inlet : Inlet neighbour port offers buffer status remaining lane)
    (same : SameOutput neighbour neighbour') :
    Inlet neighbour' port offers buffer status remaining lane :=
  ⟨inlet.holds, inlet.link.congr same (.refl _), by rw [same.out]; exact inlet.flits,
    inlet.progress⟩

theorem Outlet.same_ports {port port' neighbour neighbour' : Port} {accepted finished : List Flit}
    {outgoing : Outgoing} (outlet : Outlet port neighbour accepted finished outgoing)
    (out : SameOutput port port') (input : SameInput neighbour neighbour') :
    Outlet port' neighbour' accepted finished outgoing :=
  ⟨outlet.link.congr out input, by rw [out.out]; exact outlet.flits, outlet.quiet⟩

theorem Wormhole.synchronizeIn (worm : Wormhole packets world closed lanes outs) (bound : k < 5) :
    Wormhole packets (world.at k
        (synchronizePorts (world.neighbours k) (world.router.ports k)).2
        (synchronizePorts (world.neighbours k) (world.router.ports k)).1
        (world.offers k) (world.accepted k)) closed
      (update lanes k { lanes k with phase := (lanes k).phase.next })
      (update outs k { outs k with phase := (outs k).phase }) := by
  have inlet := worm.inlets k bound
  obtain ⟨link, out, input, output⟩ := inlet.link.synchronize
  refine worm.relink bound ⟨inlet.holds, link, ?_, inlet.progress⟩
    ((worm.outlets k bound).same_ports output input)
  rw [out, unread_next]
  exact inlet.flits

theorem Wormhole.synchronizeOut (worm : Wormhole packets world closed lanes outs) (bound : k < 5) :
    Wormhole packets (world.at k
        (synchronizePorts (world.router.ports k) (world.neighbours k)).1
        (synchronizePorts (world.router.ports k) (world.neighbours k)).2
        (world.offers k) (world.accepted k)) closed
      (update lanes k { lanes k with phase := (lanes k).phase })
      (update outs k { outs k with phase := (outs k).phase.next }) := by
  have outlet := worm.outlets k bound
  obtain ⟨link, out, input, output⟩ := outlet.link.synchronize
  refine worm.relink bound (((worm.inlets k bound).same_port input).same_neighbour output)
    ⟨link, ?_, fun none => ?_⟩
  · rw [out, unread_next]
    exact outlet.flits
  · simp only
    rw [outlet.quiet none]
    rfl

theorem Wormhole.offer (worm : Wormhole packets world closed lanes outs) (bound : k < 5)
    {flit : Flit} {rest : List Flit} (next : world.offers k = flit :: rest)
    (ready : (world.neighbours k).outRequest = false ∨ (world.neighbours k).outAck = true) :
    Wormhole packets (world.at k (world.router.ports k) ((world.neighbours k).drive flit true)
        rest (world.accepted k)) closed
      (update lanes k { lanes k with phase := .offered })
      (update outs k { outs k with phase := (outs k).phase }) := by
  have inlet := worm.inlets k bound
  have phase : (lanes k).phase = .quiet ∨ (lanes k).phase = .acknowledged := by
    rcases ready with idle | ack
    · rw [inlet.link.request, decide_eq_false_iff_not, not_not] at idle
      exact Or.inl idle
    · exact Or.inr (inlet.link.acknowledged ack)
  have flits := inlet.flits
  refine worm.relink bound ⟨inlet.holds, inlet.link.offer phase flit, ?_, inlet.progress⟩
    ((worm.outlets k bound).same_ports (.refl _) (sameInput_drive _ _ _))
  rw [next] at flits
  rw [flits]
  rcases phase with quiet | acknowledged
  · rw [quiet]
    rfl
  · rw [acknowledged]
    rfl

theorem Wormhole.withdraw (worm : Wormhole packets world closed lanes outs) (bound : k < 5)
    (ack : (world.neighbours k).outAck = true) :
    Wormhole packets (world.at k (world.router.ports k) ((world.neighbours k).drive 0 false)
        (world.offers k) (world.accepted k)) closed
      (update lanes k { lanes k with phase := .quiet })
      (update outs k { outs k with phase := (outs k).phase }) := by
  have inlet := worm.inlets k bound
  have link := inlet.link
  have flits := inlet.flits
  rw [inlet.link.acknowledged ack] at link flits
  exact worm.relink bound ⟨inlet.holds, link.withdraw 0, flits, inlet.progress⟩
    ((worm.outlets k bound).same_ports (.refl _) (sameInput_drive _ _ _))

theorem Wormhole.accept (worm : Wormhole packets world closed lanes outs) (bound : k < 5)
    (request : (world.neighbours k).inRequest = true) (fresh : (world.neighbours k).inAck = false) :
    Wormhole packets (world.at k (world.router.ports k)
        { world.neighbours k with inAck := true } (world.offers k)
        (world.accepted k ++ [(world.neighbours k).input])) closed
      (update lanes k { lanes k with phase := (lanes k).phase })
      (update outs k { outs k with phase := .taken }) := by
  have outlet := worm.outlets k bound
  have phase := outlet.link.pending request fresh
  have link := outlet.link
  have flits := outlet.flits
  rw [phase] at link flits
  refine worm.relink bound ((worm.inlets k bound).same_neighbour ⟨rfl, rfl, rfl⟩)
    ⟨⟨link.request, link.acknowledge, link.requested, rfl, fun other => by cases other⟩, ?_,
      fun none => ?_⟩
  · rw [← flits, link.same rfl]
    simp [unread]
  · rw [outlet.quiet none] at phase
    cases phase

end Neighbours

section Runs

structure Steady (packets : Nat → List Packet) (world : RouterWorld) (closed : List Connection)
    (lanes : Nat → Lane) (outs : Nat → Outgoing) : Prop
    extends Wormhole packets world closed lanes outs where
  fresh : ∀ i < 5, world.synchronized i = true → (lanes i).phase ≠ .taken

theorem Phase.next_ne_taken (phase : Phase) : phase.next ≠ .taken := by
  cases phase with
  | quiet | offered | requested | taken | acknowledged => simp [Phase.next]

theorem Steady.relinked (steady : Steady packets world closed lanes outs) {after : RouterWorld}
    {lanes' : Nat → Lane} {outs' : Nat → Outgoing}
    (worm : Wormhole packets after closed lanes' outs')
    (moved : ∀ j, (lanes j).phase ≠ .taken → (lanes' j).phase ≠ .taken)
    (same : after.synchronized = world.synchronized) : Steady packets after closed lanes' outs' := by
  refine ⟨worm, fun j inside synchronized => ?_⟩
  rw [same] at synchronized
  exact moved j (steady.fresh j inside synchronized)

theorem moved_phase {phase : Phase} (k : Nat) (other : phase ≠ .taken) (j : Nat)
    (old : (lanes j).phase ≠ .taken) :
    (update lanes k { lanes k with phase := phase } j).phase ≠ .taken := by
  by_cases here : j = k
  · rw [here, update_self]
    exact other
  · rw [update_of_ne here]
    exact old

theorem Steady.step (steady : Steady packets world closed lanes outs) (mesh : Mesh) (n : Nat)
    {op : RouterOp} (admitted : world.allowed op) :
    ∃ closed' lanes' outs', Steady packets (world.step mesh n op) closed' lanes' outs' := by
  have worm := steady.toWormhole
  cases op with
  | cycle =>
      obtain ⟨closed', lanes', outs', kept⟩ := worm.cycleRouter mesh n fun i inside =>
        steady.fresh i inside (admitted i inside)
      exact ⟨closed', lanes', outs', ⟨kept.arbiter, kept.inlets, kept.streams, kept.outlets,
        kept.sources, kept.free, kept.apart, kept.known⟩, fun i inside synchronized => by cases synchronized⟩
  | synchronizeIn k =>
      have kept := worm.synchronizeIn admitted
      simp only [RouterWorld.at, update_eq_self] at kept
      refine ⟨closed, _, _, ⟨kept.arbiter, kept.inlets, kept.streams, kept.outlets, kept.sources,
        kept.free, kept.apart, kept.known⟩, fun j inside synchronized => ?_⟩
      by_cases here : j = k
      · subst here
        rw [update_self]
        exact Phase.next_ne_taken _
      · rw [update_of_ne here]
        simp only [RouterWorld.step, update_of_ne here] at synchronized
        exact steady.fresh j inside synchronized
  | synchronizeOut k =>
      have kept := worm.synchronizeOut admitted
      simp only [RouterWorld.at, update_eq_self] at kept
      exact ⟨closed, _, _, steady.relinked kept (fun _ => id) rfl⟩
  | offer k =>
      obtain ⟨bound, ready⟩ := admitted
      cases next : world.offers k with
      | nil =>
          simp only [RouterWorld.step, next]
          exact ⟨closed, lanes, outs, steady⟩
      | cons flit rest =>
          have kept := worm.offer bound next ready
          simp only [RouterWorld.at, update_eq_self] at kept
          simp only [RouterWorld.step, next]
          exact ⟨closed, _, _, steady.relinked kept (moved_phase k (by simp)) rfl⟩
  | withdraw k =>
      obtain ⟨bound, ack⟩ := admitted
      have kept := worm.withdraw bound ack
      simp only [RouterWorld.at, update_eq_self] at kept
      exact ⟨closed, _, _, steady.relinked kept (moved_phase k (by simp)) rfl⟩
  | accept k =>
      obtain ⟨bound, request, fresh⟩ := admitted
      have kept := worm.accept bound request fresh
      simp only [RouterWorld.at, update_eq_self] at kept
      exact ⟨closed, _, _, steady.relinked kept (fun _ => id) rfl⟩

theorem Steady.start (memory : Nat → List Flit) (packets : Nat → List Packet) :
    Steady packets (RouterWorld.start memory packets) [] (fun i => ⟨packets i, [], [], .quiet⟩)
      (fun _ => ⟨.quiet, []⟩) := by
  refine ⟨⟨Nat.succ_pos 4, ?_, fun _ _ => rfl, ?_, ?_, fun _ _ _ => rfl, ?_, by simp⟩, ?_⟩
  · intro i _
    exact ⟨.create (memory i), .clean, rfl, rfl⟩
  · intro k _
    exact ⟨.clean, rfl, fun _ => rfl⟩
  · intro i _ busy
    exact absurd rfl busy
  · intro i _ j _ _ busy
    exact absurd rfl busy
  · intro i _ _
    simp

def Buffer.Within (buffer : Buffer) : Prop := 0 ≤ buffer.size ∧ buffer.size ≤ buffer.max

theorem Buffer.Holds.within {buffer : Buffer} {stored : List Flit} (holds : buffer.Holds stored) :
    buffer.Within := by
  have bound := holds.bound
  rw [Buffer.Within, holds.size]
  omega

theorem receiveAll_within (ports : List Nat) : ∀ router : Router,
    (∀ i < 5, (router.buffers i).Within) →
      ∀ i < 5, ((ports.foldl Router.receiveOne router).buffers i).Within := by
  induction ports with
  | nil => exact fun _ within => within
  | cons j ports ih =>
      intro router within
      refine ih _ fun i inside => ?_
      simp only [Router.receiveOne]
      split
      · split
        · next room =>
            by_cases here : i = j
            · subst here
              obtain ⟨positive, bounded⟩ := within i inside
              rw [Buffer.isFull, decide_eq_false_iff_not] at room
              simp only [update_self, Buffer.Within, Buffer.put]
              omega
            · simp only [update_of_ne here]
              exact within i inside
        · exact within i inside
      · exact within i inside

/-- The neighbour on output `k` has accepted the packets of the connections to it that were
closed, one after the other, and a first part of the packet of the open one. -/
def WholePackets (packets : Nat → List Packet) (world : RouterWorld) (closed : List Connection)
    (k : Nat) : Prop :=
  ∃ part, world.accepted k = flitsOf (onOutput closed k) ++ part ∧
    (part = [] ∨ ∃ i < 5, world.router.status i ≠ .idle ∧ world.router.redirectTo i = k ∧
      ∃ packet later, packets i = fromInput closed i ++ packet :: later ∧ part <+: packet.flits)

/-- The stream of input `i` is in order: its packets that were forwarded, the flits of the open
connection, of which its neighbour may have to take the last one, the buffer, a flit at the
port, and the flits that were not offered yet. -/
def InOrder (packets : Nat → List Packet) (world : RouterWorld) (closed : List Connection)
    (i : Nat) : Prop :=
  fromInput closed i <+: packets i ∧ ∃ taken waiting,
    flitsOf (packets i) = flitsOf (fromInput closed i) ++ taken ++
      (world.router.buffers i).contents ++ waiting ++ world.offers i ∧ waiting.length ≤ 1 ∧
    (world.router.status i = .idle → taken = []) ∧
    (world.router.status i ≠ .idle → ∃ leaving, leaving.length ≤ 1 ∧
      world.accepted (world.router.redirectTo i) ++ leaving =
        flitsOf (onOutput closed (world.router.redirectTo i)) ++ taken)

theorem Progress.started {status : Status} {remaining : Int} {coming : List Packet}
    {taken : List Flit} (progress : Progress status remaining coming taken)
    (busy : status ≠ .idle) :
    ∃ packet later, coming = packet :: later ∧ taken <+: packet.flits := by
  cases status with
  | idle => exact absurd rfl busy
  | routingDelay =>
      obtain ⟨packet, later, first⟩ := List.exists_cons_of_ne_nil progress.1
      exact ⟨packet, later, first, progress.2 ▸ List.nil_prefix⟩
  | routingHeader =>
      obtain ⟨packet, later, first, rfl⟩ := progress
      exact ⟨packet, later, first, ⟨_, rfl⟩⟩
  | routingPayload | routingData =>
      obtain ⟨packet, later, sent, rest, first, split, rfl, _⟩ := progress
      refine ⟨packet, later, first, rest, ?_⟩
      rw [Packet.flits, split]
      rfl

theorem Outlet.accepted_eq {port neighbour : Port} {accepted finished : List Flit}
    {outgoing : Outgoing} (outlet : Outlet port neighbour accepted finished outgoing) :
    ∃ part, accepted = finished ++ part ∧ part <+: outgoing.part := by
  have flits := outlet.flits
  unfold unread at flits
  split at flits
  · next waits =>
      have some_flit : outgoing.part ≠ [] := by
        intro none
        rw [outlet.quiet none] at waits
        simp at waits
      obtain ⟨front, last, whole⟩ := (List.eq_nil_or_concat outgoing.part).resolve_left some_flit
      rw [whole, List.concat_eq_append] at flits ⊢
      rw [← List.append_assoc] at flits
      exact ⟨front, (List.append_inj' flits rfl).1, List.prefix_append _ _⟩
  · rw [List.append_nil] at flits
    exact ⟨outgoing.part, flits, List.prefix_refl _⟩

theorem Wormhole.wholePackets (worm : Wormhole packets world closed lanes outs) {k : Nat}
    (bound : k < 5) : WholePackets packets world closed k := by
  obtain ⟨part, accepted, first⟩ := (worm.outlets k bound).accepted_eq
  refine ⟨part, accepted, ?_⟩
  by_cases used : ∃ i < 5, world.router.status i ≠ .idle ∧ world.router.redirectTo i = k
  · obtain ⟨i, inside, busy, rfl⟩ := used
    obtain ⟨packet, later, coming, started⟩ := (worm.inlets i inside).progress.started busy
    refine Or.inr ⟨i, inside, busy, rfl, packet, later, coming ▸ worm.streams i inside, ?_⟩
    rw [(worm.sources i inside busy).2] at started
    exact first.trans started
  · have none := worm.free k bound fun i inside busy same => used ⟨i, inside, busy, same⟩
    rw [none] at first
    exact Or.inl (List.prefix_nil.mp first)

theorem Wormhole.inOrder (worm : Wormhole packets world closed lanes outs) (bound : i < 5) :
    InOrder packets world closed i := by
  have inlet := worm.inlets i bound
  have stream := worm.streams i bound
  refine ⟨⟨_, stream.symm⟩, (lanes i).taken,
    unread (lanes i).phase (world.neighbours i).out, ?_, unread_length_le _ _, ?_, ?_⟩
  · rw [stream, flitsOf_append, inlet.flits, inlet.holds.contents]
    simp
  · intro idle
    have progress := inlet.progress
    rwa [idle] at progress
  · intro busy
    obtain ⟨destBound, whole⟩ := worm.sources i bound busy
    have outlet := worm.outlets _ destBound
    rw [whole]
    exact ⟨_, unread_length_le _ _, outlet.flits⟩

end Runs

namespace RouterWorld

def run (mesh : Mesh) (n : Nat) (op : RouterOp) (world : RouterWorld) : Except Unit RouterWorld :=
  .ok (world.step mesh n op)

/-- Packets pass a router whole, in every run in which each port is synchronized between two
cycles. -/
theorem wormhole_integrity {mesh : Mesh} {n : Nat} {memory : Nat → List Flit}
    {packets : Nat → List Packet} {world : RouterWorld}
    (reached : Reaches (run mesh n) allowed (start memory packets) world) :
    (∀ i < 5, ∀ j < 5, i ≠ j → world.router.status i ≠ .idle → world.router.status j ≠ .idle →
      world.router.redirectTo i ≠ world.router.redirectTo j) ∧
    (∀ i < 5, (world.router.buffers i).Within ∧ (world.router.receive.buffers i).Within) ∧
    ∃ closed : List Connection,
      (∀ connection ∈ closed, connection.input < 5 ∧ connection.output < 5) ∧
      (∀ k < 5, WholePackets packets world closed k) ∧ ∀ i < 5, InOrder packets world closed i := by
  obtain ⟨closed, lanes, outs, steady⟩ := reached.invariant
    (fun state => ∃ closed lanes outs, Steady packets state closed lanes outs)
    ⟨_, _, _, .start memory packets⟩
    (fun op before after ⟨_, _, _, steady⟩ admitted done => by
      obtain rfl := Except.ok.inj done
      exact steady.step mesh n admitted)
  have within : ∀ i < 5, (world.router.buffers i).Within :=
    fun i bound => (steady.inlets i bound).holds.within
  exact ⟨steady.apart, fun i bound => ⟨within i bound, receiveAll_within _ _ within i bound⟩,
    closed, steady.known, fun k bound => steady.wholePackets bound,
    fun i bound => steady.inOrder bound⟩

section PairOfRouters

instance (op : RouterOp) (world : RouterWorld) : Decidable (allowed op world) :=
  match op with
  | .cycle => inferInstanceAs (Decidable (∀ k < 5, world.synchronized k = true))
  | .synchronizeIn k | .synchronizeOut k => inferInstanceAs (Decidable (k < 5))
  | .offer k => inferInstanceAs (Decidable (k < 5 ∧
      ((world.neighbours k).outRequest = false ∨ (world.neighbours k).outAck = true)))
  | .withdraw k => inferInstanceAs (Decidable (k < 5 ∧ (world.neighbours k).outAck = true))
  | .accept k => inferInstanceAs (Decidable (k < 5 ∧ (world.neighbours k).inRequest = true ∧
      (world.neighbours k).inAck = false))

def eastward (k : Nat) : List Packet := if k = localPort then [⟨0x10, [7], by decide⟩] else []

def tick : List RouterOp := (List.range 5).map .synchronizeIn ++ [.cycle]

def feed : List RouterOp := [.offer 4] ++ tick ++ [.synchronizeIn 4]

def pass : List RouterOp := [.synchronizeOut 0, .accept 0, .synchronizeOut 0] ++ tick

def eastwardRun : List RouterOp :=
  feed ++ feed ++ feed ++ (List.replicate 7 tick).flatten ++ pass ++ pass ++ pass

def forwarded : RouterWorld :=
  outcome (run ⟨2, 1⟩ 0) eastwardRun (start (fun _ => List.replicate 4 0) eastward)

theorem wormhole_integrity_forwarded :
    forwarded.accepted 0 = [0x10, 1, 7] ∧ ∃ closed : List Connection,
      (∀ k < 5, WholePackets eastward forwarded closed k) ∧
      ∀ i < 5, InOrder eastward forwarded closed i := by
  have reached : Reaches (run ⟨2, 1⟩ 0) allowed (start (fun _ => List.replicate 4 0) eastward)
      forwarded := outcome_reaches eastwardRun _ (by decide +kernel) (by decide +kernel)
  obtain ⟨_, _, closed, _, whole, ordered⟩ := wormhole_integrity reached
  exact ⟨by decide +kernel, closed, whole, ordered⟩

end PairOfRouters

end RouterWorld

end MpsocSim

end Hellfire

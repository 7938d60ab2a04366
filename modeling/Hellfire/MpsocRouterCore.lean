import Mathlib.Logic.Function.Basic
import Hellfire.Library.CircularWindow

/-!
Executable model of one router of the mesh simulator, `usr/sim/mpsoc_sim/source/noc.c` built
without `BUS`: `ROUTERSIZE` is 5, `SIMULTANEOUS_SWITCHING` and `ARBITRATION_CONSIDERING_POS`
are 1. The arrays of a router are functions of the port number.
-/

namespace Hellfire

namespace MpsocSim

open CircularWindow

abbrev Flit := UInt16

def east : Nat := 0
def west : Nat := 1
def north : Nat := 2
def south : Nat := 3
def localPort : Nat := 4
def nonePort : Nat := 5

def routingAlgorithmDelay : Int := 7

/-- The signals of a port, where `true` is `ON`. -/
structure Port where
  input : Flit
  inRequest : Bool
  inAck : Bool
  out : Flit
  outRequest : Bool
  outAck : Bool
deriving DecidableEq, Repr

def cleanPort : Port := ⟨0, false, false, 0, false, false⟩

def Port.drive (port : Port) (out : Flit) (request : Bool) : Port :=
  { port with out := out, outRequest := request, outAck := false }

structure Buffer where
  buffer : List Flit
  start : Nat
  stop : Nat
  size : Int
  max : Nat
deriving DecidableEq, Repr

namespace Buffer

def create (memory : List Flit) : Buffer := ⟨memory, 0, 0, 0, memory.length⟩

def isFull (buffer : Buffer) : Bool := buffer.size = buffer.max

def isEmpty (buffer : Buffer) : Bool := buffer.size = 0

def put (value : Flit) (buffer : Buffer) : Buffer :=
  { buffer with
    buffer := buffer.buffer.set buffer.stop value
    stop := (buffer.stop + 1) % buffer.max
    size := buffer.size + 1 }

def read (buffer : Buffer) : Flit := buffer.buffer.getD buffer.start 0

def take (buffer : Buffer) : Flit × Buffer :=
  (buffer.read, { buffer with
    size := buffer.size - 1
    start := (buffer.start + 1) % buffer.max })

def contents (buffer : Buffer) : List Flit := window 0 buffer.buffer buffer.start buffer.size.toNat

end Buffer

def synchronizePorts (p1 p2 : Port) : Port × Port :=
  if p1.outRequest = true ∧ p2.inAck = false ∧ p1.outAck = false then
    (p1, { p2 with inRequest := true, input := p1.out })
  else if p1.outRequest = true ∧ p2.inAck = true then
    ({ p1 with outAck := true }, { p2 with inRequest := false, inAck := false, input := 0 })
  else (p1, p2)

inductive Status
  | idle
  | routingDelay
  | routingHeader
  | routingPayload
  | routingData
deriving DecidableEq, Repr

structure Router where
  arbiter : Nat
  status : Nat → Status
  packetsRemaining : Nat → Int
  redirectTo : Nat → Nat
  routingDelay : Nat → Int
  buffers : Nat → Buffer
  ports : Nat → Port

def loadRouter (memory : Nat → List Flit) : Router where
  arbiter := 0
  status _ := .idle
  packetsRemaining _ := 0
  redirectTo _ := nonePort
  routingDelay _ := nonePort
  buffers k := Buffer.create (memory k)
  ports _ := cleanPort

structure Mesh where
  width : Nat
  height : Nat

namespace Mesh

def getLine (mesh : Mesh) (n : Nat) : Nat := n / mesh.width

def getColumn (mesh : Mesh) (n : Nat) : Nat := n % mesh.width

def headerToDecimal (mesh : Mesh) (flit : Flit) : Nat :=
  (flit.toNat &&& 0x0f) * mesh.width + (flit.toNat &&& 0xf0) >>> 4

def dest (mesh : Mesh) (n : Nat) (flit : Flit) : Nat :=
  let header := mesh.headerToDecimal flit
  if mesh.getLine n = mesh.getLine header ∧ mesh.getColumn n = mesh.getColumn header then localPort
  else if mesh.getColumn n < mesh.getColumn header then east
  else if mesh.getColumn header < mesh.getColumn n then west
  else if mesh.getLine header < mesh.getLine n then south
  -- `GET_LINE(n) < GET_LINE(header)`, the only case left
  else north

end Mesh

namespace Router

open Function

def receiveOne (router : Router) (i : Nat) : Router :=
  if (router.ports i).inRequest = true then
    if (router.buffers i).isFull = false then
      { router with
        buffers := update router.buffers i ((router.buffers i).put (router.ports i).input)
        ports := update router.ports i { router.ports i with inAck := true } }
    else router
  else router

def receive (router : Router) : Router := (List.range 5).foldl receiveOne router

def inUse (router : Router) (i dest : Nat) : Bool :=
  (List.range 5).any fun j => j ≠ i ∧ router.status j ≠ .idle ∧ router.redirectTo j = dest

/-- The arbiter's input is connected to its output when that one is free. `active` is 0 here, as
connections are switched simultaneously. -/
def connect (mesh : Mesh) (n : Nat) (router : Router) : Router :=
  let i := router.arbiter
  if router.status i = .idle ∧ (router.buffers i).isEmpty = false then
    let dest := mesh.dest n (router.buffers i).read
    if router.inUse i dest = false then
      { router with
        redirectTo := update router.redirectTo i dest
        status := update router.status i .routingDelay
        routingDelay := update router.routingDelay i routingAlgorithmDelay }
    else router
  else router

def send (i : Nat) (router : Router) : Router :=
  let (flit, buffer) := (router.buffers i).take
  let dest := router.redirectTo i
  { router with
    buffers := update router.buffers i buffer
    ports := update router.ports dest ((router.ports dest).drive flit true) }

def close (i : Nat) (router : Router) : Router :=
  let dest := router.redirectTo i
  { router with
    status := update router.status i .idle
    packetsRemaining := update router.packetsRemaining i 0
    redirectTo := update router.redirectTo i nonePort
    ports := update router.ports dest ((router.ports dest).drive 0 false) }

def setStatus (i : Nat) (status : Status) (router : Router) : Router :=
  { router with status := update router.status i status }

def setRemaining (i : Nat) (remaining : Int) (router : Router) : Router :=
  { router with packetsRemaining := update router.packetsRemaining i remaining }

def forwardData (i : Nat) (router : Router) : Router :=
  if (router.ports (router.redirectTo i)).outAck = true then
    let router := router.setStatus i .routingData
    if router.packetsRemaining i = 0 then router.close i
    else if (router.buffers i).isEmpty = false then
      (router.send i).setRemaining i (router.packetsRemaining i - 1)
    else router
  else router

def forwardOne (router : Router) (i : Nat) : Router :=
  let empty := (router.buffers i).isEmpty
  match router.status i with
  | .idle => router
  | .routingDelay =>
      let counted := { router with
        routingDelay := update router.routingDelay i (router.routingDelay i - 1) }
      if router.routingDelay i ≤ 0 ∧ empty = false then
        (counted.send i).setStatus i .routingHeader
      else counted
  | .routingHeader =>
      if (router.ports (router.redirectTo i)).outAck = true ∧ empty = false then
        let flit := (router.buffers i).read
        ((router.send i).setRemaining i flit.toNat).setStatus i .routingPayload
      else router
  | .routingPayload | .routingData => router.forwardData i

def forward (router : Router) : Router := (List.range 5).foldl forwardOne router

def skipBorder (mesh : Mesh) (n arbiter : Nat) : Nat :=
  let l := mesh.getLine n
  let c := mesh.getColumn n
  if l = 0 ∧ c = 0 then
    if arbiter = west then north else if arbiter = south then localPort else arbiter
  else if l = 0 ∧ (c : Int) = mesh.width - 1 then
    if arbiter = east then west else if arbiter = south then localPort else arbiter
  else if (l : Int) = mesh.height - 1 ∧ c = 0 then
    if arbiter = west then south else if arbiter = north then localPort else arbiter
  else if (l : Int) = mesh.height - 1 ∧ (c : Int) = mesh.width - 1 then
    if arbiter = east then west else if arbiter = north then south else arbiter
  else if l = 0 then
    if arbiter = south then localPort else arbiter
  else if c = 0 then
    if arbiter = west then north else arbiter
  else if (l : Int) = mesh.height - 1 then
    if arbiter = north then south else arbiter
  else if (c : Int) = mesh.width - 1 then
    if arbiter = east then west else arbiter
  else arbiter

def turn (mesh : Mesh) (n : Nat) (router : Router) : Router :=
  { router with arbiter := skipBorder mesh n ((router.arbiter + 1) % 5) }

def cycleRouter (mesh : Mesh) (n : Nat) (router : Router) : Router :=
  turn mesh n (forward (connect mesh n (receive router)))

end Router

structure Packet where
  header : Flit
  payload : List Flit
  counted : payload.length < 65536

def Packet.flits (packet : Packet) : List Flit :=
  packet.header :: UInt16.ofNat packet.payload.length :: packet.payload

/-- A router with the ports of its neighbours, the flits that each of them has still to offer,
and the flits that each has accepted. -/
structure RouterWorld where
  router : Router
  neighbours : Nat → Port
  offers : Nat → List Flit
  accepted : Nat → List Flit
  synchronized : Nat → Bool

inductive RouterOp
  | cycle
  | synchronizeIn (k : Nat)
  | synchronizeOut (k : Nat)
  | offer (k : Nat)
  | withdraw (k : Nat)
  | accept (k : Nat)
deriving DecidableEq, Repr

namespace RouterWorld

open Function

def start (memory : Nat → List Flit) (packets : Nat → List Packet) : RouterWorld where
  router := loadRouter memory
  neighbours _ := cleanPort
  offers k := (packets k).flatMap Packet.flits
  accepted _ := []
  synchronized _ := true

def step (mesh : Mesh) (n : Nat) : RouterOp → RouterWorld → RouterWorld
  | .cycle, world =>
      { world with router := world.router.cycleRouter mesh n, synchronized := fun _ => false }
  | .synchronizeIn k, world =>
      let (p1, p2) := synchronizePorts (world.neighbours k) (world.router.ports k)
      { world with
        neighbours := update world.neighbours k p1
        router := { world.router with ports := update world.router.ports k p2 }
        synchronized := update world.synchronized k true }
  | .synchronizeOut k, world =>
      let (p1, p2) := synchronizePorts (world.router.ports k) (world.neighbours k)
      { world with
        router := { world.router with ports := update world.router.ports k p1 }
        neighbours := update world.neighbours k p2 }
  | .offer k, world =>
      match world.offers k with
      | [] => world
      | flit :: rest =>
          { world with
            neighbours := update world.neighbours k ((world.neighbours k).drive flit true)
            offers := update world.offers k rest }
  | .withdraw k, world =>
      { world with
        neighbours := update world.neighbours k ((world.neighbours k).drive 0 false) }
  | .accept k, world =>
      { world with
        neighbours := update world.neighbours k { world.neighbours k with inAck := true }
        accepted := update world.accepted k (world.accepted k ++ [(world.neighbours k).input]) }

/-- Every port is synchronized between two cycles. A neighbour offers its next flit when it has
none at the port or the last one was acknowledged, and accepts a requested flit once. -/
def allowed : RouterOp → RouterWorld → Prop
  | .cycle, world => ∀ k < 5, world.synchronized k = true
  | .synchronizeIn k, _ | .synchronizeOut k, _ => k < 5
  | .offer k, world =>
      k < 5 ∧ ((world.neighbours k).outRequest = false ∨ (world.neighbours k).outAck = true)
  | .withdraw k, world => k < 5 ∧ (world.neighbours k).outAck = true
  | .accept k, world =>
      k < 5 ∧ (world.neighbours k).inRequest = true ∧ (world.neighbours k).inAck = false

end RouterWorld

end MpsocSim

end Hellfire

import Hellfire.MpsocRouterCore

/-!
Executable model of the whole mesh of `usr/sim/mpsoc_sim/source`, built without `BUS`: the
routers, the network interfaces and the ports of the cores from `noc.c`, and the loop of
`do_debug` in `mpsoc_sim.c` that clocks them. `NI_BUFFER_LENGTH` is `OS_PACKET_SIZE`, which is
not 0. What the programs on the cores do in a turn of the loop is an input.
-/

namespace Hellfire

namespace MpsocSim

open Function

def plasma : Nat := 0
def noc : Nat := 1

def cpuNetworkClkRatio : Nat := 10

structure NetworkInterface where
  buffers : Nat → Buffer
  ports : Nat → Port

inductive CoreAct
  | compute
  | nocWrite
  | nocRead
deriving DecidableEq, Repr

structure Turn where
  act : Nat → CoreAct
  enabled : Nat → Bool

/-- The simulated hardware, with the flits that the program of each core has still to write and
those that it has read. -/
structure MeshWorld where
  routers : Nat → Router
  interfaces : Nat → NetworkInterface
  cores : Nat → Port
  isSending : Nat → Bool
  flitsRemaining : Nat → Int
  gcycles : Nat
  offers : Nat → List Flit
  received : Nat → List Flit

inductive Endpoint
  | router (n k : Nat)
  | interface (n p : Nat)
  | core (n : Nat)
  | outside (n k : Nat)
deriving DecidableEq, Repr

def Mesh.size (mesh : Mesh) : Nat := mesh.width * mesh.height

def NetworkInterface.load (memory : Nat → List Flit) : NetworkInterface where
  buffers p := Buffer.create (memory p)
  ports _ := cleanPort

namespace MeshWorld

def port (world : MeshWorld) : Endpoint → Port
  | .router n k => (world.routers n).ports k
  | .interface n p => (world.interfaces n).ports p
  | .core n => world.cores n
  | .outside _ _ => cleanPort

def setPort (world : MeshWorld) (e : Endpoint) (port : Port) : MeshWorld :=
  match e with
  | .router n k =>
      let router := world.routers n
      { world with
        routers := update world.routers n { router with ports := update router.ports k port } }
  | .interface n p =>
      let ni := world.interfaces n
      { world with
        interfaces := update world.interfaces n { ni with ports := update ni.ports p port } }
  | .core n => { world with cores := update world.cores n port }
  | .outside _ _ => world

def synchronize (p1 p2 : Endpoint) (world : MeshWorld) : MeshWorld :=
  let (first, second) := synchronizePorts (world.port p1) (world.port p2)
  (world.setPort p1 first).setPort p2 second

def synchronizeIf (flag : Bool) (p1 p2 : Endpoint) (world : MeshWorld) : MeshWorld :=
  if flag = true then world.synchronize p1 p2 else world

def synchronizeRouter (mesh : Mesh) (world : MeshWorld) (n : Nat) : MeshWorld :=
  let l := mesh.getLine n
  let c := mesh.getColumn n
  let flagEast := if c = 0 then true else if (c : Int) = mesh.width - 1 then false else true
  let flagWest := if c = 0 then false else true
  let flagNorth := if l = 0 then true else if (l : Int) = mesh.height - 1 then false else true
  let flagSouth := if l = 0 then false else true
  let world := world.synchronize (.router n localPort) (.interface n noc)
  let world := world.synchronizeIf flagSouth (.router n south) (.router (n - mesh.width) north)
  let world := world.synchronizeIf flagNorth (.router n north) (.router (n + mesh.width) south)
  let world := world.synchronizeIf flagEast (.router n east) (.router (n + 1) west)
  world.synchronizeIf flagWest (.router n west) (.router (n - 1) east)

def synchronizeNetworkInterface (world : MeshWorld) (n : Nat) : MeshWorld :=
  let world := world.synchronize (.interface n noc) (.router n localPort)
  world.synchronize (.interface n plasma) (.core n)

def synchronizeCore (world : MeshWorld) (n : Nat) : MeshWorld :=
  world.synchronize (.core n) (.interface n plasma)

def synchronizeNode (mesh : Mesh) (world : MeshWorld) (n : Nat) : MeshWorld :=
  ((world.synchronizeRouter mesh n).synchronizeNetworkInterface n).synchronizeCore n

end MeshWorld

namespace NetworkInterface

/-- A flit at a port goes into the buffer of that side. -/
def accept (p : Nat) (ni : NetworkInterface) : NetworkInterface :=
  if (ni.ports p).inRequest = true then
    if (ni.buffers p).isFull = false then
      { ni with
        buffers := update ni.buffers p ((ni.buffers p).put (ni.ports p).input)
        ports := update ni.ports p { ni.ports p with inAck := true } }
    else ni
  else ni

def release (b p : Nat) (ni : NetworkInterface) : NetworkInterface :=
  if (ni.ports p).outAck = true then
    { ni with
      buffers := update ni.buffers b (ni.buffers b).take.2
      ports := update ni.ports p ((ni.ports p).drive 0 false) }
  else ni

def present (b p : Nat) (ni : NetworkInterface) : NetworkInterface :=
  if (ni.buffers b).isEmpty = false then
    let port := { ni.ports p with out := (ni.buffers b).read, outRequest := true }
    { ni with ports := update ni.ports p port }
  else ni

def emit (b p : Nat) (ni : NetworkInterface) : NetworkInterface :=
  if (ni.buffers b).isEmpty = false then (ni.release b p).present b p else ni

def cycle (ni : NetworkInterface) : NetworkInterface :=
  (((ni.accept plasma).accept noc).emit plasma noc).emit noc plasma

end NetworkInterface

namespace MeshWorld

def cycleRouter (mesh : Mesh) (n : Nat) (world : MeshWorld) : MeshWorld :=
  { world with routers := update world.routers n ((world.routers n).cycleRouter mesh n) }

def cycleNetworkInterface (n : Nat) (world : MeshWorld) : MeshWorld :=
  { world with interfaces := update world.interfaces n (world.interfaces n).cycle }

def raise (packetSize : Nat) (enabled : Nat → Bool) (world : MeshWorld) (j : Nat) : MeshWorld :=
  if ((world.interfaces j).buffers noc).isFull = true ∧ (world.cores j).inRequest = true ∧
      world.flitsRemaining j = 0 ∧ enabled j = true then
    { world with flitsRemaining := update world.flitsRemaining j (packetSize + 1) }
  else world

def finishSending (world : MeshWorld) (j : Nat) : MeshWorld :=
  if world.isSending j = true ∧ (world.cores j).outAck = true then
    { world with
      cores := update world.cores j ((world.cores j).drive 0 false)
      isSending := update world.isSending j false }
  else world

def nocWrite (j : Nat) (world : MeshWorld) : MeshWorld :=
  match world.offers j with
  | [] => world
  | flit :: rest =>
      { world with
        cores := update world.cores j ((world.cores j).drive flit true)
        isSending := update world.isSending j true
        offers := update world.offers j rest }

/-- `NOC_READ` of `mem_read`. The first reading after an interrupt takes no flit, nor does one of
a port that has none. -/
def nocRead (packetSize j : Nat) (world : MeshWorld) : MeshWorld :=
  if world.flitsRemaining j = packetSize + 1 then
    { world with flitsRemaining := update world.flitsRemaining j packetSize }
  else if (world.cores j).inRequest = true then
    { world with
      cores := update world.cores j { world.cores j with inAck := true }
      flitsRemaining := update world.flitsRemaining j (world.flitsRemaining j - 1)
      received := update world.received j (world.received j ++ [(world.cores j).input]) }
  else world

def cycleCore (packetSize : Nat) (act : Nat → CoreAct) (world : MeshWorld) (j : Nat) : MeshWorld :=
  if world.isSending j = false then
    match act j with
    | .compute => world
    | .nocWrite => world.nocWrite j
    | .nocRead => world.nocRead packetSize j
  else world

def clockNode (mesh : Mesh) (world : MeshWorld) (j : Nat) : MeshWorld :=
  let world := if world.gcycles % cpuNetworkClkRatio = 0 then world.cycleRouter mesh j else world
  world.cycleNetworkInterface j

def tick (mesh : Mesh) (packetSize : Nat) (turn : Turn) (world : MeshWorld) : MeshWorld :=
  let nodes := List.range mesh.size
  let world := nodes.foldl (raise packetSize turn.enabled) world
  let world := { world with gcycles := (world.gcycles + 1) % 2 ^ 64 }
  let world := nodes.foldl finishSending world
  let world := nodes.foldl (synchronizeNode mesh) world
  let world := nodes.foldl (clockNode mesh) world
  nodes.foldl (cycleCore packetSize turn.act) world

def ticks (mesh : Mesh) (packetSize : Nat) (turns : List Turn) (world : MeshWorld) : MeshWorld :=
  turns.foldl (fun world turn => world.tick mesh packetSize turn) world

def load (memory interfaceMemory : Nat → Nat → List Flit) (offers : Nat → List Flit) :
    MeshWorld where
  routers n := loadRouter (memory n)
  interfaces n := .load (interfaceMemory n)
  cores _ := cleanPort
  isSending _ := false
  flitsRemaining _ := 0
  gcycles := 0
  offers := offers
  received _ := []

def boot (mesh : Mesh) (packetSize : Nat) (memory interfaceMemory : Nat → Nat → List Flit)
    (offers : Nat → List Flit) (act : Nat → CoreAct) : MeshWorld :=
  (List.range mesh.size).foldl (cycleCore packetSize act) (load memory interfaceMemory offers)

end MeshWorld

end MpsocSim

end Hellfire

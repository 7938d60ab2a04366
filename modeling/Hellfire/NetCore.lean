import Mathlib.Logic.Function.Basic

/-!
Executable model of the link layer of `net/ustack`: the globals of a station, `arp.c` and
`netif_send`/`netif_recv` of `eth_netif.c`. A function runs on one frame buffer; its
`packet` pointer is the buffer's address plus `ETH_HEADER_SIZE`. What a function reads of
the buffer, and what it hands to the driver, is kept in a history.
-/

namespace Hellfire

section Definitions

@[simp] def packetSize : Nat := 1518
@[simp] def arpCacheSize : Nat := 16
@[simp] def ipCfgPing : Nat := 113

@[simp] def ethDaOfs : Nat := 0
@[simp] def ethSaOfs : Nat := 6
@[simp] def ethTypeOfs : Nat := 12
@[simp] def ethHeaderSize : Nat := 14

@[simp] def frameArp : Nat := 0x0806
@[simp] def frameIp : Nat := 0x0800

@[simp] def arpHardwOfs : Nat := 14
@[simp] def arpProtOfs : Nat := 16
@[simp] def arpHlenPlenOfs : Nat := 18
@[simp] def arpOpcodeOfs : Nat := 20
@[simp] def arpSenderHaOfs : Nat := 22
@[simp] def arpSenderIpOfs : Nat := 28
@[simp] def arpTargetHaOfs : Nat := 32
@[simp] def arpTargetIpOfs : Nat := 38
@[simp] def arpFrameSize : Nat := 28

@[simp] def hardwEth10 : Nat := 1
@[simp] def ipHlenPlen : Nat := 0x0604
@[simp] def opArpRequest : Nat := 1
@[simp] def opArpAnswer : Nat := 2

@[simp] def ipHdrVhl : Nat := 0
@[simp] def ipHdrTos : Nat := 1
@[simp] def ipHdrLen1 : Nat := 2
@[simp] def ipHdrIpid1 : Nat := 4
@[simp] def ipHdrFlags1 : Nat := 6
@[simp] def ipHdrTtl : Nat := 8
@[simp] def ipHdrProto : Nat := 9
@[simp] def ipHdrChksum1 : Nat := 10
@[simp] def ipHdrSrcaddr1 : Nat := 12
@[simp] def ipHdrDestaddr1 : Nat := 16
@[simp] def ipHeaderSize : Nat := 20

@[simp] def ipVerIhl : Nat := 0x4500
@[simp] def ipFlagMorefrag : Nat := 0x2000
@[simp] def ipFragofsMask : Nat := 0x1fff
@[simp] def ipDefaultTtl : Nat := 64
@[simp] def ipProtoIcmp : Nat := 1
@[simp] def ipProtoUdp : Nat := 17

@[simp] def icmpHdrType : Nat := 20
@[simp] def icmpHdrChksum1 : Nat := 22
@[simp] def icmpEchoReply : Nat := 0
@[simp] def icmpEcho : Nat := 8
@[simp] def icmpHdrSize : Nat := 8

@[simp] def udpHdrSrcport1 : Nat := 20
@[simp] def udpHdrDestport1 : Nat := 22
@[simp] def udpHdrLen1 : Nat := 24
@[simp] def udpHdrChksum1 : Nat := 26
@[simp] def udpDataOfs : Nat := 28
@[simp] def udpHeaderSize : Nat := 8

@[simp] def portEcho : Nat := 7
@[simp] def portDiscard : Nat := 9

end Definitions

structure Mac where
  b0 : UInt8
  b1 : UInt8
  b2 : UInt8
  b3 : UInt8
  b4 : UInt8
  b5 : UInt8
deriving DecidableEq, Repr

structure Ip where
  b0 : UInt8
  b1 : UInt8
  b2 : UInt8
  b3 : UInt8
deriving DecidableEq, Repr

namespace Mac

def toList (mac : Mac) : List UInt8 := [mac.b0, mac.b1, mac.b2, mac.b3, mac.b4, mac.b5]

def broadcast : Mac := ⟨255, 255, 255, 255, 255, 255⟩
def any : Mac := ⟨0, 0, 0, 0, 0, 0⟩

end Mac

namespace Ip

def toList (ip : Ip) : List UInt8 := [ip.b0, ip.b1, ip.b2, ip.b3]

def map (f : UInt8 → UInt8) (ip : Ip) : Ip := ⟨f ip.b0, f ip.b1, f ip.b2, f ip.b3⟩

def masked (ip mask : Ip) : Ip :=
  ⟨ip.b0 &&& mask.b0, ip.b1 &&& mask.b1, ip.b2 &&& mask.b2, ip.b3 &&& mask.b3⟩

def zeros : Ip := ⟨0, 0, 0, 0⟩
def ones : Ip := ⟨255, 255, 255, 255⟩

def ipAddrMaskcmp (addr1 addr2 mask : Ip) : Bool := addr1.masked mask = addr2.masked mask

def ipAddrIsany (addr : Ip) : Bool := addr = zeros

def ipAddrIsbroadcast (addr mask : Ip) : Bool :=
  let ad := addr.masked (mask.map fun byte => ~~~byte)
  let msk := mask.map fun byte => ~~~byte
  ad = msk || (ad = zeros || ad = ones)

def ipAddrIsmulticast (addr : Ip) : Bool :=
  addr.masked ⟨0xf0, 0x00, 0x00, 0x00⟩ = ⟨0xe0, 0x00, 0x00, 0x00⟩

end Ip

/-- The memory of a frame buffer, from its first byte on. -/
abbrev Frame := Nat → UInt8

def word (high low : UInt8) : Nat := high.toNat * 256 + low.toNat

def bytesOf (value : Nat) : List UInt8 := [UInt8.ofNat (value / 256), UInt8.ofNat value]

namespace Frame

def store (frame : Frame) (ofs : Nat) (bytes : List UInt8) : Frame := fun i =>
  if ofs ≤ i ∧ i < ofs + bytes.length then bytes.getD (i - ofs) 0 else frame i

def wordAt (frame : Frame) (ofs : Nat) : Nat := word (frame ofs) (frame (ofs + 1))

def ipAt (frame : Frame) (ofs : Nat) : Ip :=
  ⟨frame ofs, frame (ofs + 1), frame (ofs + 2), frame (ofs + 3)⟩

def macAt (frame : Frame) (ofs : Nat) : Mac :=
  ⟨frame ofs, frame (ofs + 1), frame (ofs + 2), frame (ofs + 3), frame (ofs + 4),
    frame (ofs + 5)⟩

def bytesAt (frame : Frame) (ofs count : Nat) : List UInt8 :=
  (List.range count).map fun i => frame (ofs + i)

end Frame

structure ArpEntry where
  ip : Ip
  mac : Mac
deriving DecidableEq, Repr

/-- The globals of the stack and the frame buffer that is in use. `sent`, `upcalls` and `reach`
are histories: the frames given to `en_ll_output`, the buffers given to the UDP callback,
and one past the last byte of the buffer that was read or given to the driver. -/
structure Station where
  mymac : Mac
  myip : Ip
  mynm : Ip
  mygw : Ip
  arpCache : Fin arpCacheSize → ArpEntry
  arpIndex : Fin arpCacheSize
  listening : Bool
  frame : Frame
  sent : List (List UInt8)
  upcalls : List Frame
  reach : Nat

def Station.touch (station : Station) (bound : Nat) : Station :=
  { station with reach := max station.reach bound }

/-- A run of code of a station; it may never end. -/
abbrev Net := StateT Station Option

namespace Net

def rd (ofs : Nat) : Net UInt8 := fun station => some (station.frame ofs, station.touch (ofs + 1))

def rdWord (ofs : Nat) : Net Nat := do
  let high ← rd ofs
  let low ← rd (ofs + 1)
  pure (word high low)

def rdIp (ofs : Nat) : Net Ip := fun station => some (station.frame.ipAt ofs, station.touch (ofs + 4))

def rdMac (ofs : Nat) : Net Mac := fun station => some (station.frame.macAt ofs, station.touch (ofs + 6))

def wr (ofs : Nat) (bytes : List UInt8) : Net Unit := fun station =>
  some ((), { station with frame := station.frame.store ofs bytes })

/-- `!memcmp(&frame[ofs], bytes, n)`, which stops at the first difference. -/
def memcmp : Nat → List UInt8 → Net Bool
  | _, [] => pure true
  | ofs, byte :: bytes => do
      let own ← rd ofs
      if own = byte then memcmp (ofs + 1) bytes else pure false

/-- The driver takes the size as `uint16_t`. -/
def enLlOutput (size : Nat) : Net Unit := fun station =>
  some ((), { station.touch (size % 65536) with
    sent := station.sent ++ [station.frame.bytesAt 0 (size % 65536)] })

def arpReply : Net Nat := do
  let station ← get
  let mac ← rdMac ethSaOfs
  wr ethSaOfs station.mymac.toList
  wr ethDaOfs mac.toList
  wr ethTypeOfs (bytesOf frameArp)
  let ip ← rdIp arpSenderIpOfs
  wr arpHardwOfs (bytesOf hardwEth10)
  wr arpProtOfs (bytesOf frameIp)
  wr arpHlenPlenOfs (bytesOf ipHlenPlen)
  wr arpOpcodeOfs (bytesOf opArpAnswer)
  wr arpSenderHaOfs station.mymac.toList
  wr arpSenderIpOfs station.myip.toList
  wr arpTargetHaOfs mac.toList
  wr arpTargetIpOfs ip.toList
  pure (ethHeaderSize + arpFrameSize)

def arpRequest : Net Nat := do
  let station ← get
  wr ethSaOfs station.mymac.toList
  wr ethDaOfs Mac.broadcast.toList
  wr ethTypeOfs (bytesOf frameArp)
  wr arpHardwOfs (bytesOf hardwEth10)
  wr arpProtOfs (bytesOf frameIp)
  wr arpHlenPlenOfs (bytesOf ipHlenPlen)
  wr arpOpcodeOfs (bytesOf opArpRequest)
  wr arpSenderHaOfs station.mymac.toList
  wr arpSenderIpOfs station.myip.toList
  wr arpTargetHaOfs Mac.any.toList
  wr arpTargetIpOfs station.myip.toList
  pure (ethHeaderSize + arpFrameSize)

end Net

namespace Station

/-- The loop that `arp_update` and `arp_check` start with. -/
def arpFind (station : Station) (ip : Ip) : Option (Fin arpCacheSize) :=
  (List.finRange arpCacheSize).find? fun i => ip = (station.arpCache i).ip

def arpUpdate (station : Station) (ip : Ip) (mac : Mac) : Station :=
  match station.arpFind ip with
  | some i =>
      { station with
        arpCache := Function.update station.arpCache i { station.arpCache i with mac := mac } }
  | none =>
      { station with
        arpCache := Function.update station.arpCache station.arpIndex ⟨ip, mac⟩
        arpIndex := ⟨(station.arpIndex + 1) % arpCacheSize, Nat.mod_lt _ (by decide)⟩ }

def arpCheck (station : Station) (ip : Ip) : Option Mac :=
  (station.arpFind ip).map fun i => (station.arpCache i).mac

def nextHop (station : Station) (ip : Ip) : Ip :=
  if ip.ipAddrMaskcmp station.myip station.mynm = false then station.mygw else ip

def resolve (station : Station) (ip : Ip) : Option Mac :=
  if ip.ipAddrIsany || ip.ipAddrIsbroadcast station.mynm then some Mac.broadcast
  else if ip.ipAddrIsmulticast then
    some ⟨0x01, 0x00, 0x5e, ip.b1 &&& 0x7f, ip.b2, ip.b3⟩
  else station.arpCheck (station.nextHop ip)

end Station

namespace Net

def netifSend (len : Nat) : Net Nat := do
  let ip ← rdIp (ethHeaderSize + ipHdrDestaddr1)
  let station ← get
  match station.resolve ip with
  | some mac =>
      wr ethSaOfs station.mymac.toList
      wr ethDaOfs mac.toList
      wr ethTypeOfs (bytesOf frameIp)
      enLlOutput (len + ethHeaderSize)
      pure ((len + ethHeaderSize) % 65536)
  | none =>
      let l ← arpRequest
      wr arpTargetIpOfs (station.nextHop ip).toList
      enLlOutput (l + ethHeaderSize)
      pure 0

/-- The ARP part of `netif_recv`. An answer is read in full by `arp_update`, whatever the cache
holds. -/
def arpRecv : Net Unit := do
  if (← rdWord arpHardwOfs) = hardwEth10 then
    if (← rdWord arpProtOfs) = frameIp then
      if (← rdWord arpHlenPlenOfs) = ipHlenPlen then
        if (← rdWord arpOpcodeOfs) = opArpRequest then
          let station ← get
          if (← memcmp arpTargetIpOfs station.myip.toList) then
            let len ← arpReply
            enLlOutput len
        else if (← rdWord arpOpcodeOfs) = opArpAnswer then
          let ip ← rdIp arpSenderIpOfs
          let mac ← rdMac arpSenderHaOfs
          modify fun station => station.arpUpdate ip mac

/-- `is_local_mac(frame) || is_broadcast_mac(frame) || is_any_mac(frame)`. -/
def isForMe : Net Bool := do
  let station ← get
  if (← memcmp ethDaOfs station.mymac.toList) then pure true
  else if (← memcmp ethDaOfs Mac.broadcast.toList) then pure true
  else memcmp ethDaOfs Mac.any.toList

/-- `netif_recv`, when `en_ll_input` puts `received` into the buffer and returns its length. -/
def netifRecv (received : List UInt8) : Net Nat := do
  wr 0 received
  if 0 < received.length then
    if (← isForMe) then
      let type ← rdWord ethTypeOfs
      if type = frameArp then
        arpRecv
        pure 0
      else if type = frameIp then rdWord (ethHeaderSize + ipHdrLen1)
      else pure 0
    else pure 0
  else pure 0

end Net

end Hellfire

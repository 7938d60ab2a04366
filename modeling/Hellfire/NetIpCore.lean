import Hellfire.Library.OnesComplement
import Hellfire.NetCore

/-!
Executable model of `ip.c`, `icmp.c` and `udp.c` of `net/ustack`. The offsets of these layers
are relative to the packet, which starts behind the Ethernet header.
-/

namespace Hellfire

open OnesComplement

/-- `while (sum & 0xffff0000) sum = (sum & 0xffff) + (sum >> 16)`. -/
def foldSum (sum : Nat) : Nat := fold 65536 2 sum

namespace Net

def rdPacket (ofs : Nat) : Net UInt8 := rd (ethHeaderSize + ofs)

def rdPacketWord (ofs : Nat) : Net Nat := rdWord (ethHeaderSize + ofs)

def wrPacket (ofs : Nat) (bytes : List UInt8) : Net Unit := wr (ethHeaderSize + ofs) bytes

/-- The loop of `ipchksum` from the word at `i` on. -/
def ipSum : Nat → Nat → Nat → Net Nat
  | 0, _, sum => pure sum
  | words + 1, i, sum => do
      let value ← rdPacketWord i
      ipSum words (i + 2) (sum + value)

def ipchksum : Net Nat := do
  let sum ← ipSum 10 0 0
  pure (foldSum sum)

def ipHeader (dstAddr : Ip) (len : Nat) : Net Unit := do
  let station ← get
  wrPacket ipHdrVhl [UInt8.ofNat (ipVerIhl / 256)]
  wrPacket ipHdrTos [0]
  wrPacket ipHdrLen1 (bytesOf len)
  wrPacket ipHdrIpid1 [0, 0]
  wrPacket ipHdrFlags1 [0, 0]
  wrPacket ipHdrTtl [UInt8.ofNat ipDefaultTtl]
  wrPacket ipHdrSrcaddr1 station.myip.toList
  wrPacket ipHdrDestaddr1 dstAddr.toList
  wrPacket ipHdrChksum1 [0, 0]
  let sum ← ipchksum
  wrPacket ipHdrChksum1 (bytesOf (65535 - sum))

def ipOut (dstAddr : Ip) (len : Nat) : Net Nat := do
  ipHeader dstAddr len
  netifSend len

def echoChksum (chksum : Nat) : Nat :=
  if 0xffff - icmpEcho * 256 < chksum then (chksum + icmpEcho * 256 + 1) % 65536
  else chksum + icmpEcho * 256

def icmpEchoReply (len : Nat) : Net Int := do
  if (← rdPacket icmpHdrType).toNat = icmpEcho then
    wrPacket icmpHdrType [UInt8.ofNat Hellfire.icmpEchoReply]
    let chksum ← rdPacketWord icmpHdrChksum1
    wrPacket icmpHdrChksum1 (bytesOf (echoChksum chksum))
    let dstAddr ← rdIp (ethHeaderSize + ipHdrSrcaddr1)
    let _ ← ipOut dstAddr len
    pure 0
  else pure (-1)

/-- `for (i = IP_HEADER_SIZE; i < len + IP_HEADER_SIZE-1; i += 2)` with a 16 bit counter. A loop
that has not ended after all even values of the counter never ends. -/
def udpSum (len : Nat) : Nat → Nat → Nat → Net Nat
  | 0, _, _ => failure
  | turns + 1, i, sum =>
      if i < len + ipHeaderSize - 1 then do
        let value ← rdPacketWord i
        udpSum len turns ((i + 2) % 65536) (sum + value)
      else pure sum

def udpTurns : Nat := 32769

def udpchksum (len : Nat) : Net Nat := do
  let src1 ← rdPacketWord ipHdrSrcaddr1
  let src2 ← rdPacketWord (ipHdrSrcaddr1 + 2)
  let dst1 ← rdPacketWord ipHdrDestaddr1
  let dst2 ← rdPacketWord (ipHdrDestaddr1 + 2)
  let sum ← udpSum len udpTurns ipHeaderSize (src1 + src2 + dst1 + dst2 + ipProtoUdp + len)
  if len % 2 = 1 then do
    let last ← rdPacket (len + ipHeaderSize - 1)
    pure (65535 - foldSum (sum + last.toNat * 256))
  else pure (65535 - foldSum sum)

def udpHeader (dstAddr : Ip) (srcPort dstPort len : Nat) : Net Unit := do
  let station ← get
  wrPacket ipHdrSrcaddr1 station.myip.toList
  wrPacket ipHdrDestaddr1 dstAddr.toList
  wrPacket udpHdrSrcport1 (bytesOf srcPort)
  wrPacket udpHdrDestport1 (bytesOf dstPort)
  wrPacket udpHdrLen1 (bytesOf len)
  wrPacket udpHdrChksum1 [0, 0]
  wrPacket ipHdrProto [UInt8.ofNat ipProtoUdp]
  let chksum ← udpchksum len
  wrPacket udpHdrChksum1 (bytesOf chksum)

def udpOut (dstAddr : Ip) (srcPort dstPort len : Nat) : Net Nat := do
  udpHeader dstAddr srcPort dstPort len
  ipOut dstAddr ((len + ipHeaderSize) % 65536)

/-- The checksum test of `udp_in`, with the field cleared by it. -/
def udpChecked (chksum datalen : Nat) : Net Bool :=
  if chksum ≠ 0 then do
    wrPacket udpHdrChksum1 [0, 0]
    let own ← udpchksum datalen
    pure (chksum = own)
  else pure true

def upcall : Net Unit :=
  modify fun station =>
    if station.listening then { station with upcalls := station.upcalls ++ [station.frame] }
    else station

def udpIn : Net Int := do
  let chksum ← rdPacketWord udpHdrChksum1
  let datalen ← rdPacketWord udpHdrLen1
  if (← udpChecked chksum datalen) then
    let srcPort ← rdPacketWord udpHdrSrcport1
    let dstPort ← rdPacketWord udpHdrDestport1
    if dstPort = portEcho then
      let dstAddr ← rdIp (ethHeaderSize + ipHdrSrcaddr1)
      let _ ← udpOut dstAddr dstPort srcPort datalen
      pure 0
    else if dstPort = portDiscard then pure 0
    else
      upcall
      pure datalen
  else pure (-1)

def configured (myip : Ip) : Bool := myip.b0 ||| myip.b1 ||| myip.b2 ||| myip.b3 ≠ 0

def magicPing (len : Nat) : Net Int := do
  if (← rdPacket ipHdrProto).toNat = ipProtoIcmp then
    if len = ipCfgPing + ipHeaderSize + icmpHdrSize then
      let myip ← rdIp (ethHeaderSize + ipHdrDestaddr1)
      modify fun station => { station with myip := myip }
  pure 0

def ipIn (dstAddr : Ip) (len : Nat) : Net Int := do
  let station ← get
  if (← rdPacket ipHdrVhl).toNat ≠ ipVerIhl / 256 then pure (-1)
  else if (← rdPacketWord ipHdrFlags1) &&& (ipFlagMorefrag ||| ipFragofsMask) ≠ 0 then pure (-1)
  else if (← rdPacket ipHdrTtl) = 0 then pure (-1)
  else if configured station.myip then
    if (← memcmp (ethHeaderSize + ipHdrDestaddr1) dstAddr.toList) = false then pure (-1)
    else if (← ipchksum) ≠ 0xffff then pure (-1)
    else
      let proto ← rdPacket ipHdrProto
      if proto.toNat = ipProtoIcmp then icmpEchoReply len
      else if proto.toNat = ipProtoUdp then udpIn
      else pure (-1)
  else magicPing len

def ustackService (received : List UInt8) : Net Unit := do
  let len ← netifRecv received
  if 0 < len then
    let station ← get
    let _ ← ipIn station.myip len

end Net

end Hellfire

import Hellfire.FrameBounds

/-!
What the checksums protect: an IP header in which one word is changed is refused, and a UDP datagram
is taken as RFC 768 says but for one of the two ways to write zero.
-/

namespace Hellfire

open OnesComplement

namespace Net

section Words

variable {first second : Frame}

theorem wordSum_changed (count : Nat) : ∀ ofs k, k < count →
    (∀ i, ofs ≤ i → i < ofs + 2 * count → i ≠ ofs + 2 * k → i ≠ ofs + 2 * k + 1 → first i = second i) →
    wordSum first ofs count + second.wordAt (ofs + 2 * k) =
      wordSum second ofs count + first.wordAt (ofs + 2 * k) := by
  induction count with
  | zero => exact fun _ _ absurd => (Nat.not_lt_zero _ absurd).elim
  | succ count ih =>
      intro ofs k inside same
      cases k with
      | zero =>
          have rest : wordSum first (ofs + 2) count = wordSum second (ofs + 2) count :=
            wordSum_congr _ _ fun i above below => same i (by omega) (by omega) (by omega) (by omega)
          simp only [wordSum, rest, Nat.mul_zero, Nat.add_zero]
          omega
      | succ k =>
          have head : first.wordAt ofs = second.wordAt ofs :=
            Frame.wordAt_congr fun i above below =>
              same i above (by omega) (by omega) (by omega)
          have rest := ih (ofs + 2) k (by omega) fun i above below word next =>
            same i (by omega) (by omega) (by omega) (by omega)
          have place : ofs + 2 + 2 * k = ofs + 2 * (k + 1) := by omega
          rw [place] at rest
          rw [wordSum, wordSum, head]
          omega

theorem wordSum_le (frame : Frame) (count : Nat) : ∀ ofs, wordSum frame ofs count ≤ count * 65535 := by
  induction count with
  | zero => exact fun _ => Nat.zero_le _
  | succ count ih =>
      intro ofs
      have rest := ih (ofs + 2)
      have word := frame.wordAt_lt ofs
      rw [wordSum, Nat.add_mul]
      omega

theorem headerSum_eq (frame : Frame) : headerSum frame = wordSum frame 14 10 := by
  simp only [headerSum, wordSum, Nat.reduceAdd]
  omega

theorem dvd_of_foldSum {sum : Nat} (closes : foldSum sum = 0xffff) : 65535 ∣ sum := by
  have same : foldSum sum ≡ sum [MOD 65535] := fold_modEq 2 sum
  rw [closes] at same
  exact Nat.modEq_zero_iff_dvd.mp same.symm

end Words

section Header

def ipInWith (icmp : Nat → Net Int) (udp : Net Int) (dstAddr : Ip) (len : Nat) : Net Int := do
  let station ← get
  if (← rdPacket ipHdrVhl).toNat ≠ ipVerIhl / 256 then pure (-1)
  else if (← rdPacketWord ipHdrFlags1) &&& (ipFlagMorefrag ||| ipFragofsMask) ≠ 0 then pure (-1)
  else if (← rdPacket ipHdrTtl) = 0 then pure (-1)
  else if configured station.myip then
    if (← memcmp (ethHeaderSize + ipHdrDestaddr1) dstAddr.toList) = false then pure (-1)
    else if (← ipchksum) ≠ 0xffff then pure (-1)
    else
      let proto ← rdPacket ipHdrProto
      if proto.toNat = ipProtoIcmp then icmp len
      else if proto.toNat = ipProtoUdp then udp
      else pure (-1)
  else magicPing len

theorem ipIn_eq : ipIn = ipInWith Net.icmpEchoReply udpIn := rfl

/-- A configured station returns at a wrong checksum, or before, whatever the protocols do. -/
theorem run_ipInWith_refused {station : Station} (up : configured station.myip = true)
    (wrong : foldSum (headerSum station.frame) ≠ 0xffff) (dstAddr : Ip) (len : Nat) :
    ∃ bound, ∀ icmp udp,
      (ipInWith icmp udp dstAddr len).run station = some (-1, station.touch bound) := by
  by_cases vhl : (station.frame 14).toNat = 69
  · by_cases whole : station.frame.wordAt 20 &&& 16383 = 0
    · by_cases dead : station.frame 22 = 0
      · exact ⟨_, fun icmp udp => by simp [ipInWith, vhl, whole, dead]; rfl⟩
      · by_cases mine : matchesAt station.frame 30 dstAddr.toList = false
        · exact ⟨_, fun icmp udp => by simp [ipInWith, vhl, whole, dead, up, mine]; rfl⟩
        · exact ⟨_, fun icmp udp => by simp [ipInWith, vhl, whole, dead, up, mine, wrong]; rfl⟩
    · exact ⟨_, fun icmp udp => by simp [ipInWith, vhl, whole]; rfl⟩
  · exact ⟨_, fun icmp udp => by simp [ipInWith, vhl]; rfl⟩

/-- The header that `ip_out` gives to `netif_send` passes the test of `ip_in`. With another value in
one of its words, not the same modulo 65535, every station with an address refuses it. -/
theorem ip_header_protected (sender : Station) (dstAddr : Ip) (len : Nat) :
    ∃ built, (ipHeader dstAddr len).run sender = some ((), built) ∧
      (ipOut dstAddr len).run sender = (netifSend len).run built ∧
      ipchksum.run built = some (0xffff, built.touch 34) ∧
      ∀ (receiver : Station) (myip : Ip) (total k : Nat), configured receiver.myip = true → k < 10 →
        (∀ i, 14 ≤ i → i < 34 → i ≠ 14 + 2 * k → i ≠ 14 + 2 * k + 1 →
          receiver.frame i = built.frame i) →
        ¬receiver.frame.wordAt (14 + 2 * k) ≡ built.frame.wordAt (14 + 2 * k) [MOD 65535] →
        ∃ bound, (ipIn myip total).run receiver = some (-1, receiver.touch bound) ∧
          ∀ icmp udp, (ipInWith icmp udp myip total).run receiver = some (-1, receiver.touch bound) := by
  have closes := ipFramed_chksum sender.myip dstAddr len sender.frame
  refine ⟨_, run_ipHeader sender dstAddr len, ?_, ?_, ?_⟩
  · rw [ipOut, run_bind_of _ (run_ipHeader sender dstAddr len)]
  · rw [run_ipchksum, Station.touch_frame, Station.put_frame, closes]
  · intro receiver myip total k up inside same differs
    simp only [Station.touch_frame, Station.put_frame] at same differs
    have wrong : foldSum (headerSum receiver.frame) ≠ 0xffff := by
      intro closed
      have changed := wordSum_changed 10 14 k inside fun i above below => same i above (by omega)
      rw [← headerSum_eq, ← headerSum_eq] at changed
      have built := Nat.mod_eq_zero_of_dvd (dvd_of_foldSum closes)
      have received := Nat.mod_eq_zero_of_dvd (dvd_of_foldSum closed)
      apply differs
      unfold Nat.ModEq
      omega
    obtain ⟨bound, refused⟩ := run_ipInWith_refused up wrong myip total
    exact ⟨bound, ipIn_eq ▸ refused _ _, refused⟩

/-- Another time to live in a header from 10.0.0.1. -/
theorem ip_header_protected_ttl : ∃ built after,
    (ipHeader ⟨10, 0, 0, 2⟩ 32).run (stationAt 1) = some ((), built) ∧
      (ipIn ⟨10, 0, 0, 2⟩ 32).run ((stationAt 2).put (built.frame.store 22 [63])) = some (-1, after) := by
  obtain ⟨built, header, _, _, refuses⟩ := ip_header_protected (stationAt 1) ⟨10, 0, 0, 2⟩ 32
  have up : configured (stationAt 2).myip = true := by decide
  obtain ⟨bound, refused, _⟩ := refuses ((stationAt 2).put (built.frame.store 22 [63])) ⟨10, 0, 0, 2⟩ 32 4
    up (by decide) (fun i _ _ word _ => built.frame.store_outside (by simp; omega)) (by
      have ran := header
      rw [run_ipHeader] at ran
      obtain ⟨-, rfl⟩ := Prod.mk.inj (Option.some.inj ran)
      decide +kernel)
  exact ⟨built, _, header, refused⟩

end Header

section Datagrams

def RfcAccepted (frame : Frame) : Prop :=
  frame.wordAt 40 = 0 ∨ foldSum (udpTotal frame (frame.wordAt 38)) = 0xffff

def Accepts (station : Station) : Prop :=
  ∃ value after, udpIn.run station = some (value, after) ∧ value ≠ -1

theorem udpTotal_bounds (frame : Frame) {len : Nat} (short : len ≤ 65515) :
    0 < udpTotal frame len ∧ udpTotal frame len < 65536 * 65536 := by
  have words := wordSum_le frame (len / 2) 34
  have lt := frame.wordAt_lt
  have := lt 26
  have := lt 28
  have := lt 30
  have := lt 32
  have last := (frame (14 + (len + 19))).toNat_lt
  unfold udpTotal ipProtoUdp
  split <;> omega

theorem udpTotal_field (frame : Frame) {len : Nat} (least : 8 ≤ len) :
    udpTotal frame len = udpTotal (frame.store 40 [0, 0]) len + frame.wordAt 40 := by
  have zero : (frame.store 40 [0, 0]).wordAt 40 = 0 := by
    simp [Frame.wordAt, Frame.store, word]
  have others : ∀ i, i ≠ 40 → i ≠ 41 → frame i = frame.store 40 [0, 0] i :=
    fun i first second => (Frame.store_outside _ (by simp; omega)).symm
  have words := @wordSum_changed frame (frame.store 40 [0, 0]) (len / 2) 34 3 (by omega)
    fun i _ _ first second => others i first second
  have addresses : ∀ ofs, ofs < 39 → frame.wordAt ofs = (frame.store 40 [0, 0]).wordAt ofs :=
    fun ofs most => Frame.wordAt_congr fun i above below => others i (by omega) (by omega)
  have last : len % 2 = 1 → frame (14 + (len + 19)) = frame.store 40 [0, 0] (14 + (len + 19)) :=
    fun odd => others _ (by omega) (by omega)
  simp only [Nat.reduceMul, Nat.reduceAdd, zero, Nat.add_zero] at words
  rw [udpTotal, udpTotal, addresses 26 (by decide), addresses 28 (by decide), addresses 30 (by decide),
    addresses 32 (by decide)]
  split
  · rename_i odd
    rw [last odd]
    omega
  · omega

theorem run_udpIn {station : Station} (short : station.frame.wordAt 38 ≤ 65515) :
    ∃ value after, udpIn.run station = some (value, after) ∧
      (value ≠ -1 ↔ UdpAccepted station.frame) := by
  obtain ⟨bound, _, checked⟩ := run_udpChecked (station.touch 42) short
  rw [Station.touch_frame] at checked
  unfold udpIn
  simp only [udpHdrChksum1, udpHdrLen1, run_rdPacketWord_bind, Station.touch_frame,
    Station.touch_touch, Nat.reduceAdd, Nat.reduceLeDiff, Nat.max_def, if_false]
  rw [run_bind_of _ checked]
  by_cases accepted : UdpAccepted station.frame
  · simp only [accepted, decide_true, if_true, udpHdrSrcport1, udpHdrDestport1, run_rdPacketWord_bind,
      Station.touch_frame, Station.put_frame, Nat.reduceAdd, iff_true]
    by_cases echo : (checkedFrame station.frame).wordAt 36 = portEcho
    · obtain ⟨_, after, sent, _⟩ := udpOut_within ((((((station.touch 42).put
        (checkedFrame station.frame)).touch bound).touch 36).touch 38).touch 30) 0
        ((checkedFrame station.frame).ipAt 26) 7 ((checkedFrame station.frame).wordAt 34) short
      refine ⟨0, after, ?_, by decide⟩
      simp only [echo, if_true, portEcho, ethHeaderSize, ipHdrSrcaddr1, Nat.reduceAdd, run_rdIp_bind,
        Station.touch_frame, Station.put_frame]
      rw [run_bind_of _ sent]
      rfl
    · by_cases discard : (checkedFrame station.frame).wordAt 36 = portDiscard
      · exact ⟨0, _, by simp only [discard, if_true]; rfl, by decide⟩
      · exact ⟨station.frame.wordAt 38, _, by simp only [echo, discard, if_false]; rfl, by omega⟩
  · simp only [accepted, decide_false, Bool.false_eq_true, if_false, iff_false]
    exact ⟨-1, _, rfl, by decide⟩

theorem accepts_iff {station : Station} (short : station.frame.wordAt 38 ≤ 65515) :
    Accepts station ↔ UdpAccepted station.frame := by
  obtain ⟨value, after, ran, accepted⟩ := run_udpIn short
  rw [← accepted]
  constructor
  · rintro ⟨other, _, same, taken⟩
    rw [ran] at same
    obtain ⟨rfl, -⟩ := Prod.mk.inj (Option.some.inj same)
    exact taken
  · exact fun taken => ⟨value, after, ran, taken⟩

/-- A zero that is written as 0xffff is right for RFC 768, and is refused. -/
theorem accepts_rfc_iff {station : Station} (least : 8 ≤ station.frame.wordAt 38)
    (short : station.frame.wordAt 38 ≤ 65515) :
    (Accepts station ↔ RfcAccepted station.frame) ↔
      ¬(station.frame.wordAt 40 = 0xffff ∧ 65535 ∣ udpTotal station.frame (station.frame.wordAt 38)) := by
  have field := udpTotal_field station.frame least
  obtain ⟨positive, small⟩ := udpTotal_bounds station.frame short
  obtain ⟨positive', small'⟩ := udpTotal_bounds (station.frame.store 40 [0, 0]) short
  have below := station.frame.wordAt_lt 40
  have last : foldSum (udpTotal station.frame (station.frame.wordAt 38)) = 65535 ↔
      65535 ∣ udpTotal station.frame (station.frame.wordAt 38) :=
    fold_eq_last_iff (by decide) positive small
  rw [accepts_iff short, UdpAccepted, RfcAccepted, last]
  by_cases none : station.frame.wordAt 40 = 0
  · simp [none]
  · have both := @add_dvd_iff 65536 _ _ (by decide) positive' small' below (by omega)
    rw [← field] at both
    have least' := @fold_pos 65536 2 _ positive'
    have same := @fold_eq_last_iff 65536 _ (by decide) positive' small'
    simp only [none, false_or, checkedFrame, if_false, foldSum, both]
    simp only [Nat.reduceSub] at both same ⊢
    omega

def datagramSum (myip dstAddr : Ip) (srcPort dstPort len : Nat) (frame : Frame) : Nat :=
  word myip.b0 myip.b1 + word myip.b2 myip.b3 + word dstAddr.b0 dstAddr.b1 + word dstAddr.b2 dstAddr.b3 +
    ipProtoUdp + len + (srcPort + dstPort + len) + wordSum frame 42 ((len - 8) / 2) +
    if len % 2 = 1 then (frame (33 + len)).toNat * 256 else 0

theorem udpTotal_zeroed (myip dstAddr : Ip) {srcPort dstPort len : Nat} (frame : Frame)
    (source : srcPort < 65536) (target : dstPort < 65536) (least : 8 ≤ len) (short : len ≤ 65515) :
    udpTotal (udpZeroed myip dstAddr srcPort dstPort len frame) len =
      datagramSum myip dstAddr srcPort dstPort len frame := by
  obtain ⟨_, fromAddr, toAddr, srcWord, dstWord, lenWord, high, low⟩ :=
    udpZeroed_fields myip dstAddr srcPort dstPort len frame source target (by omega) _ rfl
  have payload := fun i => udpZeroed_payload myip dstAddr srcPort dstPort len frame (i := i)
  obtain ⟨count, half⟩ : ∃ count, len / 2 = count + 4 := ⟨len / 2 - 4, by omega⟩
  have behind : (len - 8) / 2 = count := by omega
  have data : wordSum (udpZeroed myip dstAddr srcPort dstPort len frame) 42 count =
      wordSum frame 42 count := wordSum_congr _ _ fun i above _ => payload i above
  have cleared : (udpZeroed myip dstAddr srcPort dstPort len frame).wordAt 40 = 0 := by
    rw [Frame.wordAt, high, low]
    rfl
  have addresses : ∀ ofs ip, (udpZeroed myip dstAddr srcPort dstPort len frame).ipAt ofs = ip →
      (udpZeroed myip dstAddr srcPort dstPort len frame).wordAt ofs = word ip.b0 ip.b1 ∧
        (udpZeroed myip dstAddr srcPort dstPort len frame).wordAt (ofs + 2) = word ip.b2 ip.b3 := by
    rintro ofs ip rfl
    exact ⟨rfl, rfl⟩
  obtain ⟨from1, from2⟩ := addresses 26 myip fromAddr
  obtain ⟨to1, to2⟩ := addresses 30 dstAddr toAddr
  have place : 14 + (len + 19) = 33 + len := by omega
  have last : (if len % 2 = 1 then
        (udpZeroed myip dstAddr srcPort dstPort len frame (33 + len)).toNat * 256 else 0) =
      if len % 2 = 1 then (frame (33 + len)).toNat * 256 else 0 := by
    split
    · rw [payload (33 + len) (by omega)]
    · rfl
  rw [udpTotal, datagramSum, half, behind, place, last]
  simp only [wordSum, Nat.reduceAdd, srcWord, dstWord, lenWord, cleared, data, from1, to1]
  simp only [Nat.reduceAdd] at from2 to2
  rw [from2, to2]
  omega

/-- The acceptance of a datagram follows RFC 768 unless its checksum field is 0xffff and all its words
add up to a multiple of 65535; what `udp_out` builds has a checksum unless its words do. -/
theorem udp_checksum_iff (station sender : Station) (dstAddr : Ip) (srcPort dstPort len : Nat) :
    (8 ≤ station.frame.wordAt 38 → station.frame.wordAt 38 ≤ 65515 →
      ((Accepts station ↔ RfcAccepted station.frame) ↔ ¬(station.frame.wordAt 40 = 0xffff ∧
        65535 ∣ udpTotal station.frame (station.frame.wordAt 38)))) ∧
    (srcPort < 65536 → dstPort < 65536 → 8 ≤ len → len ≤ 65515 →
      ∃ built, (udpPacket dstAddr srcPort dstPort len).run sender = some ((), built) ∧
        (udpOut dstAddr srcPort dstPort len).run sender = (netifSend (len + ipHeaderSize)).run built ∧
        (built.frame.wordAt 40 ≠ 0 ↔
          ¬65535 ∣ datagramSum sender.myip dstAddr srcPort dstPort len sender.frame)) := by
  refine ⟨accepts_rfc_iff, ?_⟩
  intro source target least short
  have total : (len + ipHeaderSize) % 65536 = len + ipHeaderSize :=
    Nat.mod_eq_of_lt (by simp only [ipHeaderSize]; omega)
  refine ⟨_, run_udpPacket sender dstAddr srcPort dstPort short, ?_, ?_⟩
  · rw [udpOut_eq, run_bind_of _ (run_udpPacket sender dstAddr srcPort dstPort short), total]
  · obtain ⟨positive, small⟩ :=
      udpTotal_bounds (udpZeroed sender.myip dstAddr srcPort dstPort len sender.frame) short
    have below := @fold_lt 65536 _ (by decide) small
    have last := @fold_eq_last_iff 65536 _ (by decide) positive small
    rw [udpTotal_zeroed _ _ _ source target least short] at last below
    have field : (packetFrame sender.myip dstAddr srcPort dstPort len sender.frame).wordAt 40 =
        65535 - foldSum (datagramSum sender.myip dstAddr srcPort dstPort len sender.frame) := by
      rw [packetFrame_chksum, udpTotal_zeroed _ _ _ source target least short]
    rw [Station.touch_frame, Station.put_frame, field, not_iff_not.mpr last.symm, foldSum]
    omega

theorem udp_checksum_plain : (Accepts (stationAt 2) ↔ RfcAccepted (stationAt 2).frame) ∧
    ∃ built, (udpPacket ⟨10, 0, 0, 2⟩ 666 777 12).run (stationAt 1) = some ((), built) ∧
      built.frame.wordAt 40 ≠ 0 := by
  obtain ⟨received, sent⟩ := udp_checksum_iff (stationAt 2) (stationAt 1) ⟨10, 0, 0, 2⟩ 666 777 12
  obtain ⟨built, packet, _, field⟩ := sent (by decide) (by decide) (by decide) (by decide)
  exact ⟨(received (by decide) (by decide)).mpr fun both => absurd both.1 (by decide),
    built, packet, field.mpr (by decide)⟩

/-- An empty datagram from 10.0.0.1 to 10.0.0.2 whose checksum is computed as zero: it is sent without
one, and it is refused when the zero is written as 0xffff. -/
theorem zero_checksum_sent : ∃ built,
    (udpPacket ⟨10, 0, 0, 2⟩ 59602 777 8).run (stationAt 1) = some ((), built) ∧
      built.frame.wordAt 40 = 0 ∧ RfcAccepted (built.frame.store 40 [255, 255]) ∧
      ¬Accepts ((stationAt 2).put (built.frame.store 40 [255, 255])) := by
  refine ⟨_, run_udpPacket (stationAt 1) _ _ _ (by decide), by decide +kernel,
    Or.inr (by decide +kernel), ?_⟩
  rw [accepts_iff (by decide +kernel)]
  decide +kernel

end Datagrams

end Net

end Hellfire

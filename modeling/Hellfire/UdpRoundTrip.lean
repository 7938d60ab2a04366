import Hellfire.NetRuns

/-!
A packet that `udp_out` builds passes every check of `ip_in` and `udp_in` at its
destination, and the UDP callback sees what was given to `udp_out`.
-/

namespace Hellfire

open OnesComplement

namespace Net

variable (station : Station)

structure IpAccepted (station : Station) (dstAddr : Ip) : Prop where
  vhl : station.frame 14 = 0x45
  whole : station.frame.wordAt 20 &&& (ipFlagMorefrag ||| ipFragofsMask) = 0
  alive : station.frame 22 ≠ 0
  configured : Net.configured station.myip = true
  mine : station.frame.ipAt 30 = dstAddr
  chksum : foldSum (headerSum station.frame) = 0xffff

theorem run_ipIn_accepted {dstAddr : Ip} (accepted : IpAccepted station dstAddr) (len : Nat) :
    (ipIn dstAddr len).run station =
      if station.frame 23 = 1 then (Net.icmpEchoReply len).run (station.touch 34)
      else if station.frame 23 = 17 then udpIn.run (station.touch 34)
      else some (-1, station.touch 34) := by
  have one : (station.frame 23).toNat = 1 ↔ station.frame 23 = 1 := by
    rw [← UInt8.toNat_inj]
    rfl
  have seventeen : (station.frame 23).toNat = 17 ↔ station.frame 23 = 17 := by
    rw [← UInt8.toNat_inj]
    rfl
  have whole : station.frame.wordAt 20 &&& 16383 = 0 := accepted.whole
  unfold ipIn
  simp [accepted.vhl, whole, accepted.alive, accepted.configured, accepted.chksum, matchesAt_ip,
    accepted.mine, comparedTo_ip accepted.mine, one, seventeen]

def checkedFrame (frame : Frame) : Frame :=
  if frame.wordAt 40 = 0 then frame else frame.store 40 [0, 0]

theorem checkedFrame_outside (frame : Frame) {i : Nat} (outside : i < 40 ∨ 42 ≤ i) :
    checkedFrame frame i = frame i := by
  unfold checkedFrame
  split
  · rfl
  · exact Frame.store_outside _ (by simpa using outside)

theorem checkedFrame_wordAt (frame : Frame) {ofs : Nat} (below : ofs < 39) :
    (checkedFrame frame).wordAt ofs = frame.wordAt ofs :=
  Frame.wordAt_congr fun _ _ _ => checkedFrame_outside _ (by omega)

theorem checkedFrame_ipAt (frame : Frame) {ofs : Nat} (below : ofs < 37) :
    (checkedFrame frame).ipAt ofs = frame.ipAt ofs :=
  Frame.ipAt_congr fun _ _ _ => checkedFrame_outside _ (by omega)

def UdpAccepted (frame : Frame) : Prop :=
  frame.wordAt 40 = 0 ∨
    frame.wordAt 40 = 65535 - foldSum (udpTotal (checkedFrame frame) (frame.wordAt 38))

instance (frame : Frame) : Decidable (UdpAccepted frame) :=
  inferInstanceAs (Decidable (_ ∨ _))

theorem run_udpChecked (short : station.frame.wordAt 38 ≤ 65515) :
    ∃ bound, bound ≤ 34 + station.frame.wordAt 38 ∧
      (udpChecked (station.frame.wordAt 40) (station.frame.wordAt 38)).run station =
        some (decide (UdpAccepted station.frame),
          (station.put (checkedFrame station.frame)).touch bound) := by
  by_cases none : station.frame.wordAt 40 = 0
  · refine ⟨0, Nat.zero_le _, ?_⟩
    simp only [udpChecked, none, checkedFrame, ne_eq, not_true_eq_false, if_false, if_true,
      StateT.run_pure, Station.touch_zero, UdpAccepted, true_or, decide_true]
    rfl
  · refine ⟨34 + station.frame.wordAt 38, Nat.le_refl _, ?_⟩
    have right : UdpAccepted station.frame ↔ station.frame.wordAt 40 =
        65535 - foldSum (udpTotal (station.frame.store 40 [0, 0]) (station.frame.wordAt 38)) := by
      simp only [UdpAccepted, none, false_or, checkedFrame, if_false]
    simp only [udpChecked, ne_eq, none, not_false_eq_true, if_true, udpHdrChksum1, run_wrPacket_bind,
      checkedFrame, if_false]
    rw [run_bind_of _ (run_udpchksum _ short), StateT.run_pure, Station.put_frame]
    simp [right]

theorem run_udpIn_delivers (accepted : UdpAccepted station.frame)
    (short : station.frame.wordAt 38 ≤ 65515)
    (port : (checkedFrame station.frame).wordAt 36 ≠ portEcho ∧
      (checkedFrame station.frame).wordAt 36 ≠ portDiscard) (listening : station.listening = true) :
    ∃ after : Station, udpIn.run station = some ((station.frame.wordAt 38 : Int), after) ∧
      after.upcalls = station.upcalls ++ [checkedFrame station.frame] := by
  obtain ⟨bound, -, checked⟩ := run_udpChecked (station.touch 42) short
  rw [Station.touch_frame, decide_eq_true accepted] at checked
  simp only [portEcho, portDiscard] at port
  unfold udpIn
  simp only [udpHdrChksum1, udpHdrLen1, run_rdPacketWord_bind, Station.touch_frame,
    Station.touch_touch, Nat.reduceAdd, Nat.reduceLeDiff, Nat.max_def, if_false]
  rw [run_bind_of _ checked]
  simp [port, upcall, listening]

def packetFrame (myip dstAddr : Ip) (srcPort dstPort len : Nat) (frame : Frame) : Frame :=
  ipFramed myip dstAddr ((len + 20) % 65536) (udpFramed myip dstAddr srcPort dstPort len frame)

def udpPacket (dstAddr : Ip) (srcPort dstPort len : Nat) : Net Unit := do
  udpHeader dstAddr srcPort dstPort len
  ipHeader dstAddr ((len + ipHeaderSize) % 65536)

theorem udpOut_eq (dstAddr : Ip) (srcPort dstPort len : Nat) :
    udpOut dstAddr srcPort dstPort len =
      udpPacket dstAddr srcPort dstPort len >>= fun _ => netifSend ((len + ipHeaderSize) % 65536) := by
  simp [udpOut, udpPacket, ipOut]

theorem run_udpPacket (dstAddr : Ip) (srcPort dstPort : Nat) {len : Nat} (short : len ≤ 65515) :
    (udpPacket dstAddr srcPort dstPort len).run station = some ((),
      (station.put (packetFrame station.myip dstAddr srcPort dstPort len station.frame)).touch
        (max 34 (34 + len))) := by
  unfold udpPacket
  rw [run_bind_of _ (run_udpHeader station dstAddr srcPort dstPort short), run_ipHeader]
  simp [packetFrame]

section Packet

variable (myip dstAddr : Ip) (srcPort dstPort len : Nat) (frame : Frame)

theorem wordAt_store_outside {ofs other : Nat} {bytes : List UInt8}
    (outside : other + 1 < ofs ∨ ofs + bytes.length ≤ other) :
    (frame.store ofs bytes).wordAt other = frame.wordAt other :=
  Frame.wordAt_congr fun _ _ _ => Frame.store_outside _ (by omega)

theorem wordAt_store_same (ofs : Nat) {value : Nat} (small : value < 65536) :
    (frame.store ofs (bytesOf value)).wordAt ofs = value := by
  rw [Frame.wordAt, Frame.store_inside _ (Nat.le_refl _) (by simp),
    Frame.store_inside _ (by omega) (by simp)]
  simpa [bytesOf] using word_bytesOf small

theorem headerSum_store {value : Nat} (small : value < 65536) (none : frame.wordAt 24 = 0) :
    headerSum (frame.store 24 (bytesOf value)) = headerSum frame + value := by
  have same : (frame.store 24 (bytesOf value)).wordAt 24 = value := wordAt_store_same frame 24 small
  have others : ∀ ofs, ofs < 23 ∨ 26 ≤ ofs →
      (frame.store 24 (bytesOf value)).wordAt ofs = frame.wordAt ofs :=
    fun ofs outside => wordAt_store_outside frame (by simp only [bytesOf_length]; omega)
  rw [headerSum, headerSum, same, none, others 14, others 16, others 18, others 20, others 22,
    others 26, others 28, others 30, others 32]
  all_goals omega

theorem ipZeroed_outside {i : Nat} (outside : i < 14 ∨ i = 23 ∨ 34 ≤ i) :
    ipZeroed myip dstAddr len frame i = frame i := by
  unfold ipZeroed
  iterate 9 rw [Frame.store_outside _ (by simp; omega)]

theorem ipFramed_outside {i : Nat} (outside : i < 14 ∨ i = 23 ∨ 34 ≤ i) :
    ipFramed myip dstAddr len frame i = frame i := by
  rw [ipFramed, Frame.store_outside _ (by simp; omega), ipZeroed_outside _ _ _ _ outside]

theorem ipFramed_fields :
    ipFramed myip dstAddr len frame 14 = 0x45 ∧ (ipFramed myip dstAddr len frame).wordAt 20 = 0 ∧
      ipFramed myip dstAddr len frame 22 = 64 ∧ (ipFramed myip dstAddr len frame).ipAt 26 = myip ∧
      (ipFramed myip dstAddr len frame).ipAt 30 = dstAddr := by
  simp [ipFramed, ipZeroed, Frame.store, Frame.wordAt, Frame.ipAt, word, Ip.toList]

theorem ipFramed_length (small : len < 65536) :
    (ipFramed myip dstAddr len frame).wordAt 16 = len := by
  have total := word_bytesOf small
  simp [ipFramed, ipZeroed, Frame.store, Frame.wordAt, bytesOf, total]

theorem ipFramed_chksum : foldSum (headerSum (ipFramed myip dstAddr len frame)) = 0xffff := by
  have none : (ipZeroed myip dstAddr len frame).wordAt 24 = 0 := by
    simp [ipZeroed, Frame.store, Frame.wordAt, word]
  have first : (ipZeroed myip dstAddr len frame).wordAt 14 = 0x4500 := by
    simp [ipZeroed, Frame.store, Frame.wordAt, word]
  have bound := headerSum_le (ipZeroed myip dstAddr len frame)
  have positive : 0 < headerSum (ipZeroed myip dstAddr len frame) := by
    unfold headerSum
    omega
  have closes := fold_add_complement positive (show 1 < 65536 by decide) (by omega)
  rw [ipFramed, headerSum_store _ (by omega) none]
  exact closes

theorem udpZeroed_fields (source : srcPort < 65536) (target : dstPort < 65536)
    (short : len < 65536) (zeroed : Frame)
    (same : zeroed = udpZeroed myip dstAddr srcPort dstPort len frame) :
    zeroed 23 = 17 ∧ zeroed.ipAt 26 = myip ∧ zeroed.ipAt 30 = dstAddr ∧
      zeroed.wordAt 34 = srcPort ∧ zeroed.wordAt 36 = dstPort ∧ zeroed.wordAt 38 = len ∧
      zeroed 40 = 0 ∧ zeroed 41 = 0 := by
  subst same
  have sourceWord := word_bytesOf source
  have targetWord := word_bytesOf target
  have lengthWord := word_bytesOf short
  simp [udpZeroed, Frame.store, Frame.wordAt, Frame.ipAt, Ip.toList, bytesOf, sourceWord, targetWord,
    lengthWord]

theorem udpZeroed_payload {i : Nat} (behind : 42 ≤ i) :
    udpZeroed myip dstAddr srcPort dstPort len frame i = frame i := by
  unfold udpZeroed
  iterate 7 rw [Frame.store_outside _ (by simp; omega)]

structure PacketFields (frame : Frame) (myip dstAddr : Ip) (srcPort dstPort len : Nat)
    (payload : Frame) : Prop where
  vhl : frame 14 = 0x45
  whole : frame.wordAt 20 = 0
  ttl : frame 22 = 64
  proto : frame 23 = 17
  source : frame.ipAt 26 = myip
  target : frame.ipAt 30 = dstAddr
  header : foldSum (headerSum frame) = 0xffff
  srcPort : frame.wordAt 34 = srcPort
  dstPort : frame.wordAt 36 = dstPort
  length : frame.wordAt 38 = len
  checked : UdpAccepted frame
  payload : ∀ i, 42 ≤ i → i < 34 + len → frame i = payload i

theorem packetFrame_target : (packetFrame myip dstAddr srcPort dstPort len frame).ipAt 30 = dstAddr := by
  obtain ⟨-, -, -, -, target⟩ := ipFramed_fields myip dstAddr ((len + 20) % 65536)
    (udpFramed myip dstAddr srcPort dstPort len frame)
  exact target

theorem udpFramed_outside {i : Nat} (outside : i < 40 ∨ 42 ≤ i) :
    udpFramed myip dstAddr srcPort dstPort len frame i =
      udpZeroed myip dstAddr srcPort dstPort len frame i := by
  rw [udpFramed, Frame.store_outside _ (by simp only [bytesOf_length]; omega)]

theorem ipAt_bytes {first second : Frame} {ofs : Nat} (same : first.ipAt ofs = second.ipAt ofs)
    {i : Nat} (above : ofs ≤ i) (below : i < ofs + 4) : first i = second i := by
  simp only [Frame.ipAt, Ip.mk.injEq] at same
  obtain ⟨b0, b1, b2, b3⟩ := same
  obtain rfl | rfl | rfl | rfl : i = ofs ∨ i = ofs + 1 ∨ i = ofs + 2 ∨ i = ofs + 3 := by omega
  · exact b0
  · exact b1
  · exact b2
  · exact b3

theorem packetFrame_datagram (source : srcPort < 65536) (target : dstPort < 65536)
    (short : len < 65536) {i : Nat} (above : 26 ≤ i) (apart : i ≠ 40 ∧ i ≠ 41) :
    packetFrame myip dstAddr srcPort dstPort len frame i =
      udpZeroed myip dstAddr srcPort dstPort len frame i := by
  obtain ⟨_, zeroedSource, zeroedTarget, _⟩ :=
    udpZeroed_fields myip dstAddr srcPort dstPort len frame source target short _ rfl
  obtain ⟨_, _, _, packetSource, packetTarget⟩ := ipFramed_fields myip dstAddr ((len + 20) % 65536)
    (udpFramed myip dstAddr srcPort dstPort len frame)
  by_cases header : i < 34
  · by_cases first : i < 30
    · exact ipAt_bytes (packetSource.trans zeroedSource.symm) above first
    · exact ipAt_bytes (packetTarget.trans zeroedTarget.symm) (by omega) header
  · rw [packetFrame, ipFramed_outside _ _ _ _ (by omega), udpFramed_outside _ _ _ _ _ _ (by omega)]

variable {myip dstAddr srcPort dstPort len frame}

theorem packetFrame_chksum : (packetFrame myip dstAddr srcPort dstPort len frame).wordAt 40 =
    65535 - foldSum (udpTotal (udpZeroed myip dstAddr srcPort dstPort len frame) len) := by
  have kept : (packetFrame myip dstAddr srcPort dstPort len frame).wordAt 40 =
      (udpFramed myip dstAddr srcPort dstPort len frame).wordAt 40 :=
    Frame.wordAt_congr fun i above below => ipFramed_outside _ _ _ _ (by omega)
  rw [kept, udpFramed]
  exact wordAt_store_same _ 40 (by omega)

theorem PacketFields.of_packet (source : srcPort < 65536) (target : dstPort < 65536)
    (least : 8 ≤ len) (most : len ≤ 65515) {received : Frame}
    (carried : ∀ i, 14 ≤ i → i < 34 + len →
      received i = packetFrame myip dstAddr srcPort dstPort len frame i) :
    PacketFields received myip dstAddr srcPort dstPort len frame := by
  obtain ⟨proto, _, _, srcWord, dstWord, lenWord, cleared⟩ :=
    udpZeroed_fields myip dstAddr srcPort dstPort len frame source target (by omega) _ rfl
  obtain ⟨vhl, whole, ttl, packetSource, packetTarget⟩ := ipFramed_fields myip dstAddr
    ((len + 20) % 65536) (udpFramed myip dstAddr srcPort dstPort len frame)
  have datagram : ∀ i, 26 ≤ i → i < 34 + len → i ≠ 40 ∧ i ≠ 41 →
      received i = udpZeroed myip dstAddr srcPort dstPort len frame i := fun i above below apart =>
    (carried i (by omega) below).trans (packetFrame_datagram _ _ _ _ _ _ source target (by omega)
      above apart)
  have words : ∀ ofs, 14 ≤ ofs → ofs < 41 → received.wordAt ofs =
      (packetFrame myip dstAddr srcPort dstPort len frame).wordAt ofs :=
    fun ofs least most => Frame.wordAt_congr fun i above below => carried i (by omega) (by omega)
  have dataWords : ∀ ofs, 26 ≤ ofs → ofs < 39 → received.wordAt ofs =
      (udpZeroed myip dstAddr srcPort dstPort len frame).wordAt ofs :=
    fun ofs least most => Frame.wordAt_congr fun i above below =>
      datagram i (by omega) (by omega) (by omega)
  have addresses : ∀ ofs, 14 ≤ ofs → ofs < 38 → received.ipAt ofs =
      (packetFrame myip dstAddr srcPort dstPort len frame).ipAt ofs :=
    fun ofs least most => Frame.ipAt_congr fun i above below => carried i (by omega) (by omega)
  have length := (dataWords 38 (by omega) (by omega)).trans lenWord
  refine ⟨(carried 14 (by omega) (by omega)).trans vhl, (words 20 (by omega) (by omega)).trans whole,
    (carried 22 (by omega) (by omega)).trans ttl, ?_,
    (addresses 26 (by omega) (by omega)).trans packetSource,
    (addresses 30 (by omega) (by omega)).trans packetTarget, ?_,
    (dataWords 34 (by omega) (by omega)).trans srcWord,
    (dataWords 36 (by omega) (by omega)).trans dstWord, length, ?_, ?_⟩
  · rw [carried 23 (by omega) (by omega), packetFrame, ipFramed_outside _ _ _ _ (by omega),
      udpFramed_outside _ _ _ _ _ _ (by omega)]
    exact proto
  · have same : headerSum received =
        headerSum (packetFrame myip dstAddr srcPort dstPort len frame) :=
      headerSum_congr fun i above below => carried i above (by omega)
    rw [same]
    exact ipFramed_chksum _ _ _ _
  · by_cases none : received.wordAt 40 = 0
    · exact Or.inl none
    · right
      have covered : udpTotal (received.store 40 [0, 0]) len =
          udpTotal (udpZeroed myip dstAddr srcPort dstPort len frame) len := by
        refine udpTotal_congr fun i above below => ?_
        by_cases apart : i ≠ 40 ∧ i ≠ 41
        · rw [Frame.store_outside _ (by simp; omega)]
          exact datagram i above below apart
        · obtain rfl | rfl : i = 40 ∨ i = 41 := by omega
          · exact cleared.1.symm
          · exact cleared.2.symm
      rw [checkedFrame, if_neg none, length, covered, words 40 (by omega) (by omega)]
      exact packetFrame_chksum
  · intro i above below
    rw [datagram i (by omega) below (by omega), udpZeroed_payload _ _ _ _ _ _ above]

end Packet

theorem PacketFields.accepted {station : Station} {myip : Ip} {srcPort dstPort len : Nat}
    {payload : Frame}
    (fields : PacketFields station.frame myip station.myip srcPort dstPort len payload)
    (up : configured station.myip = true) : IpAccepted station station.myip :=
  ⟨fields.vhl, by rw [fields.whole]; rfl, by rw [fields.ttl]; decide, up, fields.target, fields.header⟩

theorem run_ipIn_delivers {myip : Ip} {srcPort dstPort len : Nat} {payload : Frame}
    (fields : PacketFields station.frame myip station.myip srcPort dstPort len payload)
    (up : configured station.myip = true) (listening : station.listening = true) (most : len ≤ 65515)
    (port : dstPort ≠ portEcho ∧ dstPort ≠ portDiscard) (total : Nat) :
    ∃ after, (ipIn station.myip total).run station = some ((len : Int), after) ∧
      after.upcalls = station.upcalls ++ [checkedFrame station.frame] := by
  obtain ⟨after, ran, called⟩ := run_udpIn_delivers (station.touch 34) fields.checked
    (by rw [Station.touch_frame, fields.length]; exact most)
    (by rw [Station.touch_frame, checkedFrame_wordAt _ (by decide), fields.dstPort]; exact port) listening
  rw [Station.touch_frame] at ran called
  refine ⟨after, ?_, called⟩
  rw [run_ipIn_accepted _ (fields.accepted up), fields.proto, if_neg (by decide), if_pos rfl, ran,
    fields.length]

/-- A packet that was built by `udp_out` is accepted at its destination, and the callback sees
the ports, the length, the sender and the payload that were given to `udp_out`. -/
theorem udp_round_trip (sender : Station) (dstAddr : Ip) {srcPort dstPort len : Nat}
    (source : srcPort < 65536) (target : dstPort < 65536) (least : 8 ≤ len) (most : len ≤ 65515)
    (port : dstPort ≠ portEcho ∧ dstPort ≠ portDiscard) :
    ∃ built, (udpPacket dstAddr srcPort dstPort len).run sender = some ((), built) ∧
      (udpOut dstAddr srcPort dstPort len).run sender = (netifSend (len + ipHeaderSize)).run built ∧
      ∀ (receiver : Station) (total : Nat), receiver.myip = dstAddr →
        configured receiver.myip = true → receiver.listening = true →
        (∀ i, 14 ≤ i → i < 34 + len → receiver.frame i = built.frame i) →
        ∃ after seen, (ipIn receiver.myip total).run receiver = some ((len : Int), after) ∧
          after.upcalls = receiver.upcalls ++ [seen] ∧ seen.ipAt 26 = sender.myip ∧
          seen.wordAt 34 = srcPort ∧ seen.wordAt 36 = dstPort ∧ seen.wordAt 38 = len ∧
          ∀ i, 42 ≤ i → i < 34 + len → seen i = sender.frame i := by
  have short : (len + ipHeaderSize) % 65536 = len + ipHeaderSize :=
    Nat.mod_eq_of_lt (by simp only [ipHeaderSize]; omega)
  refine ⟨_, run_udpPacket sender dstAddr srcPort dstPort most, ?_, ?_⟩
  · rw [udpOut_eq, run_bind_of _ (run_udpPacket sender dstAddr srcPort dstPort most), short]
  intro receiver total mine up listening carried
  subst mine
  have fields : PacketFields receiver.frame sender.myip receiver.myip srcPort dstPort len
    sender.frame := .of_packet source target least most carried
  obtain ⟨after, ran, called⟩ := run_ipIn_delivers receiver fields up listening most port total
  refine ⟨after, checkedFrame receiver.frame, ran, called, ?_, ?_, ?_, ?_, ?_⟩
  · rw [checkedFrame_ipAt _ (by decide), fields.source]
  · rw [checkedFrame_wordAt _ (by decide), fields.srcPort]
  · rw [checkedFrame_wordAt _ (by decide), fields.dstPort]
  · rw [checkedFrame_wordAt _ (by decide), fields.length]
  · intro i above below
    rw [checkedFrame_outside _ (Or.inr above), fields.payload i above below]

def stationAt (last : UInt8) : Station where
  mymac := ⟨2, 0, 0, 0, 0, last⟩
  myip := ⟨10, 0, 0, last⟩
  mynm := ⟨255, 0, 0, 0⟩
  mygw := ⟨10, 0, 0, 254⟩
  arpCache _ := ⟨Ip.zeros, Mac.any⟩
  arpIndex := ⟨0, by decide⟩
  listening := true
  frame _ := 0xaa
  sent := []
  upcalls := []
  reach := 0

theorem udp_round_trip_pair :
    ∃ built after seen, (udpPacket ⟨10, 0, 0, 2⟩ 666 777 12).run (stationAt 1) = some ((), built) ∧
      (ipIn ⟨10, 0, 0, 2⟩ 32).run ((stationAt 2).put built.frame) = some (12, after) ∧
      after.upcalls = [seen] ∧ seen.ipAt 26 = ⟨10, 0, 0, 1⟩ ∧ seen.wordAt 34 = 666 := by
  obtain ⟨built, packet, _, delivered⟩ := udp_round_trip (stationAt 1) ⟨10, 0, 0, 2⟩
    (by decide : 666 < 65536) (by decide : 777 < 65536) (by decide : 8 ≤ 12) (by decide) (by decide)
  have up : configured (stationAt 2).myip = true := by decide
  obtain ⟨after, seen, accepted, called, source, srcPort, _⟩ :=
    delivered ((stationAt 2).put built.frame) 32 rfl up rfl fun _ _ _ => rfl
  exact ⟨built, after, seen, packet, accepted, called, source, srcPort⟩

end Net

end Hellfire

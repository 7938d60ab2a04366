import Hellfire.FrameBounds
import Hellfire.UudpBuffers

/-!
A payload on its way from `hf_uudp_send` of one station to `hf_uudp_recv` of another. The frame
of a payload that the sender accepts can be longer than its buffer.
-/

namespace Hellfire

namespace Net

section Sender

variable (station : Station) {dstIp : Ip} (srcPort dstPort : Nat) {mac : Mac}

def udpFrame (station : Station) (mac : Mac) (dstIp : Ip) (srcPort dstPort len : Nat) : Frame :=
  framedBy mac station.mymac frameIp
    (packetFrame station.myip dstIp srcPort dstPort len station.frame)

theorem run_udpOut_known {len : Nat} (known : station.resolve dstIp = some mac)
    (short : len ≤ 65493) : ∃ bound, (udpOut dstIp srcPort dstPort len).run station =
      some (len + 34, ((station.put (udpFrame station mac dstIp srcPort dstPort len)).output
        (len + 34)).touch bound) := by
  have packet := run_udpPacket station dstIp srcPort dstPort (show len ≤ 65515 by omega)
  have total : (len + 20) % 65536 = len + 20 := by omega
  have size : (len + 20 + 14) % 65536 = len + 34 := by omega
  have target := packetFrame_target station.myip dstIp srcPort dstPort len station.frame
  unfold udpFrame
  generalize packetFrame station.myip dstIp srcPort dstPort len station.frame = frame at packet target
  have resolved : ((station.put frame).touch (max 34 (34 + len))).resolve
      (((station.put frame).touch (max 34 (34 + len))).frame.ipAt 30) = some mac := by
    simp only [Station.touch_frame, Station.put_frame, Station.touch_resolve, Station.put_resolve, target,
      known]
  have sends := run_netifSend_resolved _ (len + 20) resolved
  have code : (udpOut dstIp srcPort dstPort len).run station =
      (netifSend (len + 20)).run ((station.put frame).touch (max 34 (34 + len))) := by
    rw [udpOut_eq, run_bind_of _ packet, ipHeaderSize, total]
  rw [size] at sends
  refine ⟨max (max 34 (34 + len)) 34, code.trans (sends.trans ?_)⟩
  simp

theorem run_udpOut_unknown {len : Nat} (unknown : station.resolve dstIp = none)
    (short : len ≤ 65515) : ∃ bound, (udpOut dstIp srcPort dstPort len).run station =
      some (0, ((station.put (requestFrame (station.put
        (packetFrame station.myip dstIp srcPort dstPort len station.frame)) dstIp)).output
        56).touch bound) := by
  have packet := run_udpPacket station dstIp srcPort dstPort short
  have target := packetFrame_target station.myip dstIp srcPort dstPort len station.frame
  generalize packetFrame station.myip dstIp srcPort dstPort len station.frame = frame at packet target
  have unresolved : ((station.put frame).touch (max 34 (34 + len))).resolve
      (((station.put frame).touch (max 34 (34 + len))).frame.ipAt 30) = none := by
    simp only [Station.touch_frame, Station.put_frame, Station.touch_resolve, Station.put_resolve, target,
      unknown]
  have asks := run_netifSend_unresolved _ ((len + 20) % 65536) unresolved
  have code : (udpOut dstIp srcPort dstPort len).run station =
      (netifSend ((len + 20) % 65536)).run ((station.put frame).touch (max 34 (34 + len))) := by
    rw [udpOut_eq, run_bind_of _ packet, ipHeaderSize]
  refine ⟨max (max 34 (34 + len)) 34, code.trans (asks.trans ?_)⟩
  simp [target, requestFrame]

theorem run_udpOut_resolved {len : Nat} (known : station.resolve dstIp = some mac)
    (short : len ≤ 65493) : ∃ after,
      (udpOut dstIp srcPort dstPort len).run station = some (len + 34, after) ∧
      after.sent = station.sent ++
        [(udpFrame station mac dstIp srcPort dstPort len).bytesAt 0 (len + 34)] ∧
      after.upcalls = station.upcalls := by
  obtain ⟨bound, sends⟩ := run_udpOut_known station srcPort dstPort known short
  exact ⟨_, sends, rfl, rfl⟩

theorem run_udpOut_unresolved {len : Nat} (unknown : station.resolve dstIp = none)
    (short : len ≤ 65515) : ∃ after,
      (udpOut dstIp srcPort dstPort len).run station = some (0, after) ∧
      after.upcalls = station.upcalls := by
  obtain ⟨bound, asks⟩ := run_udpOut_unknown station srcPort dstPort unknown short
  exact ⟨_, asks, rfl⟩

theorem run_udpOut_upcalls (dstIp : Ip) {len : Nat} (short : len ≤ 65493) : ∃ value after,
    (udpOut dstIp srcPort dstPort len).run station = some (value, after) ∧
      after.upcalls = station.upcalls := by
  cases lookup : station.resolve dstIp with
  | none =>
      obtain ⟨after, ran, upcalls⟩ :=
        run_udpOut_unresolved station srcPort dstPort lookup (show len ≤ 65515 by omega)
      exact ⟨_, after, ran, upcalls⟩
  | some mac =>
      obtain ⟨after, ran, -, upcalls⟩ := run_udpOut_resolved station srcPort dstPort lookup short
      exact ⟨_, after, ran, upcalls⟩

theorem run_hfUudpSend {payload : List UInt8} (accepted : payload.length ≤ Uudps.uudpLimit)
    (known : station.resolve dstIp = some mac) : ∃ after : Station,
      (hfUudpSend srcPort dstIp dstPort payload).run station =
        some (((payload.length + 42 : Nat) : Int), after) ∧
      after.sent = station.sent ++ [(udpFrame (station.put (station.frame.store 42 payload)) mac dstIp
        srcPort dstPort (payload.length + 8)).bytesAt 0 (payload.length + 42)] := by
  have limit : ¬Uudps.uudpLimit < payload.length := Nat.not_lt.mpr accepted
  simp only [Uudps.uudpLimit, packetSize, ethHeaderSize, udpHeaderSize, Nat.reduceSub] at accepted
  have len : (payload.length + 8) % 65536 = payload.length + 8 := by omega
  obtain ⟨after, ran, sent, -⟩ := run_udpOut_resolved (station.put (station.frame.store 42 payload))
    srcPort dstPort known (show payload.length + 8 ≤ 65493 by omega)
  have first : (sendTries srcPort dstIp dstPort (payload.length + 8) uudpRetries).run
      (station.put (station.frame.store 42 payload)) = some (payload.length + 8 + 34, after) := by
    rw [uudpRetries, sendTries, run_bind_of _ ran, if_neg (by omega)]
    rfl
  refine ⟨after, ?_, sent⟩
  unfold hfUudpSend
  rw [if_neg limit, run_wrPacket_bind]
  simp only [ipHeaderSize, udpHeaderSize, Nat.reduceAdd, len]
  rw [run_bind_of _ first]
  rfl

end Sender

section Receiver

variable {peer : Station} {myip : Ip} {srcPort dstPort len : Nat} {payload : Frame}

theorem run_udpIn_service (station : Station) (accepted : UdpAccepted station.frame)
    (short : station.frame.wordAt 38 ≤ 65493)
    (port : station.frame.wordAt 36 = portEcho ∨ station.frame.wordAt 36 = portDiscard) :
    ∃ value after, udpIn.run station = some (value, after) ∧ after.upcalls = station.upcalls := by
  obtain ⟨bound, -, checked⟩ := run_udpChecked ((station.touch 42).touch 40)
    (show station.frame.wordAt 38 ≤ 65515 by omega)
  rw [Station.touch_frame, Station.touch_frame, decide_eq_true accepted] at checked
  have same := checkedFrame_wordAt station.frame (show 36 < 39 by decide)
  unfold udpIn
  simp only [udpHdrChksum1, udpHdrLen1, run_rdPacketWord_bind, Station.touch_frame, Nat.reduceAdd]
  rw [run_bind_of _ checked]
  simp only [if_true, udpHdrSrcport1, udpHdrDestport1, run_rdPacketWord_bind, Station.touch_frame,
    Station.put_frame, Nat.reduceAdd, same]
  rcases port with echo | discard
  · rw [if_pos echo, run_rdIp_bind]
    generalize read : Station.touch _ _ = reader
    have kept : reader.upcalls = station.upcalls := by
      rw [← read]
      simp only [Station.touch_upcalls, Station.put_upcalls]
    obtain ⟨value, after, ran, upcalls⟩ := run_udpOut_upcalls
      (reader.touch (ethHeaderSize + ipHdrSrcaddr1 + 4)) (station.frame.wordAt 36)
      ((checkedFrame station.frame).wordAt 34)
      (reader.frame.ipAt (ethHeaderSize + ipHdrSrcaddr1)) short
    rw [run_bind_of _ ran]
    exact ⟨0, after, StateT.run_pure _ _, upcalls.trans kept⟩
  · rw [discard, if_neg (by decide), if_pos rfl]
    refine ⟨0, _, StateT.run_pure _ _, ?_⟩
    simp only [Station.touch_upcalls, Station.put_upcalls]

theorem run_ipIn_service
    (fields : PacketFields peer.frame myip peer.myip srcPort dstPort len payload)
    (up : configured peer.myip = true) (most : len ≤ 65493)
    (port : dstPort = portEcho ∨ dstPort = portDiscard) (total : Nat) :
    ∃ value after, (ipIn peer.myip total).run peer = some (value, after) ∧
      after.upcalls = peer.upcalls := by
  obtain ⟨value, after, ran, upcalls⟩ := run_udpIn_service (peer.touch 34) fields.checked
    (by rw [Station.touch_frame, fields.length]; exact most)
    (by rw [Station.touch_frame, fields.dstPort]; exact port)
  refine ⟨value, after, ?_, upcalls⟩
  rw [run_ipIn_accepted _ (fields.accepted up), fields.proto, if_neg (by decide), if_pos rfl, ran]

theorem netifRecv_udpFrame (station : Station) (peer : Station) (source : srcPort < 65536)
    (target : dstPort < 65536) (least : 8 ≤ len) (most : len ≤ 65493) : ∃ filled bound,
      (netifRecv ((udpFrame station peer.mymac peer.myip srcPort dstPort len).bytesAt 0
        (len + 34))).run peer = some (len + 20, (peer.put filled).touch bound) ∧
      PacketFields filled station.myip peer.myip srcPort dstPort len station.frame ∧
      filled.wordAt 16 = len + 20 := by
  obtain ⟨toPeer, -, type, packet⟩ := framedBy_fields peer.mymac station.mymac
    (show frameIp < 65536 by decide)
    (packetFrame station.myip peer.myip srcPort dstPort len station.frame)
  have total : (packetFrame station.myip peer.myip srcPort dstPort len station.frame).wordAt 16 =
      len + 20 := by
    rw [packetFrame, ipFramed_length _ _ _ _ (by omega), Nat.mod_eq_of_lt (by omega)]
  obtain ⟨received, same⟩ : ∃ received, received =
      (udpFrame station peer.mymac peer.myip srcPort dstPort len).bytesAt 0 (len + 34) := ⟨_, rfl⟩
  have size : 0 < received.length := by
    rw [same, Frame.bytesAt_length]
    omega
  obtain ⟨filled, ran, -, entered⟩ := run_netifRecv peer 0 size
  obtain ⟨buffer, stored⟩ : ∃ buffer, buffer = peer.frame.store 0 received := ⟨_, rfl⟩
  have arrives : ∀ i, i < len + 34 →
      buffer i = udpFrame station peer.mymac peer.myip srcPort dstPort len i := by
    intro i below
    rw [stored, same]
    exact Frame.store_bytesAt _ _ below
  have carried : ∀ i, 14 ≤ i → i < 34 + len →
      buffer i = packetFrame station.myip peer.myip srcPort dstPort len station.frame i := by
    intro i above below
    rw [arrives i (by omega), udpFrame, packet i above]
  have mine : Addressed (peer.put buffer) (buffer.macAt 0) := by
    left
    rw [Station.put_mymac, ← toPeer]
    exact Frame.macAt_congr fun i above below => arrives i (by omega)
  have ip : buffer.wordAt 12 = frameIp := by
    rw [← type]
    exact Frame.wordAt_congr fun i above below => arrives i (by omega)
  have length : buffer.wordAt 16 = len + 20 := by
    rw [← total]
    exact Frame.wordAt_congr fun i above below => carried i (by omega) (by omega)
  have returned : receivedLength (filledWith peer received) = len + 20 := by
    rw [filledWith, ← stored, receivedLength, Station.put_frame, if_pos ⟨mine, ip⟩, length]
  rw [returned] at ran entered
  obtain ⟨bound, rfl⟩ := entered (by omega)
  rw [filledWith, ← stored, same] at ran
  exact ⟨buffer, bound, ran, .of_packet source target least (by omega) carried, length⟩

end Receiver

section Service

def serve (peer : Station) (uudps : Uudps) (received : List UInt8) : Option (Station × Uudps) := do
  let (_, served) ← (ustackService received).run peer
  let after ← (served.upcalls.drop peer.upcalls.length).foldlM
    (fun uudps seen => uudps.udpCallback fun i => seen (ethHeaderSize + i)) uudps
  some (served, after)

variable {peer served : Station} {received : List UInt8}

theorem serve_quiet (ran : (ustackService received).run peer = some ((), served))
    (upcalls : served.upcalls = peer.upcalls) (uudps : Uudps) :
    serve peer uudps received = some (served, uudps) := by
  simp only [serve, ran, Option.bind_eq_bind, Option.bind_some, upcalls, List.drop_length]
  rfl

theorem serve_upcall {seen : Frame} (ran : (ustackService received).run peer = some ((), served))
    (upcalls : served.upcalls = peer.upcalls ++ [seen]) (uudps : Uudps) :
    serve peer uudps received =
      (uudps.udpCallback fun i => seen (ethHeaderSize + i)).map fun after => (served, after) := by
  simp only [serve, ran, upcalls, List.drop_left, Option.bind_eq_bind, Option.bind_some,
    List.foldlM_cons, List.foldlM_nil]
  cases uudps.udpCallback fun i => seen (ethHeaderSize + i) with
  | none => rfl
  | some after => rfl

theorem run_ustackService {len : Nat} {filled after : Station} {value : Int}
    (ran : (netifRecv received).run peer = some (len, filled)) (positive : 0 < len)
    (entered : (ipIn filled.myip len).run filled = some (value, after)) :
    (ustackService received).run peer = some ((), after) := by
  unfold ustackService
  rw [run_bind_of _ ran, if_pos positive, run_get_bind, run_bind_of _ entered]
  rfl

section Packets

variable {filled : Frame} {bound len : Nat} {myip : Ip} {srcPort dstPort : Nat} {payload : Frame}

theorem serve_datagram
    (ran : (netifRecv received).run peer = some (len + 20, (peer.put filled).touch bound))
    (fields : PacketFields filled myip peer.myip srcPort dstPort len payload)
    (up : configured peer.myip = true) (listening : peer.listening = true) (most : len ≤ 65515)
    (port : dstPort ≠ portEcho ∧ dstPort ≠ portDiscard) : ∃ served, ∀ uudps,
      serve peer uudps received = (Uudps.udpCallback uudps fun i =>
        checkedFrame filled (ethHeaderSize + i)).map fun after => (served, after) := by
  obtain ⟨served, entered, upcalls⟩ := run_ipIn_delivers ((peer.put filled).touch bound) fields up
    listening most port (len + 20)
  exact ⟨served, serve_upcall (run_ustackService ran (by omega) entered) upcalls⟩

theorem serve_service
    (ran : (netifRecv received).run peer = some (len + 20, (peer.put filled).touch bound))
    (fields : PacketFields filled myip peer.myip srcPort dstPort len payload)
    (up : configured peer.myip = true) (most : len ≤ 65493)
    (port : dstPort = portEcho ∨ dstPort = portDiscard) : ∃ served, ∀ uudps,
      serve peer uudps received = some (served, uudps) := by
  have arrived : PacketFields ((peer.put filled).touch bound).frame myip
      ((peer.put filled).touch bound).myip srcPort dstPort len payload := fields
  obtain ⟨value, served, entered, upcalls⟩ := run_ipIn_service arrived up most port (len + 20)
  exact ⟨served, serve_quiet (run_ustackService ran (by omega) entered) upcalls⟩

end Packets

end Service

end Net

namespace Uudps

variable {i qsize : Nat}

def drained (i : Nat) : Nat → Uudps → Option Uudps
  | 0, uudps => some uudps
  | count + 1, uudps => do
      let (_, _, after) ← uudps.hfUudpRecv i
      drained i count after

theorem drained_pooled {rest : List Nat} (pending : List Nat) : ∀ {uudps : Uudps} {comm : Uudp}
    {lost : Nat} {free pkt : Queue Nat} {idle : List Nat}, uudps.comm i = some comm →
    Pooled qsize lost comm free pkt idle (pending ++ rest) →
    (∀ ptr ∈ pending, udpHeaderSize ≤ (uudps.buffers ptr).wordAt udpHdrLen1) →
    ∃ ready changed left freeNow pktNow idleNow, drained i pending.length uudps = some ready ∧
      ready.comm i = some changed ∧ Pooled qsize left changed freeNow pktNow idleNow rest ∧
      ready.buffers = uudps.buffers := by
  induction pending with
  | nil => exact fun listed pooled _ => ⟨_, _, _, _, _, _, rfl, listed, pooled, rfl⟩
  | cons buff pending ih =>
      intro uudps comm lost free pkt idle listed pooled whole
      have least := whole buff List.mem_cons_self
      have others : ∀ ptr ∈ pending, udpHeaderSize ≤ (uudps.buffers ptr).wordAt udpHdrLen1 :=
        fun ptr member => whole ptr (List.mem_cons_of_mem _ member)
      have taken := hfUudpRecv_drain listed pooled
      rw [List.length_cons, drained, taken]
      by_cases long : uudpLimit < (uudps.buffers buff).wordAt udpHdrLen1
      · rw [if_pos long]
        exact ih (by rw [comm_setComm listed, if_pos rfl]) pooled.lose others
      · rw [if_neg long, if_neg (Nat.not_lt.mpr least)]
        exact ih (by rw [comm_setComm listed, if_pos rfl]) pooled.drain.2 others

theorem drained_stuck {rest : List Nat} (pending : List Nat) : ∀ {uudps : Uudps} {comm : Uudp}
    {lost : Nat} {free pkt : Queue Nat} {idle : List Nat}, uudps.comm i = some comm →
    Pooled qsize lost comm free pkt idle (pending ++ rest) →
    (∃ ptr ∈ pending, (uudps.buffers ptr).wordAt udpHdrLen1 < udpHeaderSize) →
    drained i pending.length uudps = none := by
  induction pending with
  | nil =>
      rintro _ _ _ _ _ _ _ _ ⟨_, none, _⟩
      cases none
  | cons buff pending ih =>
      intro uudps comm lost free pkt idle listed pooled short
      have taken := hfUudpRecv_drain listed pooled
      rw [List.length_cons, drained, taken]
      by_cases first : (uudps.buffers buff).wordAt udpHdrLen1 < udpHeaderSize
      · have fits : ¬uudpLimit < (uudps.buffers buff).wordAt udpHdrLen1 := by
          simp only [uudpLimit, packetSize, ethHeaderSize, udpHeaderSize] at first ⊢
          omega
        rw [if_neg fits, if_pos first]
        rfl
      · have later : ∃ ptr ∈ pending, (uudps.buffers ptr).wordAt udpHdrLen1 < udpHeaderSize := by
          obtain ⟨ptr, member, below⟩ := short
          rcases List.mem_cons.mp member with rfl | rest
          · exact absurd below first
          · exact ⟨ptr, rest, below⟩
        by_cases long : uudpLimit < (uudps.buffers buff).wordAt udpHdrLen1
        · rw [if_pos long]
          exact ih (by rw [comm_setComm listed, if_pos rfl]) pooled.lose later
        · rw [if_neg long, if_neg first]
          exact ih (by rw [comm_setComm listed, if_pos rfl]) pooled.drain.2 later

open Net in
/-- A payload arrives: the frame fits into the output buffer, and when the datagrams
that wait at the peer are taken, the next call returns the payload and where it comes from. -/
def Survives (sender peer : Station) (uudps : Uudps) (i waiting srcPort dstPort : Nat)
    (payload : List UInt8) : Prop :=
  ∃ value after frame, (hfUudpSend srcPort peer.myip dstPort payload).run sender = some (value, after) ∧
    after.sent = sender.sent ++ [frame] ∧ frame.length ≤ packetSize ∧
    ∃ served filled ready last, serve peer uudps frame = some (served, filled) ∧
      drained i waiting filled = some ready ∧
      ready.hfUudpRecv i = some
        ((payload.length : Int), some ⟨sender.myip, srcPort, payload⟩, last)

section Delivery

open Net

variable {sender peer : Station} {uudps : Uudps} {comm : Uudp} {free pkt : Queue Nat}
  {sizes : Nat → Nat} {srcPort dstPort : Nat} {payload : List UInt8}

theorem payload_bytes {packet frame : Frame} {payload : List UInt8}
    (carried : ∀ i, i < payload.length → packet (28 + i) = (frame.store 42 payload) (42 + i)) :
    packet.bytesAt udpDataOfs payload.length = payload := by
  refine List.ext_getElem (by simp) fun i below within => ?_
  have same := carried i within
  rw [Frame.store_inside _ (by omega) (by omega), Nat.add_sub_cancel_left] at same
  simp only [Frame.bytesAt, udpDataOfs, List.getElem_map, List.getElem_range, same]
  simp [within]

theorem datagramOf_packet {received stored frame : Frame} {myip dstIp : Ip}
    (fields : PacketFields received myip dstIp srcPort dstPort (payload.length + 8)
      (frame.store 42 payload))
    (kept : ∀ i, i < payload.length + 28 → stored i = checkedFrame received (14 + i)) :
    stored.wordAt udpHdrLen1 = payload.length + 8 ∧ datagramOf stored = ⟨myip, srcPort, payload⟩ := by
  have words : ∀ ofs, ofs < 25 → stored.wordAt ofs = received.wordAt (14 + ofs) := by
    intro ofs below
    rw [← checkedFrame_wordAt received (show 14 + ofs < 39 by omega), Frame.wordAt, Frame.wordAt,
      kept ofs (by omega), kept (ofs + 1) (by omega), Nat.add_assoc]
  have source : stored.ipAt 12 = received.ipAt 26 := by
    rw [← checkedFrame_ipAt received (show 26 < 37 by decide), Frame.ipAt, Frame.ipAt,
      kept 12 (by omega), kept (12 + 1) (by omega), kept (12 + 2) (by omega), kept (12 + 3) (by omega)]
  have length : stored.wordAt udpHdrLen1 = payload.length + 8 :=
    (words 24 (by omega)).trans fields.length
  have data : stored.bytesAt udpDataOfs payload.length = payload := by
    have carried : ∀ i, i < payload.length → stored (28 + i) = (frame.store 42 payload) (42 + i) := by
      intro i below
      have same := fields.payload (42 + i) (by omega) (by omega)
      rw [kept (28 + i) (by omega), checkedFrame_outside _ (by omega), ← same, ← Nat.add_assoc]
    exact payload_bytes carried
  refine ⟨length, ?_⟩
  have srcWord : stored.wordAt udpHdrSrcport1 = srcPort := (words 20 (by omega)).trans fields.srcPort
  have srcAddr : stored.ipAt ipHdrSrcaddr1 = myip := source.trans fields.source
  have size : payload.length + 8 - udpHeaderSize = payload.length := Nat.add_sub_cancel _ 8
  rw [datagramOf, length, size, data, srcWord, srcAddr]

theorem packet_heard {len total i : Nat} {received frame : Frame} {myip dstIp : Ip}
    (fields : PacketFields received myip dstIp srcPort dstPort len frame)
    (length : received.wordAt 16 = total) (heard : uudps.listenerAt dstPort = some i) :
    uudps.listener (fun i => checkedFrame received (ethHeaderSize + i)) = some i ∧
      Frame.wordAt (fun i => checkedFrame received (ethHeaderSize + i)) ipHdrLen1 = total := by
  have port : (checkedFrame received).wordAt 36 = dstPort :=
    (checkedFrame_wordAt _ (by omega)).trans fields.dstPort
  constructor
  · rw [listener, ← heard, ← port]
    rfl
  · rw [← length, ← checkedFrame_wordAt received (show 16 < 39 by decide)]
    rfl

theorem payload_delivered {lost i qsize buff : Nat} {idle pending : List Nat} {received : Frame}
    {frame : Frame} {myip dstIp : Ip} (short : payload.length ≤ 1476)
    (fields : PacketFields received myip dstIp srcPort dstPort (payload.length + 8)
      (frame.store 42 payload)) (total : received.wordAt 16 = payload.length + 28)
    (heard : uudps.listenerAt dstPort = some i) (listed : uudps.comm i = some comm)
    (pooled : Pooled qsize lost comm free pkt (buff :: idle) pending)
    (whole : ∀ ptr ∈ pending, udpHeaderSize ≤ (uudps.buffers ptr).wordAt udpHdrLen1) :
    ∃ filled ready last,
      uudps.udpCallback (fun i => checkedFrame received (ethHeaderSize + i)) = some filled ∧
      drained i pending.length filled = some ready ∧
      ready.hfUudpRecv i = some ((payload.length : Int), some ⟨myip, srcPort, payload⟩, last) := by
  obtain ⟨found, ipLength⟩ := packet_heard fields total heard
  obtain ⟨filled, changed, freeLeft, pktNow, ran, present, kept, buffers⟩ :=
    udpCallback_queues found listed pooled (by rw [ipLength]; simp only [packetSize]; omega)
  rw [ipLength] at buffers
  have others : ∀ ptr ∈ pending, udpHeaderSize ≤ (filled.buffers ptr).wordAt udpHdrLen1 := by
    intro ptr member
    have apart : ptr ≠ buff := by
      rintro rfl
      exact (List.nodup_append.mp pooled.distinct).2.2 ptr List.mem_cons_self ptr member rfl
    rw [buffers, copyTo_other _ apart]
    exact whole ptr member
  obtain ⟨ready, taken, left, freeNow, pktLeft, idleNow, drainedAll, there, rest, same⟩ :=
    drained_pooled pending present kept others
  have copied : ∀ k, k < payload.length + 28 →
      ready.buffers buff k = checkedFrame received (14 + k) := by
    intro k below
    rw [same, buffers, copyTo_self _ _ _ below]
    rfl
  obtain ⟨udpLength, datagram⟩ := datagramOf_packet fields copied
  have received := hfUudpRecv_drain there rest
  have fits : ¬uudpLimit < payload.length + 8 := by
    simp only [uudpLimit, packetSize, ethHeaderSize, udpHeaderSize]
    omega
  have least : ¬payload.length + 8 < udpHeaderSize := by
    simp only [udpHeaderSize]
    omega
  rw [udpLength, datagram, if_neg fits, if_neg least] at received
  exact ⟨filled, ready, _, ran, drainedAll, received⟩

@[simp] def longestPayload : Nat := packetSize - ethHeaderSize - ipHeaderSize - udpHeaderSize

theorem payload_stuck {lost i qsize buff : Nat} {idle pending : List Nat} {packet : Frame}
    {filled : Uudps} (heard : uudps.listener packet = some i) (listed : uudps.comm i = some comm)
    (pooled : Pooled qsize lost comm free pkt (buff :: idle) pending)
    (fits : packet.wordAt ipHdrLen1 ≤ packetSize) (ran : uudps.udpCallback packet = some filled)
    (short : ∃ ptr ∈ pending, (uudps.buffers ptr).wordAt udpHdrLen1 < udpHeaderSize) :
    drained i pending.length filled = none := by
  obtain ⟨after, changed, freeLeft, pktNow, again, present, kept, buffers⟩ :=
    udpCallback_queues heard listed pooled fits
  obtain rfl := Option.some.inj (ran.symm.trans again)
  obtain ⟨ptr, member, below⟩ := short
  have apart : ptr ≠ buff := by
    rintro rfl
    exact (List.nodup_append.mp pooled.distinct).2.2 ptr List.mem_cons_self ptr member rfl
  refine drained_stuck pending present kept ⟨ptr, member, ?_⟩
  rwa [buffers, copyTo_other _ apart]

theorem drained_nothing {lost i qsize : Nat} {idle pending : List Nat} {ready last : Uudps}
    {value : Int} {datagram : Datagram} (listed : uudps.comm i = some comm)
    (pooled : Pooled qsize lost comm free pkt idle pending)
    (taken : drained i pending.length uudps = some ready) :
    ready.hfUudpRecv i ≠ some (value, some datagram, last) := by
  rw [← List.append_nil pending] at pooled
  by_cases whole : ∀ ptr ∈ pending, udpHeaderSize ≤ (uudps.buffers ptr).wordAt udpHdrLen1
  · obtain ⟨same, changed, left, freeNow, pktNow, idleNow, again, there, rest, -⟩ :=
      drained_pooled pending listed pooled whole
    obtain rfl := Option.some.inj (taken.symm.trans again)
    rw [hfUudpRecv_empty there rest]
    intro equal
    cases equal
  · have short : ∃ ptr ∈ pending, (uudps.buffers ptr).wordAt udpHdrLen1 < udpHeaderSize := by
      simpa only [not_forall, exists_prop, Nat.not_le] using whole
    rw [drained_stuck pending listed pooled short] at taken
    cases taken

theorem Pooled.survives_iff {lost i qsize buff : Nat} {idle pending : List Nat} (sender peer : Station)
    (heard : uudps.listenerAt dstPort = some i) (listed : uudps.comm i = some comm)
    (pooled : Pooled qsize lost comm free pkt (buff :: idle) pending) (source : srcPort < 65536)
    (target : dstPort < 65536) (known : sender.resolve peer.myip = some peer.mymac)
    (up : configured peer.myip = true) (listening : peer.listening = true)
    (accepted : payload.length ≤ uudpLimit) :
    Survives sender peer uudps i pending.length srcPort dstPort payload ↔
      payload.length ≤ longestPayload ∧ dstPort ≠ portEcho ∧ dstPort ≠ portDiscard ∧
        ∀ ptr ∈ pending, udpHeaderSize ≤ (uudps.buffers ptr).wordAt udpHdrLen1 := by
  obtain ⟨after, sends, sent⟩ := run_hfUudpSend sender srcPort dstPort accepted known
  have limit := accepted
  simp only [uudpLimit, packetSize, ethHeaderSize, udpHeaderSize, Nat.reduceSub] at limit
  obtain ⟨filled, bound, ran, fields, total⟩ :=
    netifRecv_udpFrame (sender.put (sender.frame.store 42 payload)) peer source target
      (show 8 ≤ payload.length + 8 by omega) (by omega)
  rw [Nat.add_assoc payload.length 8 34] at ran
  generalize (udpFrame (sender.put (sender.frame.store 42 payload)) peer.mymac peer.myip srcPort
    dstPort (payload.length + 8)) = frame at sent ran
  simp only [longestPayload, packetSize, ethHeaderSize, ipHeaderSize, udpHeaderSize, Nat.reduceSub]
  constructor
  · rintro ⟨value, same, list, sentAgain, extended, fits, served, delivered, ready, last, turn, taken,
      received⟩
    rw [sends] at sentAgain
    obtain ⟨-, rfl⟩ := Prod.mk.inj (Option.some.inj sentAgain)
    obtain rfl := List.singleton_inj.mp (List.append_cancel_left (sent.symm.trans extended))
    rw [Frame.bytesAt_length] at fits
    simp only [packetSize] at fits
    by_cases service : dstPort = portEcho ∨ dstPort = portDiscard
    · obtain ⟨quiet, turns⟩ := serve_service ran fields up (by omega) service
      obtain ⟨-, rfl⟩ := Prod.mk.inj (Option.some.inj ((turns uudps).symm.trans turn))
      exact (drained_nothing listed pooled taken received).elim
    · obtain ⟨noEcho, noDiscard⟩ := not_or.mp service
      refine ⟨by omega, noEcho, noDiscard, ?_⟩
      obtain ⟨noisy, turns⟩ := serve_datagram ran fields up listening (by omega) ⟨noEcho, noDiscard⟩
      rw [turns] at turn
      obtain ⟨after, called, same⟩ := Option.map_eq_some_iff.mp turn
      obtain ⟨-, rfl⟩ := Prod.mk.inj same
      obtain ⟨found, ipLength⟩ := packet_heard fields total heard
      by_contra fails
      have short : ∃ ptr ∈ pending, (uudps.buffers ptr).wordAt udpHdrLen1 < udpHeaderSize := by
        simpa only [not_forall, exists_prop, Nat.not_le, udpHeaderSize] using fails
      rw [payload_stuck found listed pooled (by rw [ipLength]; simp only [packetSize]; omega) called
        short] at taken
      cases taken
  · rintro ⟨short, noEcho, noDiscard, whole⟩
    obtain ⟨delivered, ready, last, called, taken, received⟩ :=
      payload_delivered short fields total heard listed pooled whole
    obtain ⟨served, turns⟩ := serve_datagram ran fields up listening (by omega) ⟨noEcho, noDiscard⟩
    refine ⟨_, after, _, sends, sent, ?_, served, delivered, ready, last, ?_, taken, received⟩
    · rw [Frame.bytesAt_length]
      simp only [packetSize]
      omega
    · rw [turns, called]
      rfl

/-- A payload that `hf_uudp_send` accepts gets from a station that knows the hardware address to
an endpoint with a free buffer exactly if its frame fits into the output buffer, no service of
the stack has the port, and every datagram that waits there is as long as a UDP header. -/
theorem payload_survives_iff (sender peer : Station) (reached : Reached sizes uudps) {i : Nat}
    (heard : uudps.listenerAt dstPort = some i) (listed : uudps.comm i = some comm)
    (freeBuffers : comm.freeBuffers = some free) (pktQueue : comm.pktQueue = some pkt)
    (room : free.contents ≠ []) (source : srcPort < 65536) (target : dstPort < 65536)
    (known : sender.resolve peer.myip = some peer.mymac) (up : configured peer.myip = true)
    (listening : peer.listening = true) (accepted : payload.length ≤ uudpLimit) :
    Survives sender peer uudps i pkt.contents.length srcPort dstPort payload ↔
      payload.length ≤ longestPayload ∧ dstPort ≠ portEcho ∧ dstPort ≠ portDiscard ∧
        ∀ ptr, some ptr ∈ pkt.contents → udpHeaderSize ≤ (uudps.buffers ptr).wordAt udpHdrLen1 := by
  obtain ⟨losts, all⟩ := reached.pooled
  obtain ⟨freeSame, pktSame, idle, pending, pooled⟩ := all i comm listed
  obtain rfl := Option.some.inj (freeBuffers.symm.trans pooled.freeBuffers)
  obtain rfl := Option.some.inj (pktQueue.symm.trans pooled.pktQueue)
  rw [pooled.freeContents] at room
  have stocked : idle ≠ [] := fun none => room (by rw [none]; rfl)
  obtain ⟨buff, idle, rfl⟩ := List.exists_cons_of_ne_nil stocked
  have waiting : pkt.contents.length = pending.length := by
    rw [pooled.pktContents, List.length_map]
  have members : ∀ ptr, some ptr ∈ pkt.contents ↔ ptr ∈ pending := by
    intro ptr
    rw [pooled.pktContents]
    simp
  simp only [waiting, members]
  exact pooled.survives_iff sender peer heard listed source target known up listening accepted

def acquainted : Station :=
  { stationAt 1 with arpCache := fun _ => ⟨(stationAt 2).myip, (stationAt 2).mymac⟩ }

theorem payload_survives_short :
    Survives acquainted (stationAt 2) endpoint 0 0 777 666 [0x68, 0x66] := by
  obtain ⟨comm, free, pkt, listed, pooled⟩ := endpoint_pooled
  have none : pkt.contents = [] := pooled.pktContents
  have room : free.contents ≠ [] := by
    rw [pooled.freeContents]
    exact List.cons_ne_nil _ _
  have survives := payload_survives_iff acquainted (stationAt 2) (.started endpoint_started)
    (show endpoint.listenerAt 666 = some 0 by decide) listed pooled.freeBuffers pooled.pktQueue room
    (show 777 < 65536 by decide) (show 666 < 65536 by decide) (by decide) (by decide) rfl
    (show [0x68, 0x66].length ≤ uudpLimit by decide)
  rw [none] at survives
  refine survives.mpr ⟨by decide, by decide, by decide, fun ptr member => ?_⟩
  cases member

/-- `hf_uudp_send` accepts 1477 bytes, but the frame has 1519. -/
theorem long_payload_fails :
    ¬Survives acquainted (stationAt 2) endpoint 0 0 777 666 (List.replicate 1477 0) := by
  obtain ⟨comm, free, pkt, listed, pooled⟩ := endpoint_pooled
  have length : (List.replicate 1477 (0 : UInt8)).length = 1477 := List.length_replicate
  have accepted : (List.replicate 1477 (0 : UInt8)).length ≤ uudpLimit := by
    rw [length]
    decide
  have survives := pooled.survives_iff acquainted (stationAt 2)
    (show endpoint.listenerAt 666 = some 0 by decide) listed (show 777 < 65536 by decide)
    (show 666 < 65536 by decide) (by decide) (by decide) rfl accepted
  intro claimed
  have short := (survives.mp claimed).1
  rw [length] at short
  revert short
  decide

end Delivery

end Uudps

end Hellfire

import Hellfire.LinkRuns
import Hellfire.UdpRoundTrip

/-!
Address resolution between two stations: the request of the first, the answer of the second
and what the first does with it, for any content of the caches. A station with another
address stays silent.
-/

namespace Hellfire

section Received

variable (frame : Frame)

@[simp] theorem Frame.bytesAt_length (ofs count : Nat) :
    (frame.bytesAt ofs count).length = count := by
  simp [Frame.bytesAt]

theorem Frame.store_bytesAt (buffer : Frame) {count i : Nat} (below : i < count) :
    buffer.store 0 (frame.bytesAt 0 count) i = frame i := by
  rw [Frame.store_inside _ (Nat.zero_le i) (by simpa using below), List.getD_eq_getElem?_getD]
  simp [Frame.bytesAt, below]

variable {frame}

theorem ArpFields.congr {other : Frame} {target source senderMac : Mac} {senderIp targetIp : Ip}
    {opcode : Nat} (fields : ArpFields frame target source opcode senderMac senderIp targetIp)
    (same : ∀ i, i < 42 → other i = frame i) :
    ArpFields other target source opcode senderMac senderIp targetIp := by
  have words : ∀ ofs, ofs < 41 → other.wordAt ofs = frame.wordAt ofs :=
    fun ofs most => Frame.wordAt_congr fun i above below => same i (by omega)
  have addresses : ∀ ofs, ofs < 39 → other.ipAt ofs = frame.ipAt ofs :=
    fun ofs most => Frame.ipAt_congr fun i above below => same i (by omega)
  have macs : ∀ ofs, ofs < 37 → other.macAt ofs = frame.macAt ofs :=
    fun ofs most => Frame.macAt_congr fun i above below => same i (by omega)
  exact ⟨(macs 0 (by omega)).trans fields.target, (macs 6 (by omega)).trans fields.source,
    (words 12 (by omega)).trans fields.type, (words 14 (by omega)).trans fields.hardw,
    (words 16 (by omega)).trans fields.prot, (words 18 (by omega)).trans fields.hlen,
    (words 20 (by omega)).trans fields.opcode, (macs 22 (by omega)).trans fields.senderMac,
    (addresses 28 (by omega)).trans fields.senderIp, (addresses 38 (by omega)).trans fields.targetIp⟩

end Received

section Receptions

variable (station : Station) {target source senderMac : Mac} {senderIp targetIp : Ip}

namespace Net

def Addressed (station : Station) (target : Mac) : Prop :=
  target = station.mymac ∨ target = Mac.broadcast ∨ target = Mac.any

instance (station : Station) (target : Mac) : Decidable (Addressed station target) :=
  inferInstanceAs (Decidable (_ ∨ _ ∨ _))

/-- How far the comparisons of the target address look into the buffer. -/
def addressReach (station : Station) : Nat :=
  max (comparedTo station.frame 0 station.mymac.toList)
    (if matchesAt station.frame 0 station.mymac.toList then 0
    else max (comparedTo station.frame 0 Mac.broadcast.toList)
      (if matchesAt station.frame 0 Mac.broadcast.toList then 0
      else comparedTo station.frame 0 Mac.any.toList))

theorem run_isForMe : isForMe.run station =
    some (decide (Addressed station (station.frame.macAt 0)), station.touch (addressReach station)) := by
  unfold isForMe addressReach Addressed
  simp only [ethDaOfs, run_get_bind, run_memcmp_bind, run_ite, run_memcmp, Station.touch_frame,
    Station.touch_touch, matchesAt_mac, StateT.run_pure, Option.pure_def, decide_eq_true_eq]
  split
  · simp [*]
  · split
    · simp [*]
    · simp [*]

theorem run_netifRecv_arp {received : List UInt8} (nonempty : 0 < received.length)
    (addressed : Addressed station ((station.frame.store 0 received).macAt 0))
    (type : (station.frame.store 0 received).wordAt 12 = frameArp) : ∃ bound,
    (netifRecv received).run station = (arpRecv >>= fun _ => pure 0).run
      ((station.put (station.frame.store 0 received)).touch bound) := by
  refine ⟨max (addressReach (station.put (station.frame.store 0 received))) 14, ?_⟩
  have listened : Addressed (station.put (station.frame.store 0 received))
      ((station.frame.store 0 received).macAt 0) := addressed
  have forMe := run_isForMe (station.put (station.frame.store 0 received))
  rw [Station.put_frame, decide_eq_true listened] at forMe
  simp only [frameArp] at type
  unfold netifRecv
  rw [run_wr_bind, if_pos nonempty, run_bind_of _ forMe]
  simp [type]

theorem run_arpRecv_request
    (fields : ArpFields station.frame target source opArpRequest senderMac senderIp station.myip) :
    arpRecv.run station = some ((), ((station.put (answerFrame station)).output 42).touch 42) := by
  obtain ⟨-, -, -, hardw, prot, hlen, opcode, -, -, targetIp⟩ := fields
  simp only [hardwEth10, frameIp, ipHlenPlen, opArpRequest] at hardw prot hlen opcode
  have asked : matchesAt station.frame 38 station.myip.toList = true := by
    simp [matchesAt_ip, targetIp]
  unfold arpRecv
  simp only [arpHardwOfs, arpProtOfs, arpHlenPlenOfs, arpOpcodeOfs, run_rdWord_bind,
    Station.touch_frame, hardw, prot, hlen, opcode, hardwEth10, frameIp, ipHlenPlen, opArpRequest,
    if_true, run_get_bind, run_memcmp_bind, arpTargetIpOfs, Station.touch_myip, asked,
    comparedTo_ip targetIp, Station.touch_touch, Nat.reduceAdd, Nat.reduceLeDiff, Nat.max_def]
  rw [run_bind_of _ (run_arpReply _)]
  simp [answerFrame]

theorem run_arpRecv_stranger
    (fields : ArpFields station.frame target source opArpRequest senderMac senderIp targetIp)
    (stranger : targetIp ≠ station.myip) : ∃ bound,
    arpRecv.run station = some ((), station.touch bound) := by
  obtain ⟨-, -, -, hardw, prot, hlen, opcode, -, -, asked⟩ := fields
  simp only [hardwEth10, frameIp, ipHlenPlen, opArpRequest] at hardw prot hlen opcode
  have other : matchesAt station.frame 38 station.myip.toList = false := by
    simp [matchesAt_ip, asked, stranger]
  refine ⟨max 22 (comparedTo station.frame 38 station.myip.toList), ?_⟩
  unfold arpRecv
  simp [hardw, prot, hlen, opcode, other]

theorem run_arpRecv_answer
    (fields : ArpFields station.frame target source opArpAnswer senderMac senderIp targetIp) :
    arpRecv.run station = some ((), (station.touch 32).arpUpdate senderIp senderMac) := by
  obtain ⟨-, -, -, hardw, prot, hlen, opcode, mac, ip, -⟩ := fields
  simp only [hardwEth10, frameIp, ipHlenPlen, opArpAnswer] at hardw prot hlen opcode
  unfold arpRecv
  simp [hardw, prot, hlen, opcode, mac, ip]

end Net

end Receptions

section Exchange

variable {station : Station} {frame : Frame} {target source senderMac : Mac} {senderIp targetIp : Ip}
  {size : Nat}

namespace Net

theorem received_fields {opcode : Nat}
    (fields : ArpFields frame target source opcode senderMac senderIp targetIp) (whole : 42 ≤ size)
    (buffer : Frame) : ArpFields (buffer.store 0 (frame.bytesAt 0 size)) target source opcode senderMac
      senderIp targetIp :=
  fields.congr fun _ below => frame.store_bytesAt buffer (by omega)

theorem netifRecv_enters {opcode : Nat}
    (fields : ArpFields frame target source opcode senderMac senderIp targetIp) (whole : 42 ≤ size)
    (addressed : Addressed station target) : ∃ filled bound,
      (netifRecv (frame.bytesAt 0 size)).run station =
        (arpRecv >>= fun _ => pure 0).run ((station.put filled).touch bound) ∧
      ArpFields filled target source opcode senderMac senderIp targetIp := by
  have arrived := received_fields fields whole station.frame
  have nonempty : 0 < (frame.bytesAt 0 size).length := by
    rw [Frame.bytesAt_length]
    omega
  obtain ⟨bound, path⟩ := run_netifRecv_arp station nonempty (by rw [arrived.target]; exact addressed)
    arrived.type
  exact ⟨_, bound, path, arrived⟩

theorem netifRecv_request
    (fields : ArpFields frame target source opArpRequest senderMac senderIp station.myip)
    (whole : 42 ≤ size) (addressed : Addressed station target) : ∃ after answer,
    (netifRecv (frame.bytesAt 0 size)).run station = some (0, after) ∧
      after.sent = station.sent ++ [answer.bytesAt 0 42] ∧
      ArpFields answer source station.mymac opArpAnswer station.mymac station.myip senderIp := by
  obtain ⟨filled, bound, path, arrived⟩ := netifRecv_enters fields whole addressed
  have answered := run_arpRecv_request ((station.put filled).touch bound) arrived
  rw [path, run_bind_of _ answered]
  refine ⟨_, _, rfl, rfl, ?_⟩
  rw [← arrived.source, ← arrived.senderIp]
  exact arpFramed_fields _ _ _ _ _ _ (by decide) _

theorem netifRecv_stranger
    (fields : ArpFields frame target source opArpRequest senderMac senderIp targetIp)
    (whole : 42 ≤ size) (addressed : Addressed station target) (stranger : targetIp ≠ station.myip) :
    ∃ after, (netifRecv (frame.bytesAt 0 size)).run station = some (0, after) ∧
      after.sent = station.sent ∧ after.arpCache = station.arpCache ∧
      after.arpIndex = station.arpIndex := by
  obtain ⟨filled, bound, path, arrived⟩ := netifRecv_enters fields whole addressed
  obtain ⟨more, dropped⟩ := run_arpRecv_stranger ((station.put filled).touch bound) arrived stranger
  rw [path, run_bind_of _ dropped]
  exact ⟨_, rfl, rfl, rfl, rfl⟩

theorem netifRecv_answer
    (fields : ArpFields frame station.mymac source opArpAnswer senderMac senderIp targetIp)
    (whole : 42 ≤ size) (unknown : station.arpFind senderIp = none) : ∃ after,
    (netifRecv (frame.bytesAt 0 size)).run station = some (0, after) ∧ after.sent = station.sent ∧
      after.mymac = station.mymac ∧ after.myip = station.myip ∧ after.mynm = station.mynm ∧
      after.arpCache =
        Function.update station.arpCache station.arpIndex ⟨senderIp, senderMac⟩ := by
  obtain ⟨filled, bound, path, arrived⟩ := netifRecv_enters fields whole (Or.inl rfl)
  have learned := run_arpRecv_answer ((station.put filled).touch bound) arrived
  have still : (((station.put filled).touch bound).touch 32).arpFind senderIp = none := unknown
  rw [path, run_bind_of _ learned, Station.arpUpdate, still]
  exact ⟨_, rfl, rfl, rfl, rfl, rfl, rfl⟩

end Net

theorem Station.arpFind_eq_none {station : Station} {ip : Ip} :
    station.arpFind ip = none ↔ ∀ i, ip ≠ (station.arpCache i).ip := by
  simp [Station.arpFind]

theorem Station.arpCheck_stored {before after : Station} {ip : Ip} {mac : Mac} {i : Fin arpCacheSize}
    (unknown : before.arpFind ip = none)
    (stored : after.arpCache = Function.update before.arpCache i ⟨ip, mac⟩) :
    after.arpCheck ip = some mac := by
  rw [Station.arpFind_eq_none] at unknown
  have only : ∀ j, ip = (after.arpCache j).ip → j = i := by
    intro j same
    by_contra other
    rw [stored, Function.update_of_ne other] at same
    exact unknown j same
  have there : (after.arpCache i) = ⟨ip, mac⟩ := by
    rw [stored, Function.update_self]
  obtain ⟨j, found⟩ : ∃ j, after.arpFind ip = some j := by
    rw [← Option.isSome_iff_exists, Station.arpFind, List.find?_isSome]
    exact ⟨i, List.mem_finRange i, by simp [there]⟩
  have matched : ip = (after.arpCache j).ip := by
    simpa using List.find?_some found
  rw [Station.arpCheck, found, Option.map_some, only j matched, there]

structure OnNet (station : Station) (ip : Ip) : Prop where
  notAny : ip.ipAddrIsany = false
  notBroadcast : ip.ipAddrIsbroadcast station.mynm = false
  notMulticast : ip.ipAddrIsmulticast = false
  near : ip.ipAddrMaskcmp station.myip station.mynm = true

theorem OnNet.resolve {station : Station} {ip : Ip} (host : OnNet station ip) :
    station.resolve ip = station.arpCheck ip ∧ station.nextHop ip = ip := by
  have hop : station.nextHop ip = ip := by
    simp [Station.nextHop, host.near]
  simp [Station.resolve, host.notAny, host.notBroadcast, host.notMulticast, hop]

end Exchange

namespace Net

theorem requestFrame_fields (station : Station) (ip : Ip) :
    ArpFields (requestFrame station ip) Mac.broadcast station.mymac opArpRequest station.mymac
      station.myip (station.nextHop ip) := by
  unfold requestFrame arpFramed
  rw [Frame.store_again _ (show station.myip.toList.length = (station.nextHop ip).toList.length from rfl)]
  exact arpFramed_fields _ _ _ _ _ _ (by decide) _

theorem output_keeps (station : Station) (frame : Frame) (size bound : Nat) :
    (((station.put frame).output size).touch bound).sent = station.sent ++ [frame.bytesAt 0 size] ∧
      (((station.put frame).output size).touch bound).mymac = station.mymac ∧
      (((station.put frame).output size).touch bound).myip = station.myip ∧
      (((station.put frame).output size).touch bound).mynm = station.mynm ∧
      (((station.put frame).output size).touch bound).arpCache = station.arpCache ∧
      (((station.put frame).output size).touch bound).arpIndex = station.arpIndex :=
  ⟨rfl, rfl, rfl, rfl, rfl, rfl⟩

theorem netifSend_asks {station : Station} {ip : Ip} (len : Nat) (host : OnNet station ip)
    (packet : station.frame.ipAt 30 = ip) (unknown : station.arpCheck ip = none) :
    ∃ asked frame, (netifSend len).run station = some (0, asked) ∧
      asked.sent = station.sent ++ [Frame.bytesAt frame 0 56] ∧
      ArpFields frame Mac.broadcast station.mymac opArpRequest station.mymac station.myip ip ∧
      asked.mymac = station.mymac ∧ asked.myip = station.myip ∧ asked.mynm = station.mynm ∧
      asked.arpCache = station.arpCache ∧ asked.arpIndex = station.arpIndex := by
  obtain ⟨lookup, hop⟩ := host.resolve
  have fields := requestFrame_fields station ip
  rw [hop] at fields
  have asks := run_netifSend_unresolved station len (by rw [packet, lookup, unknown])
  rw [packet] at asks
  obtain ⟨sent, kept⟩ := output_keeps station (requestFrame station ip) 56 34
  exact ⟨_, requestFrame station ip, asks, sent, fields, kept⟩

theorem netifSend_reaches {station : Station} {ip : Ip} {mac : Mac} (len : Nat)
    (host : OnNet station ip) (packet : station.frame.ipAt 30 = ip)
    (known : station.arpCheck ip = some mac) : ∃ reached out,
      (netifSend len).run station = some ((len + 14) % 65536, reached) ∧
      reached.sent = station.sent ++ [Frame.bytesAt out 0 ((len + 14) % 65536)] ∧
      out.macAt 0 = mac ∧ out.macAt 6 = station.mymac ∧ out.wordAt 12 = frameIp ∧
      ∀ i, 14 ≤ i → out i = station.frame i := by
  have sends := run_netifSend_resolved station len (by rw [packet, host.resolve.1, known])
  exact ⟨_, _, sends, rfl, framedBy_fields mac station.mymac (by decide) station.frame⟩

/-- Two stations resolve an address: `a` asks for the hardware address of `b`, `b` answers, and
from then on `a` reaches `b`. A station with another address than `b` does nothing. -/
theorem arp_resolution (a b : Station) (len : Nat) (host : OnNet a b.myip)
    (packet : a.frame.ipAt 30 = b.myip) (unknown : a.arpCheck b.myip = none) :
    ∃ request asked, (netifSend len).run a = some (0, asked) ∧ asked.sent = a.sent ++ [request] ∧
      (∃ answer answered, (netifRecv request).run b = some (0, answered) ∧
        answered.sent = b.sent ++ [answer] ∧
        ∀ buffer, ∃ learned, (netifRecv answer).run (asked.put buffer) = some (0, learned) ∧
          learned.sent = asked.sent ∧
          learned.arpCache = Function.update a.arpCache a.arpIndex ⟨b.myip, b.mymac⟩ ∧
          ∀ (next : Frame) (size : Nat), next.ipAt 30 = b.myip → ∃ reached out,
            (netifSend size).run (learned.put next) = some ((size + 14) % 65536, reached) ∧
            reached.sent = learned.sent ++ [Frame.bytesAt out 0 ((size + 14) % 65536)] ∧
            out.macAt 0 = b.mymac ∧ out.macAt 6 = a.mymac ∧ out.wordAt 12 = frameIp ∧
            ∀ i, 14 ≤ i → out i = next i) ∧
      ∀ c : Station, c.myip ≠ b.myip → ∃ idle, (netifRecv request).run c = some (0, idle) ∧
        idle.sent = c.sent ∧ idle.arpCache = c.arpCache ∧ idle.arpIndex = c.arpIndex := by
  have missing : a.arpFind b.myip = none := Option.map_eq_none_iff.mp unknown
  obtain ⟨asked, requestBytes, asks, sent, request, mymac, myip, mynm, cache, index⟩ :=
    netifSend_asks len host packet unknown
  refine ⟨_, asked, asks, sent, ?_, ?_⟩
  · obtain ⟨answered, answer, accepts, replied, reply⟩ :=
      netifRecv_request request (show 42 ≤ 56 by decide) (Or.inr (Or.inl rfl))
    refine ⟨_, answered, accepts, replied, ?_⟩
    intro buffer
    have unaware : (asked.put buffer).arpFind b.myip = none := by
      rw [Station.arpFind_eq_none] at missing ⊢
      rw [Station.put_arpCache, cache]
      exact missing
    have back : ArpFields answer (asked.put buffer).mymac b.mymac opArpAnswer b.mymac b.myip a.myip := by
      rw [Station.put_mymac, mymac]
      exact reply
    obtain ⟨learned, accepted, silent, ownMac, ownIp, ownMask, stored⟩ :=
      netifRecv_answer back (Nat.le_refl 42) unaware
    rw [Station.put_mymac, mymac] at ownMac
    rw [Station.put_myip, myip] at ownIp
    rw [Station.put_mynm, mynm] at ownMask
    have slot : (asked.put buffer).arpIndex = a.arpIndex := index
    rw [Station.put_arpCache, cache, slot] at stored
    refine ⟨learned, accepted, silent, stored, ?_⟩
    intro next size destination
    have nearer : OnNet (learned.put next) b.myip :=
      ⟨host.notAny, by rw [Station.put_mynm, ownMask]; exact host.notBroadcast, host.notMulticast,
        by rw [Station.put_mynm, Station.put_myip, ownMask, ownIp]; exact host.near⟩
    have known : (learned.put next).arpCheck b.myip = some b.mymac :=
      Station.arpCheck_stored missing stored
    rw [← ownMac]
    exact netifSend_reaches size nearer destination known
  · intro c other
    exact netifRecv_stranger request (by decide) (Or.inr (Or.inl rfl)) (Ne.symm other)

def packetAt : Station := (stationAt 1).put (Frame.store (fun _ => 0) 30 [10, 0, 0, 2])

theorem packetAt_onNet : OnNet packetAt ⟨10, 0, 0, 2⟩ := by
  constructor <;> decide

theorem arp_resolution_pair : ∃ request asked answer answered learned reached out,
    (netifSend 46).run packetAt = some (0, asked) ∧ asked.sent = [request] ∧
      (netifRecv request).run (stationAt 2) = some (0, answered) ∧ answered.sent = [answer] ∧
      (netifRecv answer).run asked = some (0, learned) ∧
      (netifSend 46).run (learned.put packetAt.frame) = some (60, reached) ∧
      reached.sent = learned.sent ++ [Frame.bytesAt out 0 60] ∧
      out.macAt 0 = ⟨2, 0, 0, 0, 0, 2⟩ ∧ out.macAt 6 = ⟨2, 0, 0, 0, 0, 1⟩ := by
  obtain ⟨request, asked, asks, sent, ⟨answer, answered, accepts, replied, resumes⟩, _⟩ :=
    arp_resolution packetAt (stationAt 2) 46 packetAt_onNet (by decide) (by decide)
  obtain ⟨learned, accepted, _, _, reaches⟩ := resumes asked.frame
  obtain ⟨reached, out, sends, emitted, target, source, _⟩ := reaches packetAt.frame 46 (by decide)
  exact ⟨request, asked, answer, answered, learned, reached, out, asks, sent, accepts, replied,
    accepted, sends, emitted, target, source⟩

/-- A third station that was given the address of `b` as well answers the request too. -/
theorem arp_duplicate_answers : ∃ request asked idle,
    (netifSend 46).run packetAt = some (0, asked) ∧ asked.sent = [request] ∧
      (stationAt 3).mymac ≠ (stationAt 2).mymac ∧
      (netifRecv request).run { stationAt 3 with myip := (stationAt 2).myip } = some (0, idle) ∧
      idle.sent ≠ [] := by
  obtain ⟨asked, frame, asks, sent, fields, _⟩ :=
    netifSend_asks 46 packetAt_onNet (by decide) (by decide)
  have asks_third : ArpFields frame Mac.broadcast packetAt.mymac opArpRequest packetAt.mymac
      packetAt.myip { stationAt 3 with myip := (stationAt 2).myip }.myip := fields
  obtain ⟨idle, answer, accepts, replied, _⟩ :=
    netifRecv_request asks_third (show 42 ≤ 56 by decide) (Or.inr (Or.inl rfl))
  refine ⟨_, asked, idle, asks, sent, by decide, accepts, ?_⟩
  rw [replied]
  exact List.append_ne_nil_of_right_ne_nil _ (List.cons_ne_nil _ _)

end Net

end Hellfire

import Hellfire.LinkDestinations
import Hellfire.UudpDelivery

/-!
The retries of `hf_uudp_send` while other tasks run. Every ARP request is written over the headers in
`frame_out`, and a retry writes all of the headers again; the payload is copied once.
-/

namespace Hellfire

namespace Net

section Definitions

/-- What the other tasks do during `delay_ms` leaves the payload in a `frame_out` of `size` bytes alone. -/
def Elsewhere (size : Nat) (change : Station → Station) : Prop :=
  ∀ (station : Station) (i : Nat), 42 ≤ i → i < size → (change station).frame i = station.frame i

/-- The loop of `hf_uudp_send` with `more` retries left, when `changes more` happens before the next one. -/
def sendTriesAmid (changes : Nat → Station → Station) (srcPort : Nat) (dstIp : Ip) (dstPort len : Nat) :
    Nat → Net Nat
  | 0 => udpOut dstIp srcPort dstPort len
  | more + 1 => do
      let val ← udpOut dstIp srcPort dstPort len
      if val = 0 then do
        modify (changes more)
        sendTriesAmid changes srcPort dstIp dstPort len more
      else pure val

def hfUudpSendAmid (changes : Nat → Station → Station) (srcPort : Nat) (dstIp : Ip) (dstPort : Nat)
    (buf : List UInt8) : Net Int :=
  if Uudps.uudpLimit < buf.length then pure errError
  else do
    wrPacket (ipHeaderSize + udpHeaderSize) buf
    let val ← sendTriesAmid changes srcPort dstIp dstPort ((buf.length + udpHeaderSize) % 65536)
      uudpRetries
    pure val

theorem sendTriesAmid_id (srcPort : Nat) (dstIp : Ip) (dstPort len : Nat) : ∀ more,
    sendTriesAmid (fun _ => id) srcPort dstIp dstPort len more =
      sendTries srcPort dstIp dstPort len more := by
  intro more
  induction more with
  | zero => rfl
  | succ more ih =>
      have idle : (modify id : Net Unit) = pure () := rfl
      simp only [sendTriesAmid, sendTries, idle, ih, pure_bind]

theorem hfUudpSendAmid_id (srcPort : Nat) (dstIp : Ip) (dstPort : Nat) (buf : List UInt8) :
    hfUudpSendAmid (fun _ => id) srcPort dstIp dstPort buf = hfUudpSend srcPort dstIp dstPort buf := by
  simp only [hfUudpSendAmid, hfUudpSend, sendTriesAmid_id]

/-- Whatever happens between the attempts, the last frame is the one that a first attempt sends when it
finds the hardware address, with `frame_out` as it was before the call. -/
def Undamaged (size : Nat) (station : Station) (srcPort : Nat) (dstIp : Ip) (dstPort : Nat)
    (buf : List UInt8) : Prop :=
  ∀ changes, (∀ more, Elsewhere size (changes more)) → ∃ value after,
    (hfUudpSendAmid changes srcPort dstIp dstPort buf).run station = some (value, after) ∧
      (value ≠ 0 → ∃ frame again,
        (hfUudpSend srcPort dstIp dstPort buf).run (after.put station.frame) = some (value, again) ∧
          again.sent = after.sent ++ [frame] ∧ after.sent.getLast? = some frame)

end Definitions

section Rebuilding

variable {first second : Frame} {len : Nat}

theorem store_agrees (ofs : Nat) (bytes : List UInt8) {i : Nat}
    (same : i < ofs ∨ ofs + bytes.length ≤ i → first i = second i) :
    first.store ofs bytes i = second.store ofs bytes i := by
  unfold Frame.store
  split
  · rfl
  · exact same (by omega)

variable (mac : Mac) (myip dstIp : Ip) (srcPort dstPort : Nat)

theorem udpZeroed_agrees (payload : ∀ i, 42 ≤ i → i < 34 + len → first i = second i) {i : Nat}
    (covered : i = 23 ∨ 26 ≤ i ∧ i < 34 + len ∨ 26 ≤ i ∧ i < 42) :
    udpZeroed myip dstIp srcPort dstPort len first i =
      udpZeroed myip dstIp srcPort dstPort len second i := by
  unfold udpZeroed
  iterate 7 refine store_agrees _ _ fun _ => ?_
  simp only [List.length_cons, List.length_nil, bytesOf_length, Ip.toList_length] at *
  exact payload i (by omega) (by omega)

theorem udpFramed_agrees (payload : ∀ i, 42 ≤ i → i < 34 + len → first i = second i) {i : Nat}
    (covered : i = 23 ∨ 26 ≤ i ∧ i < 34 + len ∨ 26 ≤ i ∧ i < 42) :
    udpFramed myip dstIp srcPort dstPort len first i =
      udpFramed myip dstIp srcPort dstPort len second i := by
  have zeroed := fun i => udpZeroed_agrees myip dstIp srcPort dstPort payload (i := i)
  have total : udpTotal (udpZeroed myip dstIp srcPort dstPort len first) len =
      udpTotal (udpZeroed myip dstIp srcPort dstPort len second) len :=
    udpTotal_congr fun i above below => zeroed i (Or.inr (Or.inl ⟨above, below⟩))
  rw [udpFramed, udpFramed, total]
  exact store_agrees _ _ fun _ => zeroed i covered

theorem ipZeroed_agrees (rest : ∀ i, i = 23 ∨ 34 ≤ i ∧ i < 34 + len → first i = second i) (size : Nat)
    {i : Nat} (covered : 14 ≤ i ∧ i < 34 + len) :
    ipZeroed myip dstIp size first i = ipZeroed myip dstIp size second i := by
  unfold ipZeroed
  iterate 9 refine store_agrees _ _ fun _ => ?_
  simp only [List.length_cons, List.length_nil, bytesOf_length, Ip.toList_length] at *
  exact rest i (by omega)

theorem ipFramed_agrees (rest : ∀ i, i = 23 ∨ 34 ≤ i ∧ i < 34 + len → first i = second i) (size : Nat)
    {i : Nat} (covered : 14 ≤ i ∧ i < 34 + len) :
    ipFramed myip dstIp size first i = ipFramed myip dstIp size second i := by
  have zeroed := fun i => ipZeroed_agrees myip dstIp rest size (i := i)
  have sum : headerSum (ipZeroed myip dstIp size first) = headerSum (ipZeroed myip dstIp size second) :=
    headerSum_congr fun i above below => zeroed i ⟨above, by omega⟩
  rw [ipFramed, ipFramed, sum]
  exact store_agrees _ _ fun _ => zeroed i covered

theorem framedBy_agrees (source : Mac) (type : Nat) {i : Nat}
    (packet : 14 ≤ i → first i = second i) :
    framedBy mac source type first i = framedBy mac source type second i := by
  unfold framedBy
  iterate 3 refine store_agrees _ _ fun _ => ?_
  simp only [bytesOf_length, Mac.toList_length] at *
  exact packet (by omega)

theorem udpFrame_agrees (station : Station)
    (payload : ∀ i, 42 ≤ i → i < 34 + len → first i = second i) (i : Nat) (inside : i < 34 + len) :
    udpFrame (station.put first) mac dstIp srcPort dstPort len i =
      udpFrame (station.put second) mac dstIp srcPort dstPort len i := by
  unfold udpFrame packetFrame
  refine framedBy_agrees mac _ _ fun header => ?_
  refine ipFramed_agrees _ dstIp (fun j rest => ?_) _ ⟨header, inside⟩
  exact udpFramed_agrees _ dstIp srcPort dstPort payload (by omega)

theorem packetFrame_payload (frame : Frame) {i : Nat} (behind : 42 ≤ i) :
    packetFrame myip dstIp srcPort dstPort len frame i = frame i := by
  rw [packetFrame, ipFramed_outside _ _ _ _ (by omega), udpFramed_outside _ _ _ _ _ _ (by omega),
    udpZeroed_payload _ _ _ _ _ _ behind]

theorem requestFrame_payload (station : Station) (len : Nat) {i : Nat} (behind : 42 ≤ i) :
    requestFrame (station.put (packetFrame myip dstIp srcPort dstPort len station.frame)) dstIp i =
      station.frame i := by
  unfold requestFrame arpFramed
  iterate 9 rw [Frame.store_outside _ (by simp; omega)]
  obtain ⟨-, -, -, kept⟩ := framedBy_fields Mac.broadcast station.mymac
    (show frameArp < 65536 by decide) (packetFrame myip dstIp srcPort dstPort len station.frame)
  exact (kept i (by omega)).trans (packetFrame_payload _ _ _ _ _ behind)

theorem udpFrame_payload (station : Station) {i : Nat} (behind : 42 ≤ i) :
    udpFrame station mac dstIp srcPort dstPort len i = station.frame i := by
  obtain ⟨-, -, -, kept⟩ := framedBy_fields mac station.mymac (show frameIp < 65536 by decide)
    (packetFrame station.myip dstIp srcPort dstPort len station.frame)
  exact (kept i (by omega)).trans (packetFrame_payload _ _ _ _ _ behind)

theorem udpFrame_bytes (station : Station)
    (payload : ∀ i, 42 ≤ i → i < 34 + len → first i = second i) :
    (udpFrame (station.put first) mac dstIp srcPort dstPort len).bytesAt 0 (len + 34) =
      (udpFrame (station.put second) mac dstIp srcPort dstPort len).bytesAt 0 (len + 34) := by
  refine List.map_congr_left fun i member => ?_
  rw [List.mem_range] at member
  exact udpFrame_agrees mac dstIp srcPort dstPort station payload _ (by omega)

end Rebuilding

section Attempts

variable {station : Station} {payload : Frame} {mac : Mac} {dstIp : Ip} {len size : Nat}
  (srcPort dstPort : Nat)

def Holds (payload : Frame) (len : Nat) (station : Station) : Prop :=
  ∀ i, 42 ≤ i → i < 34 + len → station.frame i = payload i

def SendsPayload (code : Net Nat) (station : Station) (payload : Frame) (dstIp : Ip)
    (srcPort dstPort len : Nat) : Prop :=
  ∃ value after, code.run station = some (value, after) ∧
    (value ≠ 0 → value = len + 34 ∧ ∃ mac, after.resolve dstIp = some mac ∧ after.sent.getLast? =
      some ((udpFrame (after.put payload) mac dstIp srcPort dstPort len).bytesAt 0 (len + 34)))

theorem udpOut_hit (held : Holds payload len station) (known : station.resolve dstIp = some mac)
    (short : len ≤ 65493) : ∃ after,
      (udpOut dstIp srcPort dstPort len).run station = some (len + 34, after) ∧
      after.resolve dstIp = some mac ∧ after.sent.getLast? =
        some ((udpFrame (after.put payload) mac dstIp srcPort dstPort len).bytesAt 0 (len + 34)) := by
  obtain ⟨bound, sends⟩ := run_udpOut_known station srcPort dstPort known short
  refine ⟨_, sends, known, ?_⟩
  have same := udpFrame_bytes mac dstIp srcPort dstPort station held
  exact List.getLast?_concat.trans (congrArg some same)

theorem udpOut_hit_sends (held : Holds payload len station) (known : station.resolve dstIp = some mac)
    (short : len ≤ 65493) (next : Net Nat) :
    SendsPayload (udpOut dstIp srcPort dstPort len >>= fun val => if val = 0 then next else pure val)
      station payload dstIp srcPort dstPort len := by
  obtain ⟨after, sends, still, last⟩ := udpOut_hit srcPort dstPort held known short
  refine ⟨len + 34, after, ?_, fun _ => ⟨rfl, mac, still, last⟩⟩
  rw [run_bind_of _ sends, if_neg (by omega)]
  rfl

theorem udpOut_miss (held : Holds payload len station) (unknown : station.resolve dstIp = none)
    (short : len ≤ 65493) : ∃ asked,
      (udpOut dstIp srcPort dstPort len).run station = some (0, asked) ∧ Holds payload len asked ∧
      ∀ ip, asked.resolve ip = station.resolve ip := by
  obtain ⟨bound, asks⟩ :=
    run_udpOut_unknown station srcPort dstPort unknown (show len ≤ 65515 by omega)
  refine ⟨_, asks, fun i behind inside => ?_, fun _ => rfl⟩
  rw [← held i behind inside]
  exact requestFrame_payload station.myip dstIp srcPort dstPort station len behind

theorem sendTriesAmid_fits {changes : Nat → Station → Station}
    (elsewhere : ∀ more, Elsewhere size (changes more)) (fits : 34 + len ≤ size)
    (short : len ≤ 65493) (more : Nat) : ∀ station : Station, Holds payload len station →
      SendsPayload (sendTriesAmid changes srcPort dstIp dstPort len more) station payload dstIp
        srcPort dstPort len := by
  induction more with
  | zero =>
      intro station held
      cases lookup : station.resolve dstIp with
      | none =>
          obtain ⟨asked, asks, -⟩ := udpOut_miss srcPort dstPort held lookup short
          exact ⟨0, asked, asks, fun sent => absurd rfl sent⟩
      | some mac =>
          obtain ⟨after, sends, still, last⟩ := udpOut_hit srcPort dstPort held lookup short
          exact ⟨_, after, sends, fun _ => ⟨rfl, mac, still, last⟩⟩
  | succ more ih =>
      intro station held
      cases lookup : station.resolve dstIp with
      | some mac => exact udpOut_hit_sends srcPort dstPort held lookup short _
      | none =>
          obtain ⟨asked, asks, kept, -⟩ := udpOut_miss srcPort dstPort held lookup short
          have waited : Holds payload len (changes more asked) := by
            intro i behind inside
            rw [elsewhere more asked i behind (by omega)]
            exact kept i behind inside
          obtain ⟨value, after, ran, sent⟩ := ih _ waited
          refine ⟨value, after, ?_, sent⟩
          rw [sendTriesAmid, run_bind_of _ asks, if_pos rfl]
          exact ran

end Attempts

section Calls

variable {station : Station} {dstIp : Ip} {size : Nat} (srcPort dstPort : Nat) {buf : List UInt8}

def loaded (station : Station) (buf : List UInt8) : Station := station.put (station.frame.store 42 buf)

theorem run_hfUudpSendAmid (changes : Nat → Station → Station) {value : Nat} {after : Station}
    (accepted : buf.length ≤ Uudps.uudpLimit)
    (ran : (sendTriesAmid changes srcPort dstIp dstPort (buf.length + 8) uudpRetries).run
      (loaded station buf) = some (value, after)) :
    (hfUudpSendAmid changes srcPort dstIp dstPort buf).run station = some ((value : Int), after) := by
  have limit : ¬Uudps.uudpLimit < buf.length := Nat.not_lt.mpr accepted
  have len : (buf.length + udpHeaderSize) % 65536 = buf.length + 8 := by
    simp only [Uudps.uudpLimit, packetSize, ethHeaderSize, udpHeaderSize, Nat.reduceSub] at accepted ⊢
    omega
  unfold hfUudpSendAmid
  rw [if_neg limit, run_wrPacket_bind, len]
  exact run_bind_of _ ran _

theorem SendsPayload.undamaged {changes : Nat → Station → Station}
    (accepted : buf.length ≤ Uudps.uudpLimit)
    (sends : SendsPayload (sendTriesAmid changes srcPort dstIp dstPort (buf.length + 8) uudpRetries)
      (loaded station buf) (station.frame.store 42 buf) dstIp srcPort dstPort (buf.length + 8)) :
    ∃ value after, (hfUudpSendAmid changes srcPort dstIp dstPort buf).run station =
        some (value, after) ∧
      (value ≠ 0 → ∃ frame again,
        (hfUudpSend srcPort dstIp dstPort buf).run (after.put station.frame) = some (value, again) ∧
          again.sent = after.sent ++ [frame] ∧ after.sent.getLast? = some frame) := by
  obtain ⟨value, after, ran, sent⟩ := sends
  refine ⟨_, after, run_hfUudpSendAmid srcPort dstPort changes accepted ran, fun nonzero => ?_⟩
  obtain ⟨rfl, mac, known, last⟩ := sent fun none => nonzero (congrArg _ none)
  obtain ⟨again, first, once⟩ := run_hfUudpSend (after.put station.frame) srcPort dstPort accepted known
  exact ⟨_, again, first, once, last⟩

/-- Another task has the answer of the next hop stored, and writes its own memory at `place`. -/
def meddle (dstIp : Ip) (place : Nat) (station : Station) : Station :=
  { station with
    arpCache := fun _ => ⟨station.nextHop dstIp, Mac.any⟩
    frame := Function.update station.frame place (station.frame place + 1) }

theorem meddle_elsewhere {place : Nat} (outside : size ≤ place) : Elsewhere size (meddle dstIp place) := by
  intro station i _ inside
  exact Function.update_of_ne (by omega) _ _

theorem meddle_resolve (place : Nat) (unknown : station.resolve dstIp = none) :
    ∃ mac, (meddle dstIp place station).resolve dstIp = some mac := by
  have other : dstIp.ipAddrIsbroadcast station.mynm = false := by
    rw [← Bool.not_eq_true]
    intro taken
    rw [Station.resolve_broadcast taken] at unknown
    exact Option.some_ne_none _ unknown
  have single : dstIp.ipAddrIsmulticast = false := by
    rw [← Bool.not_eq_true]
    intro group
    rw [Station.resolve_multicast other group] at unknown
    exact Option.some_ne_none _ unknown
  have lookup : (meddle dstIp place station).resolve dstIp =
      (meddle dstIp place station).arpCheck (station.nextHop dstIp) :=
    @Station.resolve_host (meddle dstIp place station) dstIp other single
  rw [lookup, ← Option.isSome_iff_exists, Station.arpCheck_isSome]
  exact ⟨station.arpIndex, rfl⟩

theorem udpFrame_apart (station : Station) (mac : Mac) (dstIp : Ip) (len : Nat) {first second : Frame}
    {place : Nat} (behind : 42 ≤ place) (inside : place < len + 34) (apart : first place ≠ second place) :
    (udpFrame (station.put first) mac dstIp srcPort dstPort len).bytesAt 0 (len + 34) ≠
      (udpFrame (station.put second) mac dstIp srcPort dstPort len).bytesAt 0 (len + 34) := by
  intro same
  have equal := List.map_inj_left.mp same place (List.mem_range.mpr inside)
  rw [Nat.zero_add, udpFrame_payload _ _ _ _ _ behind, udpFrame_payload _ _ _ _ _ behind] at equal
  exact apart equal

theorem sendTriesAmid_second (changes : Nat → Station → Station) (more : Nat) {len : Nat}
    {asked : Station} {mac : Mac} (asks : (udpOut dstIp srcPort dstPort len).run station = some (0, asked))
    (known : (changes (more + 1) asked).resolve dstIp = some mac) (short : len ≤ 65493) :
    ∃ after, (sendTriesAmid changes srcPort dstIp dstPort len (more + 2)).run station =
        some (len + 34, after) ∧
      after.resolve dstIp = some mac ∧ after.sent.getLast? =
        some ((udpFrame (after.put (changes (more + 1) asked).frame) mac dstIp srcPort dstPort
          len).bytesAt 0 (len + 34)) := by
  have held : Holds (changes (more + 1) asked).frame len (changes (more + 1) asked) := fun _ _ _ => rfl
  obtain ⟨after, sends, still, last⟩ := udpOut_hit srcPort dstPort held known short
  have next : (modify (changes (more + 1)) : Net Unit).run asked =
      some ((), changes (more + 1) asked) := rfl
  refine ⟨after, ?_, still, last⟩
  rw [sendTriesAmid, run_bind_of _ asks, if_pos rfl, run_bind_of _ next, sendTriesAmid,
    run_bind_of _ sends, if_neg (by omega)]
  rfl

theorem damaged_behind (accepted : buf.length ≤ Uudps.uudpLimit) (long : size - 42 < buf.length)
    (unknown : station.resolve dstIp = none) : ¬Undamaged size station srcPort dstIp dstPort buf := by
  intro undamaged
  have short : buf.length + 8 ≤ 65493 := by
    simp only [Uudps.uudpLimit, packetSize, ethHeaderSize, udpHeaderSize, Nat.reduceSub] at accepted
    omega
  have held : Holds (station.frame.store 42 buf) (buf.length + 8) (loaded station buf) := fun _ _ _ => rfl
  obtain ⟨asked, asks, kept, same⟩ := udpOut_miss srcPort dstPort held unknown short
  have behind : 42 ≤ max size 42 := Nat.le_max_right size 42
  have inside : max size 42 < 34 + (buf.length + 8) := by omega
  obtain ⟨mac, known⟩ := meddle_resolve (max size 42) ((same dstIp).trans unknown)
  obtain ⟨after, ran, still, last⟩ :=
    sendTriesAmid_second srcPort dstPort (fun _ => meddle dstIp (max size 42)) 3 asks known short
  obtain ⟨value, final, whole, sent⟩ :=
    undamaged _ fun _ => meddle_elsewhere (Nat.le_max_left size 42)
  rw [run_hfUudpSendAmid srcPort dstPort _ accepted ran] at whole
  obtain ⟨rfl, rfl⟩ := Prod.mk.inj (Option.some.inj whole)
  obtain ⟨frame, again, first, once, given⟩ := sent (by omega)
  obtain ⟨other, resends, alone⟩ :=
    run_hfUudpSend (after.put station.frame) srcPort dstPort accepted still
  rw [resends] at first
  obtain ⟨-, rfl⟩ := Prod.mk.inj (Option.some.inj first)
  rw [alone] at once
  have expected := List.append_cancel_left once
  rw [last, Option.some.injEq] at given
  have changed : (meddle dstIp (max size 42) asked).frame (max size 42) ≠
      station.frame.store 42 buf (max size 42) := by
    rw [← kept _ behind inside]
    have bumped : (meddle dstIp (max size 42) asked).frame (max size 42) =
        asked.frame (max size 42) + 1 := Function.update_self _ _ _
    rw [bumped]
    intro equal
    exact absurd (congrArg UInt8.toNat equal) (by simp [UInt8.toNat_add]; omega)
  have apart := udpFrame_apart srcPort dstPort after mac dstIp (buf.length + 8) behind
    (show max size 42 < buf.length + 8 + 34 by omega) changed
  rw [given] at apart
  exact apart (List.cons.inj expected).1.symm

/-- The payload is safe as long as it ends within `frame_out`, and when no request is needed. -/
theorem hf_uudp_send_undamaged_iff (size : Nat) (station : Station) (srcPort : Nat) (dstIp : Ip)
    (dstPort : Nat) (buf : List UInt8) (accepted : buf.length ≤ Uudps.uudpLimit) :
    Undamaged size station srcPort dstIp dstPort buf ↔
      buf.length ≤ size - 42 ∨ station.resolve dstIp ≠ none := by
  have short : buf.length + 8 ≤ 65493 := by
    simp only [Uudps.uudpLimit, packetSize, ethHeaderSize, udpHeaderSize, Nat.reduceSub] at accepted
    omega
  have held : Holds (station.frame.store 42 buf) (buf.length + 8) (loaded station buf) := fun _ _ _ => rfl
  constructor
  · intro undamaged
    by_contra neither
    rw [not_or, Nat.not_le, not_not] at neither
    exact damaged_behind srcPort dstPort accepted neither.1 neither.2 undamaged
  · intro safe changes elsewhere
    apply SendsPayload.undamaged srcPort dstPort accepted
    cases lookup : station.resolve dstIp with
    | some mac => exact udpOut_hit_sends srcPort dstPort held lookup short _
    | none =>
        have fits := safe.resolve_right fun known => known lookup
        by_cases empty : buf.length = 0
        · have sized : ∀ more, Elsewhere (max size 42) (changes more) := fun more other i behind inside =>
            elsewhere more other i behind (by omega)
          exact sendTriesAmid_fits srcPort dstPort sized (by omega) short _ _ held
        · exact sendTriesAmid_fits srcPort dstPort elsewhere (by omega) short _ _ held

theorem hf_uudp_send_undamaged_whole :
    Undamaged packetSize packetAt 777 ⟨10, 0, 0, 2⟩ 666 (List.replicate 1476 0) :=
  (hf_uudp_send_undamaged_iff packetSize packetAt 777 ⟨10, 0, 0, 2⟩ 666 (List.replicate 1476 0)
    (by rw [List.length_replicate]; decide)).mpr
    (Or.inl (by rw [List.length_replicate]; decide))

/-- The longest payload ends behind a `frame_out` of 1518 bytes, and behind one of 1536 bytes too. -/
theorem hf_uudp_send_longest_damaged :
    ¬Undamaged packetSize packetAt 777 ⟨10, 0, 0, 2⟩ 666 (List.replicate 1496 0) ∧
      ¬Undamaged 1536 packetAt 777 ⟨10, 0, 0, 2⟩ 666 (List.replicate 1496 0) := by
  have accepted : (List.replicate 1496 (0 : UInt8)).length ≤ Uudps.uudpLimit := by
    rw [List.length_replicate]
    decide
  have unknown : packetAt.resolve ⟨10, 0, 0, 2⟩ = none := by decide
  constructor
  · exact damaged_behind 777 666 accepted (by rw [List.length_replicate]; decide) unknown
  · exact damaged_behind 777 666 accepted (by rw [List.length_replicate]; decide) unknown

end Calls

end Net

end Hellfire

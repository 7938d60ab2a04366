import Hellfire.LinkRuns
import Hellfire.NetChecksums

/-!
The reply of `icmp_echo_reply`: its checksum is patched by hand, and is right for every request with
a right checksum.
-/

namespace Hellfire

open OnesComplement

def icmpTotal (frame : Frame) (size : Nat) : Nat :=
  wordSum frame 34 (size / 2) + if size % 2 = 1 then (frame (33 + size)).toNat * 256 else 0

theorem icmpTotal_congr {first second : Frame} (same : ∀ i, 34 ≤ i → first i = second i)
    (size : Nat) : icmpTotal first size = icmpTotal second size := by
  have words : wordSum first 34 (size / 2) = wordSum second 34 (size / 2) :=
    wordSum_congr _ _ fun i above _ => same i above
  rw [icmpTotal, icmpTotal, words]
  split
  · rw [same _ (by omega)]
  · rfl

namespace Net

def icmpReply (len : Nat) : Net Unit := do
  wrPacket icmpHdrType [UInt8.ofNat Hellfire.icmpEchoReply]
  let chksum ← rdPacketWord icmpHdrChksum1
  wrPacket icmpHdrChksum1 (bytesOf (echoChksum chksum))
  let dstAddr ← rdIp (ethHeaderSize + ipHdrSrcaddr1)
  ipHeader dstAddr len

def patchedFrame (frame : Frame) : Frame :=
  (frame.store 34 [0]).store 36 (bytesOf (echoChksum (frame.wordAt 36)))

section Patch

variable (frame : Frame)

theorem echoChksum_cases {chksum : Nat} (small : chksum < 65536) :
    chksum ≤ 0xf7ff ∧ echoChksum chksum = chksum + 0x800 ∨
      0xf7ff < chksum ∧ echoChksum chksum + 0xf7ff = chksum := by
  unfold echoChksum icmpEcho
  split <;> omega

theorem patchedFrame_outside {i : Nat} (apart : i ≠ 34 ∧ i ≠ 36 ∧ i ≠ 37) :
    patchedFrame frame i = frame i := by
  unfold patchedFrame
  rw [Frame.store_outside _ (by simp; omega), Frame.store_outside _ (by simp; omega)]

theorem patchedFrame_type : patchedFrame frame 34 = 0 := by
  simp [patchedFrame, Frame.store]

theorem patchedFrame_chksum : (patchedFrame frame).wordAt 36 = echoChksum (frame.wordAt 36) :=
  by
  have patched := echoChksum_cases (frame.wordAt_lt 36)
  have small := frame.wordAt_lt 36
  exact wordAt_store_same _ 36 (by omega)

theorem patchedFrame_low {i : Nat} (below : i < 34) : patchedFrame frame i = frame i :=
  patchedFrame_outside frame (by omega)

theorem icmpTotal_valid_iff {size : Nat} (short : size ≤ 65535) :
    foldSum (icmpTotal frame size) = 0xffff ↔
      0 < icmpTotal frame size ∧ 65535 ∣ icmpTotal frame size := by
  have words := wordSum_le frame (size / 2) 34
  have last := (frame (33 + size)).toNat_lt
  have small : icmpTotal frame size < 65536 * 65536 := by
    unfold icmpTotal
    split <;> omega
  rcases Nat.eq_zero_or_pos (icmpTotal frame size) with zero | positive
  · rw [zero]
    decide
  · rw [foldSum, fold_eq_last_iff (by decide) positive small]
    simp [positive]

theorem icmpTotal_split (count size : Nat) (half : size / 2 = count + 2) :
    icmpTotal frame size = frame.wordAt 34 + frame.wordAt 36 + (wordSum frame 38 count +
      if size % 2 = 1 then (frame (33 + size)).toNat * 256 else 0) := by
  rw [icmpTotal, half]
  simp only [wordSum, Nat.reduceAdd]
  omega

theorem patchedFrame_rest (count size : Nat) (half : size / 2 = count + 2) :
    (wordSum (patchedFrame frame) 38 count +
        if size % 2 = 1 then (patchedFrame frame (33 + size)).toNat * 256 else 0) =
      wordSum frame 38 count + if size % 2 = 1 then (frame (33 + size)).toNat * 256 else 0 := by
  have words : wordSum (patchedFrame frame) 38 count = wordSum frame 38 count :=
    wordSum_congr _ _ fun i above _ => patchedFrame_outside frame (by omega)
  rw [words]
  split
  · rw [patchedFrame_outside frame (by omega)]
  · rfl

variable {frame} (echo : frame 34 = 8)

include echo

theorem wordAt_type : frame.wordAt 34 = 2048 + (frame 35).toNat ∧
    (patchedFrame frame).wordAt 34 = (frame 35).toNat := by
  constructor
  · rw [Frame.wordAt, word, echo]
    rfl
  · rw [Frame.wordAt, word, patchedFrame_type, patchedFrame_outside frame (by decide)]
    simp

theorem patched_valid_cut (valid : 0 < icmpTotal frame 3 ∧ 65535 ∣ icmpTotal frame 3) :
    0 < icmpTotal (patchedFrame frame) 3 ∧ 65535 ∣ icmpTotal (patchedFrame frame) 3 := by
  obtain ⟨old, new⟩ := wordAt_type echo
  have chksum := patchedFrame_chksum frame
  have code := (frame 35).toNat_lt
  have high := (frame 36).toNat_lt
  have low := (frame 37).toNat_lt
  have newLow := (patchedFrame frame 37).toNat_lt
  have total (frame : Frame) : icmpTotal frame 3 = frame.wordAt 34 + (frame 36).toNat * 256 := by
    simp [icmpTotal, wordSum]
  rw [total, old] at valid
  rw [total, new]
  have patched := echoChksum_cases (frame.wordAt_lt 36)
  rw [← chksum] at patched
  simp only [Frame.wordAt, word, Nat.reduceAdd] at patched
  obtain ⟨times, whole⟩ := valid.2
  have once : times = 1 := by omega
  have byte : (frame 36).toNat = 247 := by omega
  have code : (frame 35).toNat = 255 := by omega
  have next : (patchedFrame frame 36).toNat = 255 := by omega
  rw [code, next]
  decide

/-- The patch keeps the sum, or takes 65535 from it where the checksum had a carry. -/
theorem patched_valid {size : Nat} (short : size ≤ 65535)
    (valid : foldSum (icmpTotal frame size) = 0xffff) :
    foldSum (icmpTotal (patchedFrame frame) size) = 0xffff := by
  rw [icmpTotal_valid_iff _ short] at valid ⊢
  obtain ⟨old, new⟩ := wordAt_type echo
  have chksum := patchedFrame_chksum frame
  have small := frame.wordAt_lt 36
  by_cases large : 4 ≤ size
  · obtain ⟨count, half⟩ : ∃ count, size / 2 = count + 2 := ⟨size / 2 - 2, by omega⟩
    rw [icmpTotal_split _ count size half] at valid ⊢
    rw [patchedFrame_rest frame count size half, new, chksum]
    rw [old] at valid
    generalize wordSum frame 38 count + (if size % 2 = 1 then (frame (33 + size)).toNat * 256 else 0) =
      rest at valid ⊢
    have patched := echoChksum_cases small
    omega
  · obtain rfl | rfl | rfl | rfl : size = 0 ∨ size = 1 ∨ size = 2 ∨ size = 3 := by omega
    · exact absurd valid.1 (Nat.lt_irrefl 0)
    · have total : icmpTotal frame 1 = (frame 34).toNat * 256 := by simp [icmpTotal, wordSum]
      rw [total, echo] at valid
      exact absurd valid.2 (by decide)
    · have total : icmpTotal frame 2 = frame.wordAt 34 := by simp [icmpTotal, wordSum]
      have code := (frame 35).toNat_lt
      rw [total, old] at valid
      omega
    · exact patched_valid_cut echo valid

end Patch

section Reply

variable (station : Station) (len : Nat)

def replyFrame : Frame :=
  ipFramed station.myip (station.frame.ipAt 26) len (patchedFrame station.frame)

theorem patchedFrame_source : (patchedFrame station.frame).ipAt 26 = station.frame.ipAt 26 :=
  Frame.ipAt_congr fun _ _ _ => patchedFrame_low _ (by omega)

theorem run_icmpReply : (icmpReply len).run station =
    some ((), (station.put (replyFrame station len)).touch 38) := by
  have source := patchedFrame_source station
  have zero : UInt8.ofNat Hellfire.icmpEchoReply = 0 := rfl
  have chksum : (station.frame.store 34 [0]).wordAt 36 = station.frame.wordAt 36 :=
    wordAt_store_outside _ (by simp)
  have patched : (station.frame.store 34 [0]).store 36 (bytesOf (echoChksum (station.frame.wordAt 36))) =
    patchedFrame station.frame := rfl
  unfold icmpReply replyFrame
  simp only [icmpHdrType, icmpHdrChksum1, zero, ethHeaderSize, ipHdrSrcaddr1,
    run_wrPacket_bind, run_rdPacketWord_bind, run_rdIp_bind, Station.put_frame, Station.touch_frame,
    Nat.reduceAdd, run_ipHeader, chksum, patched, source, Station.touch_myip, Station.put_myip,
    Station.touch_put, Station.put_put, Station.touch_touch, Nat.reduceLeDiff, Nat.max_def, if_false]

theorem icmpEchoReply_eq (echo : station.frame 34 = 8) : (Net.icmpEchoReply len).run station =
    (icmpReply len >>= fun _ => netifSend len >>= fun _ => pure 0).run (station.touch 35) := by
  have same : (station.frame 34).toNat = Hellfire.icmpEcho := by
    rw [echo]
    rfl
  unfold Net.icmpEchoReply icmpReply
  simp only [icmpHdrType, run_rdPacket_bind, Nat.reduceAdd, same, if_true, ipOut, bind_assoc]

structure EchoReply (request reply : Frame) (myip : Ip) (size : Nat) : Prop where
  type : reply 34 = UInt8.ofNat Hellfire.icmpEchoReply
  rest : ∀ i, 34 ≤ i → i < 34 + size → i ≠ 34 → i ≠ 36 → i ≠ 37 → reply i = request i
  valid : foldSum (icmpTotal reply size) = 0xffff
  source : reply.ipAt 26 = myip
  target : reply.ipAt 30 = request.ipAt 26

theorem EchoReply.congr {request reply other : Frame} {myip : Ip} {size : Nat}
    (answer : EchoReply request reply myip size) (same : ∀ i, 14 ≤ i → other i = reply i) :
    EchoReply request other myip size := by
  have addresses : ∀ ofs, 14 ≤ ofs → other.ipAt ofs = reply.ipAt ofs :=
    fun ofs least => Frame.ipAt_congr fun i above below => same i (by omega)
  have total : icmpTotal other size = icmpTotal reply size :=
    icmpTotal_congr (fun i above => same i (by omega)) size
  constructor
  · exact (same 34 (by decide)).trans answer.type
  · intro i above below type high low
    exact (same i (by omega)).trans (answer.rest i above below type high low)
  · exact total ▸ answer.valid
  · exact (addresses 26 (by decide)).trans answer.source
  · exact (addresses 30 (by decide)).trans answer.target

variable {station len}

theorem replyFrame_reply (short : len < 65536) (echo : station.frame 34 = 8)
    (valid : foldSum (icmpTotal station.frame (len - 20)) = 0xffff) :
    EchoReply station.frame (replyFrame station len) station.myip (len - 20) := by
  have behind : ∀ i, 34 ≤ i → replyFrame station len i = patchedFrame station.frame i :=
    fun i above => ipFramed_outside _ _ _ _ (by omega)
  obtain ⟨-, -, -, source, target⟩ := ipFramed_fields station.myip (station.frame.ipAt 26) len
    (patchedFrame station.frame)
  constructor
  · exact (behind 34 (by decide)).trans (patchedFrame_type _)
  · intro i above _ type high low
    rw [behind i above, patchedFrame_outside _ ⟨type, high, low⟩]
  · have same : icmpTotal (replyFrame station len) (len - 20) =
        icmpTotal (patchedFrame station.frame) (len - 20) :=
      icmpTotal_congr behind _
    rw [same]
    exact patched_valid echo (by omega) valid
  · exact source
  · exact target

/-- A valid echo request is answered by a valid reply to its sender: it is built before `netif_send`,
which sends it where the address of the sender is known. -/
theorem echo_reply_valid (station : Station) (len : Nat) (short : len < 65536)
    (echo : station.frame 34 = UInt8.ofNat Hellfire.icmpEcho)
    (valid : foldSum (icmpTotal station.frame (len - ipHeaderSize)) = 0xffff) :
    ∃ built, (icmpReply len).run (station.touch 35) = some ((), built) ∧
      (Net.icmpEchoReply len).run station = (netifSend len >>= fun _ => pure 0).run built ∧
      EchoReply station.frame built.frame station.myip (len - ipHeaderSize) ∧
      ∀ mac, station.resolve (station.frame.ipAt 26) = some mac →
        ∃ after sent, (Net.icmpEchoReply len).run station = some (0, after) ∧
          after.sent = station.sent ++ [Frame.bytesAt sent 0 ((len + ethHeaderSize) % 65536)] ∧
          (∀ i, 14 ≤ i → sent i = built.frame i) ∧
          EchoReply station.frame sent station.myip (len - ipHeaderSize) := by
  have reply := replyFrame_reply short echo valid
  have built := run_icmpReply (station.touch 35) len
  have whole : (Net.icmpEchoReply len).run station = (netifSend len >>= fun _ => pure 0).run
      (((station.touch 35).put (replyFrame station len)).touch 38) := by
    rw [icmpEchoReply_eq station len echo, run_bind_of _ built]
    rfl
  refine ⟨_, built, whole, reply, ?_⟩
  intro mac resolved
  have known : (((station.touch 35).put (replyFrame station len)).touch 38).resolve
      ((((station.touch 35).put (replyFrame station len)).touch 38).frame.ipAt 30) = some mac := by
    simp only [Station.touch_frame, Station.put_frame, Station.touch_resolve, Station.put_resolve,
      reply.target]
    exact resolved
  obtain ⟨-, -, -, kept⟩ := framedBy_fields mac station.mymac (show frameIp < 65536 by decide)
    (replyFrame station len)
  have sends := run_bind_of _ (run_netifSend_resolved _ len known) fun _ => (pure 0 : Net Int)
  exact ⟨_, framedBy mac station.mymac frameIp (replyFrame station len), whole.trans sends, rfl, kept,
    reply.congr kept⟩

end Reply

/-- A request with eight bytes and the checksum 0xf7ff, the last one that is patched without a carry. -/
theorem echo_reply_valid_least : ∃ built,
    (icmpReply 28).run (((stationAt 1).put ((stationAt 1).frame.store 34 [8, 0, 0xf7, 0xff, 0, 0, 0, 0])).touch
      35) = some ((), built) ∧
      foldSum (icmpTotal built.frame 8) = 0xffff := by
  obtain ⟨built, built_by, _, reply, _⟩ := echo_reply_valid
    ((stationAt 1).put ((stationAt 1).frame.store 34 [8, 0, 0xf7, 0xff, 0, 0, 0, 0])) 28 (by decide)
    (by decide) (by decide +kernel)
  exact ⟨built, built_by, reply.valid⟩

end Net

end Hellfire

import Hellfire.NetIpCore

/-!
What the functions of the stack do, one lemma for each: the value that a run returns, the
buffer that it leaves, and how far it has reached into it.
-/

namespace Hellfire

open OnesComplement

namespace Frame

variable (frame : Frame)

theorem store_inside {ofs : Nat} {bytes : List UInt8} {i : Nat} (above : ofs ≤ i)
    (below : i < ofs + bytes.length) : frame.store ofs bytes i = bytes.getD (i - ofs) 0 :=
  if_pos ⟨above, below⟩

theorem store_outside {ofs : Nat} {bytes : List UInt8} {i : Nat}
    (outside : i < ofs ∨ ofs + bytes.length ≤ i) : frame.store ofs bytes i = frame i := by
  rw [store, if_neg]
  omega

theorem store_again {first second : List UInt8} (same : first.length = second.length) (ofs : Nat) :
    (frame.store ofs first).store ofs second = frame.store ofs second := by
  funext i
  simp only [store, same]
  split <;> rfl

theorem wordAt_lt (ofs : Nat) : frame.wordAt ofs < 65536 := by
  have high := (frame ofs).toNat_lt
  have low := (frame (ofs + 1)).toNat_lt
  unfold wordAt word
  omega

variable {first second : Frame} {ofs : Nat}

theorem wordAt_congr (same : ∀ i, ofs ≤ i → i < ofs + 2 → first i = second i) :
    first.wordAt ofs = second.wordAt ofs := by
  rw [wordAt, wordAt, same ofs (by omega) (by omega), same (ofs + 1) (by omega) (by omega)]

theorem ipAt_congr (same : ∀ i, ofs ≤ i → i < ofs + 4 → first i = second i) :
    first.ipAt ofs = second.ipAt ofs := by
  rw [ipAt, ipAt, same ofs (by omega) (by omega), same (ofs + 1) (by omega) (by omega),
    same (ofs + 2) (by omega) (by omega), same (ofs + 3) (by omega) (by omega)]

theorem macAt_congr (same : ∀ i, ofs ≤ i → i < ofs + 6 → first i = second i) :
    first.macAt ofs = second.macAt ofs := by
  rw [macAt, macAt, same ofs (by omega) (by omega), same (ofs + 1) (by omega) (by omega),
    same (ofs + 2) (by omega) (by omega), same (ofs + 3) (by omega) (by omega),
    same (ofs + 4) (by omega) (by omega), same (ofs + 5) (by omega) (by omega)]

end Frame

@[simp] theorem bytesOf_length (value : Nat) : (bytesOf value).length = 2 := rfl

@[simp] theorem Ip.toList_length (ip : Ip) : ip.toList.length = 4 := rfl

@[simp] theorem Mac.toList_length (mac : Mac) : mac.toList.length = 6 := rfl

theorem word_bytesOf {value : Nat} (small : value < 65536) :
    word (UInt8.ofNat (value / 256)) (UInt8.ofNat value) = value := by
  simp only [word, UInt8.toNat_ofNat']
  omega

namespace Station

variable (station : Station)

def put (frame : Frame) : Station := { station with frame := frame }

def output (size : Nat) : Station :=
  { station.touch size with sent := station.sent ++ [station.frame.bytesAt 0 size] }

section Fields

variable (frame : Frame) (bound : Nat)

@[simp] theorem put_frame : (station.put frame).frame = frame := rfl
@[simp] theorem put_mymac : (station.put frame).mymac = station.mymac := rfl
@[simp] theorem put_myip : (station.put frame).myip = station.myip := rfl
@[simp] theorem put_mynm : (station.put frame).mynm = station.mynm := rfl
@[simp] theorem put_mygw : (station.put frame).mygw = station.mygw := rfl
@[simp] theorem put_arpCache : (station.put frame).arpCache = station.arpCache := rfl
@[simp] theorem put_listening : (station.put frame).listening = station.listening := rfl
@[simp] theorem put_sent : (station.put frame).sent = station.sent := rfl
@[simp] theorem put_upcalls : (station.put frame).upcalls = station.upcalls := rfl
@[simp] theorem put_reach : (station.put frame).reach = station.reach := rfl
@[simp] theorem put_resolve (ip : Ip) : (station.put frame).resolve ip = station.resolve ip := rfl
@[simp] theorem put_nextHop (ip : Ip) : (station.put frame).nextHop ip = station.nextHop ip := rfl
@[simp] theorem put_put (other : Frame) : (station.put frame).put other = station.put other := rfl

@[simp] theorem touch_frame : (station.touch bound).frame = station.frame := rfl
@[simp] theorem touch_mymac : (station.touch bound).mymac = station.mymac := rfl
@[simp] theorem touch_myip : (station.touch bound).myip = station.myip := rfl
@[simp] theorem touch_mynm : (station.touch bound).mynm = station.mynm := rfl
@[simp] theorem touch_mygw : (station.touch bound).mygw = station.mygw := rfl
@[simp] theorem touch_arpCache : (station.touch bound).arpCache = station.arpCache := rfl
@[simp] theorem touch_listening : (station.touch bound).listening = station.listening := rfl
@[simp] theorem touch_sent : (station.touch bound).sent = station.sent := rfl
@[simp] theorem touch_upcalls : (station.touch bound).upcalls = station.upcalls := rfl
@[simp] theorem touch_reach : (station.touch bound).reach = max station.reach bound := rfl
@[simp] theorem touch_resolve (ip : Ip) : (station.touch bound).resolve ip = station.resolve ip := rfl
@[simp] theorem touch_nextHop (ip : Ip) : (station.touch bound).nextHop ip = station.nextHop ip := rfl

@[simp] theorem output_sent (size : Nat) :
    (station.output size).sent = station.sent ++ [station.frame.bytesAt 0 size] := rfl
@[simp] theorem output_upcalls (size : Nat) : (station.output size).upcalls = station.upcalls := rfl
@[simp] theorem output_reach (size : Nat) :
    (station.output size).reach = max station.reach size := rfl

@[simp] theorem touch_put : (station.touch bound).put frame = (station.put frame).touch bound := rfl

@[simp] theorem touch_touch (more : Nat) :
    (station.touch bound).touch more = station.touch (max bound more) := by
  simp [touch, Nat.max_assoc]

@[simp] theorem touch_zero : station.touch 0 = station := by
  simp [touch]

end Fields

end Station

namespace Net

variable {α : Type} (station : Station)

theorem run_bind_of {β : Type} {first : Net β} {value : β} {after : Station}
    (done : first.run station = some (value, after)) (next : β → Net α) :
    (first >>= next).run station = (next value).run after := by
  rw [StateT.run_bind, done]
  rfl

section Primitives

variable (ofs : Nat) (bytes : List UInt8)

@[simp] theorem run_rd :
    (rd ofs).run station = some (station.frame ofs, station.touch (ofs + 1)) := rfl

@[simp high] theorem run_rd_bind (next : UInt8 → Net α) : (rd ofs >>= next).run station =
    (next (station.frame ofs)).run (station.touch (ofs + 1)) :=
  run_bind_of station (run_rd station ofs) next

@[simp] theorem run_rdIp :
    (rdIp ofs).run station = some (station.frame.ipAt ofs, station.touch (ofs + 4)) := rfl

@[simp high] theorem run_rdIp_bind (next : Ip → Net α) : (rdIp ofs >>= next).run station =
    (next (station.frame.ipAt ofs)).run (station.touch (ofs + 4)) :=
  run_bind_of station (run_rdIp station ofs) next

@[simp] theorem run_rdMac :
    (rdMac ofs).run station = some (station.frame.macAt ofs, station.touch (ofs + 6)) := rfl

@[simp high] theorem run_rdMac_bind (next : Mac → Net α) : (rdMac ofs >>= next).run station =
    (next (station.frame.macAt ofs)).run (station.touch (ofs + 6)) :=
  run_bind_of station (run_rdMac station ofs) next

@[simp] theorem run_wr :
    (wr ofs bytes).run station = some ((), station.put (station.frame.store ofs bytes)) := rfl

@[simp high] theorem run_wr_bind (next : Unit → Net α) : (wr ofs bytes >>= next).run station =
    (next ()).run (station.put (station.frame.store ofs bytes)) :=
  run_bind_of station (run_wr station ofs bytes) next

@[simp] theorem run_rdWord :
    (rdWord ofs).run station = some (station.frame.wordAt ofs, station.touch (ofs + 2)) := by
  simp [rdWord, Frame.wordAt]

@[simp high] theorem run_rdWord_bind (next : Nat → Net α) : (rdWord ofs >>= next).run station =
    (next (station.frame.wordAt ofs)).run (station.touch (ofs + 2)) :=
  run_bind_of station (run_rdWord station ofs) next

@[simp] theorem run_rdPacket : (rdPacket ofs).run station =
    some (station.frame (14 + ofs), station.touch (14 + ofs + 1)) := rfl

@[simp high] theorem run_rdPacket_bind (next : UInt8 → Net α) : (rdPacket ofs >>= next).run station =
    (next (station.frame (14 + ofs))).run (station.touch (14 + ofs + 1)) :=
  run_bind_of station (run_rdPacket station ofs) next

@[simp] theorem run_rdPacketWord : (rdPacketWord ofs).run station =
    some (station.frame.wordAt (14 + ofs), station.touch (14 + ofs + 2)) :=
  run_rdWord station _

@[simp high] theorem run_rdPacketWord_bind (next : Nat → Net α) :
    (rdPacketWord ofs >>= next).run station =
      (next (station.frame.wordAt (14 + ofs))).run (station.touch (14 + ofs + 2)) :=
  run_rdWord_bind station _ next

@[simp] theorem run_wrPacket : (wrPacket ofs bytes).run station =
    some ((), station.put (station.frame.store (14 + ofs) bytes)) := rfl

@[simp high] theorem run_wrPacket_bind (next : Unit → Net α) :
    (wrPacket ofs bytes >>= next).run station =
      (next ()).run (station.put (station.frame.store (14 + ofs) bytes)) :=
  run_bind_of station (run_wrPacket station ofs bytes) next

@[simp] theorem run_enLlOutput (size : Nat) :
    (enLlOutput size).run station = some ((), station.output (size % 65536)) := rfl

@[simp high] theorem run_enLlOutput_bind (size : Nat) (next : Unit → Net α) :
    (enLlOutput size >>= next).run station = (next ()).run (station.output (size % 65536)) :=
  run_bind_of station (run_enLlOutput station size) next

@[simp high] theorem run_get_bind (next : Station → Net α) :
    ((get : Net Station) >>= next).run station = (next station).run station :=
  run_bind_of station (StateT.run_get station) next

@[simp] theorem run_ite {condition : Prop} [Decidable condition] (yes no : Net α) :
    (if condition then yes else no).run station =
      if condition then yes.run station else no.run station :=
  apply_ite (fun run : Net α => run.run station) _ _ _

end Primitives

end Net

section Comparisons

def comparedTo (frame : Frame) : Nat → List UInt8 → Nat
  | _, [] => 0
  | ofs, byte :: bytes =>
      if frame ofs = byte then max (ofs + 1) (comparedTo frame (ofs + 1) bytes) else ofs + 1

def matchesAt (frame : Frame) : Nat → List UInt8 → Bool
  | _, [] => true
  | ofs, byte :: bytes => frame ofs = byte && matchesAt frame (ofs + 1) bytes

@[simp] theorem Net.run_memcmp (bytes : List UInt8) : ∀ (ofs : Nat) (station : Station),
    (memcmp ofs bytes).run station = some (matchesAt station.frame ofs bytes,
      station.touch (comparedTo station.frame ofs bytes)) := by
  induction bytes with
  | nil =>
      intro ofs station
      simp [memcmp, matchesAt, comparedTo]
  | cons byte bytes ih =>
      intro ofs station
      by_cases same : station.frame ofs = byte
      · simp [memcmp, matchesAt, comparedTo, same, ih]
      · simp [memcmp, matchesAt, comparedTo, same]

@[simp high] theorem Net.run_memcmp_bind {α : Type} (station : Station) (ofs : Nat)
    (bytes : List UInt8) (next : Bool → Net α) : (memcmp ofs bytes >>= next).run station =
      (next (matchesAt station.frame ofs bytes)).run
        (station.touch (comparedTo station.frame ofs bytes)) :=
  run_bind_of station (run_memcmp bytes ofs station) next

theorem matchesAt_ip (frame : Frame) (ofs : Nat) (ip : Ip) :
    matchesAt frame ofs ip.toList = decide (frame.ipAt ofs = ip) := by
  obtain ⟨b0, b1, b2, b3⟩ := ip
  simp [matchesAt, Ip.toList, Frame.ipAt, Bool.decide_and]

theorem matchesAt_mac (frame : Frame) (ofs : Nat) (mac : Mac) :
    matchesAt frame ofs mac.toList = decide (frame.macAt ofs = mac) := by
  obtain ⟨b0, b1, b2, b3, b4, b5⟩ := mac
  simp [matchesAt, Mac.toList, Frame.macAt, Bool.decide_and]

theorem comparedTo_of_matches (frame : Frame) (bytes : List UInt8) : ∀ ofs, bytes ≠ [] →
    matchesAt frame ofs bytes = true → comparedTo frame ofs bytes = ofs + bytes.length := by
  induction bytes with
  | nil => exact fun _ none => absurd rfl none
  | cons byte bytes ih =>
      intro ofs _ same
      simp only [matchesAt, Bool.and_eq_true, decide_eq_true_eq] at same
      rw [comparedTo, if_pos same.1, List.length_cons]
      by_cases last : bytes = []
      · rw [last]
        simp [comparedTo]
      · rw [ih (ofs + 1) last same.2]
        omega

theorem comparedTo_ip {frame : Frame} {ofs : Nat} {ip : Ip} (same : frame.ipAt ofs = ip) :
    comparedTo frame ofs ip.toList = ofs + 4 :=
  comparedTo_of_matches frame _ ofs (by simp [Ip.toList]) (by simp [matchesAt_ip, same])

end Comparisons

section Checksums

def headerSum (frame : Frame) : Nat :=
  frame.wordAt 14 + frame.wordAt 16 + frame.wordAt 18 + frame.wordAt 20 + frame.wordAt 22 +
    frame.wordAt 24 + frame.wordAt 26 + frame.wordAt 28 + frame.wordAt 30 + frame.wordAt 32

theorem Net.run_ipchksum (station : Station) :
    ipchksum.run station = some (foldSum (headerSum station.frame), station.touch 34) := by
  simp [ipchksum, ipSum, headerSum]

@[simp high] theorem Net.run_ipchksum_bind {α : Type} (station : Station) (next : Nat → Net α) :
    (ipchksum >>= next).run station =
      (next (foldSum (headerSum station.frame))).run (station.touch 34) :=
  run_bind_of station (run_ipchksum station) next

def wordSum (frame : Frame) (ofs : Nat) : Nat → Nat
  | 0 => 0
  | count + 1 => frame.wordAt ofs + wordSum frame (ofs + 2) count

def udpTotal (frame : Frame) (len : Nat) : Nat :=
  frame.wordAt 26 + frame.wordAt 28 + frame.wordAt 30 + frame.wordAt 32 + ipProtoUdp + len +
    wordSum frame 34 (len / 2) +
    if len % 2 = 1 then (frame (14 + (len + 19))).toNat * 256 else 0

theorem Net.run_udpSum (len count : Nat) : ∀ (turns i sum : Nat) (station : Station),
    count < turns → i + 2 * count < 65536 → len + 19 ≤ i + 2 * count →
    i + 2 * count < len + 21 →
    (udpSum len turns i sum).run station =
      some (sum + wordSum station.frame (14 + i) count,
        station.touch (if count = 0 then 0 else 14 + i + 2 * count)) := by
  induction count with
  | zero =>
      intro turns i sum station enough _ stop _
      obtain ⟨turns, rfl⟩ := Nat.exists_eq_add_of_lt enough
      have done : ¬i < len + 19 := by omega
      simp [udpSum, done, wordSum]
  | succ count ih =>
      intro turns i sum station enough small stop near
      obtain ⟨turns, rfl⟩ : ∃ more, turns = more + 1 := ⟨turns - 1, by omega⟩
      have more : i < len + 19 := by omega
      have next : (i + 2) % 65536 = i + 2 := by omega
      have later := ih turns (i + 2) (sum + station.frame.wordAt (14 + i))
        (station.touch (14 + i + 2)) (by omega) (by omega) (by omega) (by omega)
      have reach : max (14 + i + 2) (if count = 0 then 0 else 14 + (i + 2) + 2 * count) =
          14 + i + 2 * (count + 1) := by
        split <;> omega
      rw [udpSum, if_pos (by simpa using more), StateT.run_bind, run_rdPacketWord]
      simp only [Option.bind_eq_bind, Option.bind_some, next]
      rw [later, Station.touch_frame, Station.touch_touch, reach, if_neg (Nat.succ_ne_zero count),
        Nat.add_assoc sum]
      rfl

/-- `udpchksum` with a bound on the turns of its first loop, and `close` for all that follows the sum. -/
def Net.udpchksumWith (turns : Nat) (close : Nat → Net Nat) (len : Nat) : Net Nat := do
  let src1 ← rdPacketWord ipHdrSrcaddr1
  let src2 ← rdPacketWord (ipHdrSrcaddr1 + 2)
  let dst1 ← rdPacketWord ipHdrDestaddr1
  let dst2 ← rdPacketWord (ipHdrDestaddr1 + 2)
  let sum ← udpSum len turns ipHeaderSize (src1 + src2 + dst1 + dst2 + ipProtoUdp + len)
  if len % 2 = 1 then do
    let last ← rdPacket (len + ipHeaderSize - 1)
    close (sum + last.toNat * 256)
  else close sum

theorem Net.run_udpchksumWith (station : Station) (close : Nat → Net Nat) {len : Nat}
    (short : len ≤ 65515) :
    (udpchksumWith udpTurns close len).run station =
      (close (udpTotal station.frame len)).run (station.touch (34 + len)) := by
  have loop : ∀ sum, (udpSum len udpTurns 20 sum).run (station.touch 34) =
      some (sum + wordSum station.frame 34 (len / 2),
        station.touch (if len / 2 = 0 then 34 else 34 + 2 * (len / 2))) := by
    intro sum
    rw [run_udpSum len (len / 2) udpTurns 20 sum _ (by unfold udpTurns; omega) (by omega) (by omega)
      (by omega), Station.touch_frame, Station.touch_touch]
    congr 3
    split <;> omega
  unfold udpchksumWith
  simp only [ipHdrSrcaddr1, ipHdrDestaddr1, ipHeaderSize, StateT.run_bind, run_rdPacketWord,
    Option.bind_eq_bind, Option.bind_some, Station.touch_frame, Station.touch_touch, Nat.reduceAdd,
    Nat.reduceLeDiff, Nat.max_def, if_true, loop]
  by_cases odd : len % 2 = 1
  · have last : 14 + (len + 20 - 1) = 14 + (len + 19) := by omega
    have reach : max (if len / 2 = 0 then 34 else 34 + 2 * (len / 2)) (14 + (len + 19) + 1) =
        34 + len := by
      split <;> omega
    rw [if_pos odd, StateT.run_bind, run_rdPacket, last]
    simp only [Option.bind_eq_bind, Option.bind_some, Station.touch_frame,
      Station.touch_touch, reach, udpTotal, if_pos odd]
  · have reach : (if len / 2 = 0 then 34 else 34 + 2 * (len / 2)) = 34 + len := by
      split <;> omega
    rw [if_neg odd]
    simp only [reach, udpTotal, if_neg odd, Nat.add_zero]

theorem Net.run_udpchksum (station : Station) {len : Nat} (short : len ≤ 65515) :
    (udpchksum len).run station =
      some (65535 - foldSum (udpTotal station.frame len), station.touch (34 + len)) :=
  run_udpchksumWith station (fun sum => pure (65535 - foldSum sum)) short

theorem headerSum_le (frame : Frame) : headerSum frame ≤ 10 * 65535 := by
  have lt := frame.wordAt_lt
  have := lt 14
  have := lt 16
  have := lt 18
  have := lt 20
  have := lt 22
  have := lt 24
  have := lt 26
  have := lt 28
  have := lt 30
  have := lt 32
  unfold headerSum
  omega

theorem wordSum_congr {first second : Frame} (count : Nat) : ∀ ofs,
    (∀ i, ofs ≤ i → i < ofs + 2 * count → first i = second i) →
    wordSum first ofs count = wordSum second ofs count := by
  induction count with
  | zero => exact fun _ _ => rfl
  | succ count ih =>
      intro ofs same
      have head : first.wordAt ofs = second.wordAt ofs :=
        Frame.wordAt_congr fun i above below => same i above (by omega)
      have rest := ih (ofs + 2) fun i above below => same i (by omega) (by omega)
      rw [wordSum, wordSum, rest, head]

theorem headerSum_congr {first second : Frame} (same : ∀ i, 14 ≤ i → i < 34 → first i = second i) :
    headerSum first = headerSum second := by
  have words : ∀ ofs, 14 ≤ ofs → ofs < 33 → first.wordAt ofs = second.wordAt ofs :=
    fun ofs least most => Frame.wordAt_congr fun i above below => same i (by omega) (by omega)
  rw [headerSum, headerSum, words 14, words 16, words 18, words 20, words 22, words 24, words 26,
    words 28, words 30, words 32]
  all_goals omega

theorem udpTotal_congr {first second : Frame} {len : Nat}
    (same : ∀ i, 26 ≤ i → i < 34 + len → first i = second i) :
    udpTotal first len = udpTotal second len := by
  have data : wordSum first 34 (len / 2) = wordSum second 34 (len / 2) :=
    wordSum_congr _ _ fun i above below => same i (by omega) (by omega)
  have last : len % 2 = 1 → first (14 + (len + 19)) = second (14 + (len + 19)) :=
    fun odd => same _ (by omega) (by omega)
  have addresses : ∀ ofs, 26 ≤ ofs → ofs < 33 → first.wordAt ofs = second.wordAt ofs :=
    fun ofs least most => Frame.wordAt_congr fun i above below => same i (by omega) (by omega)
  rw [udpTotal, udpTotal, data, addresses 26, addresses 28, addresses 30, addresses 32]
  · split
    · rename_i odd
      rw [last odd]
    · rfl
  all_goals omega

end Checksums

section Headers

def udpZeroed (myip dstAddr : Ip) (srcPort dstPort len : Nat) (frame : Frame) : Frame :=
  (((((((frame.store 26 myip.toList).store 30 dstAddr.toList).store 34 (bytesOf srcPort)).store 36
    (bytesOf dstPort)).store 38 (bytesOf len)).store 40 [0, 0]).store 23 [UInt8.ofNat ipProtoUdp])

def udpFramed (myip dstAddr : Ip) (srcPort dstPort len : Nat) (frame : Frame) : Frame :=
  let zeroed := udpZeroed myip dstAddr srcPort dstPort len frame
  zeroed.store 40 (bytesOf (65535 - foldSum (udpTotal zeroed len)))

theorem Net.run_udpHeader (station : Station) (dstAddr : Ip) (srcPort dstPort : Nat) {len : Nat}
    (short : len ≤ 65515) : (udpHeader dstAddr srcPort dstPort len).run station =
      some ((), (station.put (udpFramed station.myip dstAddr srcPort dstPort len station.frame)).touch
        (34 + len)) := by
  unfold udpHeader
  simp [run_udpchksum _ short, udpFramed, udpZeroed]

def ipZeroed (myip dstAddr : Ip) (len : Nat) (frame : Frame) : Frame :=
  ((((((((frame.store 14 [UInt8.ofNat (ipVerIhl / 256)]).store 15 [0]).store 16 (bytesOf len)).store 18
    [0, 0]).store 20 [0, 0]).store 22 [UInt8.ofNat ipDefaultTtl]).store 26 myip.toList).store 30
    dstAddr.toList).store 24 [0, 0]

def ipFramed (myip dstAddr : Ip) (len : Nat) (frame : Frame) : Frame :=
  let zeroed := ipZeroed myip dstAddr len frame
  zeroed.store 24 (bytesOf (65535 - foldSum (headerSum zeroed)))

theorem Net.run_ipHeader (station : Station) (dstAddr : Ip) (len : Nat) :
    (ipHeader dstAddr len).run station =
      some ((), (station.put (ipFramed station.myip dstAddr len station.frame)).touch 34) := by
  unfold ipHeader
  simp [ipFramed, ipZeroed]

end Headers

end Hellfire

import Hellfire.ArpResolution

/-!
How far the processing of a received frame reaches into the buffer. The length of a frame
bounds nothing in the stack, so that it has to be compared with what the headers ask for.
-/

namespace Hellfire

open OnesComplement

namespace Net

section Reach

variable {α β : Type} {station after : Station} {n : Nat} {fits more : Prop}

/-- The run ends, and keeps below `n` exactly if `fits`. -/
def EndsWithin (code : Net α) (station : Station) (n : Nat) (fits : Prop) : Prop :=
  ∃ value after, code.run station = some (value, after) ∧
    (after.reach ≤ n ↔ station.reach ≤ n ∧ fits)

namespace EndsWithin

theorem congr {code : Net α} (ends : EndsWithin code station n fits) (same : fits ↔ more) :
    EndsWithin code station n more := by
  obtain ⟨value, after, ran, reach⟩ := ends
  exact ⟨value, after, ran, by rw [reach, same]⟩

theorem pure (value : α) : EndsWithin (pure value) station n True :=
  ⟨value, station, rfl, by simp⟩

theorem ite {condition : Prop} [Decidable condition] {yes no : Net α}
    (first : condition → EndsWithin yes station n fits)
    (second : ¬condition → EndsWithin no station n more) :
    EndsWithin (if condition then yes else no) station n
      ((condition → fits) ∧ (¬condition → more)) := by
  by_cases holds : condition
  · rw [if_pos holds]
    exact (first holds).congr (by simp [holds])
  · rw [if_neg holds]
    exact (second holds).congr (by simp [holds])

theorem bind {first : Net β} {next : β → Net α} (ends : EndsWithin first station n fits)
    (later : ∀ value after, first.run station = some (value, after) →
      EndsWithin (next value) after n more) :
    EndsWithin (first >>= next) station n (fits ∧ more) := by
  obtain ⟨value, after, done, reach⟩ := ends
  obtain ⟨result, final, ran, final_reach⟩ := later value after done
  refine ⟨result, final, (run_bind_of station done next).trans ran, ?_⟩
  rw [final_reach, reach, and_assoc]

theorem bind_run {first : Net β} {value : β} {next : β → Net α}
    (done : first.run station = some (value, after))
    (reach : after.reach ≤ n ↔ station.reach ≤ n ∧ fits)
    (later : EndsWithin (next value) after n more) :
    EndsWithin (first >>= next) station n (fits ∧ more) := by
  refine bind ⟨value, after, done, reach⟩ ?_
  intro other final same
  rw [done] at same
  obtain ⟨rfl, rfl⟩ := Prod.mk.inj (Option.some.inj same)
  exact later

section Steps

variable {ofs : Nat}

theorem rd {next : UInt8 → Net α}
    (later : EndsWithin (next (station.frame ofs)) (station.touch (ofs + 1)) n fits) :
    EndsWithin (rd ofs >>= next) station n (ofs + 1 ≤ n ∧ fits) :=
  bind_run (run_rd station ofs) Nat.max_le later

theorem rdWord {next : Nat → Net α}
    (later : EndsWithin (next (station.frame.wordAt ofs)) (station.touch (ofs + 2)) n fits) :
    EndsWithin (rdWord ofs >>= next) station n (ofs + 2 ≤ n ∧ fits) :=
  bind_run (run_rdWord station ofs) Nat.max_le later

theorem rdIp {next : Ip → Net α}
    (later : EndsWithin (next (station.frame.ipAt ofs)) (station.touch (ofs + 4)) n fits) :
    EndsWithin (rdIp ofs >>= next) station n (ofs + 4 ≤ n ∧ fits) :=
  bind_run (run_rdIp station ofs) Nat.max_le later

theorem rdMac {next : Mac → Net α}
    (later : EndsWithin (next (station.frame.macAt ofs)) (station.touch (ofs + 6)) n fits) :
    EndsWithin (rdMac ofs >>= next) station n (ofs + 6 ≤ n ∧ fits) :=
  bind_run (run_rdMac station ofs) Nat.max_le later

theorem wr {bytes : List UInt8} {next : Unit → Net α}
    (later : EndsWithin (next ()) (station.put (station.frame.store ofs bytes)) n fits) :
    EndsWithin (wr ofs bytes >>= next) station n fits :=
  congr (bind_run (run_wr station ofs bytes) (iff_of_eq (and_true _).symm) later) (iff_of_eq (true_and _))

theorem memcmp {bytes : List UInt8} {next : Bool → Net α}
    (later : EndsWithin (next (matchesAt station.frame ofs bytes))
      (station.touch (comparedTo station.frame ofs bytes)) n fits) :
    EndsWithin (memcmp ofs bytes >>= next) station n
      (comparedTo station.frame ofs bytes ≤ n ∧ fits) :=
  bind_run (run_memcmp bytes ofs station) Nat.max_le later

theorem get {next : Station → Net α} (later : EndsWithin (next station) station n fits) :
    EndsWithin ((MonadState.get : Net Station) >>= next) station n fits :=
  congr (bind_run (StateT.run_get station) (iff_of_eq (and_true _).symm) later) (iff_of_eq (true_and _))

theorem enLlOutput (size : Nat) :
    EndsWithin (enLlOutput size) station n (size % 65536 ≤ n) :=
  ⟨(), _, run_enLlOutput station size, Nat.max_le⟩

theorem modify {change : Station → Station} (kept : (change station).reach = station.reach) :
    EndsWithin (modify change : Net Unit) station n True :=
  ⟨(), change station, rfl, by rw [kept, and_true]⟩

end Steps

end EndsWithin

end Reach

section Paths

def ArpFits (station : Station) (n : Nat) : Prop :=
  16 ≤ n ∧ (station.frame.wordAt 14 = hardwEth10 → 18 ≤ n ∧
    (station.frame.wordAt 16 = frameIp → 20 ≤ n ∧
      (station.frame.wordAt 18 = ipHlenPlen → 22 ≤ n ∧
        (station.frame.wordAt 20 = opArpRequest →
          comparedTo station.frame 38 station.myip.toList ≤ n) ∧
        (station.frame.wordAt 20 = opArpAnswer → 32 ≤ n))))

def IcmpFits (station : Station) (n : Nat) : Prop :=
  35 ≤ n ∧ (station.frame 34 = 8 → 38 ≤ n ∧
    (station.resolve (station.frame.ipAt 26) = none → 56 ≤ n))

def UdpFits (station : Station) (n : Nat) : Prop :=
  42 ≤ n ∧ 34 + station.frame.wordAt 38 ≤ n ∧
    (UdpAccepted station.frame → station.frame.wordAt 36 = portEcho →
      station.resolve (station.frame.ipAt 26) = none → 56 ≤ n)

def IpFits (station : Station) (len n : Nat) : Prop :=
  15 ≤ n ∧ (station.frame 14 = 0x45 → 22 ≤ n ∧
    (station.frame.wordAt 20 &&& (ipFlagMorefrag ||| ipFragofsMask) = 0 → 23 ≤ n ∧
      (station.frame 22 ≠ 0 →
        (configured station.myip = true → comparedTo station.frame 30 station.myip.toList ≤ n ∧
          (station.frame.ipAt 30 = station.myip → foldSum (headerSum station.frame) = 0xffff →
            (station.frame 23 = 1 → IcmpFits station n) ∧
            (station.frame 23 = 17 → UdpFits station n))) ∧
        (configured station.myip = false → 24 ≤ n ∧
          (station.frame 23 = 1 → len = ipCfgPing + ipHeaderSize + icmpHdrSize → 34 ≤ n)))))

def FrameFits (station : Station) (n : Nat) : Prop :=
  addressReach station ≤ n ∧ (Addressed station (station.frame.macAt 0) → 14 ≤ n ∧
    (station.frame.wordAt 12 = frameArp → ArpFits station n) ∧
    (station.frame.wordAt 12 = frameIp → 18 ≤ n ∧ 14 + station.frame.wordAt 16 ≤ n ∧
      (0 < station.frame.wordAt 16 → IpFits station (station.frame.wordAt 16) n)))

variable (station : Station) (n : Nat)

@[simp] theorem arpUpdate_reach (ip : Ip) (mac : Mac) :
    (station.arpUpdate ip mac).reach = station.reach := by
  unfold Station.arpUpdate
  split <;> rfl

theorem arpRecv_within : EndsWithin arpRecv station n (ArpFits station n) := by
  have compared : (comparedTo station.frame 38 station.myip.toList ≤ n ∧
      (matchesAt station.frame 38 station.myip.toList = true → 32 ≤ n ∧ 42 ≤ n)) ↔
      comparedTo station.frame 38 station.myip.toList ≤ n := by
    refine and_iff_left_of_imp fun below same => ?_
    rw [matchesAt_ip, decide_eq_true_eq] at same
    rw [comparedTo_ip same] at below
    omega
  unfold arpRecv
  refine .congr
    (.rdWord (.ite (fun _ => .rdWord (.ite (fun _ => .rdWord (.ite (fun _ => .rdWord (.ite
      (fun _ => .get (.memcmp (.ite
        (fun _ => .bind_run (run_arpReply _) Nat.max_le (.enLlOutput 42))
        fun _ => .pure ())))
      fun _ => .rdWord (.ite
        (fun _ => .rdIp (.rdMac (.modify (arpUpdate_reach _ _ _)))) fun _ => .pure ())))
      fun _ => .pure ())) fun _ => .pure ())) fun _ => .pure ())) ?_
  simp only [Station.touch_frame, Station.touch_myip, Nat.reduceAdd, Nat.reduceMod, arpTargetIpOfs,
    arpHardwOfs, arpProtOfs, arpHlenPlenOfs, arpOpcodeOfs, arpSenderIpOfs, arpSenderHaOfs, compared,
    and_true, implies_true]
  simp only [ArpFits, opArpRequest, opArpAnswer]
  omega

theorem byte_eq {byte : UInt8} {value : Nat} (small : value < 256) :
    byte.toNat = value ↔ byte = UInt8.ofNat value := by
  rw [← UInt8.toNat_inj, UInt8.toNat_ofNat', Nat.mod_eq_of_lt small]

theorem netifSend_within (len : Nat) : EndsWithin (netifSend len) station n (34 ≤ n ∧
    (station.resolve (station.frame.ipAt 30) = none → 56 ≤ n) ∧
    (station.resolve (station.frame.ipAt 30) ≠ none → (len + 14) % 65536 ≤ n)) := by
  cases lookup : station.resolve (station.frame.ipAt 30) with
  | none =>
      refine ⟨_, _, run_netifSend_unresolved station len lookup, ?_⟩
      simp
      omega
  | some mac =>
      refine ⟨_, _, run_netifSend_resolved station len lookup, ?_⟩
      simp
      omega

theorem ipOut_within (dstAddr : Ip) (len : Nat) : EndsWithin (ipOut dstAddr len) station n
    (34 ≤ n ∧ (station.resolve dstAddr = none → 56 ≤ n) ∧
      (station.resolve dstAddr ≠ none → (len + 14) % 65536 ≤ n)) := by
  obtain ⟨-, -, -, -, target⟩ := ipFramed_fields station.myip dstAddr len station.frame
  refine .congr (.bind_run (run_ipHeader station dstAddr len) Nat.max_le (netifSend_within _ n len)) ?_
  simp [target]

theorem icmpEchoReply_within {len : Nat} (short : 14 + len ≤ n) (small : n < 65536) :
    EndsWithin (Net.icmpEchoReply len) station n (IcmpFits station n) := by
  have whole : (len + 14) % 65536 ≤ n := by omega
  have sender : ∀ first second, ((station.frame.store 34 first).store 36 second).ipAt 26 =
      station.frame.ipAt 26 := by
    intro first second
    rw [Frame.ipAt, Frame.ipAt]
    iterate 8 rw [Frame.store_outside _ (by omega)]
  unfold Net.icmpEchoReply
  refine .congr (.rd (.ite (fun _ => .wr (.rdWord (.wr (.rdIp (.bind (ipOut_within _ n _ len)
    fun _ _ _ => .pure 0))))) fun _ => .pure (-1))) ?_
  simp only [ethHeaderSize, icmpHdrType, icmpHdrChksum1, ipHdrSrcaddr1, Nat.reduceAdd,
    Station.touch_frame, Station.put_frame, Station.touch_resolve, Station.put_resolve, sender, whole,
    icmpEcho, byte_eq (show 8 < 256 by decide), implies_true, and_true, IcmpFits]
  refine and_congr_right fun _ => forall_congr' fun _ => ?_
  constructor
  · rintro ⟨chksum, _, _, request⟩
    exact ⟨chksum, request⟩
  · rintro ⟨chksum, request⟩
    exact ⟨chksum, by omega, by omega, request⟩

theorem udpOut_within (dstAddr : Ip) (srcPort dstPort : Nat) {len : Nat} (short : len ≤ 65515) :
    EndsWithin (udpOut dstAddr srcPort dstPort len) station n
      (34 + len ≤ n ∧ (station.resolve dstAddr = none → 56 ≤ n)) := by
  refine .congr (.bind_run (run_udpHeader station dstAddr srcPort dstPort short) Nat.max_le
    (ipOut_within _ n dstAddr _)) ?_
  simp only [Station.touch_resolve, Station.put_resolve, ipHeaderSize]
  constructor
  · exact fun ⟨datagram, _, request, _⟩ => ⟨datagram, request⟩
  · exact fun ⟨datagram, request⟩ => ⟨datagram, by omega, request, fun _ => by omega⟩

theorem udpIn_within (whole : 34 + station.frame.wordAt 38 ≤ n) (small : n < 65536) :
    EndsWithin udpIn station n (UdpFits station n) := by
  have short : station.frame.wordAt 38 ≤ 65515 := by omega
  obtain ⟨bound, below, checked⟩ := run_udpChecked ((station.touch 42).touch 40) short
  unfold udpIn
  refine .congr (.rdWord (.rdWord (.bind_run checked Nat.max_le (.ite (fun _ => .rdWord (.rdWord
    (.ite (fun _ => .rdIp (.bind (udpOut_within _ n _ _ _ short) fun _ _ _ => .pure 0))
      fun _ => .ite (fun _ => .pure 0) fun _ => .bind (.modify ?_) fun _ _ _ => .pure _)))
    fun _ => .pure (-1))))) ?_
  · split <;> rfl
  simp only [decide_eq_true_eq]
  simp only [ethHeaderSize, udpHdrChksum1, udpHdrLen1, udpHdrSrcport1, udpHdrDestport1, ipHdrSrcaddr1,
    Nat.reduceAdd, Station.touch_frame, Station.put_frame, Station.touch_resolve, Station.put_resolve,
    checkedFrame_wordAt _ (show 36 < 39 by decide), checkedFrame_ipAt _ (show 26 < 37 by decide),
    implies_true, and_true, UdpFits]
  simp only [Station.touch_frame] at below
  constructor
  · exact fun ⟨fields, _, _, replies⟩ =>
      ⟨fields, whole, fun accepted echo => ((replies accepted).2.2 echo).2.2⟩
  · exact fun ⟨fields, _, replies⟩ => ⟨fields, by omega, by omega, fun accepted =>
      ⟨by omega, by omega, fun echo => ⟨by omega, whole, replies accepted echo⟩⟩⟩

theorem magicPing_within (len : Nat) : EndsWithin (magicPing len) station n (24 ≤ n ∧
    (station.frame 23 = 1 → len = ipCfgPing + ipHeaderSize + icmpHdrSize → 34 ≤ n)) := by
  unfold magicPing
  refine .congr (.rd (.ite (fun _ => .ite (fun _ => .rdIp (.bind (.modify ?_) fun _ _ _ => .pure 0))
    fun _ => .pure 0) fun _ => .pure 0)) ?_
  · rfl
  simp only [ethHeaderSize, ipHdrProto, ipHdrDestaddr1, Nat.reduceAdd, ipProtoIcmp,
    byte_eq (show 1 < 256 by decide), implies_true, and_true]
  exact Iff.rfl

@[simp] theorem arpFits_touch (bound : Nat) :
    ArpFits (station.touch bound) n ↔ ArpFits station n := Iff.rfl

@[simp] theorem icmpFits_touch (bound : Nat) :
    IcmpFits (station.touch bound) n ↔ IcmpFits station n := Iff.rfl

@[simp] theorem udpFits_touch (bound : Nat) :
    UdpFits (station.touch bound) n ↔ UdpFits station n := Iff.rfl

@[simp] theorem ipAccepted_touch (dstAddr : Ip) (bound : Nat) :
    IpAccepted (station.touch bound) dstAddr ↔ IpAccepted station dstAddr :=
  ⟨fun a => ⟨a.1, a.2, a.3, a.4, a.5, a.6⟩, fun a => ⟨a.1, a.2, a.3, a.4, a.5, a.6⟩⟩

theorem ipIn_within {len : Nat} (short : 14 + len ≤ n) (small : n < 65536)
    (whole : IpAccepted station station.myip → station.frame 23 = 17 →
      34 + station.frame.wordAt 38 ≤ n) :
    EndsWithin (ipIn station.myip len) station n (IpFits station len n) := by
  have one : (station.frame 23).toNat = 1 ↔ station.frame 23 = UInt8.ofNat 1 := byte_eq (by decide)
  have seventeen : (station.frame 23).toNat = 17 ↔ station.frame 23 = UInt8.ofNat 17 :=
    byte_eq (by decide)
  have upper : (comparedTo station.frame 30 station.myip.toList ≤ n ∧
      (station.frame.ipAt 30 = station.myip → 34 ≤ n ∧ (foldSum (headerSum station.frame) = 65535 →
        24 ≤ n ∧ ((station.frame 23).toNat = 1 → IcmpFits station n) ∧
          (¬(station.frame 23).toNat = 1 → (station.frame 23).toNat = 17 → UdpFits station n)))) ↔
      comparedTo station.frame 30 station.myip.toList ≤ n ∧
        (station.frame.ipAt 30 = station.myip → foldSum (headerSum station.frame) = 65535 →
          (station.frame 23 = 1 → IcmpFits station n) ∧ (station.frame 23 = 17 → UdpFits station n)) := by
    refine and_congr_right fun compared => forall_congr' fun mine => ?_
    rw [comparedTo_ip mine] at compared
    constructor
    · intro ⟨_, checked⟩ chksum
      obtain ⟨_, icmp, udp⟩ := checked chksum
      exact ⟨fun proto => icmp (one.mpr proto), fun proto =>
        udp (by rw [seventeen.mpr proto]; decide) (seventeen.mpr proto)⟩
    · intro checked
      refine ⟨compared, fun chksum => ⟨by omega, fun proto => (checked chksum).1 (one.mp proto),
        fun _ proto => (checked chksum).2 (seventeen.mp proto)⟩⟩
  unfold ipIn
  refine .congr (.get (.rd (.ite (fun _ => .pure (-1)) fun vhl => .rdWord (.ite (fun _ => .pure (-1))
    fun flags => .rd (.ite (fun _ => .pure (-1)) fun ttl => .ite (fun up => .memcmp (.ite
      (fun _ => .pure (-1)) fun mine => .bind_run (run_ipchksum _) Nat.max_le (.ite
        (fun _ => .pure (-1)) fun chksum => .rd (.ite (fun _ => icmpEchoReply_within _ n short small)
          fun _ => .ite (fun udp => udpIn_within _ n ?_ small) fun _ => .pure (-1)))))
    fun _ => magicPing_within _ n len))))) ?_
  · simp only [ethHeaderSize, ipHdrVhl, ipHdrFlags1, ipHdrTtl, ipHdrDestaddr1, ipHdrProto, ipVerIhl,
      ipProtoUdp, Nat.reduceAdd, Nat.reduceDiv, Station.touch_frame, ne_eq, not_not, Bool.not_eq_false,
      matchesAt_ip, decide_eq_true_eq, byte_eq (show 69 < 256 by decide),
      byte_eq (show 17 < 256 by decide)] at vhl flags ttl mine chksum udp ⊢
    exact whole ⟨vhl, flags, ttl, up, mine, chksum⟩ udp
  simp only [ethHeaderSize, ipHdrVhl, ipHdrFlags1, ipHdrTtl, ipHdrDestaddr1, ipHdrProto, Nat.reduceAdd,
    Station.touch_frame, ne_eq, not_not, Bool.not_eq_true, Bool.not_eq_false, implies_true, and_true,
    true_and, matchesAt_ip, decide_eq_true_eq, icmpFits_touch, udpFits_touch, ipProtoIcmp, ipProtoUdp,
    upper, byte_eq (show 69 < 256 by decide), ipVerIhl, Nat.reduceDiv, IpFits]
  exact Iff.rfl

section Received

variable (received : List UInt8)

/-- The processing of a frame stays inside of it: it ends, it neither reads nor sends bytes that
were not received, and no length that it takes from a header points beyond the frame. -/
structure StaysInside (station : Station) (received : List UInt8) : Prop where
  ends : ∃ after, (ustackService received).run station = some ((), after) ∧
    after.reach ≤ received.length
  ipLength : ∀ len filled, (netifRecv received).run station = some (len, filled) →
    len ≤ received.length - ethHeaderSize
  udpLength : ∀ len filled, (netifRecv received).run station = some (len, filled) → 0 < len →
    IpAccepted filled filled.myip → filled.frame 23 = 17 →
    34 + filled.frame.wordAt 38 ≤ received.length

def receivedLength (station : Station) : Nat :=
  if Addressed station (station.frame.macAt 0) ∧ station.frame.wordAt 12 = frameIp then
    station.frame.wordAt 16
  else 0

def LinkFits (station : Station) (n : Nat) : Prop :=
  addressReach station ≤ n ∧ (Addressed station (station.frame.macAt 0) → 14 ≤ n ∧
    (station.frame.wordAt 12 = frameArp → ArpFits station n) ∧
    (station.frame.wordAt 12 = frameIp → 18 ≤ n))

def filledWith (station : Station) (received : List UInt8) : Station :=
  station.put (station.frame.store 0 received)

variable {received}

theorem run_netifRecv (nonempty : 0 < received.length) : ∃ filled,
    (netifRecv received).run station = some (receivedLength (filledWith station received), filled) ∧
      (filled.reach ≤ n ↔ station.reach ≤ n ∧ LinkFits (filledWith station received) n) ∧
      (0 < receivedLength (filledWith station received) → ∃ bound,
        filled = (filledWith station received).touch bound) := by
  have start : (netifRecv received).run station = (isForMe >>= fun mine => if mine then do
      let type ← rdWord ethTypeOfs
      if type = frameArp then
        arpRecv
        pure 0
      else if type = frameIp then rdWord (ethHeaderSize + ipHdrLen1)
      else pure 0
    else pure 0).run (filledWith station received) := by
    unfold netifRecv
    rw [run_wr_bind, if_pos nonempty]
    rfl
  have reach : (filledWith station received).reach = station.reach := rfl
  rw [start, run_bind_of _ (run_isForMe _), ← reach]
  generalize filledWith station received = filled
  by_cases mine : Addressed filled (filled.frame.macAt 0)
  · by_cases arp : filled.frame.wordAt 12 = 0x0806
    · obtain ⟨⟨⟩, after, ran, bound⟩ :=
        arpRecv_within ((filled.touch (addressReach filled)).touch 14) n
      have none : receivedLength filled = 0 := by
        simp [receivedLength, arp]
      refine ⟨after, ?_, ?_, ?_⟩
      · simp only [mine, decide_true, if_true, ethTypeOfs, run_rdWord_bind, Station.touch_frame, arp,
          frameArp]
        rw [run_bind_of _ ran, none]
        rfl
      · rw [bound]
        simp [LinkFits, mine, arp, and_assoc]
      · rw [none]
        exact fun absurd => (Nat.lt_irrefl 0 absurd).elim
    · by_cases ip : filled.frame.wordAt 12 = 0x0800
      · have len : receivedLength filled = filled.frame.wordAt 16 := by
          rw [receivedLength, if_pos ⟨mine, ip⟩]
        refine ⟨((filled.touch (addressReach filled)).touch 14).touch 18, ?_, ?_, ?_⟩
        · simp [mine, ip, len]
        · simp [LinkFits, mine, ip]
          omega
        · exact fun _ => ⟨_, by rw [Station.touch_touch, Station.touch_touch]⟩
      · have none : receivedLength filled = 0 := by
          simp [receivedLength, ip]
        refine ⟨(filled.touch (addressReach filled)).touch 14, ?_, ?_, ?_⟩
        · simp [mine, arp, ip, none]
        · simp [LinkFits, mine, arp, ip]
        · rw [none]
          exact fun absurd => (Nat.lt_irrefl 0 absurd).elim
  · have none : receivedLength filled = 0 := by
      simp [receivedLength, mine]
    refine ⟨filled.touch (addressReach filled), ?_, ?_, ?_⟩
    · simp only [mine, decide_false, none]
      rfl
    · simp [LinkFits, mine]
    · rw [none]
      exact fun absurd => (Nat.lt_irrefl 0 absurd).elim

theorem ustackService_within (nonempty : 0 < received.length) (small : n < 65536)
    (ipLength : receivedLength (filledWith station received) ≤ n - 14)
    (udpLength : 0 < receivedLength (filledWith station received) →
      IpAccepted (filledWith station received) station.myip →
      (filledWith station received).frame 23 = 17 →
      34 + (filledWith station received).frame.wordAt 38 ≤ n) :
    EndsWithin (ustackService received) station n (LinkFits (filledWith station received) n ∧
      (0 < receivedLength (filledWith station received) →
        IpFits (filledWith station received) (receivedLength (filledWith station received)) n)) := by
  obtain ⟨filled, ran, reach, packet⟩ := run_netifRecv station n nonempty
  have upper : 0 < receivedLength (filledWith station received) →
      EndsWithin (ipIn filled.myip (receivedLength (filledWith station received))) filled n
        (IpFits (filledWith station received) (receivedLength (filledWith station received)) n) := by
    intro positive
    obtain ⟨bound, rfl⟩ := packet positive
    refine ipIn_within _ n (by omega) small fun accepted udp => ?_
    exact udpLength positive ((ipAccepted_touch _ _ _).mp accepted) udp
  unfold ustackService
  refine .bind_run ran reach (.congr (.ite (fun positive =>
    .get (.bind (upper positive) fun _ _ _ => .pure ())) fun _ => .pure ()) ?_)
  simp

theorem frameFits_iff : FrameFits station n ↔ LinkFits station n ∧
    receivedLength station ≤ n - 14 ∧
      (0 < receivedLength station → IpFits station (receivedLength station) n) := by
  by_cases ip : Addressed station (station.frame.macAt 0) ∧ station.frame.wordAt 12 = frameIp
  · rw [receivedLength, if_pos ip]
    simp only [FrameFits, LinkFits, ip.1, ip.2, forall_const]
    constructor
    · intro ⟨address, type, arp, length, total, packet⟩
      exact ⟨⟨address, type, arp, length⟩, by omega, packet⟩
    · intro ⟨⟨address, type, arp, length⟩, total, packet⟩
      exact ⟨address, type, arp, length, by omega, packet⟩
  · rw [receivedLength, if_neg ip]
    simp only [FrameFits, LinkFits]
    constructor
    · intro ⟨address, upper⟩
      refine ⟨⟨address, fun mine => ?_⟩, Nat.zero_le _, fun absurd => (Nat.lt_irrefl 0 absurd).elim⟩
      obtain ⟨type, arp, _⟩ := upper mine
      exact ⟨type, arp, fun same => (ip ⟨mine, same⟩).elim⟩
    · intro ⟨⟨address, upper⟩, _⟩
      refine ⟨address, fun mine => ?_⟩
      obtain ⟨type, arp, _⟩ := upper mine
      exact ⟨type, arp, fun same => (ip ⟨mine, same⟩).elim⟩

/-- The processing of a frame stays inside of it exactly if the frame holds what its headers ask
for. -/
theorem frame_stays_inside (started : station.reach = 0) (whole : received.length ≤ packetSize) :
    StaysInside station received ↔
      received = [] ∨ FrameFits (filledWith station received) received.length := by
  cases empty : received with
  | nil =>
      have ran : (netifRecv []).run station = some (0, filledWith station []) := rfl
      have served : (ustackService []).run station = some ((), filledWith station []) := rfl
      refine iff_of_true ⟨⟨_, served, Nat.le_of_eq started⟩, ?_, ?_⟩ (Or.inl rfl)
      · intro len filled same
        rw [ran] at same
        obtain ⟨rfl, -⟩ := Prod.mk.inj (Option.some.inj same)
        exact Nat.zero_le _
      · intro len filled same positive
        rw [ran] at same
        obtain ⟨rfl, -⟩ := Prod.mk.inj (Option.some.inj same)
        exact (Nat.lt_irrefl 0 positive).elim
  | cons first rest =>
      rw [← empty]
      have nonempty : 0 < received.length := by
        rw [empty, List.length_cons]
        omega
      simp only [packetSize] at whole
      obtain ⟨filled, ran, -, packet⟩ := run_netifRecv station received.length nonempty
      rw [frameFits_iff]
      constructor
      · intro inside
        have ipLength := inside.ipLength _ _ ran
        obtain ⟨after, served, reach⟩ := inside.ends
        obtain ⟨⟨⟩, last, again, within⟩ := ustackService_within station received.length nonempty
          (by omega) ipLength fun positive accepted udp => by
            obtain ⟨bound, rfl⟩ := packet positive
            have taken := inside.udpLength _ _ ran positive
            rw [ipAccepted_touch] at taken
            exact taken accepted udp
        rw [served] at again
        obtain ⟨-, rfl⟩ := Prod.mk.inj (Option.some.inj again)
        obtain ⟨-, link, ip⟩ := within.mp reach
        exact Or.inr ⟨link, ipLength, ip⟩
      · intro fits
        obtain ⟨link, ipLength, ip⟩ :=
          fits.resolve_left (by rw [empty]; exact List.cons_ne_nil _ _)
        have udpLength : 0 < receivedLength (filledWith station received) →
            IpAccepted (filledWith station received) station.myip →
            (filledWith station received).frame 23 = 17 →
            34 + (filledWith station received).frame.wordAt 38 ≤ received.length := by
          intro positive accepted udp
          obtain ⟨-, version⟩ := ip positive
          obtain ⟨-, flags⟩ := version accepted.vhl
          obtain ⟨-, time⟩ := flags accepted.whole
          obtain ⟨-, target⟩ := (time accepted.alive).1 accepted.configured
          obtain ⟨-, datagram⟩ := target accepted.mine accepted.chksum
          exact (datagram udp).2.1
        obtain ⟨⟨⟩, last, served, within⟩ :=
          ustackService_within station received.length nonempty (by omega) ipLength udpLength
        refine ⟨⟨last, served, within.mpr ⟨by omega, link, ip⟩⟩, ?_, ?_⟩
        · intro len other same
          rw [ran] at same
          obtain ⟨rfl, -⟩ := Prod.mk.inj (Option.some.inj same)
          exact ipLength
        · intro len other same positive accepted udp
          rw [ran] at same
          obtain ⟨rfl, rfl⟩ := Prod.mk.inj (Option.some.inj same)
          obtain ⟨bound, rfl⟩ := packet positive
          exact udpLength positive ((ipAccepted_touch _ _ _).mp accepted) udp

end Received

section Frames

/-- A broadcast frame of 60 bytes with an IP header that gives the length `len`, and no more
than the version of it. -/
def shortFrame (len : Nat) : List UInt8 :=
  [255, 255, 255, 255, 255, 255, 2, 0, 0, 0, 0, 1, 8, 0, 0x45, 0] ++ bytesOf len ++
    List.replicate 42 0

theorem shortFrame_fits :
    FrameFits (filledWith (stationAt 2) (shortFrame 46)) (shortFrame 46).length := by
  have dead : (filledWith (stationAt 2) (shortFrame 46)).frame 22 = 0 := by decide +kernel
  have type : ¬(filledWith (stationAt 2) (shortFrame 46)).frame.wordAt 12 = frameArp := by
    decide +kernel
  refine ⟨by decide +kernel, fun _ => ⟨by decide, fun arp => (type arp).elim, fun _ => ⟨by decide, by decide +kernel, fun _ =>
    ⟨by decide, fun _ => ⟨by decide, fun _ => ⟨by decide, fun alive => (alive dead).elim⟩⟩⟩⟩⟩⟩

theorem frame_stays_inside_short : StaysInside (stationAt 2) (shortFrame 46) :=
  (frame_stays_inside (stationAt 2) rfl (by decide)).mpr (Or.inr shortFrame_fits)

/-- `netif_recv` returns 1500 for a frame of 60 bytes. -/
theorem long_length_escapes : ¬StaysInside (stationAt 2) (shortFrame 1500) := by
  intro inside
  obtain ⟨filled, ran, -⟩ := run_netifRecv (stationAt 2) 60 (show 0 < (shortFrame 1500).length by decide)
  have length : receivedLength (filledWith (stationAt 2) (shortFrame 1500)) = 1500 := by
    decide +kernel
  rw [length] at ran
  have bound := inside.ipLength 1500 filled ran
  revert bound
  decide

end Frames

end Paths

end Net

end Hellfire

import Hellfire.FrameBounds
import Hellfire.Library.Effects

/-!
What the UDP callback gets. A turn of the network service calls it at most once, with the received frame
whose UDP checksum was cleared; everything else that a turn does is no call.
-/

namespace Hellfire

open Effects

namespace Net

section Effects

def Looks (before after : Station) : Prop := ∃ bound, after = before.touch bound

def Quiet (before after : Station) : Prop := after.upcalls = before.upcalls

instance : IsPreorder Station Looks where
  refl station := ⟨0, (station.touch_zero).symm⟩
  trans := by
    rintro first _ _ ⟨bound, rfl⟩ ⟨more, rfl⟩
    exact ⟨max bound more, first.touch_touch bound more⟩

instance : IsPreorder Station Quiet where
  refl _ := rfl
  trans _ _ _ first second := second.trans first

theorem Looks.quiet {before after : Station} (looks : Looks before after) : Quiet before after := by
  obtain ⟨bound, rfl⟩ := looks
  rfl

variable {α β : Type} {code : Net α}

theorem within_of_run {R : Station → Station → Prop} {value : Station → α} {after : Station → Station}
    (runs : ∀ station, code.run station = some (value station, after station))
    (related : ∀ station, R station (after station)) : Within R code := by
  intro before result final ran
  rw [runs before] at ran
  obtain ⟨-, rfl⟩ := Prod.mk.inj (Option.some.inj ran)
  exact related before

theorem looks_rd (ofs : Nat) : Within Looks (rd ofs) :=
  within_of_run (fun station => run_rd station ofs) fun _ => ⟨_, rfl⟩

theorem looks_rdIp (ofs : Nat) : Within Looks (rdIp ofs) :=
  within_of_run (fun station => run_rdIp station ofs) fun _ => ⟨_, rfl⟩

theorem looks_rdMac (ofs : Nat) : Within Looks (rdMac ofs) :=
  within_of_run (fun station => run_rdMac station ofs) fun _ => ⟨_, rfl⟩

theorem looks_rdWord (ofs : Nat) : Within Looks (rdWord ofs) :=
  within_of_run (fun station => run_rdWord station ofs) fun _ => ⟨_, rfl⟩

theorem looks_memcmp (ofs : Nat) (bytes : List UInt8) : Within Looks (memcmp ofs bytes) :=
  within_of_run (fun station => run_memcmp bytes ofs station) fun _ => ⟨_, rfl⟩

theorem looks_ipchksum : Within Looks ipchksum :=
  within_of_run (fun station => run_ipchksum station) fun _ => ⟨_, rfl⟩

theorem looks_isForMe : Within Looks isForMe :=
  within_of_run (fun station => run_isForMe station) fun _ => ⟨_, rfl⟩

theorem looks_udpSum (len turns : Nat) : ∀ i sum, Within Looks (udpSum len turns i sum) := by
  induction turns with
  | zero => exact fun _ _ => within_failure
  | succ turns ih =>
      intro i sum
      exact within_ite ((looks_rdWord _).bind fun _ => ih _ _) (within_pure _)

theorem looks_udpchksum (len : Nat) : Within Looks (udpchksum len) := by
  refine (looks_rdWord _).bind fun _ => (looks_rdWord _).bind fun _ => (looks_rdWord _).bind fun _ =>
    (looks_rdWord _).bind fun _ => (looks_udpSum _ _ _ _).bind fun _ => ?_
  exact within_ite ((looks_rd _).bind fun _ => within_pure _) (within_pure _)

theorem quiet_of_looks (looks : Within Looks code) : Within Quiet code :=
  looks.mono fun _ _ => Looks.quiet

theorem quiet_wr (ofs : Nat) (bytes : List UInt8) : Within Quiet (wr ofs bytes) :=
  within_of_run (fun station => run_wr station ofs bytes) fun _ => rfl

theorem quiet_enLlOutput (size : Nat) : Within Quiet (enLlOutput size) :=
  within_of_run (fun station => run_enLlOutput station size) fun _ => rfl

theorem quiet_modify {change : Station → Station} (kept : ∀ station, Quiet station (change station)) :
    Within Quiet (modify change : Net Unit) :=
  within_of_run (fun _ => rfl) kept

theorem quiet_arpUpdate (ip : Ip) (mac : Mac) (station : Station) :
    Quiet station (station.arpUpdate ip mac) := by
  unfold Station.arpUpdate
  split <;> rfl

theorem quiet_rdMac (ofs : Nat) : Within Quiet (rdMac ofs) := quiet_of_looks (looks_rdMac ofs)

theorem quiet_rdIp (ofs : Nat) : Within Quiet (rdIp ofs) := quiet_of_looks (looks_rdIp ofs)

theorem quiet_rdWord (ofs : Nat) : Within Quiet (rdWord ofs) := quiet_of_looks (looks_rdWord ofs)

theorem quiet_arpReply : Within Quiet arpReply :=
  within_of_run run_arpReply fun _ => rfl

theorem quiet_arpRequest : Within Quiet arpRequest :=
  within_of_run run_arpRequest fun _ => rfl

theorem quiet_arpRecv : Within Quiet arpRecv := by
  refine (quiet_rdWord _).bind fun _ => within_ite ?_ (within_pure _)
  refine (quiet_rdWord _).bind fun _ => within_ite ?_ (within_pure _)
  refine (quiet_rdWord _).bind fun _ => within_ite ?_ (within_pure _)
  refine (quiet_rdWord _).bind fun _ => within_ite ?_ ?_
  · refine within_get.bind fun _ => (quiet_of_looks (looks_memcmp _ _)).bind fun _ =>
      within_ite ?_ (within_pure _)
    exact quiet_arpReply.bind fun _ => quiet_enLlOutput _
  · refine (quiet_rdWord _).bind fun _ => within_ite ?_ (within_pure _)
    exact (quiet_rdIp _).bind fun _ => (quiet_rdMac _).bind fun _ => quiet_modify (quiet_arpUpdate _ _)

theorem quiet_netifRecv (received : List UInt8) : Within Quiet (netifRecv received) := by
  refine (quiet_wr _ _).bind fun _ => within_ite ?_ (within_pure _)
  refine (quiet_of_looks looks_isForMe).bind fun _ => within_ite ?_ (within_pure _)
  refine (quiet_rdWord _).bind fun _ => within_ite (quiet_arpRecv.bind fun _ => within_pure _) ?_
  exact within_ite (quiet_rdWord _) (within_pure _)

theorem quiet_netifSend (len : Nat) : Within Quiet (netifSend len) := by
  refine (quiet_rdIp _).bind fun ip => within_get.bind fun station => ?_
  cases station.resolve ip with
  | some mac =>
      exact (quiet_wr _ _).bind fun _ => (quiet_wr _ _).bind fun _ => (quiet_wr _ _).bind fun _ =>
        (quiet_enLlOutput _).bind fun _ => within_pure _
  | none =>
      exact quiet_arpRequest.bind fun _ => (quiet_wr _ _).bind fun _ =>
        (quiet_enLlOutput _).bind fun _ => within_pure _

theorem quiet_ipHeader (dstAddr : Ip) (len : Nat) : Within Quiet (ipHeader dstAddr len) :=
  within_of_run (fun station => run_ipHeader station dstAddr len) fun _ => rfl

theorem quiet_ipOut (dstAddr : Ip) (len : Nat) : Within Quiet (ipOut dstAddr len) :=
  (quiet_ipHeader dstAddr len).bind fun _ => quiet_netifSend len

theorem quiet_icmpEchoReply (len : Nat) : Within Quiet (Net.icmpEchoReply len) := by
  refine (quiet_of_looks (looks_rd _)).bind fun _ => within_ite ?_ (within_pure _)
  exact (quiet_wr _ _).bind fun _ => (quiet_rdWord _).bind fun _ => (quiet_wr _ _).bind fun _ =>
    (quiet_rdIp _).bind fun _ => (quiet_ipOut _ _).bind fun _ => within_pure _

theorem quiet_udpHeader (dstAddr : Ip) (srcPort dstPort len : Nat) :
    Within Quiet (udpHeader dstAddr srcPort dstPort len) :=
  within_get.bind fun _ => (quiet_wr _ _).bind fun _ => (quiet_wr _ _).bind fun _ =>
    (quiet_wr _ _).bind fun _ => (quiet_wr _ _).bind fun _ => (quiet_wr _ _).bind fun _ =>
    (quiet_wr _ _).bind fun _ => (quiet_wr _ _).bind fun _ =>
    (quiet_of_looks (looks_udpchksum len)).bind fun _ => quiet_wr _ _

theorem quiet_udpOut (dstAddr : Ip) (srcPort dstPort len : Nat) :
    Within Quiet (udpOut dstAddr srcPort dstPort len) :=
  (quiet_udpHeader dstAddr srcPort dstPort len).bind fun _ => quiet_ipOut _ _

theorem quiet_magicPing (len : Nat) : Within Quiet (magicPing len) := by
  have configures : ∀ myip,
      Within Quiet (modify fun station => { station with myip := myip } : Net Unit) :=
    fun _ => quiet_modify fun _ => rfl
  refine (quiet_of_looks (looks_rd _)).bind fun _ => within_ite (within_ite ?_ (within_pure _))
    (within_pure _)
  exact (quiet_rdIp _).bind fun _ => (configures _).bind fun _ => within_pure _

end Effects

section Calls

variable {α β : Type} {station : Station} {seen : Frame}

def Hands (code : Net α) (station : Station) (seen : Frame) : Prop :=
  ∀ value after, code.run station = some (value, after) →
    after.upcalls = station.upcalls ∨ after.upcalls = station.upcalls ++ [seen]

theorem hands_quiet {code : Net α} (quiet : Within Quiet code) : Hands code station seen :=
  fun value after ran => Or.inl (quiet station value after ran)

theorem hands_ite {condition : Prop} [Decidable condition] {yes no : Net α}
    (first : Hands yes station seen) (second : Hands no station seen) :
    Hands (if condition then yes else no) station seen := by
  split
  · exact first
  · exact second

theorem hands_bind {code : Net α} {next : α → Net β}
    (later : ∀ value between, code.run station = some (value, between) →
      Quiet station between ∧ Hands (next value) between seen) :
    Hands (code >>= next) station seen := by
  intro value after ran
  obtain ⟨first, between, started, ended⟩ := run_bind_some ran
  obtain ⟨quiet, hands⟩ := later first between started
  rw [← quiet]
  exact hands value after ended

theorem hands_looks {code : Net α} {next : α → Net β} (looks : Within Looks code)
    (later : ∀ value bound, Hands (next value) (station.touch bound) seen) :
    Hands (code >>= next) station seen := by
  refine hands_bind fun value between ran => ?_
  obtain ⟨bound, rfl⟩ := looks station value between ran
  exact ⟨rfl, later value bound⟩

theorem hands_get {next : Station → Net α} (later : Hands (next station) station seen) :
    Hands ((get : Net Station) >>= next) station seen := by
  refine hands_bind fun value between ran => ?_
  obtain ⟨rfl, rfl⟩ := Prod.mk.inj (Option.some.inj ran)
  exact ⟨rfl, later⟩

theorem hands_then_quiet {code : Net α} {next : α → Net β} (hands : Hands code station seen)
    (quiet : ∀ value, Within Quiet (next value)) : Hands (code >>= next) station seen := by
  intro value after ran
  obtain ⟨first, between, started, ended⟩ := run_bind_some ran
  rw [quiet first between value after ended]
  exact hands first between started

theorem udpChecked_keeps (station : Station) {datalen : Nat} {value : Bool} {after : Station}
    (ran : (udpChecked (station.frame.wordAt 40) datalen).run station = some (value, after)) :
    ∃ bound, after = (station.put (checkedFrame station.frame)).touch bound := by
  by_cases none : station.frame.wordAt 40 = 0
  · rw [none, udpChecked, if_neg (by simp)] at ran
    obtain ⟨-, rfl⟩ := Prod.mk.inj (Option.some.inj ran)
    refine ⟨0, ?_⟩
    rw [checkedFrame, if_pos none, Station.touch_zero]
    rfl
  · rw [udpChecked, if_pos none, run_wrPacket_bind] at ran
    obtain ⟨own, between, summed, ended⟩ := run_bind_some ran
    obtain ⟨bound, rfl⟩ := looks_udpchksum datalen _ own between summed
    obtain ⟨-, rfl⟩ := Prod.mk.inj (Option.some.inj ended)
    refine ⟨bound, ?_⟩
    rw [checkedFrame, if_neg none]
    rfl

theorem hands_upcall : Hands upcall station station.frame := by
  intro value after ran
  obtain ⟨-, rfl⟩ := Prod.mk.inj (Option.some.inj ran)
  by_cases listening : station.listening
  · right
    simp only [listening, if_true]
  · left
    simp only [listening, Bool.false_eq_true, if_false]

theorem hands_udpIn : Hands udpIn station (checkedFrame station.frame) := by
  unfold udpIn
  refine hands_bind fun chksum between read => ?_
  rw [run_rdPacketWord] at read
  obtain ⟨rfl, rfl⟩ := Prod.mk.inj (Option.some.inj read)
  refine ⟨rfl, hands_looks (looks_rdWord _) fun datalen bound => hands_bind fun ok checked ran => ?_⟩
  obtain ⟨more, rfl⟩ := udpChecked_keeps ((station.touch _).touch bound) ran
  refine ⟨rfl, hands_ite ?_ (hands_quiet (within_pure _))⟩
  refine hands_looks (looks_rdWord _) fun _ _ => hands_looks (looks_rdWord _) fun _ _ => ?_
  refine hands_ite (hands_quiet ?_) (hands_ite (hands_quiet (within_pure _)) ?_)
  · exact (quiet_rdIp _).bind fun _ => (quiet_udpOut _ _ _ _).bind fun _ => within_pure _
  · exact hands_then_quiet hands_upcall fun _ => within_pure _

theorem hands_ipIn (dstAddr : Ip) (len : Nat) :
    Hands (ipIn dstAddr len) station (checkedFrame station.frame) := by
  have rejected : ∀ (later : Station), Hands (pure (-1) : Net Int) later (checkedFrame station.frame) :=
    fun _ => hands_quiet (within_pure _)
  unfold ipIn
  refine hands_get (hands_looks (looks_rd _) fun _ _ => hands_ite (rejected _) ?_)
  refine hands_looks (looks_rdWord _) fun _ _ => hands_ite (rejected _) ?_
  refine hands_looks (looks_rd _) fun _ _ => hands_ite (rejected _) ?_
  refine hands_ite ?_ (hands_quiet (quiet_magicPing len))
  refine hands_looks (looks_memcmp _ _) fun _ _ => hands_ite (rejected _) ?_
  refine hands_looks looks_ipchksum fun _ _ => hands_ite (rejected _) ?_
  refine hands_looks (looks_rd _) fun _ _ => hands_ite (hands_quiet (quiet_icmpEchoReply len)) ?_
  have same : ∀ later : Station, later.frame = station.frame →
      Hands udpIn later (checkedFrame station.frame) := by
    intro later equal
    rw [← equal]
    exact hands_udpIn
  exact hands_ite (same _ (by simp only [Station.touch_frame])) (rejected _)

/-- What a turn of the network service hands over is the received frame, but for its UDP checksum. -/
theorem ustackService_upcall {peer served : Station} {received : List UInt8}
    (ran : (ustackService received).run peer = some ((), served))
    (upcall : served.upcalls = peer.upcalls ++ [seen]) :
    seen = checkedFrame (filledWith peer received).frame := by
  have called : ¬served.upcalls = peer.upcalls := by
    rw [upcall]
    exact fun same => List.cons_ne_nil _ _ (List.append_right_eq_self.mp same)
  obtain ⟨len, filled, arrived, entered⟩ := run_bind_some ran
  have kept := quiet_netifRecv received peer len filled arrived
  by_cases positive : 0 < len
  · rw [if_pos positive] at entered
    have nonempty : 0 < received.length := by
      by_contra none
      have empty := List.eq_nil_of_length_eq_zero (Nat.eq_zero_of_not_pos none)
      subst empty
      obtain ⟨rfl, -⟩ := Prod.mk.inj (Option.some.inj arrived)
      exact Nat.lt_irrefl 0 positive
    obtain ⟨same, again, -, packet⟩ := run_netifRecv peer 0 nonempty
    rw [again] at arrived
    obtain ⟨rfl, rfl⟩ := Prod.mk.inj (Option.some.inj arrived)
    obtain ⟨bound, rfl⟩ := packet positive
    have hands := hands_get (hands_then_quiet (hands_ipIn
      ((filledWith peer received).touch bound).myip _) fun _ => within_pure ()) _ _ entered
    rcases hands with quiet | handed
    · exact absurd quiet called
    · exact List.singleton_inj.mp (List.append_cancel_left (upcall.symm.trans handed))
  · rw [if_neg positive] at entered
    obtain ⟨-, rfl⟩ := Prod.mk.inj (Option.some.inj entered)
    exact absurd kept called

structure CarriesDatagram (station : Station) : Prop where
  addressed : Addressed station (station.frame.macAt 0)
  type : station.frame.wordAt 12 = frameIp
  length : 0 < station.frame.wordAt 16
  accepted : IpAccepted station station.myip
  proto : station.frame 23 = 17
  checked : UdpAccepted station.frame
  short : station.frame.wordAt 38 ≤ 65515
  port : station.frame.wordAt 36 ≠ portEcho ∧ station.frame.wordAt 36 ≠ portDiscard
  listening : station.listening = true

instance (station : Station) (dstAddr : Ip) : Decidable (IpAccepted station dstAddr) :=
  decidable_of_iff (station.frame 14 = 0x45 ∧
    station.frame.wordAt 20 &&& (ipFlagMorefrag ||| ipFragofsMask) = 0 ∧ station.frame 22 ≠ 0 ∧
    Net.configured station.myip = true ∧ station.frame.ipAt 30 = dstAddr ∧
    foldSum (headerSum station.frame) = 0xffff) (by
      constructor
      · rintro ⟨vhl, whole, alive, configured, mine, chksum⟩
        exact ⟨vhl, whole, alive, configured, mine, chksum⟩
      · intro accepted
        exact ⟨accepted.vhl, accepted.whole, accepted.alive, accepted.configured, accepted.mine,
          accepted.chksum⟩)

instance (station : Station) : Decidable (CarriesDatagram station) :=
  decidable_of_iff (Addressed station (station.frame.macAt 0) ∧ station.frame.wordAt 12 = frameIp ∧
    0 < station.frame.wordAt 16 ∧ IpAccepted station station.myip ∧ station.frame 23 = 17 ∧
    UdpAccepted station.frame ∧ station.frame.wordAt 38 ≤ 65515 ∧
    (station.frame.wordAt 36 ≠ portEcho ∧ station.frame.wordAt 36 ≠ portDiscard) ∧
    station.listening = true) (by
      constructor
      · rintro ⟨addressed, type, length, accepted, proto, checked, short, port, listening⟩
        exact ⟨addressed, type, length, accepted, proto, checked, short, port, listening⟩
      · intro carries
        exact ⟨carries.addressed, carries.type, carries.length, carries.accepted, carries.proto,
          carries.checked, carries.short, carries.port, carries.listening⟩)

theorem ustackService_delivers {peer : Station} {received : List UInt8} (nonempty : 0 < received.length)
    (carries : CarriesDatagram (filledWith peer received)) : ∃ served,
      (ustackService received).run peer = some ((), served) ∧
      served.upcalls = peer.upcalls ++ [checkedFrame (filledWith peer received).frame] := by
  obtain ⟨filled, ran, -, packet⟩ := run_netifRecv peer 0 nonempty
  have len : receivedLength (filledWith peer received) = (filledWith peer received).frame.wordAt 16 :=
    if_pos ⟨carries.addressed, carries.type⟩
  have positive : 0 < receivedLength (filledWith peer received) := by
    rw [len]
    exact carries.length
  obtain ⟨bound, rfl⟩ := packet positive
  have accepted := (ipAccepted_touch (filledWith peer received) peer.myip bound).mpr carries.accepted
  obtain ⟨served, handled, called⟩ :=
    run_udpIn_delivers (((filledWith peer received).touch bound).touch 34) carries.checked carries.short
      (by
        rw [Station.touch_frame, Station.touch_frame, checkedFrame_wordAt _ (by decide)]
        exact carries.port) carries.listening
  refine ⟨served, ?_, called⟩
  have entered := run_ipIn_accepted ((filledWith peer received).touch bound) accepted
    (receivedLength (filledWith peer received))
  have other : ¬((filledWith peer received).touch bound).frame 23 = 1 := by
    rw [Station.touch_frame, carries.proto]
    decide
  rw [if_neg other, if_pos (show ((filledWith peer received).touch bound).frame 23 = 17 from carries.proto),
    handled] at entered
  unfold ustackService
  rw [run_bind_of _ ran, if_pos positive, run_get_bind]
  exact run_bind_of _ entered _

end Calls

end Net

end Hellfire

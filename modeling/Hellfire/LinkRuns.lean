import Hellfire.NetRuns

/-!
What `netif_send` and `netif_recv` do: the buffers that ARP builds, and the paths through the
reception of a frame.
-/

namespace Hellfire

section Buffers

def framedBy (target source : Mac) (type : Nat) (frame : Frame) : Frame :=
  ((frame.store 6 source.toList).store 0 target.toList).store 12 (bytesOf type)

def arpFramed (opcode : Nat) (senderMac : Mac) (senderIp : Ip) (targetMac : Mac) (targetIp : Ip)
    (frame : Frame) : Frame :=
  (((((((frame.store 14 (bytesOf hardwEth10)).store 16 (bytesOf frameIp)).store 18
    (bytesOf ipHlenPlen)).store 20 (bytesOf opcode)).store 22 senderMac.toList).store 28
    senderIp.toList).store 32 targetMac.toList).store 38 targetIp.toList

structure ArpFields (frame : Frame) (target source : Mac) (opcode : Nat) (senderMac : Mac)
    (senderIp : Ip) (targetIp : Ip) : Prop where
  target : frame.macAt 0 = target
  source : frame.macAt 6 = source
  type : frame.wordAt 12 = frameArp
  hardw : frame.wordAt 14 = hardwEth10
  prot : frame.wordAt 16 = frameIp
  hlen : frame.wordAt 18 = ipHlenPlen
  opcode : frame.wordAt 20 = opcode
  senderMac : frame.macAt 22 = senderMac
  senderIp : frame.ipAt 28 = senderIp
  targetIp : frame.ipAt 38 = targetIp

theorem arpFramed_fields (target source senderMac targetMac : Mac) (senderIp targetIp : Ip)
    {opcode : Nat} (small : opcode < 65536) (frame : Frame) :
    ArpFields (arpFramed opcode senderMac senderIp targetMac targetIp
      (framedBy target source frameArp frame)) target source opcode senderMac senderIp targetIp := by
  have word := word_bytesOf small
  constructor
  all_goals
    simp [arpFramed, framedBy, Frame.store, Frame.wordAt, Frame.macAt, Frame.ipAt, Mac.toList,
      Ip.toList, bytesOf, word]
  all_goals rfl

theorem framedBy_fields (target source : Mac) {type : Nat} (small : type < 65536) (frame : Frame) :
    (framedBy target source type frame).macAt 0 = target ∧
      (framedBy target source type frame).macAt 6 = source ∧
      (framedBy target source type frame).wordAt 12 = type ∧
      ∀ i, 14 ≤ i → framedBy target source type frame i = frame i := by
  have word := word_bytesOf small
  refine ⟨?_, ?_, ?_, ?_⟩
  · simp [framedBy, Frame.store, Frame.macAt, Mac.toList]
  · simp [framedBy, Frame.store, Frame.macAt, Mac.toList]
  · simp [framedBy, Frame.store, Frame.wordAt, bytesOf, word]
  · intro i behind
    unfold framedBy
    rw [Frame.store_outside _ (by simp; omega), Frame.store_outside _ (by simp; omega),
      Frame.store_outside _ (by simp; omega)]

end Buffers

section Runs

variable (station : Station)

@[simp] theorem Station.touch_output (station : Station) (bound size : Nat) :
    (station.touch bound).output size = (station.output size).touch bound := by
  simp only [Station.output, Station.touch, Station.mk.injEq, true_and]
  omega

namespace Net

theorem run_arpRequest : arpRequest.run station = some (42, station.put
    (arpFramed opArpRequest station.mymac station.myip Mac.any station.myip
      (framedBy Mac.broadcast station.mymac frameArp station.frame))) := by
  unfold arpRequest
  simp [arpFramed, framedBy]

def answerFrame (station : Station) : Frame :=
  arpFramed opArpAnswer station.mymac station.myip (station.frame.macAt 6) (station.frame.ipAt 28)
    (framedBy (station.frame.macAt 6) station.mymac frameArp station.frame)

theorem run_arpReply : arpReply.run station =
    some (42, (station.put (answerFrame station)).touch 32) := by
  have kept : (framedBy (station.frame.macAt 6) station.mymac frameArp station.frame).ipAt 28 =
      station.frame.ipAt 28 := by
    simp [framedBy, Frame.ipAt, Frame.store, Mac.toList]
  unfold framedBy at kept
  simp only [frameArp] at kept
  unfold arpReply
  simp [answerFrame, arpFramed, framedBy, kept]

def requestFrame (station : Station) (ip : Ip) : Frame :=
  (arpFramed opArpRequest station.mymac station.myip Mac.any station.myip
    (framedBy Mac.broadcast station.mymac frameArp station.frame)).store 38
    (station.nextHop ip).toList

theorem run_netifSend_resolved {mac : Mac} (len : Nat)
    (resolved : station.resolve (station.frame.ipAt 30) = some mac) :
    (netifSend len).run station = some ((len + 14) % 65536,
      ((station.put (framedBy mac station.mymac frameIp station.frame)).output
        ((len + 14) % 65536)).touch 34) := by
  unfold netifSend
  simp [resolved, framedBy]

theorem run_netifSend_unresolved (len : Nat)
    (unresolved : station.resolve (station.frame.ipAt 30) = none) :
    (netifSend len).run station = some (0,
      ((station.put (requestFrame station (station.frame.ipAt 30))).output 56).touch 34) := by
  unfold netifSend
  simp only [ethHeaderSize, ipHdrDestaddr1, run_rdIp_bind, run_get_bind, Station.touch_resolve,
    unresolved]
  rw [run_bind_of _ (run_arpRequest _)]
  simp [requestFrame]

end Net

end Runs

end Hellfire

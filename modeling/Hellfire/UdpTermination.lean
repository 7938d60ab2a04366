import Hellfire.NetChecksums

/-!
The two loops of `udpchksum`: the second one always ends, the first one for all lengths that its
16 bit counter can pass.
-/

namespace Hellfire

open OnesComplement

/-- `while (sum & 0xffff0000)`. `none` is a loop that goes on after `turns` turns. -/
def foldWithin : Nat → Nat → Option Nat
  | 0, sum => if sum < 65536 then some sum else none
  | turns + 1, sum => if sum < 65536 then some sum else foldWithin turns (sum % 65536 + sum / 65536)

namespace Net

/-- `udpchksum` with at most `turns` turns of each loop. -/
def udpchksumWithin (turns len : Nat) : Net Nat :=
  udpchksumWith turns (fun sum => do
    let sum ← foldWithin turns sum
    pure (65535 - sum)) len

end Net

theorem foldWithin_of_lt (turns : Nat) {sum : Nat} (small : sum < 65536) :
    foldWithin turns sum = some sum := by
  cases turns <;> exact if_pos small

theorem foldWithin_enough (turns : Nat) {sum : Nat} (small : sum < 65536 * 65536) :
    foldWithin (turns + 2) sum = some (foldSum sum) := by
  have below : fold 65536 2 sum < 65536 := fold_lt (by decide) small
  rw [foldSum, foldWithin]
  rw [fold] at below ⊢
  split
  · rfl
  · rename_i above
    rw [if_neg above, fold] at below
    rw [foldWithin, fold]
    split
    · rfl
    · rename_i again
      rw [if_neg again] at below
      exact foldWithin_of_lt turns below

namespace Net

theorem udpSum_endless {len : Nat} (long : 65516 ≤ len) (turns : Nat) :
    ∀ i sum station, i % 2 = 0 → i < 65536 → (udpSum len turns i sum).run station = none := by
  induction turns with
  | zero => exact fun _ _ _ _ _ => rfl
  | succ turns ih =>
      intro i sum station even word
      have goes : i < len + ipHeaderSize - 1 := by
        simp only [ipHeaderSize]
        omega
      rw [udpSum, if_pos goes, run_rdPacketWord_bind]
      exact ih _ _ _ (by omega) (Nat.mod_lt _ (by decide))

section Length

variable (station : Station) {len : Nat}

theorem udpchksumWithin_endless (long : 65516 ≤ len) (turns : Nat) :
    (udpchksumWithin turns len).run station = none := by
  unfold udpchksumWithin udpchksumWith
  simp only [run_rdPacketWord_bind]
  rw [StateT.run_bind, udpSum_endless long turns _ _ _ (by decide) (by decide)]
  rfl

theorem run_udpchksumWithin (short : len ≤ 65515) :
    (udpchksumWithin udpTurns len).run station = (udpchksum len).run station := by
  obtain ⟨-, small⟩ := udpTotal_bounds station.frame short
  have folded : foldWithin udpTurns (udpTotal station.frame len) =
      some (foldSum (udpTotal station.frame len)) := foldWithin_enough 32767 small
  rw [run_udpchksum station short, udpchksumWithin, run_udpchksumWith station _ short, folded]
  rfl

/-- The checksum ends for all lengths but those near the end of the counter. -/
theorem udpchksum_ends_iff (_ : len < 65536) :
    (∃ turns result, (udpchksumWithin turns len).run station = some result) ↔ len ≤ 65515 := by
  constructor
  · rintro ⟨turns, result, ended⟩
    by_contra long
    rw [udpchksumWithin_endless station (by omega)] at ended
    exact absurd ended (Option.some_ne_none result).symm
  · intro short
    exact ⟨udpTurns, _, (run_udpchksumWithin station short).trans (run_udpchksum station short)⟩

theorem udpchksum_endless (long : 65516 ≤ len) : (udpchksum len).run station = none := by
  unfold udpchksum
  simp only [run_rdPacketWord_bind]
  rw [StateT.run_bind, udpSum_endless long _ _ _ _ (by decide) (by decide)]
  rfl

/-- A datagram with a checksum and such a length is never left by `udp_in`. -/
theorem udpIn_endless (long : 65516 ≤ station.frame.wordAt 38)
    (present : station.frame.wordAt 40 ≠ 0) : udpIn.run station = none := by
  have checked : (udpChecked (station.frame.wordAt 40) (station.frame.wordAt 38)).run
      (station.touch 42) = none := by
    unfold udpChecked
    rw [if_pos present, run_wrPacket_bind, StateT.run_bind, udpchksum_endless _ long]
    rfl
  unfold udpIn
  simp only [udpHdrChksum1, udpHdrLen1, run_rdPacketWord_bind, Station.touch_frame,
    Station.touch_touch, Nat.reduceAdd, Nat.reduceLeDiff, Nat.max_def, if_false]
  rw [StateT.run_bind, checked]
  rfl

end Length

theorem udpchksum_ends_plain :
    ∃ turns result, (udpchksumWithin turns 8).run (stationAt 1) = some result :=
  (udpchksum_ends_iff (stationAt 1) (by decide : 8 < 65536)).mpr (by decide)

/-- The longest length, in a datagram from the network with a checksum. -/
theorem udpchksum_loops :
    (¬ ∀ (station : Station) (len : Nat), len < 65536 →
      ∃ turns result, (udpchksumWithin turns len).run station = some result) ∧
    udpIn.run ((stationAt 1).put ((stationAt 1).frame.store 38 [0xff, 0xff, 0, 1])) = none := by
  constructor
  · intro ends
    obtain ⟨turns, result, ended⟩ := ends (stationAt 1) 65535 (by decide)
    rw [udpchksumWithin_endless _ (by decide)] at ended
    exact absurd ended (Option.some_ne_none result).symm
  · exact udpIn_endless _ (by decide) (by decide)

end Net

end Hellfire

import Mathlib.Algebra.Order.Group.Abs
import Mathlib.Algebra.Order.Group.Int

/-!
Turns shared out by remainders: the client with the least remainder takes a turn, every other
one is charged that remainder, and the remainder of the client starts anew at its weight. The
turns of two clients then stand in inverse proportion to their weights.
-/

namespace Shares

variable {ι : Type}

structure Account (ι : Type) where
  weight : ι → Nat
  left : ι → Nat
  turns : ι → Nat
  spent : Nat

structure Fresh (clients : List ι) (account : Account ι) : Prop where
  left : ∀ client ∈ clients, account.left client = account.weight client
  turns : ∀ client ∈ clients, account.turns client = 0
  spent : account.spent = 0

structure Balanced (account : Account ι) (client : ι) : Prop where
  within : account.left client ≤ account.weight client
  paid : account.spent + account.left client =
    account.turns client * account.weight client + account.weight client

structure Turn (clients : List ι) (chosen : ι) (before after : Account ι) : Prop where
  spent : after.spent = before.spent + before.left chosen
  renewed : after.left chosen = before.weight chosen
  counted : after.turns chosen = before.turns chosen + 1
  weight : ∀ client ∈ clients, after.weight client = before.weight client
  charged : ∀ client ∈ clients, client ≠ chosen → before.left chosen ≤ before.left client ∧
    after.left client = before.left client - before.left chosen
  kept : ∀ client ∈ clients, client ≠ chosen → after.turns client = before.turns client

structure Same (clients : List ι) (before after : Account ι) : Prop where
  spent : after.spent = before.spent
  weight : ∀ client ∈ clients, after.weight client = before.weight client
  left : ∀ client ∈ clients, after.left client = before.left client
  turns : ∀ client ∈ clients, after.turns client = before.turns client

variable {clients : List ι} {before after account : Account ι} {client : ι}

theorem Fresh.balanced (fresh : Fresh clients account) (member : client ∈ clients) :
    Balanced account client := by
  refine ⟨Nat.le_of_eq (fresh.left client member), ?_⟩
  rw [fresh.spent, fresh.turns client member, fresh.left client member, Nat.zero_mul]

theorem Same.balanced (same : Same clients before after) (member : client ∈ clients)
    (balanced : Balanced before client) : Balanced after client := by
  refine ⟨?_, ?_⟩
  · rw [same.left client member, same.weight client member]
    exact balanced.within
  · rw [same.spent, same.left client member, same.turns client member, same.weight client member]
    exact balanced.paid

theorem Turn.balanced {chosen : ι} (turn : Turn clients chosen before after)
    (member : client ∈ clients) (balanced : Balanced before client) : Balanced after client := by
  have within := balanced.within
  have paid := balanced.paid
  by_cases own : client = chosen
  · subst own
    refine ⟨?_, ?_⟩
    · rw [turn.renewed, turn.weight client member]
    · rw [turn.spent, turn.renewed, turn.counted, turn.weight client member, Nat.succ_mul]
      omega
  · obtain ⟨least, charge⟩ := turn.charged client member own
    refine ⟨?_, ?_⟩
    · rw [charge, turn.weight client member]
      omega
    · rw [turn.spent, charge, turn.kept client member own, turn.weight client member]
      omega

theorem Balanced.close {other : ι} (first : Balanced account client)
    (second : Balanced account other) :
    |(account.turns client * account.weight client : Int) -
      account.turns other * account.weight other| ≤
        max (account.weight client) (account.weight other) := by
  have firstPaid := congrArg (Nat.cast : Nat → Int) first.paid
  have secondPaid := congrArg (Nat.cast : Nat → Int) second.paid
  have firstWithin := first.within
  have secondWithin := second.within
  push_cast at firstPaid secondPaid
  rw [abs_le]
  omega

end Shares

import Hellfire.Library.Shares
import Hellfire.TaskSafety

/-!
The shares of the processor under `sched_priorityrr`: over consecutive calls the selections of
two tasks stand in inverse proportion to their priority values.
-/

namespace Hellfire

open Machine ListSwap

structure Tally where
  turns : Nat → Nat
  spent : Nat

def Tally.none : Tally := ⟨fun _ => 0, 0⟩

def Tally.count (tally : Tally) (id charge : Nat) : Tally :=
  ⟨Function.update tally.turns id (tally.turns id + 1), tally.spent + charge⟩

namespace Kernel

variable {config : Config}

def criticalWaits (kernel : Kernel config) : Bool :=
  kernel.krnlRunQueue.contents.any fun cell =>
    cell.any fun slot => kernel.unblocked slot && (kernel.krnlTcb slot).critical ≠ 0

theorem criticalWaits_iff {kernel : Kernel config} {tasks : List Nat}
    (stored : kernel.krnlRunQueue.contents = tasks.map some) :
    kernel.criticalWaits = true ↔
      ∃ slot ∈ tasks, kernel.blocked slot = false ∧ (kernel.krnlTcb slot).critical ≠ 0 := by
  simp [criticalWaits, stored]

theorem schedPriorityrr_empty {kernel : Kernel config}
    (empty : kernel.krnlRunQueue.contents = []) :
    kernel.schedPriorityrr = .error (.panic .noTasksRun) := by
  simp [schedPriorityrr, empty]

inductive Moment (config : Config)
  | call
  | between (next : Kernel config)

def shared : Moment config → Kernel config × Tally → Except Halt (Kernel config × Tally)
  | .call, (kernel, tally) => do
      let (id, after) ← kernel.schedPriorityrr
      .ok (after, if kernel.criticalWaits then tally
        else tally.count id (kernel.krnlTcb id).priorityRem.toNat)
  | .between next, (_, tally) => .ok (next, tally)

/-- Between two calls anything may change, critical events included, as long as no task is
blocked, added, removed or given another priority. -/
structure Undisturbed (tasks : List Nat) (before next : Kernel config) : Prop where
  queue : next.krnlRunQueue.contents.Perm before.krnlRunQueue.contents
  unblocked : ∀ task ∈ tasks, next.blocked task = false
  entries : ∀ task ∈ tasks, (next.krnlTcb task).id = (before.krnlTcb task).id ∧
    (next.krnlTcb task).priority = (before.krnlTcb task).priority ∧
    (next.krnlTcb task).priorityRem = (before.krnlTcb task).priorityRem

def consecutive (tasks : List Nat) : Moment config → Kernel config × Tally → Prop
  | .call, _ => True
  | .between next, (kernel, _) => Undisturbed tasks kernel next

structure Shareable (tasks : List Nat) (kernel : Kernel config) : Prop where
  stored : kernel.krnlRunQueue.contents = tasks.map some
  distinct : tasks.Nodup
  named : ∀ task ∈ tasks, (kernel.krnlTcb task).id = task
  unblocked : ∀ task ∈ tasks, kernel.blocked task = false
  priorities : ∀ task ∈ tasks, 1 ≤ (kernel.krnlTcb task).priority ∧
    (kernel.krnlTcb task).priority ≤ 254
  fresh : ∀ task ∈ tasks, (kernel.krnlTcb task).priorityRem = (kernel.krnlTcb task).priority

def accountOf (kernel : Kernel config) (tally : Tally) : Shares.Account Nat where
  weight task := (kernel.krnlTcb task).priority.toNat
  left task := (kernel.krnlTcb task).priorityRem.toNat
  turns := tally.turns
  spent := tally.spent

structure Sharing (start : Kernel config) (tasks : List Nat) (kernel : Kernel config)
    (tally : Tally) : Prop where
  queue : kernel.krnlRunQueue.contents.Perm (tasks.map some)
  named : ∀ task ∈ tasks, (kernel.krnlTcb task).id = task
  unblocked : ∀ task ∈ tasks, kernel.blocked task = false
  priorities : ∀ task ∈ tasks, (kernel.krnlTcb task).priority = (start.krnlTcb task).priority
  balanced : ∀ task ∈ tasks, Shares.Balanced (accountOf kernel tally) task

variable {start kernel after : Kernel config} {tasks order : List Nat} {task : Nat} {tally : Tally}

theorem Shareable.sharing (shareable : Shareable tasks start) :
    Sharing start tasks start Tally.none := by
  have fresh : Shares.Fresh tasks (accountOf start Tally.none) :=
    ⟨fun task member => congrArg UInt8.toNat (shareable.fresh task member), fun _ _ => rfl, rfl⟩
  exact ⟨by rw [shareable.stored], shareable.named, shareable.unblocked, fun _ _ => rfl,
    fun _ member => fresh.balanced member⟩

theorem CriticalTurn.account (turn : CriticalTurn kernel after order task) (tally : Tally) :
    Shares.Same order (accountOf kernel tally) (accountOf after tally) := by
  refine ⟨rfl, ?_, ?_, fun _ _ => rfl⟩
  · intro slot _
    simp only [accountOf, turn.entries]
    split
    · rfl
    · rfl
  · intro slot _
    simp only [accountOf, turn.entries]
    split
    · rfl
    · rfl

theorem ChargedTurn.account (turn : ChargedTurn kernel after order task)
    (unblocked : ∀ slot ∈ order, kernel.blocked slot = false) (tally : Tally) :
    Shares.Turn order task (accountOf kernel tally)
      (accountOf after (tally.count task (kernel.krnlTcb task).priorityRem.toNat)) := by
  refine ⟨rfl, ?_, by simp [accountOf, Tally.count], ?_, ?_, ?_⟩
  · simp only [accountOf, turn.entries, if_true]
  · intro slot _
    exact congrArg UInt8.toNat (turn.entries slot ▸ by split <;> rfl)
  · intro slot member other
    have least := turn.least slot member (unblocked slot member)
    simp only [accountOf, turn.entries, if_neg other, if_pos member]
    exact ⟨UInt8.le_iff_toNat_le.mp least, UInt8.toNat_sub_of_le _ _ least⟩
  · intro slot _ other
    simp [accountOf, Tally.count, other]

theorem Sharing.of_selected (sharing : Sharing start tasks kernel tally)
    (selected : Selected kernel after task) {next : Tally}
    (balanced : ∀ task ∈ tasks, Shares.Balanced (accountOf after next) task) :
    Sharing start tasks after next := by
  refine ⟨selected.turned.trans sharing.queue, ?_, ?_, ?_, balanced⟩
  · intro slot member
    rw [selected.entries slot]
    exact sharing.named slot member
  · intro slot member
    rw [blocked, selected.entries slot]
    exact sharing.unblocked slot member
  · intro slot member
    rw [selected.entries slot]
    exact sharing.priorities slot member

theorem Sharing.call (sharing : Sharing start tasks kernel tally) (distinct : tasks.Nodup)
    (priorities : ∀ task ∈ tasks, (start.krnlTcb task).priority ≤ 254) (nonempty : tasks ≠ []) :
    ∃ id after next, kernel.schedPriorityrr = .ok (id, after) ∧
      shared .call (kernel, tally) = .ok (after, next) ∧ Sharing start tasks after next := by
  obtain ⟨order, stored, perm⟩ := exists_map_some sharing.queue
  have ready : ∀ slot ∈ order, kernel.blocked slot = false :=
    fun slot member => sharing.unblocked slot (perm.mem_iff.mp member)
  have waits := kernel.criticalWaits_iff stored
  rcases kernel.schedPriorityrr_turns order stored (perm.nodup_iff.mpr distinct)
      (fun empty => nonempty (List.nil_perm.mp (empty ▸ perm))) with
    ⟨task, after, called, turn⟩ | ⟨task, after, called, turn⟩ | ⟨stuck, _⟩
  · have pending : kernel.criticalWaits = true :=
      waits.mpr ⟨task, turn.member, turn.unblocked, turn.critical⟩
    refine ⟨_, after, tally, called, ?_, sharing.of_selected (turn.selected stored) ?_⟩
    · simp [shared, called, bind, Except.bind, pending]
    · intro slot member
      exact (turn.account tally).balanced (perm.mem_iff.mpr member) (sharing.balanced slot member)
  · have calm : kernel.criticalWaits = false := by
      rw [← Bool.not_eq_true, waits]
      rintro ⟨slot, member, unblocked, raised⟩
      exact raised (turn.quiet slot member unblocked)
    have own := sharing.named task (perm.mem_iff.mp turn.member)
    refine ⟨_, after, tally.count task (kernel.krnlTcb task).priorityRem.toNat, called, ?_,
      sharing.of_selected (turn.selected stored) ?_⟩
    · simp [shared, called, bind, Except.bind, calm, own]
    · intro slot member
      exact (turn.account ready tally).balanced (perm.mem_iff.mpr member)
        (sharing.balanced slot member)
  · obtain ⟨slot, member⟩ := List.exists_mem_of_ne_nil tasks nonempty
    have top := (stuck slot (perm.mem_iff.mpr member) (sharing.unblocked slot member)).2
    have within := (sharing.balanced slot member).within
    have bound := UInt8.le_iff_toNat_le.mp (priorities slot member)
    simp only [accountOf, top, sharing.priorities slot member] at within
    simp only [UInt8.reduceToNat] at within bound
    omega

theorem Sharing.between (sharing : Sharing start tasks kernel tally)
    (undisturbed : Undisturbed tasks kernel after) : Sharing start tasks after tally := by
  refine ⟨undisturbed.queue.trans sharing.queue, ?_, undisturbed.unblocked, ?_, ?_⟩
  · intro slot member
    exact (undisturbed.entries slot member).1.trans (sharing.named slot member)
  · intro slot member
    exact (undisturbed.entries slot member).2.1.trans (sharing.priorities slot member)
  · have same : Shares.Same tasks (accountOf kernel tally) (accountOf after tally) :=
      ⟨rfl, fun slot member => congrArg UInt8.toNat (undisturbed.entries slot member).2.1,
        fun slot member => congrArg UInt8.toNat (undisturbed.entries slot member).2.2, fun _ _ => rfl⟩
    exact fun slot member => same.balanced member (sharing.balanced slot member)

theorem Sharing.reached (shareable : Shareable tasks start)
    (ran : Reaches shared (consecutive tasks) (start, Tally.none) (kernel, tally)) :
    Sharing start tasks kernel tally := by
  refine ran.invariant (fun state => Sharing start tasks state.1 state.2) shareable.sharing ?_
  rintro moment ⟨before, counted⟩ ⟨next, counted'⟩ sharing admitted stepped
  cases moment with
  | call =>
      by_cases empty : tasks = []
      · have none := List.perm_nil.mp (by simpa [empty] using sharing.queue)
        simp [shared, schedPriorityrr_empty none, bind, Except.bind] at stepped
      · obtain ⟨_, _, _, _, called, kept⟩ := sharing.call shareable.distinct
          (fun task member => (shareable.priorities task member).2) empty
        rw [called] at stepped
        cases stepped
        exact kept
  | between other =>
      cases stepped
      exact sharing.between admitted

/-- After any number of calls every task has had its share: `V = N * p + p - rem`. -/
theorem schedPriorityrr_shares (shareable : Shareable tasks start)
    (ran : Reaches shared (consecutive tasks) (start, Tally.none) (kernel, tally)) :
    (tasks ≠ [] → ∃ id after, kernel.schedPriorityrr = .ok (id, after)) ∧
      (∀ task ∈ tasks, (tally.spent : Int) =
          tally.turns task * (start.krnlTcb task).priority.toNat +
            (start.krnlTcb task).priority.toNat - (kernel.krnlTcb task).priorityRem.toNat ∧
        (kernel.krnlTcb task).priorityRem ≤ (start.krnlTcb task).priority) ∧
      ∀ first ∈ tasks, ∀ second ∈ tasks,
        |(tally.turns first * (start.krnlTcb first).priority.toNat : Int) -
          tally.turns second * (start.krnlTcb second).priority.toNat| ≤
            max (start.krnlTcb first).priority.toNat (start.krnlTcb second).priority.toNat := by
  have sharing := Sharing.reached shareable ran
  have weight : ∀ task ∈ tasks, (accountOf kernel tally).weight task =
      (start.krnlTcb task).priority.toNat :=
    fun task member => congrArg UInt8.toNat (sharing.priorities task member)
  refine ⟨fun nonempty => ?_, ?_, ?_⟩
  · obtain ⟨id, after, _, called, _⟩ := sharing.call shareable.distinct
      (fun task member => (shareable.priorities task member).2) nonempty
    exact ⟨id, after, called⟩
  · intro task member
    have balanced := sharing.balanced task member
    have paid := balanced.paid
    have within := balanced.within
    rw [weight task member] at paid within
    refine ⟨?_, UInt8.le_iff_toNat_le.mpr within⟩
    simp only [accountOf] at paid
    omega
  · intro first inside second among
    have close := (sharing.balanced first inside).close (sharing.balanced second among)
    rw [weight first inside, weight second among] at close
    exact close

def threeCalls : Kernel twoTasks × Tally :=
  outcome shared [.call, .call, .call] (smallRun [.spawn worker], Tally.none)

theorem schedPriorityrr_shares_worker :
    (threeCalls.2.turns 0 = 1 ∧ threeCalls.2.turns 1 = 2) ∧
      (threeCalls.2.spent : Int) =
        threeCalls.2.turns 1 * ((smallRun [.spawn worker]).krnlTcb 1).priority.toNat +
          ((smallRun [.spawn worker]).krnlTcb 1).priority.toNat -
            (threeCalls.1.krnlTcb 1).priorityRem.toNat := by
  have shareable : Shareable [0, 1] (smallRun [.spawn worker]) :=
    ⟨by decide, by decide, by decide, by decide, by decide, by decide⟩
  have ran : Reaches shared (consecutive [0, 1]) (smallRun [.spawn worker], Tally.none)
      (threeCalls.1, threeCalls.2) :=
    execute_reaches [.call, .call, .call] _ _ .start (by simp [consecutive]) rfl
  exact ⟨by decide +kernel, ((schedPriorityrr_shares shareable ran).2.1 1 (by decide)).1⟩

end Kernel

end Hellfire

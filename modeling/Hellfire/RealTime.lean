import Hellfire.BestEffort

/-!
What `sched_rma` does to the kernel: the real time queue is sorted by period, the
first task that may run is selected, and every queued task is accounted for once.
-/

namespace Hellfire

open ListSwap

namespace Kernel

variable {config : Config}

structure RtFrame (before after : Kernel config) : Prop where
  tasks : after.krnlTasks = before.krnlTasks
  current : after.krnlCurrentTask = before.krnlCurrentTask
  schedule : after.krnlSchedule = before.krnlSchedule
  run : after.krnlRunQueue = before.krnlRunQueue
  delay : after.krnlDelayQueue = before.krnlDelayQueue
  schedBe : after.schedBe = before.schedBe

theorem RtFrame.trans {first second third : Kernel config} (before : RtFrame first second)
    (after : RtFrame second third) : RtFrame first third :=
  ⟨after.tasks.trans before.tasks, after.current.trans before.current,
    after.schedule.trans before.schedule, after.run.trans before.run,
    after.delay.trans before.delay, after.schedBe.trans before.schedBe⟩

def periodOf (tcb : Nat → TcbEntry) (task : Nat) : Nat := (tcb task).period.toNat

theorem sortPair_split (tcb : Nat → TcbEntry) (queue : RingQueue Nat config.maxTasks)
    (before between after : List Nat) (first second : Nat)
    (stored : queue.contents = (before ++ first :: (between ++ second :: after)).map some) :
    ∃ next, sortPair tcb before.length (before.length + 1 + between.length) queue = .ok next ∧
      next.contents =
        if periodOf tcb second < periodOf tcb first then
          (before ++ second :: (between ++ first :: after)).map some
        else (before ++ first :: (between ++ second :: after)).map some := by
  have firstCell : queue.hfQueueGet before.length = some first := by
    rw [RingQueue.hfQueueGet_eq, stored]
    simp [List.getD]
  have secondCell : queue.hfQueueGet (before.length + 1 + between.length) = some second := by
    have place : before.length + 1 + between.length = (before ++ first :: between).length := by
      simp only [List.length_append, List.length_cons]
      omega
    rw [RingQueue.hfQueueGet_eq, stored, place]
    simp [List.getD]
  have less : (tcb second).period < (tcb first).period ↔
      periodOf tcb second < periodOf tcb first := Iff.rfl
  simp only [sortPair, firstCell, secondCell, less]
  by_cases smaller : periodOf tcb second < periodOf tcb first
  · have length : queue.contents.length =
        before.length + 1 + between.length + 1 + after.length := by
      rw [stored]
      simp only [List.length_map, List.length_append, List.length_cons]
      omega
    obtain ⟨next, swapped, contents⟩ := queue.hfQueueSwap_inside
      (show before.length < queue.contents.length by omega)
      (show before.length + 1 + between.length < queue.contents.length by omega)
    refine ⟨next, by simp [smaller, swapped], ?_⟩
    rw [contents, stored, if_pos smaller]
    have exchange := swapCells_split none (before.map some) (between.map some) (after.map some)
      (some first) (some second)
    simpa using exchange
  · exact ⟨queue, by simp [smaller], by rw [if_neg smaller, stored]⟩

theorem sortInner_row (tcb : Nat → TcbEntry) (before todo : List Nat) :
    ∀ (candidate : Nat) (done : List Nat) (queue : RingQueue Nat config.maxTasks),
      queue.contents = (before ++ candidate :: (done ++ todo)).map some →
      ∃ next, sortInner tcb before.length todo.length (before.length + 1 + done.length) queue =
          .ok next ∧
        next.contents = (before ++ (sortRow (periodOf tcb) candidate todo).1 ::
          (done ++ (sortRow (periodOf tcb) candidate todo).2)).map some := by
  induction todo with
  | nil => exact fun _ _ queue stored => ⟨queue, rfl, stored⟩
  | cons cell todo ih =>
      intro candidate done queue stored
      obtain ⟨paired, pair, contents⟩ := sortPair_split tcb queue before done todo candidate cell
        stored
      simp only [List.length_cons, sortInner, pair, bind, Except.bind, sortRow]
      by_cases smaller : periodOf tcb cell < periodOf tcb candidate
      · rw [if_pos smaller] at contents
        obtain ⟨next, sorted, final⟩ := ih cell (done ++ [candidate]) paired (by simpa using contents)
        refine ⟨next, ?_, by simpa [smaller] using final⟩
        rw [List.length_append, List.length_singleton, ← Nat.add_assoc] at sorted
        exact sorted
      · rw [if_neg smaller] at contents
        obtain ⟨next, sorted, final⟩ := ih candidate (done ++ [cell]) paired (by simpa using contents)
        refine ⟨next, ?_, by simpa [smaller] using final⟩
        rw [List.length_append, List.length_singleton, ← Nat.add_assoc] at sorted
        exact sorted

theorem sortOuter_rows (tcb : Nat → TcbEntry) (rows : Nat) :
    ∀ (before rest : List Nat) (queue : RingQueue Nat config.maxTasks),
      queue.contents = (before ++ rest).map some → rest.length = rows + 1 →
      ∃ next, sortOuter tcb rows before.length queue = .ok next ∧
        next.contents = (before ++ sortRows (periodOf tcb) rows rest).map some := by
  induction rows with
  | zero => exact fun _ _ queue stored _ => ⟨queue, rfl, stored⟩
  | succ rows ih =>
      intro before rest queue stored length
      cases rest with
      | nil => simp at length
      | cons candidate rest =>
          obtain ⟨rowed, row, contents⟩ := sortInner_row tcb before rest candidate [] queue
            (by simpa using stored)
          simp only [List.length_cons] at length
          have restLength := (sortRow_perm (periodOf tcb) rest candidate).length_eq
          simp only [List.length_cons] at restLength
          obtain ⟨next, sorted, final⟩ := ih
            (before ++ [(sortRow (periodOf tcb) candidate rest).1])
            (sortRow (periodOf tcb) candidate rest).2 rowed (by simpa using contents) (by omega)
          refine ⟨next, ?_, by simpa [sortRows] using final⟩
          have restEq : rest.length = rows + 1 := by omega
          rw [restEq] at row
          simp only [List.length_nil, Nat.add_zero] at row
          simp only [sortOuter, row, bind, Except.bind]
          simpa using sorted

def firstEligible (tcb : Nat → TcbEntry) (tasks : List Nat) : Option Nat :=
  tasks.find? fun task => rtEligible (tcb task)

theorem firstEligible_congr {first second : Nat → TcbEntry} {tasks : List Nat}
    (same : ∀ task ∈ tasks, rtEligible (first task) = rtEligible (second task)) :
    firstEligible first tasks = firstEligible second tasks := by
  unfold firstEligible
  rw [← List.head?_filter, ← List.head?_filter]
  congr 1
  exact List.filter_congr same

theorem rtQueueNext_cons (kernel : Kernel config) {task : Nat} {rest : List (Option Nat)}
    (stored : kernel.krnlRtQueue.contents = some task :: rest) :
    ∃ queue, kernel.rtQueueNext = .ok { kernel with krnlTask := task, krnlRtQueue := queue } ∧
      queue.contents = rest ++ [some task] := by
  obtain ⟨queue, rotated, contents⟩ :=
    rotateTask_cons kernel.krnlRtQueue .noTasksRt .cantPlaceRt stored
  exact ⟨queue, by simp [rtQueueNext, rotated, bind, Except.bind], contents⟩

theorem rmaChoice (tcb : Nat → TcbEntry) (id : Nat) {first : Nat} {visited : List Nat}
    (absent : first ∉ visited) (nonzero : first ≠ 0) :
    (if (if rtEligible (tcb first) && id = 0 then first else id) = 0
        then (firstEligible tcb visited).getD 0
        else (if rtEligible (tcb first) && id = 0 then first else id)) =
        (if id = 0 then (firstEligible tcb (first :: visited)).getD 0 else id) ∧
      decide (id = 0 ∧ firstEligible tcb (first :: visited) = some first) =
        (rtEligible (tcb first) && id = 0) ∧
      ∀ slot, slot ≠ first →
        decide ((if rtEligible (tcb first) && id = 0 then first else id) = 0 ∧
            firstEligible tcb visited = some slot) =
          decide (id = 0 ∧ firstEligible tcb (first :: visited) = some slot) := by
  have later : firstEligible tcb visited ≠ some first :=
    fun found => absent (List.mem_of_find?_eq_some found)
  simp only [firstEligible] at later ⊢
  by_cases unset : id = 0
  · cases eligible : rtEligible (tcb first) with
    | true =>
        refine ⟨by simp [unset, eligible, nonzero], by simp [unset, eligible], fun slot other => ?_⟩
        simp [unset, eligible, nonzero, Ne.symm other]
    | false => simp [unset, eligible, later]
  · simp [unset]

theorem rmaLoop_accounts (visited : List Nat) :
    ∀ (id : Nat) (kernel : Kernel config) (rest : List (Option Nat)),
      kernel.krnlRtQueue.contents = visited.map some ++ rest → visited.Nodup →
      (∀ task ∈ visited, (kernel.krnlTcb task).id = task ∧ task ≠ 0) →
      ∃ after, rmaLoop visited.length id kernel =
          .ok (if id = 0 then (firstEligible kernel.krnlTcb visited).getD 0 else id, after) ∧
        RtFrame kernel after ∧ after.krnlRtQueue.contents = rest ++ visited.map some ∧
        ∀ slot, after.krnlTcb slot =
          if slot ∈ visited then
            rtAccount (id = 0 ∧ firstEligible kernel.krnlTcb visited = some slot)
              (kernel.krnlTcb slot)
          else kernel.krnlTcb slot := by
  induction visited with
  | nil =>
      intro id kernel rest stored _ _
      refine ⟨kernel, ?_, ⟨rfl, rfl, rfl, rfl, rfl, rfl⟩, by simpa using stored, by simp⟩
      by_cases unset : id = 0
      · simp [rmaLoop, firstEligible, unset]
      · simp [rmaLoop, unset]
  | cons first visited ih =>
      intro id kernel rest stored distinct named
      simp only [List.map_cons, List.cons_append] at stored
      obtain ⟨absent, distinct⟩ := List.nodup_cons.mp distinct
      obtain ⟨queue, next, contents⟩ := kernel.rtQueueNext_cons stored
      obtain ⟨ownId, nonzero⟩ := named first List.mem_cons_self
      let selected : Bool := rtEligible (kernel.krnlTcb first) && id = 0
      let accounted : Kernel config :=
        ({ kernel with krnlTask := first, krnlRtQueue := queue }).modify first (rtAccount selected)
      have others : ∀ slot ∈ visited, accounted.krnlTcb slot = kernel.krnlTcb slot := by
        intro slot member
        exact modify_other _ _ (fun same => absent (same ▸ member))
      have sameFirst : firstEligible accounted.krnlTcb visited =
          firstEligible kernel.krnlTcb visited :=
        firstEligible_congr fun slot member => by rw [others slot member]
      obtain ⟨after, looped, frame, ends, entries⟩ := ih (if selected then first else id) accounted
        (rest ++ [some first]) (by simpa [accounted] using contents) distinct
        (fun slot member => by
          rw [others slot member]
          exact named slot (List.mem_cons_of_mem _ member))
      have step : rmaLoop (first :: visited).length id kernel =
          rmaLoop visited.length (if selected then first else id) accounted := by
        simp only [List.length_cons, rmaLoop, next, bind, Except.bind]
        rw [ownId]
      rw [sameFirst] at looped entries
      have start : RtFrame kernel accounted := ⟨rfl, rfl, rfl, rfl, rfl, rfl⟩
      obtain ⟨result, charges, later⟩ := rmaChoice kernel.krnlTcb id absent nonzero
      refine ⟨after, ?_, start.trans frame, by simpa using ends, ?_⟩
      · rw [step, looped, result]
      · intro slot
        rw [entries slot]
        by_cases isFirst : slot = first
        · subst isFirst
          rw [if_neg absent, if_pos List.mem_cons_self, charges]
          exact modify_same _ _ _
        · by_cases member : slot ∈ visited
          · rw [if_pos member, if_pos (List.mem_cons_of_mem _ member), others slot member,
              later slot isFirst]
          · rw [if_neg member, if_neg (by simp [isFirst, member])]
            exact modify_other _ _ isFirst

theorem rtAccount_rtjobs (selected : Bool) (entry : TcbEntry) :
    (rtAccount selected entry).rtjobs = entry.rtjobs := by
  unfold rtAccount
  cases selected
  · simp only [Bool.false_eq_true, if_false]
    split
    · rfl
    · rfl
  · simp only [if_true]
    split
    · rfl
    · rfl

-- The accounting of one tick for one task, with its job counted when it is selected.
def rtTick (selected : Bool) (entry : TcbEntry) : TcbEntry :=
  if selected then
    { rtAccount true entry with rtjobs := entry.rtjobs + 1 }
  else rtAccount false entry

def charged (selected : Bool) (entry : TcbEntry) : UInt16 :=
  if selected then entry.capacityRem - 1 else entry.capacityRem

theorem rtTick_deadlineRem (selected : Bool) (entry : TcbEntry) :
    (rtTick selected entry).deadlineRem =
      if entry.deadlineRem - 1 = 0 then entry.period else entry.deadlineRem - 1 := by
  by_cases reload : entry.deadlineRem - 1 = 0
  · cases selected <;> simp [rtTick, rtAccount, reload]
  · cases selected <;> simp [rtTick, rtAccount, reload]

theorem rtTick_capacityRem (selected : Bool) (entry : TcbEntry) :
    (rtTick selected entry).capacityRem =
      if entry.deadlineRem - 1 = 0 then entry.capacity else charged selected entry := by
  by_cases reload : entry.deadlineRem - 1 = 0
  · cases selected <;> simp [rtTick, rtAccount, reload]
  · cases selected <;> simp [rtTick, rtAccount, reload, charged]

theorem rtTick_deadlineMisses (selected : Bool) (entry : TcbEntry) :
    (rtTick selected entry).deadlineMisses =
      if entry.deadlineRem - 1 = 0 ∧ 0 < charged selected entry then entry.deadlineMisses + 1
      else entry.deadlineMisses := by
  by_cases reload : entry.deadlineRem - 1 = 0
  · cases selected <;> simp [rtTick, rtAccount, reload, charged]
  · cases selected <;> simp [rtTick, rtAccount, reload]

theorem rtTick_capacity (selected : Bool) (entry : TcbEntry) :
    (rtTick selected entry).capacity = entry.capacity := by
  by_cases reload : entry.deadlineRem - 1 = 0
  · cases selected <;> simp [rtTick, rtAccount, reload]
  · cases selected <;> simp [rtTick, rtAccount, reload]

theorem schedRma_ticks (kernel : Kernel config) (tasks : List Nat)
    (stored : kernel.krnlRtQueue.contents = tasks.map some) (distinct : tasks.Nodup)
    (named : ∀ task ∈ tasks, (kernel.krnlTcb task).id = task ∧ task ≠ 0) :
    ∃ sorted after, kernel.schedRma =
        .ok ((firstEligible kernel.krnlTcb sorted).getD 0, after) ∧ sorted.Perm tasks ∧
      sorted.Pairwise (fun first second =>
        periodOf kernel.krnlTcb first ≤ periodOf kernel.krnlTcb second) ∧
      after.krnlRtQueue.contents = sorted.map some ∧ RtFrame kernel after ∧
      (∀ task, firstEligible kernel.krnlTcb sorted = some task → after.krnlTask = task) ∧
      ∀ slot, after.krnlTcb slot =
        if slot ∈ tasks then
          rtTick (firstEligible kernel.krnlTcb sorted = some slot) (kernel.krnlTcb slot)
        else kernel.krnlTcb slot := by
  have length : kernel.krnlRtQueue.hfQueueCount = tasks.length := by simp [stored]
  by_cases empty : tasks = []
  · subst empty
    refine ⟨[], kernel, ?_, List.Perm.refl _, List.Pairwise.nil, stored,
      ⟨rfl, rfl, rfl, rfl, rfl, rfl⟩, by simp [firstEligible], by simp⟩
    rw [schedRma, length]
    rfl
  · have positive : 0 < tasks.length := List.length_pos_iff.mpr empty
    obtain ⟨queue, sort, sortedStored⟩ := sortOuter_rows kernel.krnlTcb (tasks.length - 1) [] tasks
      kernel.krnlRtQueue (by simpa using stored) (by omega)
    let sorted := sortRows (periodOf kernel.krnlTcb) (tasks.length - 1) tasks
    have perm : sorted.Perm tasks := sortRows_perm _ _ _
    obtain ⟨looped, loop, frame, ends, entries⟩ := rmaLoop_accounts sorted 0
      { kernel with krnlRtQueue := queue } [] (by simpa [sorted] using sortedStored)
      (perm.nodup_iff.mpr distinct) (fun task member => named task (perm.mem_iff.mp member))
    have filled : RtFrame kernel { kernel with krnlRtQueue := queue } :=
      ⟨rfl, rfl, rfl, rfl, rfl, rfl⟩
    have start : RtFrame kernel looped := filled.trans frame
    have pairwise := sortRows_sorted (periodOf kernel.krnlTcb) (tasks.length - 1) tasks (by omega)
    have whole : tasks.length = sorted.length := perm.length_eq.symm
    simp only [if_true, true_and] at loop entries
    rw [List.length_nil] at sort
    rw [schedRma, length, if_neg (by omega)]
    simp only [sort, bind, Except.bind]
    rw [whole, loop]
    cases found : firstEligible kernel.krnlTcb sorted with
    | none =>
        refine ⟨sorted, { looped with krnlTask := 0 }, by simp [found], perm, pairwise,
          by simpa using ends, ?_, by simp [found], ?_⟩
        · exact start.trans ⟨rfl, rfl, rfl, rfl, rfl, rfl⟩
        · intro slot
          simp only [entries slot, found, perm.mem_iff, rtTick]
          rfl
    | some task =>
        have member : task ∈ sorted := List.mem_of_find?_eq_some found
        have nonzero : task ≠ 0 := (named task (perm.mem_iff.mp member)).2
        refine ⟨sorted, ({ looped with krnlTask := task }).modify task fun entry =>
          { entry with rtjobs := entry.rtjobs + 1 }, by simp [found, nonzero], perm, pairwise,
          by simpa using ends, ?_, ?_, ?_⟩
        · exact start.trans ⟨rfl, rfl, rfl, rfl, rfl, rfl⟩
        · intro other same
          rw [found] at same
          exact Option.some.inj same
        · intro slot
          rw [found]
          by_cases chosen : slot = task
          · subst chosen
            simp [entries slot, found, member, perm.mem_iff.mp member, rtTick, rtAccount_rtjobs]
          · rw [modify_other _ _ chosen]
            simp [entries slot, found, perm.mem_iff, rtTick, Ne.symm chosen]

end Kernel

end Hellfire

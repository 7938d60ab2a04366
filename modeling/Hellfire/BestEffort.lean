import Hellfire.TaskCore
import Hellfire.Library.Turning

/-!
What the best effort schedulers do to the kernel: they turn the run queue, charge
remaining priorities and count a job, and they select a task that is not blocked.
-/

namespace Hellfire

def BestEffortOnly (before after : TcbEntry) : Prop :=
  after = { before with
    priorityRem := after.priorityRem
    critical := after.critical
    bgjobs := after.bgjobs }

theorem BestEffortOnly.refl (entry : TcbEntry) : BestEffortOnly entry entry := rfl

theorem BestEffortOnly.trans {first second third : TcbEntry}
    (before : BestEffortOnly first second) (after : BestEffortOnly second third) :
    BestEffortOnly first third := by
  unfold BestEffortOnly at *
  rw [after, before]

namespace Kernel

variable {config : Config}

theorem blocked_eq_true (kernel : Kernel config) (slot : Nat) :
    kernel.blocked slot = true ↔ (kernel.krnlTcb slot).state = .blocked := by
  simp [blocked]

theorem blocked_eq_false (kernel : Kernel config) (slot : Nat) :
    kernel.blocked slot = false ↔ (kernel.krnlTcb slot).state ≠ .blocked := by
  simp [blocked]

def unblocked (kernel : Kernel config) (slot : Nat) : Bool := !kernel.blocked slot

@[simp] theorem unblocked_eq_true (kernel : Kernel config) (slot : Nat) :
    kernel.unblocked slot = true ↔ kernel.blocked slot = false := by
  simp [unblocked]

@[simp] theorem unblocked_eq_false (kernel : Kernel config) (slot : Nat) :
    kernel.unblocked slot = false ↔ kernel.blocked slot = true := by
  simp [unblocked]

def turned (kernel : Kernel config) (task : Nat) (queue : RingQueue Nat config.maxTasks) :
    Kernel config :=
  { kernel with krnlTask := task, krnlRunQueue := queue }

@[simp] theorem turned_krnlTcb (kernel : Kernel config) (task : Nat)
    (queue : RingQueue Nat config.maxTasks) : (kernel.turned task queue).krnlTcb = kernel.krnlTcb :=
  rfl

@[simp] theorem turned_krnlTask (kernel : Kernel config) (task : Nat)
    (queue : RingQueue Nat config.maxTasks) : (kernel.turned task queue).krnlTask = task := rfl

@[simp] theorem turned_run (kernel : Kernel config) (task : Nat)
    (queue : RingQueue Nat config.maxTasks) : (kernel.turned task queue).krnlRunQueue = queue := rfl

@[simp] theorem turned_krnlTasks (kernel : Kernel config) (task : Nat)
    (queue : RingQueue Nat config.maxTasks) :
    (kernel.turned task queue).krnlTasks = kernel.krnlTasks := rfl

@[simp] theorem turned_blocked (kernel : Kernel config) (task slot : Nat)
    (queue : RingQueue Nat config.maxTasks) :
    (kernel.turned task queue).blocked slot = kernel.blocked slot := rfl

@[simp] theorem turned_turned (kernel : Kernel config) (task task' : Nat)
    (queue queue' : RingQueue Nat config.maxTasks) :
    (kernel.turned task queue).turned task' queue' = kernel.turned task' queue' := rfl

theorem runQueueNext_cons (kernel : Kernel config) {task : Nat} {rest : List (Option Nat)}
    (stored : kernel.krnlRunQueue.contents = some task :: rest) :
    ∃ queue, kernel.runQueueNext = .ok (kernel.turned task queue) ∧
      queue.contents = rest ++ [some task] := by
  obtain ⟨queue, rotated, contents⟩ :=
    rotateTask_cons kernel.krnlRunQueue .noTasksRun .cantPlaceRun stored
  exact ⟨queue, by simp [runQueueNext, rotated, bind, Except.bind, Kernel.turned], contents⟩

theorem rrLoop_finds (skipped : List Nat) :
    ∀ (fuel : Nat) (kernel : Kernel config) (task : Nat) (rest : List (Option Nat)),
      kernel.krnlRunQueue.contents = skipped.map some ++ some task :: rest →
      (∀ slot ∈ skipped, kernel.blocked slot = true) → kernel.blocked task = false →
      skipped.length < fuel →
      ∃ queue, rrLoop fuel kernel =
          .ok (kernel.turned task queue) ∧
        queue.contents = rest ++ skipped.map some ++ [some task] := by
  induction skipped with
  | nil =>
      intro fuel kernel task rest stored _ unblocked enough
      obtain ⟨fuel, rfl⟩ : ∃ less, fuel = less + 1 := ⟨fuel - 1, by omega⟩
      obtain ⟨queue, next, contents⟩ := kernel.runQueueNext_cons stored
      refine ⟨queue, ?_, by simpa using contents⟩
      simp [rrLoop, next, bind, Except.bind, unblocked]
  | cons first skipped ih =>
      intro fuel kernel task rest stored allBlocked unblocked enough
      obtain ⟨fuel, rfl⟩ : ∃ less, fuel = less + 1 := ⟨fuel - 1, by omega⟩
      simp only [List.map_cons, List.cons_append] at stored
      obtain ⟨queue, next, contents⟩ := kernel.runQueueNext_cons stored
      obtain ⟨final, looped, finalContents⟩ := ih fuel
        (kernel.turned first queue) task (rest ++ [some first])
        (by simpa using contents) (fun slot member => allBlocked slot (by simp [member]))
        unblocked (by simpa using enough)
      refine ⟨final, ?_, by simpa using finalContents⟩
      have skips : kernel.blocked first = true := allBlocked first (by simp)
      simpa [rrLoop, next, bind, Except.bind, skips] using looped

theorem lotteryLoop_skips (ticket : Nat) (skipped : List Nat) :
    ∀ (fuel i : Nat) (kernel : Kernel config) (task : Nat) (rest : List (Option Nat)),
      kernel.krnlRunQueue.contents = skipped.map some ++ some task :: rest →
      (∀ slot ∈ skipped, kernel.blocked slot = true) → kernel.blocked task = false →
      ∃ queue, lotteryLoop ticket (skipped.length + 1 + fuel) i kernel =
          (if i % kernel.krnlTasks.toNat = ticket then .ok (kernel.turned task queue)
          else lotteryLoop ticket fuel (i + 1) (kernel.turned task queue)) ∧
        queue.contents = rest ++ skipped.map some ++ [some task] := by
  induction skipped with
  | nil =>
      intro fuel i kernel task rest stored _ unblocked
      obtain ⟨queue, next, contents⟩ := kernel.runQueueNext_cons stored
      refine ⟨queue, ?_, by simpa using contents⟩
      rw [List.length_nil, Nat.zero_add, Nat.add_comm]
      by_cases met : i % kernel.krnlTasks.toNat = ticket
      · simp [lotteryLoop, next, bind, Except.bind, unblocked, met]
      · simp [lotteryLoop, next, bind, Except.bind, unblocked, met]
  | cons first skipped ih =>
      intro fuel i kernel task rest stored allBlocked unblocked
      simp only [List.map_cons, List.cons_append] at stored
      obtain ⟨queue, next, contents⟩ := kernel.runQueueNext_cons stored
      obtain ⟨final, looped, finalContents⟩ := ih fuel i
        (kernel.turned first queue) task (rest ++ [some first])
        (by simpa using contents) (fun slot member => allBlocked slot (by simp [member]))
        unblocked
      refine ⟨final, ?_, by simpa using finalContents⟩
      have skips : kernel.blocked first = true := allBlocked first (by simp)
      have step : lotteryLoop ticket (skipped.length + 1 + fuel + 1) i kernel =
          lotteryLoop ticket (skipped.length + 1 + fuel) i (kernel.turned first queue) := by
        simp [lotteryLoop, next, bind, Except.bind, skips]
      rw [List.length_cons, Nat.add_right_comm _ 1 fuel, step]
      exact looped

theorem lotteryLoop_finds (ticket remaining : Nat) :
    ∀ (fuel i : Nat) (kernel : Kernel config) (tasks : List Nat),
      kernel.krnlRunQueue.contents = tasks.map some → i + remaining = ticket →
      ticket < kernel.krnlTasks.toNat → (∃ slot ∈ tasks, kernel.unblocked slot = true) →
      tasks.length * (remaining + 1) ≤ fuel →
      ∃ before task behind queue, Turning.Found kernel.unblocked tasks before task behind
          (remaining % tasks.countP kernel.unblocked) ∧
        lotteryLoop ticket fuel i kernel = .ok (kernel.turned task queue) ∧
        queue.contents = (Turning.turnedPast before task behind).map some := by
  induction remaining with
  | zero =>
      intro fuel i kernel tasks stored atTicket ticketBound present enough
      obtain ⟨skipped, task, rest, found⟩ := Turning.exists_first tasks present
      have length : skipped.length + 1 ≤ fuel := by
        simp only [found.split, List.length_append, List.length_cons] at enough
        omega
      obtain ⟨queue, looped, contents⟩ := lotteryLoop_skips ticket skipped
        (fuel - (skipped.length + 1)) i kernel task (rest.map some) (by simp [stored, found.split])
        (by simpa using found.skipped) (by simpa using found.runs)
      rw [Nat.add_sub_cancel' length, Nat.mod_eq_of_lt (by omega), if_pos (by omega)] at looped
      refine ⟨skipped, task, rest, queue, ?_, looped, by simpa [Turning.turnedPast] using contents⟩
      rw [Nat.zero_mod]
      exact found
  | succ remaining ih =>
      intro fuel i kernel tasks stored atTicket ticketBound present enough
      obtain ⟨skipped, first, rest, head⟩ := Turning.exists_first tasks present
      have length : skipped.length + 1 ≤ tasks.length := by
        simp only [head.split, List.length_append, List.length_cons]
        omega
      rw [Nat.mul_succ] at enough
      obtain ⟨queue, looped, contents⟩ := lotteryLoop_skips ticket skipped
        (fuel - (skipped.length + 1)) i kernel first (rest.map some) (by simp [stored, head.split])
        (by simpa using head.skipped) (by simpa using head.runs)
      rw [Nat.add_sub_cancel' (by omega), Nat.mod_eq_of_lt (by omega), if_neg (by omega)] at looped
      -- the queue has turned past the first unblocked task and the rest of the loop starts there
      have turn : (Turning.turnedPast skipped first rest).Perm tasks := by
        rw [head.split]
        exact ListSwap.turned_perm _ _ _
      obtain ⟨before, task, behind, final, found, finalLoop, finalContents⟩ := ih
        (fuel - (skipped.length + 1)) (i + 1) (kernel.turned first queue)
        (Turning.turnedPast skipped first rest)
        (by simpa [Turning.turnedPast] using contents) (by omega) ticketBound
        ⟨first, by simp [Turning.turnedPast], head.runs⟩ (by rw [turn.length_eq]; omega)
      have same : (kernel.turned first queue).unblocked = kernel.unblocked := rfl
      rw [same, turn.countP_eq] at found
      obtain ⟨before', behind', found', turns⟩ := head.later found
      exact ⟨before', task, behind', final, found', looped.trans finalLoop, by
        rw [finalContents, turns]⟩

structure RunFrame (before after : Kernel config) : Prop where
  tasks : after.krnlTasks = before.krnlTasks
  current : after.krnlCurrentTask = before.krnlCurrentTask
  schedule : after.krnlSchedule = before.krnlSchedule
  delay : after.krnlDelayQueue = before.krnlDelayQueue
  rt : after.krnlRtQueue = before.krnlRtQueue
  schedBe : after.schedBe = before.schedBe

theorem RunFrame.refl (kernel : Kernel config) : RunFrame kernel kernel :=
  ⟨rfl, rfl, rfl, rfl, rfl, rfl⟩

theorem RunFrame.trans {first second third : Kernel config} (before : RunFrame first second)
    (after : RunFrame second third) : RunFrame first third :=
  ⟨after.tasks.trans before.tasks, after.current.trans before.current,
    after.schedule.trans before.schedule, after.delay.trans before.delay,
    after.rt.trans before.rt, after.schedBe.trans before.schedBe⟩

theorem turned_frame (kernel : Kernel config) (task : Nat)
    (queue : RingQueue Nat config.maxTasks) : RunFrame kernel (kernel.turned task queue) :=
  ⟨rfl, rfl, rfl, rfl, rfl, rfl⟩

theorem modify_frame (kernel : Kernel config) (slot : Nat) (change : TcbEntry → TcbEntry) :
    RunFrame kernel (kernel.modify slot change) :=
  ⟨rfl, rfl, rfl, rfl, rfl, rfl⟩

theorem countJob_frame (kernel : Kernel config) : RunFrame kernel kernel.countJob.2 :=
  ⟨rfl, rfl, rfl, rfl, rfl, rfl⟩

structure Selected (before after : Kernel config) (task : Nat) : Prop where
  frame : RunFrame before after
  pointer : after.krnlTask = task
  entries : ∀ slot, BestEffortOnly (before.krnlTcb slot) (after.krnlTcb slot)
  turned : after.krnlRunQueue.contents.Perm before.krnlRunQueue.contents
  member : some task ∈ before.krnlRunQueue.contents
  unblocked : before.blocked task = false
  priorities : ∀ slot, some slot ∈ before.krnlRunQueue.contents → before.blocked slot = false →
    (before.krnlTcb slot).priorityRem ≤ (before.krnlTcb slot).priority →
    (after.krnlTcb slot).priorityRem ≤ (after.krnlTcb slot).priority

/-- A best effort call that selects the unblocked task at a position of the queue: the queue
turns past that task and its job is counted, and nothing else changes. -/
def TurnsTo (kernel : Kernel config) (tasks : List Nat) (position : Nat)
    (result : Except Halt (Nat × Kernel config)) : Prop :=
  ∃ before task behind after, Turning.Found kernel.unblocked tasks before task behind position ∧
    result = .ok ((kernel.krnlTcb task).id, after) ∧ after.krnlTask = task ∧
    after.krnlRunQueue.contents = (Turning.turnedPast before task behind).map some ∧
    RunFrame kernel after ∧
    after.krnlTcb = Function.update kernel.krnlTcb task
      { kernel.krnlTcb task with bgjobs := (kernel.krnlTcb task).bgjobs + 1 }

theorem TurnsTo.of_loop {kernel : Kernel config} {before behind : List Nat} {task position : Nat}
    {queue : RingQueue Nat config.maxTasks} {tasks : List Nat}
    (found : Turning.Found kernel.unblocked tasks before task behind position)
    (contents : queue.contents = (Turning.turnedPast before task behind).map some) :
    TurnsTo kernel tasks position (.ok (kernel.turned task queue).countJob) :=
  ⟨before, task, behind, _, found, rfl, rfl, contents,
    (turned_frame _ _ _).trans (countJob_frame _), rfl⟩

theorem TurnsTo.selects {kernel : Kernel config} {tasks : List Nat} {position : Nat}
    {result : Except Halt (Nat × Kernel config)}
    (stored : kernel.krnlRunQueue.contents = tasks.map some)
    (turns : TurnsTo kernel tasks position result) :
    ∃ task after, result = .ok ((kernel.krnlTcb task).id, after) ∧ Selected kernel after task := by
  obtain ⟨before, task, behind, after, found, ok, pointer, contents, frame, entries⟩ := turns
  have others : ∀ slot, BestEffortOnly (kernel.krnlTcb slot) (after.krnlTcb slot) ∧
      (after.krnlTcb slot).priorityRem = (kernel.krnlTcb slot).priorityRem ∧
      (after.krnlTcb slot).priority = (kernel.krnlTcb slot).priority := by
    intro slot
    rw [entries]
    by_cases same : slot = task
    · subst same
      simp [BestEffortOnly]
    · simp [same, BestEffortOnly]
  refine ⟨task, after, ok, frame, pointer, fun slot => (others slot).1, ?_, ?_,
    by simpa using found.runs, ?_⟩
  · rw [contents, stored, found.split]
    exact (ListSwap.turned_perm before behind task).map some
  · rw [stored, found.split]
    simp
  · intro slot _ _ within
    rw [(others slot).2.1, (others slot).2.2]
    exact within

theorem schedRr_turns (kernel : Kernel config) (tasks : List Nat)
    (stored : kernel.krnlRunQueue.contents = tasks.map some)
    (present : ∃ slot ∈ tasks, kernel.unblocked slot = true) :
    TurnsTo kernel tasks 0 kernel.schedRr := by
  obtain ⟨skipped, task, rest, found⟩ := Turning.exists_first tasks present
  have length : kernel.krnlRunQueue.hfQueueCount = skipped.length + rest.length + 1 := by
    simp [stored, found.split]
    omega
  obtain ⟨queue, looped, contents⟩ := rrLoop_finds skipped kernel.krnlRunQueue.hfQueueCount kernel
    task (rest.map some) (by simp [stored, found.split]) (by simpa using found.skipped)
    (by simpa using found.runs) (by omega)
  rw [schedRr, if_neg (by omega), looped]
  exact .of_loop found (by simpa [Turning.turnedPast] using contents)

theorem schedLottery_turns (random : Nat) (kernel : Kernel config) (tasks : List Nat)
    (stored : kernel.krnlRunQueue.contents = tasks.map some) (some_task : 0 < kernel.krnlTasks)
    (present : ∃ slot ∈ tasks, kernel.unblocked slot = true) :
    TurnsTo kernel tasks (random % kernel.krnlTasks.toNat % tasks.countP kernel.unblocked)
      (kernel.schedLottery random) := by
  have positive : 0 < kernel.krnlTasks.toNat := some_task
  have ticketBound : random % kernel.krnlTasks.toNat < kernel.krnlTasks.toNat :=
    Nat.mod_lt _ positive
  have length : kernel.krnlRunQueue.hfQueueCount = tasks.length := by simp [stored]
  have nonempty : 0 < tasks.length := by
    obtain ⟨slot, member, _⟩ := present
    exact List.length_pos_of_mem member
  obtain ⟨before, task, behind, queue, found, looped, contents⟩ := lotteryLoop_finds
    (random % kernel.krnlTasks.toNat) (random % kernel.krnlTasks.toNat)
    (tasks.length * kernel.krnlTasks.toNat) 0 kernel tasks stored (by omega) ticketBound present
    (Nat.mul_le_mul_left _ ticketBound)
  simp only [schedLottery]
  rw [length, if_neg (by omega), looped]
  exact .of_loop found contents

/-- What the first loop of `sched_priorityrr` found among the `visited` tasks when it
started with the bound `highestp` and the candidate `task2`. -/
def PriorityFound (kernel after : Kernel config) (visited : List Nat) (highestp : UInt8)
    (task2 : Option Nat) : PrioritySearch → Prop
  | .critical => after.krnlTask ∈ visited ∧ kernel.blocked after.krnlTask = false ∧
      (kernel.krnlTcb after.krnlTask).critical ≠ 0 ∧
      after.krnlTcb = Function.update kernel.krnlTcb after.krnlTask
        { kernel.krnlTcb after.krnlTask with critical := 0 }
  | .candidate best => after.krnlTcb = kernel.krnlTcb ∧ (task2 ≠ none → best ≠ none) ∧
      (∀ slot ∈ visited, kernel.blocked slot = false → (kernel.krnlTcb slot).critical = 0) ∧
      (∀ task, best = some task → (kernel.krnlTcb task).priorityRem ≤ highestp ∧
        (task2 = some task ∨ task ∈ visited ∧ kernel.blocked task = false ∧
          (kernel.krnlTcb task).priorityRem < highestp)) ∧
      ∀ slot ∈ visited, kernel.blocked slot = false →
        (kernel.krnlTcb slot).priorityRem < highestp →
        ∃ task, best = some task ∧
          (kernel.krnlTcb task).priorityRem ≤ (kernel.krnlTcb slot).priorityRem

section PriorityFound

variable {kernel after : Kernel config} {visited : List Nat} {highestp : UInt8}
  {task2 : Option Nat} {found : PrioritySearch} {first : Nat}

theorem PriorityFound.skip
    (calm : kernel.blocked first = false → (kernel.krnlTcb first).critical = 0)
    (worse : ¬((kernel.krnlTcb first).priorityRem < highestp ∧
      (kernel.krnlTcb first).state ≠ .blocked))
    (later : PriorityFound kernel after visited highestp task2 found) :
    PriorityFound kernel after (first :: visited) highestp task2 found := by
  cases found with
  | critical =>
      obtain ⟨member, served⟩ := later
      exact ⟨List.mem_cons_of_mem _ member, served⟩
  | candidate best =>
      obtain ⟨unchanged, kept, quiet, chosen, least⟩ := later
      refine ⟨unchanged, kept, List.forall_mem_cons.mpr ⟨calm, quiet⟩, ?_, ?_⟩
      · intro task isBest
        obtain ⟨bound, origin⟩ := chosen task isBest
        refine ⟨bound, origin.imp_right ?_⟩
        exact fun ⟨member, runs⟩ => ⟨List.mem_cons_of_mem _ member, runs⟩
      · intro slot member unblocked below
        rcases List.mem_cons.mp member with same | later
        · subst same
          exact absurd ⟨below, (kernel.blocked_eq_false _).mp unblocked⟩ worse
        · exact least slot later unblocked below

theorem PriorityFound.take
    (calm : kernel.blocked first = false → (kernel.krnlTcb first).critical = 0)
    (better : (kernel.krnlTcb first).priorityRem < highestp ∧
      (kernel.krnlTcb first).state ≠ .blocked)
    (later : PriorityFound kernel after visited (kernel.krnlTcb first).priorityRem (some first)
      found) :
    PriorityFound kernel after (first :: visited) highestp task2 found := by
  cases found with
  | critical =>
      obtain ⟨member, served⟩ := later
      exact ⟨List.mem_cons_of_mem _ member, served⟩
  | candidate best =>
      obtain ⟨unchanged, kept, quiet, chosen, least⟩ := later
      have someBest : best ≠ none := kept (by simp)
      refine ⟨unchanged, fun _ => someBest, List.forall_mem_cons.mpr ⟨calm, quiet⟩, ?_, ?_⟩
      · intro task isBest
        obtain ⟨bound, origin⟩ := chosen task isBest
        have below : (kernel.krnlTcb task).priorityRem < highestp :=
          UInt8.lt_of_le_of_lt bound better.1
        refine ⟨UInt8.le_of_lt below, Or.inr ?_⟩
        rcases origin with same | ⟨member, unblocked, _⟩
        · rw [← Option.some.inj same]
          exact ⟨List.mem_cons_self, (kernel.blocked_eq_false first).mpr better.2, better.1⟩
        · exact ⟨List.mem_cons_of_mem _ member, unblocked, below⟩
      · intro slot member unblocked below
        obtain ⟨task, isBest⟩ := Option.ne_none_iff_exists'.mp someBest
        by_cases lower : (kernel.krnlTcb slot).priorityRem < (kernel.krnlTcb first).priorityRem
        · rcases List.mem_cons.mp member with same | later
          · rw [same] at lower
            exact absurd lower (UInt8.lt_irrefl _)
          · exact least slot later unblocked lower
        · exact ⟨task, isBest, UInt8.le_trans (chosen task isBest).1 (UInt8.not_lt.mp lower)⟩

end PriorityFound

theorem priorityLoop_cons (fuel : Nat) (highestp : UInt8) (task2 : Option Nat)
    (kernel : Kernel config) {first : Nat} {rest : List (Option Nat)}
    (stored : kernel.krnlRunQueue.contents = some first :: rest) :
    ∃ queue, queue.contents = rest ++ [some first] ∧
      priorityLoop (fuel + 1) highestp task2 kernel =
        if (kernel.krnlTcb first).critical ≠ 0 ∧ (kernel.krnlTcb first).state ≠ .blocked then
          .ok (.critical, (kernel.turned first queue).modify first fun entry =>
            { entry with critical := 0 })
        else if (kernel.krnlTcb first).priorityRem < highestp ∧
            (kernel.krnlTcb first).state ≠ .blocked then
          priorityLoop fuel (kernel.krnlTcb first).priorityRem (some first)
            (kernel.turned first queue)
        else priorityLoop fuel highestp task2 (kernel.turned first queue) := by
  obtain ⟨queue, next, contents⟩ := kernel.runQueueNext_cons stored
  refine ⟨queue, contents, ?_⟩
  rw [priorityLoop, next]
  rfl

theorem chargeLoop_cons (task2 fuel : Nat) (kernel : Kernel config) {first : Nat}
    {rest : List (Option Nat)} (stored : kernel.krnlRunQueue.contents = some first :: rest) :
    ∃ queue, queue.contents = rest ++ [some first] ∧
      chargeLoop task2 (fuel + 1) kernel =
        if first ≠ task2 then
          chargeLoop task2 fuel ((kernel.turned first queue).modify first fun entry =>
            { entry with
              priorityRem := entry.priorityRem - (kernel.krnlTcb task2).priorityRem })
        else chargeLoop task2 fuel (kernel.turned first queue) := by
  obtain ⟨queue, next, contents⟩ := kernel.runQueueNext_cons stored
  refine ⟨queue, contents, ?_⟩
  rw [chargeLoop, next]
  rfl

theorem priorityLoop_finds (visited : List Nat) :
    ∀ (highestp : UInt8) (task2 : Option Nat) (kernel : Kernel config) (rest : List (Option Nat)),
      kernel.krnlRunQueue.contents = visited.map some ++ rest →
      (∀ task, task2 = some task → (kernel.krnlTcb task).priorityRem ≤ highestp) →
      ∃ found after, priorityLoop visited.length highestp task2 kernel = .ok (found, after) ∧
        RunFrame kernel after ∧
        after.krnlRunQueue.contents.Perm kernel.krnlRunQueue.contents ∧
        (found ≠ .critical → after.krnlRunQueue.contents = rest ++ visited.map some) ∧
        PriorityFound kernel after visited highestp task2 found := by
  induction visited with
  | nil =>
      intro highestp task2 kernel rest stored bounded
      refine ⟨.candidate task2, kernel, rfl, .refl kernel, List.Perm.refl _,
        by simp [stored], rfl, id, by simp, ?_, by simp⟩
      exact fun task candidate => ⟨bounded task candidate, Or.inl candidate⟩
  | cons first visited ih =>
      intro highestp task2 kernel rest stored bounded
      simp only [List.map_cons, List.cons_append] at stored
      obtain ⟨queue, contents, unrolled⟩ := priorityLoop_cons visited.length highestp task2 kernel
        stored
      have turn : queue.contents.Perm kernel.krnlRunQueue.contents := by
        rw [contents, stored]
        exact List.perm_append_comm
      have nextStored : queue.contents = visited.map some ++ (rest ++ [some first]) := by
        simp [contents]
      rw [List.length_cons, unrolled]
      by_cases critical : (kernel.krnlTcb first).critical ≠ 0 ∧
          (kernel.krnlTcb first).state ≠ .blocked
      · refine ⟨.critical, (kernel.turned first queue).modify first
          fun entry => { entry with critical := 0 }, by rw [if_pos critical],
          (turned_frame _ _ _).trans (modify_frame _ _ _), turn,
          by simp, List.mem_cons_self, (kernel.blocked_eq_false first).mpr critical.2, critical.1,
          rfl⟩
      · rw [if_neg critical]
        have calm : kernel.blocked first = false → (kernel.krnlTcb first).critical = 0 := by
          intro unblocked
          by_contra raised
          exact critical ⟨raised, (kernel.blocked_eq_false first).mp unblocked⟩
        by_cases better : (kernel.krnlTcb first).priorityRem < highestp ∧
            (kernel.krnlTcb first).state ≠ .blocked
        · obtain ⟨found, after, looped, frame, perm, ends, outcome⟩ := ih
            (kernel.krnlTcb first).priorityRem (some first)
            (kernel.turned first queue) (rest ++ [some first])
            nextStored (by
              intro task same
              rw [Option.some.inj same]
              exact UInt8.le_refl _)
          exact ⟨found, after, by rw [if_pos better, looped], (turned_frame _ _ _).trans frame,
            perm.trans turn, fun other => by simpa using ends other,
            .take calm better outcome⟩
        · obtain ⟨found, after, looped, frame, perm, ends, outcome⟩ := ih highestp task2
            (kernel.turned first queue) (rest ++ [some first])
            nextStored bounded
          exact ⟨found, after, by rw [if_neg better, looped], (turned_frame _ _ _).trans frame,
            perm.trans turn, fun other => by simpa using ends other,
            .skip calm better outcome⟩

theorem chargeLoop_charges (task2 : Nat) (visited : List Nat) :
    ∀ (kernel : Kernel config) (rest : List (Option Nat)),
      kernel.krnlRunQueue.contents = visited.map some ++ rest → visited.Nodup →
      ∃ after, chargeLoop task2 visited.length kernel = .ok after ∧ RunFrame kernel after ∧
        after.krnlRunQueue.contents = rest ++ visited.map some ∧
        ∀ slot, after.krnlTcb slot =
          if slot ∈ visited ∧ slot ≠ task2 then
            { kernel.krnlTcb slot with
              priorityRem := (kernel.krnlTcb slot).priorityRem -
                (kernel.krnlTcb task2).priorityRem }
          else kernel.krnlTcb slot := by
  induction visited with
  | nil =>
      intro kernel rest stored _
      exact ⟨kernel, rfl, .refl kernel, by simpa using stored, by simp⟩
  | cons first visited ih =>
      intro kernel rest stored distinct
      simp only [List.map_cons, List.cons_append] at stored
      obtain ⟨absent, distinct⟩ := List.nodup_cons.mp distinct
      obtain ⟨queue, contents, unrolled⟩ := chargeLoop_cons task2 visited.length kernel stored
      have nextStored : queue.contents = visited.map some ++ (rest ++ [some first]) := by
        simp [contents]
      rw [List.length_cons, unrolled]
      by_cases candidate : first = task2
      · obtain ⟨after, looped, frame, ends, entries⟩ := ih
          (kernel.turned first queue) (rest ++ [some first])
          nextStored distinct
        refine ⟨after, by rw [if_neg (not_not.mpr candidate), looped],
          (turned_frame _ _ _).trans frame, by simpa using ends, ?_⟩
        · intro slot
          rw [entries slot]
          by_cases same : slot = task2
          · simp [same]
          · simp [same, candidate]
      · obtain ⟨after, looped, frame, ends, entries⟩ := ih
          ((kernel.turned first queue).modify first fun entry =>
            { entry with
              priorityRem := entry.priorityRem - (kernel.krnlTcb task2).priorityRem })
          (rest ++ [some first]) nextStored distinct
        refine ⟨after, by rw [if_pos candidate, looped],
          ((turned_frame _ _ _).trans (modify_frame _ _ _)).trans frame, by simpa using ends, ?_⟩
        · intro slot
          rw [entries slot, modify_other _ _ (Ne.symm candidate)]
          by_cases same : slot = first
          · subst same
            simp [absent, candidate]
          · simp [modify_other _ _ same, same]

structure PriorityTurn (kernel after : Kernel config) (tasks : List Nat) (task : Nat) : Prop where
  frame : RunFrame kernel after
  pointer : after.krnlTask = task
  turned : after.krnlRunQueue.contents.Perm (tasks.map some)
  member : task ∈ tasks
  unblocked : kernel.blocked task = false

structure CriticalTurn (kernel after : Kernel config) (tasks : List Nat) (task : Nat) : Prop
    extends PriorityTurn kernel after tasks task where
  critical : (kernel.krnlTcb task).critical ≠ 0
  entries : ∀ slot, after.krnlTcb slot =
    if slot = task then
      { kernel.krnlTcb slot with critical := 0, bgjobs := (kernel.krnlTcb slot).bgjobs + 1 }
    else kernel.krnlTcb slot

structure ChargedTurn (kernel after : Kernel config) (tasks : List Nat) (task : Nat) : Prop
    extends PriorityTurn kernel after tasks task where
  quiet : ∀ slot ∈ tasks, kernel.blocked slot = false → (kernel.krnlTcb slot).critical = 0
  bounded : (kernel.krnlTcb task).priorityRem < 255
  least : ∀ slot ∈ tasks, kernel.blocked slot = false →
    (kernel.krnlTcb task).priorityRem ≤ (kernel.krnlTcb slot).priorityRem
  entries : ∀ slot, after.krnlTcb slot =
    if slot = task then
      { kernel.krnlTcb slot with
        priorityRem := (kernel.krnlTcb slot).priority
        bgjobs := (kernel.krnlTcb slot).bgjobs + 1 }
    else if slot ∈ tasks then
      { kernel.krnlTcb slot with
        priorityRem := (kernel.krnlTcb slot).priorityRem - (kernel.krnlTcb task).priorityRem }
    else kernel.krnlTcb slot

def NoCandidate (kernel : Kernel config) (tasks : List Nat) : Prop :=
  ∀ slot ∈ tasks, kernel.blocked slot = false →
    (kernel.krnlTcb slot).critical = 0 ∧ (kernel.krnlTcb slot).priorityRem = 255

theorem critical_turn {kernel after : Kernel config} {visited tasks : List Nat}
    (perm : visited.Perm tasks) (frame : RunFrame kernel after)
    (turned : after.krnlRunQueue.contents.Perm (tasks.map some))
    (member : after.krnlTask ∈ visited) (unblocked : kernel.blocked after.krnlTask = false)
    (critical : (kernel.krnlTcb after.krnlTask).critical ≠ 0)
    (entries : after.krnlTcb = Function.update kernel.krnlTcb after.krnlTask
      { kernel.krnlTcb after.krnlTask with critical := 0 }) :
    after.countJob.1 = (kernel.krnlTcb after.krnlTask).id ∧
      CriticalTurn kernel after.countJob.2 tasks after.krnlTask := by
  constructor
  · rw [countJob, entries, Function.update_self]
  · refine ⟨⟨frame.trans after.countJob_frame, rfl, turned, perm.mem_iff.mp member, unblocked⟩,
      critical, ?_⟩
    intro slot
    by_cases same : slot = after.krnlTask
    · rw [if_pos same, same]
      simp only [countJob, modify_same]
      rw [entries, Function.update_self]
    · rw [if_neg same]
      simp only [countJob]
      rw [modify_other _ _ same, entries, Function.update_of_ne same]

theorem charged_turn {kernel charged : Kernel config} {visited tasks : List Nat} {task : Nat}
    (perm : visited.Perm tasks) (frame : RunFrame kernel charged)
    (turned : charged.krnlRunQueue.contents.Perm (tasks.map some)) (member : task ∈ visited)
    (unblocked : kernel.blocked task = false)
    (quiet : ∀ slot ∈ visited, kernel.blocked slot = false → (kernel.krnlTcb slot).critical = 0)
    (bounded : (kernel.krnlTcb task).priorityRem < 255)
    (least : ∀ slot ∈ visited, kernel.blocked slot = false →
      (kernel.krnlTcb task).priorityRem ≤ (kernel.krnlTcb slot).priorityRem)
    (entries : ∀ slot, charged.krnlTcb slot =
      if slot ∈ visited ∧ slot ≠ task then
        { kernel.krnlTcb slot with
          priorityRem := (kernel.krnlTcb slot).priorityRem - (kernel.krnlTcb task).priorityRem }
      else kernel.krnlTcb slot) :
    ∃ after, (({ charged with krnlTask := task }).modify task fun entry =>
        { entry with priorityRem := entry.priority }).countJob = ((kernel.krnlTcb task).id, after) ∧
      ChargedTurn kernel after tasks task := by
  have own : charged.krnlTcb task = kernel.krnlTcb task := by
    rw [entries, if_neg (by simp)]
  refine ⟨_, Prod.ext ?_ rfl, ⟨⟨frame.trans ⟨rfl, rfl, rfl, rfl, rfl, rfl⟩, rfl, turned,
    perm.mem_iff.mp member, unblocked⟩, ?_, bounded, ?_, ?_⟩⟩
  · simp only [countJob, modify_krnlTask, modify_same, own]
  · exact fun slot inside => quiet slot (perm.mem_iff.mpr inside)
  · exact fun slot inside => least slot (perm.mem_iff.mpr inside)
  · intro slot
    simp only [countJob, modify_krnlTask]
    by_cases same : slot = task
    · subst same
      rw [if_pos rfl, modify_same, modify_same, own]
    · rw [if_neg same, modify_other _ _ same, modify_other _ _ same, entries slot]
      simp only [perm.mem_iff, same, ne_eq, not_false_eq_true, and_true]

theorem schedPriorityrr_turns (kernel : Kernel config) (tasks : List Nat)
    (stored : kernel.krnlRunQueue.contents = tasks.map some) (distinct : tasks.Nodup)
    (nonempty : tasks ≠ []) :
    (∃ task after, kernel.schedPriorityrr = .ok ((kernel.krnlTcb task).id, after) ∧
        CriticalTurn kernel after tasks task) ∨
      (∃ task after, kernel.schedPriorityrr = .ok ((kernel.krnlTcb task).id, after) ∧
        ChargedTurn kernel after tasks task) ∨
      (kernel.NoCandidate tasks ∧ kernel.schedPriorityrr = .error .nullDereference) := by
  have length : kernel.krnlRunQueue.hfQueueCount = tasks.length := by simp [stored]
  cases tasks with
  | nil => exact absurd rfl nonempty
  | cons first rest =>
      obtain ⟨queue, next, contents⟩ := kernel.runQueueNext_cons stored
      let advanced := kernel.turned first queue
      let visited := rest ++ [first]
      have perm : visited.Perm (first :: rest) := List.perm_append_comm
      have visitedStored : advanced.krnlRunQueue.contents = visited.map some ++ [] := by
        simpa [visited, advanced] using contents
      obtain ⟨found, after, looped, frame, turns, ends, outcome⟩ := priorityLoop_finds visited 255
        none advanced [] visitedStored (by simp)
      have whole : visited.length = (first :: rest).length := perm.length_eq
      have turned : after.krnlRunQueue.contents.Perm ((first :: rest).map some) := by
        refine turns.trans ?_
        rw [visitedStored, List.append_nil]
        exact perm.map some
      have frame' : RunFrame kernel after := (turned_frame _ _ _).trans frame
      rw [schedPriorityrr, length, if_neg (by simp), next]
      simp only [bind, Except.bind]
      rw [← whole, looped]
      cases found with
      | critical =>
          obtain ⟨member, unblocked, critical, entries⟩ := outcome
          obtain ⟨job, turn⟩ := critical_turn perm frame' turned member unblocked
            critical entries
          exact Or.inl ⟨after.krnlTask, _, by rw [← job], turn⟩
      | candidate best =>
          obtain ⟨unchanged, _, quiet, chosen, least⟩ := outcome
          have atTop : ∀ slot, ¬(kernel.krnlTcb slot).priorityRem < 255 →
              (kernel.krnlTcb slot).priorityRem = 255 := by
            intro slot above
            rw [UInt8.lt_iff_toNat_lt] at above
            have top := (kernel.krnlTcb slot).priorityRem.toNat_lt
            apply UInt8.toNat_inj.mp
            simp only [UInt8.reduceToNat] at above ⊢
            omega
          cases best with
          | none =>
              refine Or.inr (Or.inr ⟨fun slot member unblocked => ?_, rfl⟩)
              have inside := perm.mem_iff.mpr member
              refine ⟨quiet slot inside unblocked, atTop slot fun below => ?_⟩
              obtain ⟨task, same, _⟩ := least slot inside unblocked below
              cases same
          | some task =>
              obtain ⟨_, origin⟩ := chosen task rfl
              obtain ⟨member, unblocked, bounded⟩ := origin.resolve_left (by simp)
              have lowest : ∀ slot ∈ visited, kernel.blocked slot = false →
                  (kernel.krnlTcb task).priorityRem ≤ (kernel.krnlTcb slot).priorityRem := by
                intro slot inside slotUnblocked
                by_cases below : (kernel.krnlTcb slot).priorityRem < 255
                · obtain ⟨best, same, bound⟩ := least slot inside slotUnblocked below
                  rw [Option.some.inj same]
                  exact bound
                · rw [atTop slot below]
                  exact UInt8.le_of_lt bounded
              obtain ⟨charged, charge, chargeFrame, chargeEnds, entries⟩ := chargeLoop_charges task
                visited after [] (by simpa using ends (by simp)) (perm.nodup_iff.mpr distinct)
              rw [unchanged] at entries
              have chargedPerm : charged.krnlRunQueue.contents.Perm ((first :: rest).map some) := by
                rw [chargeEnds, List.nil_append]
                exact perm.map some
              obtain ⟨final, job, turn⟩ := charged_turn perm
                (frame'.trans chargeFrame) chargedPerm member unblocked quiet bounded lowest entries
              refine Or.inr (Or.inl ⟨task, final, ?_, turn⟩)
              simp only [charge]
              rw [← job]

section PriorityTurns

variable {kernel after : Kernel config} {tasks : List Nat} {task : Nat}

theorem CriticalTurn.selected (turn : CriticalTurn kernel after tasks task)
    (stored : kernel.krnlRunQueue.contents = tasks.map some) : Selected kernel after task := by
  refine ⟨turn.frame, turn.pointer, ?_, by rw [stored]; exact turn.turned,
    by simpa [stored] using turn.member, turn.unblocked, ?_⟩
  · intro slot
    rw [turn.entries]
    split
    · rfl
    · rfl
  · intro slot _ _ within
    rw [turn.entries]
    split
    · exact within
    · exact within

theorem ChargedTurn.selected (turn : ChargedTurn kernel after tasks task)
    (stored : kernel.krnlRunQueue.contents = tasks.map some) : Selected kernel after task := by
  refine ⟨turn.frame, turn.pointer, ?_, by rw [stored]; exact turn.turned,
    by simpa [stored] using turn.member, turn.unblocked, ?_⟩
  · intro slot
    rw [turn.entries]
    split
    · rfl
    · split
      · rfl
      · rfl
  · intro slot queued unblocked within
    have inside : slot ∈ tasks := by simpa [stored] using queued
    have lower := turn.least slot inside unblocked
    rw [turn.entries]
    split
    · exact UInt8.le_refl _
    · rw [UInt8.le_iff_toNat_le]
      rw [UInt8.le_iff_toNat_le] at within
      simp only [UInt8.toNat_sub_of_le _ _ lower]
      omega

end PriorityTurns

theorem schedPriorityrr_selects (kernel : Kernel config) (tasks : List Nat)
    (stored : kernel.krnlRunQueue.contents = tasks.map some) (distinct : tasks.Nodup)
    (present : ∃ slot ∈ tasks, kernel.blocked slot = false ∧
      (kernel.krnlTcb slot).priorityRem < 255) :
    ∃ task after, kernel.schedPriorityrr = .ok ((kernel.krnlTcb task).id, after) ∧
      Selected kernel after task := by
  obtain ⟨witness, member, unblocked, bound⟩ := present
  rcases kernel.schedPriorityrr_turns tasks stored distinct (List.ne_nil_of_mem member) with
    ⟨task, after, ok, turn⟩ | ⟨task, after, ok, turn⟩ | ⟨stuck, _⟩
  · exact ⟨task, after, ok, turn.selected stored⟩
  · exact ⟨task, after, ok, turn.selected stored⟩
  · rw [(stuck witness member unblocked).2] at bound
    exact absurd bound (UInt8.lt_irrefl _)

/-- Whichever callback is installed, it selects a task of the run queue that is not
blocked, as long as there is one whose remaining priority is below the search bound. -/
theorem bestEffort_selects (random : Nat) (kernel : Kernel config) (tasks : List Nat)
    (stored : kernel.krnlRunQueue.contents = tasks.map some) (distinct : tasks.Nodup)
    (some_task : 0 < kernel.krnlTasks)
    (present : ∃ slot ∈ tasks, kernel.blocked slot = false ∧
      (kernel.krnlTcb slot).priorityRem < 255) :
    ∃ task after, kernel.bestEffort random = .ok ((kernel.krnlTcb task).id, after) ∧
      Selected kernel after task := by
  have unblocked : ∃ slot ∈ tasks, kernel.unblocked slot = true := by
    obtain ⟨slot, member, unblocked, _⟩ := present
    exact ⟨slot, member, (kernel.unblocked_eq_true slot).mpr unblocked⟩
  unfold bestEffort
  cases kernel.schedBe with
  | rr => exact (kernel.schedRr_turns tasks stored unblocked).selects stored
  | lottery =>
      exact (kernel.schedLottery_turns random tasks stored some_task unblocked).selects stored
  | priorityrr => exact kernel.schedPriorityrr_selects tasks stored distinct present

end Kernel

end Hellfire

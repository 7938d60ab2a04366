import Hellfire.RealTime

/-!
What the delay queue does to the kernel: one tick counts every delayed task down and
moves those that reach zero to the queue their period names.
-/

namespace Hellfire

namespace Kernel

variable {config : Config}

structure Queued (kernel : Kernel config) (run rt delay : List Nat) : Prop where
  run : kernel.krnlRunQueue.contents = run.map some
  rt : kernel.krnlRtQueue.contents = rt.map some
  delay : kernel.krnlDelayQueue.contents = delay.map some

structure DelayFrame (before after : Kernel config) : Prop where
  pointer : after.krnlTask = before.krnlTask
  tasks : after.krnlTasks = before.krnlTasks
  current : after.krnlCurrentTask = before.krnlCurrentTask
  schedule : after.krnlSchedule = before.krnlSchedule
  schedBe : after.schedBe = before.schedBe

theorem DelayFrame.trans {first second third : Kernel config} (before : DelayFrame first second)
    (after : DelayFrame second third) : DelayFrame first third :=
  ⟨after.pointer.trans before.pointer, after.tasks.trans before.tasks,
    after.current.trans before.current, after.schedule.trans before.schedule,
    after.schedBe.trans before.schedBe⟩

def background (tcb : Nat → TcbEntry) (task : Nat) : Bool := (tcb task).period = 0

def realTime (tcb : Nat → TcbEntry) (task : Nat) : Bool := (tcb task).period ≠ 0

def expires (tcb : Nat → TcbEntry) (task : Nat) : Bool := (tcb task).delay = 1

theorem enqueueReady_queued (kernel : Kernel config) (task : Nat) {run rt delay : List Nat}
    (queued : Queued kernel run rt delay) (runRoom : run.length < config.maxTasks)
    (rtRoom : rt.length < config.maxTasks) :
    ∃ after, kernel.enqueueReady task = .ok after ∧ DelayFrame kernel after ∧
      after.krnlTcb = kernel.krnlTcb ∧
      Queued after (run ++ [task].filter (background kernel.krnlTcb))
        (rt ++ [task].filter (realTime kernel.krnlTcb)) delay := by
  by_cases periodic : (kernel.krnlTcb task).period = 0
  · obtain ⟨queue, placed, contents⟩ := placeTask_room kernel.krnlRunQueue (some task)
      .cantPlaceRun (by simpa [queued.run] using runRoom)
    refine ⟨{ kernel with krnlRunQueue := queue }, ?_, ⟨rfl, rfl, rfl, rfl, rfl⟩, rfl, ?_⟩
    · simp [enqueueReady, periodic, placed, bind, Except.bind]
    · refine ⟨?_, ?_, queued.delay⟩
      · simp [contents, queued.run, background, periodic]
      · simp [queued.rt, realTime, periodic]
  · obtain ⟨queue, placed, contents⟩ := placeTask_room kernel.krnlRtQueue (some task)
      .cantPlaceRt (by simpa [queued.rt] using rtRoom)
    refine ⟨{ kernel with krnlRtQueue := queue }, ?_, ⟨rfl, rfl, rfl, rfl, rfl⟩, rfl, ?_⟩
    · simp [enqueueReady, periodic, placed, bind, Except.bind]
    · refine ⟨?_, ?_, queued.delay⟩
      · simp [queued.run, background, periodic]
      · simp [contents, queued.rt, realTime, periodic]

theorem delayStep_queued (kernel : Kernel config) (task : Nat) {run rt delay : List Nat}
    (queued : Queued kernel run rt (task :: delay)) (runRoom : run.length < config.maxTasks)
    (rtRoom : rt.length < config.maxTasks) :
    ∃ after, kernel.delayStep = .ok after ∧ DelayFrame kernel after ∧
      after.krnlTcb = (countDown task kernel).krnlTcb ∧
      Queued after (run ++ ([task].filter (expires kernel.krnlTcb)).filter (background kernel.krnlTcb))
        (rt ++ ([task].filter (expires kernel.krnlTcb)).filter (realTime kernel.krnlTcb))
        (delay ++ [task].filter fun slot => !expires kernel.krnlTcb slot) := by
  obtain ⟨rest, removed, remaining⟩ := kernel.krnlDelayQueue.hfQueueRemhead_cons queued.delay
  let counted := countDown task { kernel with krnlDelayQueue := rest }
  have entries : counted.krnlTcb = (countDown task kernel).krnlTcb := rfl
  have samePeriod : (counted.krnlTcb task).period = (kernel.krnlTcb task).period := by
    simp [counted, countDown]
  have lessDelay : (counted.krnlTcb task).delay = (kernel.krnlTcb task).delay - 1 := by
    simp [counted, countDown]
  have start : DelayFrame kernel counted := ⟨rfl, rfl, rfl, rfl, rfl⟩
  have countedQueues : Queued counted run rt delay := ⟨queued.run, queued.rt, remaining⟩
  by_cases expired : (kernel.krnlTcb task).delay = 1
  · obtain ⟨after, placed, frame, same, queues⟩ := counted.enqueueReady_queued task countedQueues
      runRoom rtRoom
    refine ⟨after, ?_, start.trans frame, same.trans entries, ?_⟩
    · have done : (counted.krnlTcb task).delay = 0 := by rw [lessDelay, expired]; rfl
      simp only [delayStep, removed]
      rw [if_pos done]
      exact placed
    · simpa [background, realTime, expires, expired, samePeriod, List.filter_cons] using queues
  · have stored : rest.contents.length < config.maxTasks := by
      have bounded := kernel.krnlDelayQueue.contents_length_le
      rw [queued.delay] at bounded
      rw [remaining, List.length_map]
      rw [List.length_map, List.length_cons] at bounded
      omega
    obtain ⟨queue, placed, contents⟩ := placeTask_room rest (some task) .cantPlaceDelay stored
    refine ⟨{ counted with krnlDelayQueue := queue }, ?_,
      start.trans ⟨rfl, rfl, rfl, rfl, rfl⟩, entries, ?_⟩
    · have pending : (counted.krnlTcb task).delay ≠ 0 := by
        rw [lessDelay]
        intro zero
        have cancelled := UInt32.sub_add_cancel (kernel.krnlTcb task).delay 1
        rw [zero] at cancelled
        exact expired cancelled.symm
      simp only [delayStep, removed]
      rw [if_neg pending]
      simp [counted, countDown, placed, bind, Except.bind]
    · refine ⟨?_, ?_, ?_⟩
      · simpa [expires, expired] using countedQueues.run
      · simpa [expires, expired] using countedQueues.rt
      · simp [expires, expired, contents, remaining]

theorem filters_congr {first second : Nat → TcbEntry} {tasks : List Nat}
    (same : ∀ slot ∈ tasks, second slot = first slot) :
    tasks.filter (expires second) = tasks.filter (expires first) ∧
      (tasks.filter fun slot => !expires second slot) =
        (tasks.filter fun slot => !expires first slot) ∧
      (tasks.filter (expires first)).filter (background second) =
        (tasks.filter (expires first)).filter (background first) ∧
      (tasks.filter (expires first)).filter (realTime second) =
        (tasks.filter (expires first)).filter (realTime first) := by
  refine ⟨?_, ?_, ?_, ?_⟩
  · exact List.filter_congr fun slot member => by simp [expires, same slot member]
  · exact List.filter_congr fun slot member => by simp [expires, same slot member]
  · exact List.filter_congr fun slot member => by
      simp [background, same slot (List.mem_filter.mp member).1]
  · exact List.filter_congr fun slot member => by
      simp [realTime, same slot (List.mem_filter.mp member).1]

theorem delaySteps_queued (visited : List Nat) :
    ∀ (kernel : Kernel config) (run rt rest : List Nat),
      Queued kernel run rt (visited ++ rest) → visited.Nodup →
      run.length + visited.length ≤ config.maxTasks →
      rt.length + visited.length ≤ config.maxTasks →
      ∃ after, delaySteps visited.length kernel = .ok after ∧ DelayFrame kernel after ∧
        (∀ slot, after.krnlTcb slot = if slot ∈ visited then
          { kernel.krnlTcb slot with delay := (kernel.krnlTcb slot).delay - 1 }
          else kernel.krnlTcb slot) ∧
        Queued after
          (run ++ (visited.filter (expires kernel.krnlTcb)).filter (background kernel.krnlTcb))
          (rt ++ (visited.filter (expires kernel.krnlTcb)).filter (realTime kernel.krnlTcb))
          (rest ++ visited.filter fun slot => !expires kernel.krnlTcb slot) := by
  induction visited with
  | nil =>
      intro kernel run rt rest queued _ _ _
      exact ⟨kernel, rfl, ⟨rfl, rfl, rfl, rfl, rfl⟩, by simp, by simpa using queued⟩
  | cons task visited ih =>
      intro kernel run rt rest queued distinct runRoom rtRoom
      obtain ⟨absent, distinct⟩ := List.nodup_cons.mp distinct
      simp only [List.length_cons] at runRoom rtRoom
      obtain ⟨stepped, step, frame, entries, queues⟩ := kernel.delayStep_queued task queued
        (by omega) (by omega)
      have others : ∀ slot ∈ visited, stepped.krnlTcb slot = kernel.krnlTcb slot := by
        intro slot member
        rw [entries]
        exact modify_other _ _ (fun same => absent (same ▸ member))
      have one : ∀ predicate : Nat → Bool,
          (([task].filter (expires kernel.krnlTcb)).filter predicate).length ≤ 1 := by
        intro predicate
        exact ((List.length_filter_le _ _).trans (List.length_filter_le _ _))
      have regrouped := queues
      rw [show visited.append rest = visited ++ rest from rfl, List.append_assoc] at regrouped
      obtain ⟨after, looped, laterFrame, laterEntries, laterQueues⟩ := ih stepped _ _ _ regrouped
        distinct (by rw [List.length_append]; have := one (background kernel.krnlTcb); omega)
        (by rw [List.length_append]; have := one (realTime kernel.krnlTcb); omega)
      obtain ⟨sameExpires, samePending, sameBackground, sameRealTime⟩ := filters_congr others
      rw [sameExpires, samePending, sameBackground, sameRealTime] at laterQueues
      refine ⟨after, ?_, frame.trans laterFrame, ?_, ?_⟩
      · simpa [delaySteps, step, bind, Except.bind] using looped
      · intro slot
        rw [laterEntries slot]
        by_cases first : slot = task
        · subst first
          rw [if_neg absent, if_pos List.mem_cons_self, entries]
          exact modify_same _ _ _
        · by_cases member : slot ∈ visited
          · rw [if_pos member, if_pos (List.mem_cons_of_mem _ member), others slot member]
          · rw [if_neg member, if_neg (by simp [first, member]), entries]
            exact modify_other _ _ first
      · have whole : ∀ predicate : Nat → Bool,
            [task].filter predicate ++ visited.filter predicate =
              (task :: visited).filter predicate := by
          intro predicate
          rw [← List.filter_append]
          rfl
        have joined := whole (expires kernel.krnlTcb)
        simp only [List.append_assoc, ← List.filter_append, joined, whole] at laterQueues
        exact laterQueues

theorem processDelayQueue_queued (kernel : Kernel config) {run rt delay : List Nat}
    (queued : Queued kernel run rt delay) (distinct : delay.Nodup)
    (runRoom : run.length + delay.length ≤ config.maxTasks)
    (rtRoom : rt.length + delay.length ≤ config.maxTasks) :
    ∃ after, kernel.processDelayQueue = .ok after ∧ DelayFrame kernel after ∧
      (∀ slot, after.krnlTcb slot = if slot ∈ delay then
        { kernel.krnlTcb slot with delay := (kernel.krnlTcb slot).delay - 1 }
        else kernel.krnlTcb slot) ∧
      Queued after
        (run ++ (delay.filter (expires kernel.krnlTcb)).filter (background kernel.krnlTcb))
        (rt ++ (delay.filter (expires kernel.krnlTcb)).filter (realTime kernel.krnlTcb))
        (delay.filter fun slot => !expires kernel.krnlTcb slot) := by
  obtain ⟨after, looped, frame, entries, queues⟩ := delaySteps_queued delay kernel run rt []
    (by simpa using queued) distinct runRoom rtRoom
  have length : kernel.krnlDelayQueue.hfQueueCount = delay.length := by simp [queued.delay]
  exact ⟨after, by rw [processDelayQueue, length]; exact looped, frame, entries, queues⟩

end Kernel

end Hellfire

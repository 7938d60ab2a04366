import Mathlib.Data.List.Nodup
import Mathlib.Data.List.Perm.Basic
import Hellfire.Library.Machine
import Hellfire.Mailbox
import Hellfire.NocDriver

/-!
Where the packet buffers are: in the pool, in a queue, with the interrupt or with a call of
`hf_recv`. What each step of the driver moves.
-/

namespace Focus

variable {ι β : Type} [DecidableEq ι]

theorem flatMap_focus {items : List ι} (distinct : items.Nodup) (item : ι) (before after : ι → List β)
    (same : ∀ other, other ≠ item → after other = before other)
    (outside : item ∉ items → before item = [] ∧ after item = []) :
    ∃ rest, (items.flatMap before).Perm (before item ++ rest) ∧
      (items.flatMap after).Perm (after item ++ rest) := by
  by_cases member : item ∈ items
  · have front := List.perm_cons_erase member
    have away : (items.erase item).flatMap after = (items.erase item).flatMap before := by
      refine List.flatMap_congr fun other inside => same other ?_
      rintro rfl
      exact distinct.not_mem_erase inside
    refine ⟨(items.erase item).flatMap before, ?_, ?_⟩
    · exact front.flatMap_right before
    · rw [← away]
      exact front.flatMap_right after
  · have unchanged : items.flatMap after = items.flatMap before := by
      refine List.flatMap_congr fun other inside => same other ?_
      rintro rfl
      exact member inside
    obtain ⟨noneBefore, noneAfter⟩ := outside member
    refine ⟨items.flatMap before, ?_, ?_⟩
    · rw [noneBefore, List.nil_append]
    · rw [noneAfter, unchanged, List.nil_append]

end Focus

namespace Hellfire

open Focus

namespace Noc

variable {noc : NocConfig}

def cellsAt (core : Noc noc) (address : Nat) : List (Option Buffer) :=
  match core.queues address with
  | none => []
  | some queue => queue.ring.contents

def heldBy (core : Noc noc) (task : Nat) : List Buffer :=
  match core.calls task with
  | .recv call => call.point.held
  | _ => []

def slotsOf (cells : List (Option Buffer)) : List (Option Nat) := cells.map (Option.map Buffer.slot)

def places (core : Noc noc) (addresses tasks : List Nat) : List (Option Nat) :=
  slotsOf core.pktdrvQueue.contents ++ addresses.flatMap (fun address => slotsOf (core.cellsAt address)) ++
    slotsOf (core.isr.toList.map some) ++
    tasks.flatMap fun task => slotsOf ((core.heldBy task).map some)

structure Listed (core : Noc noc) (addresses tasks : List Nat) : Prop where
  distinct : addresses.Nodup
  there : ∀ address, core.queues address ≠ none ↔ address ∈ addresses
  nonzero : 0 ∉ addresses
  callers : tasks.Nodup
  calling : ∀ task, core.calls task ≠ .idle → task ∈ tasks

def near (core : Noc noc) (address task : Nat) : List (Option Nat) :=
  slotsOf core.pktdrvQueue.contents ++ slotsOf (core.cellsAt address) ++
    slotsOf (core.isr.toList.map some) ++ slotsOf ((core.heldBy task).map some)

variable {core core' : Noc noc} {addresses tasks : List Nat}

theorem Listed.outside (listed : Listed core addresses tasks) {address : Nat}
    (missing : address ∉ addresses) : core.cellsAt address = [] := by
  have absent : core.queues address = none := by
    by_contra there
    exact missing ((listed.there address).mp there)
  simp only [cellsAt, absent]

theorem Listed.idle (listed : Listed core addresses tasks) {task : Nat} (missing : task ∉ tasks) :
    core.calls task = .idle := by
  by_contra calling
  exact missing (listed.calling task calling)

theorem places_near (listed : Listed core addresses tasks) (listed' : Listed core' addresses tasks)
    (address task : Nat)
    (sameCells : ∀ other, other ≠ address → core'.cellsAt other = core.cellsAt other)
    (sameHeld : ∀ other, other ≠ task → core'.heldBy other = core.heldBy other) :
    ∃ rest, (core.places addresses tasks).Perm (core.near address task ++ rest) ∧
      (core'.places addresses tasks).Perm (core'.near address task ++ rest) := by
  obtain ⟨queued, before, after⟩ := flatMap_focus listed.distinct address
    (fun place => slotsOf (core.cellsAt place)) (fun place => slotsOf (core'.cellsAt place))
    (fun other away => by simp only [sameCells other away])
    (fun missing => by simp [listed.outside missing, listed'.outside missing, slotsOf])
  obtain ⟨held, before', after'⟩ := flatMap_focus listed.callers task
    (fun place => slotsOf ((core.heldBy place).map some))
    (fun place => slotsOf ((core'.heldBy place).map some))
    (fun other away => by simp only [sameHeld other away])
    (fun missing => by simp [heldBy, listed.idle missing, listed'.idle missing, slotsOf])
  refine ⟨queued ++ held, ?_, ?_⟩
  · rw [List.perm_iff_count] at before before' ⊢
    intro slot
    have := before slot
    have := before' slot
    simp only [places, near, List.count_append] at *
    omega
  · rw [List.perm_iff_count] at after after' ⊢
    intro slot
    have := after slot
    have := after' slot
    simp only [places, near, List.count_append] at *
    omega

theorem places_moved (listed : Listed core addresses tasks) (listed' : Listed core' addresses tasks)
    (address task : Nat)
    (sameCells : ∀ other, other ≠ address → core'.cellsAt other = core.cellsAt other)
    (sameHeld : ∀ other, other ≠ task → core'.heldBy other = core.heldBy other)
    (moved : (core'.near address task).Perm (core.near address task)) :
    (core'.places addresses tasks).Perm (core.places addresses tasks) := by
  obtain ⟨rest, before, after⟩ := places_near listed listed' address task sameCells sameHeld
  exact (after.trans (moved.append_right rest)).trans before.symm

def Apart (core : Noc noc) (addresses tasks : List Nat) : Prop :=
  (core.places addresses tasks).Subperm ((List.range noc.nocPacketSlots).map some)

theorem cells_some {cells : List (Option Buffer)} {slots : List Nat}
    (present : ∀ slot ∈ slotsOf cells, slot ∈ slots.map some) :
    ∃ buffers : List Buffer, cells = buffers.map some := by
  induction cells with
  | nil => exact ⟨[], rfl⟩
  | cons cell cells ih =>
      obtain ⟨buffers, rfl⟩ := ih fun slot member => present slot (List.mem_cons_of_mem _ member)
      have first := present (cell.map Buffer.slot) List.mem_cons_self
      cases cell with
      | none => simp at first
      | some bufPtr => exact ⟨bufPtr :: buffers, rfl⟩

theorem Apart.near (apart : Apart core addresses tasks) (listed : Listed core addresses tasks)
    (address task : Nat) :
    (core.near address task).Subperm ((List.range noc.nocPacketSlots).map some) := by
  obtain ⟨rest, places, _⟩ := places_near listed listed address task (fun _ _ => rfl) fun _ _ => rfl
  have front : (core.near address task).Sublist (core.near address task ++ rest) :=
    List.sublist_append_left _ _
  exact (front.subperm.trans places.symm.subperm).trans apart

theorem Apart.room (apart : Apart core addresses tasks) (listed : Listed core addresses tasks)
    (task : Nat) (outside : core.isr ≠ none ∨ core.heldBy task ≠ []) :
    core.pktdrvQueue.contents.length < noc.nocPacketSlots := by
  have short := (apart.near listed 0 task).length_le
  simp only [Noc.near, slotsOf, List.length_append, List.length_map, List.length_range] at short
  rcases outside with running | held
  · obtain ⟨bufPtr, isr⟩ := Option.ne_none_iff_exists'.mp running
    simp only [isr, Option.toList, List.length_singleton] at short
    omega
  · have := List.length_pos_iff.mpr held
    omega

theorem Apart.pool (apart : Apart core addresses tasks) (listed : Listed core addresses tasks) :
    ∃ buffers : List Buffer, core.pktdrvQueue.contents = buffers.map some := by
  refine cells_some fun slot member => (apart.near listed 0 0).subset ?_
  simp only [Noc.near, List.mem_append]
  exact Or.inl (Or.inl (Or.inl member))

theorem Apart.queue (apart : Apart core addresses tasks) (listed : Listed core addresses tasks)
    (address : Nat) : ∃ buffers : List Buffer, core.cellsAt address = buffers.map some := by
  refine cells_some fun slot member => (apart.near listed address 0).subset ?_
  simp only [Noc.near, List.mem_append]
  exact Or.inl (Or.inl (Or.inr member))

section Interrupt

theorem portSlotFrom_spec (pktdrvPorts : Nat → UInt16) (port : UInt16) (fuel : Nat) : ∀ k,
    k ≤ portSlotFrom pktdrvPorts port fuel k ∧ portSlotFrom pktdrvPorts port fuel k ≤ k + fuel ∧
      (portSlotFrom pktdrvPorts port fuel k < k + fuel →
        pktdrvPorts (portSlotFrom pktdrvPorts port fuel k) = port) ∧
      ∀ other, k ≤ other → other < portSlotFrom pktdrvPorts port fuel k →
        pktdrvPorts other ≠ port := by
  induction fuel with
  | zero =>
      intro k
      simp only [portSlotFrom]
      refine ⟨Nat.le_refl k, Nat.le_refl k, fun less => absurd less (by omega), fun other _ _ => ?_⟩
      omega
  | succ fuel ih =>
      intro k
      by_cases found : pktdrvPorts k = port
      · simp only [portSlotFrom, if_pos found]
        exact ⟨Nat.le_refl k, by omega, fun _ => found, fun other low high => by omega⟩
      · simp only [portSlotFrom, if_neg found]
        obtain ⟨low, high, hit, before⟩ := ih (k + 1)
        refine ⟨by omega, by omega, fun less => hit (by omega), fun other least most => ?_⟩
        by_cases first : other = k
        · rw [first]
          exact found
        · exact before other (by omega) most

theorem portSlot_le (core : Noc noc) (port : UInt16) : core.portSlot port ≤ noc.maxTasks := by
  have bound := (portSlotFrom_spec core.pktdrvPorts port noc.maxTasks 0).2.1
  rwa [Nat.zero_add] at bound

theorem portSlot_port {port : UInt16} (found : core.portSlot port < noc.maxTasks) :
    core.pktdrvPorts (core.portSlot port) = port :=
  (portSlotFrom_spec core.pktdrvPorts port noc.maxTasks 0).2.2.1 (by rwa [Nat.zero_add])

theorem niDrop_room (bufPtr : Buffer)
    (room : core.pktdrvQueue.contents.length < noc.nocPacketSlots) :
    ∃ pool, core.niDrop bufPtr = ([0], { core with pktdrvQueue := pool, isr := none }) ∧
      pool.contents = core.pktdrvQueue.contents ++ [some bufPtr] := by
  obtain ⟨pool, added, contents⟩ := core.pktdrvQueue.hfQueueAddtail_room (some bufPtr) room
  exact ⟨pool, by simp only [niDrop, added], contents⟩

theorem queueAt_ok {address : Nat} {queue : CommQueue} :
    core.queueAt address = .ok queue ↔ address ≠ 0 ∧ core.queues address = some queue := by
  unfold queueAt
  by_cases null : address = 0
  · simp [null]
  · rw [if_neg null]
    cases core.queues address with
    | none => simp
    | some other => simp [null]

def Refused (core : Noc noc) (packet : Packet) : Prop :=
  packet.flit pktPayload ≠ UInt16.ofNat (noc.nocPacketSize - 2) ∨
    core.portSlot (packet.flit pktTargetPort) = noc.maxTasks ∨
    core.alive (core.portSlot (packet.flit pktTargetPort)) = false ∨
    ∃ queue, core.queueAt (core.pktdrvTqueue (core.portSlot (packet.flit pktTargetPort))) = .ok queue ∧
      queue.ring.contents.length = queue.capacity

inductive Delivered (core : Noc noc) (bufPtr : Buffer) : Except CommFault (List Int × Noc noc) → Prop
  | dropped {pool} : core.Refused bufPtr.packet →
      pool.contents = core.pktdrvQueue.contents ++ [some bufPtr] →
      Delivered core bufPtr (.ok ([0], { core with pktdrvQueue := pool, isr := none }))
  | queued {k queue ring} : core.portSlot (bufPtr.flit pktTargetPort) = k → k < noc.maxTasks →
      core.alive k = true →
      bufPtr.flit pktPayload = UInt16.ofNat (noc.nocPacketSize - 2) →
      core.queueAt (core.pktdrvTqueue k) = .ok queue →
      queue.ring.contents.length < queue.capacity →
      ring.contents = queue.ring.contents ++ [some bufPtr] →
      Delivered core bufPtr
        (.ok ([], { core.setRing (core.pktdrvTqueue k) queue ring with isr := none }))
  | faulted {k fault} : core.portSlot (bufPtr.flit pktTargetPort) = k → k < noc.maxTasks →
      core.alive k = true →
      bufPtr.flit pktPayload = UInt16.ofNat (noc.nocPacketSize - 2) →
      core.queueAt (core.pktdrvTqueue k) = .error fault →
      Delivered core bufPtr (.error fault)

theorem niDeliver_delivered (bufPtr : Buffer)
    (room : core.pktdrvQueue.contents.length < noc.nocPacketSlots) :
    Delivered core bufPtr (core.niDeliver bufPtr) := by
  obtain ⟨pool, drops, returned⟩ := niDrop_room bufPtr room
  unfold niDeliver
  split
  · rename_i other
    rw [drops]
    exact .dropped (Or.inl other) returned
  · rename_i whole
    have whole : bufPtr.flit pktPayload = UInt16.ofNat (noc.nocPacketSize - 2) := by simpa using whole
    have bound := core.portSlot_le (bufPtr.flit pktTargetPort)
    simp only
    split
    · rename_i found
      cases there : core.queueAt (core.pktdrvTqueue (core.portSlot (bufPtr.flit pktTargetPort))) with
      | error fault => exact .faulted rfl found.1 found.2 whole there
      | ok queue =>
          by_cases space : queue.ring.contents.length < queue.capacity
          · obtain ⟨ring, added, contents⟩ := queue.ring.hfQueueAddtail_room (some bufPtr) space
            simp only [bind, Except.bind, added]
            exact .queued rfl found.1 found.2 whole there space contents
          · have bounded := queue.ring.contents_length_le
            have full := queue.ring.hfQueueAddtail_full (some bufPtr) (by omega)
            simp only [bind, Except.bind, full, drops]
            exact .dropped (Or.inr (Or.inr (Or.inr ⟨queue, there, by omega⟩))) returned
    · rename_i missing
      rw [drops]
      refine .dropped (Or.inr ?_) returned
      by_cases inside : core.portSlot (bufPtr.flit pktTargetPort) < noc.maxTasks
      · simp only [inside, true_and, Bool.not_eq_true] at missing
        exact Or.inr (Or.inl missing)
      · exact Or.inl (Nat.le_antisymm bound (Nat.le_of_not_lt inside))

end Interrupt

theorem fillPool_contents (more : Nat) : ∀ (i : Nat) (pool : RingQueue Buffer noc.nocPacketSlots),
    pool.contents.length + more ≤ noc.nocPacketSlots →
    (fillPool more i pool).contents =
      pool.contents ++ (List.range' i more).map fun slot => some ⟨slot, ⟨[], ⟨0, 0, 0⟩⟩⟩ := by
  induction more with
  | zero =>
      intro i pool _
      simp [fillPool]
  | succ more ih =>
      intro i pool room
      obtain ⟨next, added, contents⟩ :=
        pool.hfQueueAddtail_room (some ⟨i, ⟨[], ⟨0, 0, 0⟩⟩⟩) (by omega)
      have shorter : next.contents.length + more ≤ noc.nocPacketSlots := by
        rw [contents, List.length_append, List.length_singleton]
        omega
      rw [fillPool, added, ih (i + 1) next shorter, contents, List.range'_succ, List.map_cons,
        List.append_assoc]
      rfl

theorem niInit_places (kernel : Kernel noc.toConfig) :
    Listed (niInit kernel : Noc noc) [] (List.range noc.maxTasks) ∧
      (niInit kernel : Noc noc).places [] (List.range noc.maxTasks) =
        (List.range noc.nocPacketSlots).map some := by
  refine ⟨⟨List.nodup_nil, fun _ => by simp [niInit], by simp, List.nodup_range,
    fun _ calling => absurd rfl calling⟩, ?_⟩
  have filled := fillPool_contents noc.nocPacketSlots 0
    (.create noc.nocPacketSlots noc.queueAddressable) (by simp)
  have none : (List.range noc.maxTasks).flatMap (fun task =>
      slotsOf (((niInit kernel : Noc noc).heldBy task).map some)) = [] := by
    rw [List.flatMap_eq_nil_iff]
    exact fun _ _ => rfl
  rw [places, none]
  simp only [niInit, filled, slotsOf, RingQueue.create_contents, List.nil_append, List.map_map,
    List.flatMap_nil, List.append_nil, Option.toList, List.map_nil, ← List.range_eq_range']
  rfl

section Moving

theorem niFetch_cases (packet : Packet) {buffers : List Buffer}
    (stored : core.pktdrvQueue.contents = buffers.map some) :
    (buffers = [] ∧ core.niFetch packet = core) ∨
      ∃ bufPtr rest pool, buffers = bufPtr :: rest ∧ pool.contents = rest.map some ∧
        core.niFetch packet = { core with pktdrvQueue := pool, isr := some { bufPtr with packet } } := by
  cases buffers with
  | nil =>
      refine Or.inl ⟨rfl, ?_⟩
      simp only [niFetch, core.pktdrvQueue.hfQueueRemhead_nil stored]
  | cons bufPtr rest =>
      obtain ⟨pool, removed, remaining⟩ := core.pktdrvQueue.hfQueueRemhead_cons stored
      exact Or.inr ⟨bufPtr, rest, pool, rfl, remaining, by simp only [niFetch, removed]⟩

theorem drain_all {capacity : Nat} (cells : List (Option Buffer)) :
    ∀ (pool : RingQueue Buffer noc.nocPacketSlots) (ring : RingQueue Buffer capacity),
      ring.contents = cells → pool.contents.length + cells.length ≤ noc.nocPacketSlots →
      ∃ codes pool' ring', drain cells.length pool ring = (codes, pool', ring') ∧
        (∀ code ∈ codes, code = 0) ∧ pool'.contents = pool.contents ++ cells ∧
        ring'.contents = [] := by
  induction cells with
  | nil =>
      intro pool ring stored _
      exact ⟨[], pool, ring, rfl, by simp, by simp, stored⟩
  | cons cell cells ih =>
      intro pool ring stored room
      rw [List.length_cons] at room
      obtain ⟨shorter, removed, remaining⟩ := ring.hfQueueRemhead_cons stored
      obtain ⟨longer, added, contents⟩ := pool.hfQueueAddtail_room cell (by omega)
      obtain ⟨codes, pool', ring', drained, zero, all, empty⟩ := ih longer shorter remaining
        (by rw [contents, List.length_append, List.length_singleton]; omega)
      refine ⟨0 :: codes, pool', ring', ?_, by simpa using zero, ?_, empty⟩
      · have more : ring.hfQueueCount ≠ 0 := by simp [stored]
        simp only [List.length_cons, drain, if_neg more, removed, added, drained]
      · rw [all, contents, List.append_assoc]
        rfl

inductive Advanced (core : Noc noc) (task address : Nat) : List Int → Noc noc → Prop
  | idle : core.calls task = .idle → Advanced core task address [] core
  | returned {code} : core.calls task = .returned code → Advanced core task address [] core
  | recv {call queue turn} : core.calls task = .recv call →
      core.queueAt (core.pktdrvTqueue task) = .ok queue →
      call.step noc core.pktdrvQueue queue.ring = .ok turn →
      Advanced core task address turn.codes
        (({ core.setRing (core.pktdrvTqueue task) queue turn.queue with
          pktdrvQueue := turn.pktdrvQueue }).setCall task (.recv turn.call))
  | noMemory {making packets} : core.calls task = .createQueue making packets → address = 0 →
      Advanced core task address []
        (({ core with
          pktdrvTqueue := Function.update core.pktdrvTqueue making.owner address
          made := Function.update core.made making.owner none }).setCall task
            (.returned errOutOfMemory))
  | createQueue {making packets} : core.calls task = .createQueue making packets → address ≠ 0 →
      Advanced core task address []
        (({ core with
          pktdrvTqueue := Function.update core.pktdrvTqueue making.owner address
          queues := Function.update core.queues address (some (emptyQueue packets making))
          made := Function.update core.made making.owner (some making) }).setCall task
            (.createPort making))
  | createPort {making} : core.calls task = .createPort making →
      Advanced core task address []
        (({ core with
          pktdrvPorts := Function.update core.pktdrvPorts making.owner making.port }).setCall task
            (.returned errOk))
  | drain {id queue codes pool ring} : core.calls task = .destroyDrain id →
      core.queueAt (core.pktdrvTqueue id) = .ok queue →
      drain queue.ring.contents.length core.pktdrvQueue queue.ring = (codes, pool, ring) →
      Advanced core task address codes
        (({ core.setRing (core.pktdrvTqueue id) queue ring with pktdrvQueue := pool }).setCall task
          (.destroyTest id))
  | keep {id queue} : core.calls task = .destroyTest id →
      core.queueAt (core.pktdrvTqueue id) = .ok queue → queue.ring.contents ≠ [] →
      Advanced core task address [] (core.setCall task (.returned errCommError))
  | test {id queue} : core.calls task = .destroyTest id →
      core.queueAt (core.pktdrvTqueue id) = .ok queue → queue.ring.contents = [] →
      Advanced core task address [] (core.setCall task (.destroyFree id (core.pktdrvTqueue id)))
  | free {id place queue} : core.calls task = .destroyFree id place →
      core.queueAt place = .ok queue →
      Advanced core task address []
        (({ core with
          queues := Function.update core.queues place none
          made := if core.pktdrvTqueue queue.making.owner = place then
              Function.update core.made queue.making.owner none
            else core.made }).setCall task (.destroyPort id))
  | clearPort {id} : core.calls task = .destroyPort id →
      Advanced core task address []
        (({ core with pktdrvPorts := Function.update core.pktdrvPorts id 0 }).setCall task
          (.returned errOk))

theorem advance_cases {task address : Nat} {codes : List Int}
    (done : core.advance task address = .ok (codes, core')) :
    Advanced core task address codes core' := by
  unfold advance at done
  cases call : core.calls task with
  | idle =>
      simp only [call, Except.ok.injEq, Prod.mk.injEq] at done
      obtain ⟨rfl, rfl⟩ := done
      exact .idle call
  | returned code =>
      simp only [call, Except.ok.injEq, Prod.mk.injEq] at done
      obtain ⟨rfl, rfl⟩ := done
      exact .returned call
  | recv recvCall =>
      simp only [call, bind, Except.bind] at done
      cases there : core.queueAt (core.pktdrvTqueue task) with
      | error fault => simp [there] at done
      | ok queue =>
          cases turned : recvCall.step noc core.pktdrvQueue queue.ring with
          | error fault => simp [there, turned] at done
          | ok turn =>
              simp only [there, turned, Except.ok.injEq, Prod.mk.injEq] at done
              obtain ⟨rfl, rfl⟩ := done
              exact .recv call there turned
  | createQueue making packets =>
      simp only [call] at done
      split at done
      · rename_i null
        simp only [Except.ok.injEq, Prod.mk.injEq] at done
        obtain ⟨rfl, rfl⟩ := done
        exact .noMemory call null
      · rename_i present
        simp only [Except.ok.injEq, Prod.mk.injEq] at done
        obtain ⟨rfl, rfl⟩ := done
        exact .createQueue call present
  | createPort making =>
      simp only [call, Except.ok.injEq, Prod.mk.injEq] at done
      obtain ⟨rfl, rfl⟩ := done
      exact .createPort call
  | destroyDrain id =>
      simp only [call, bind, Except.bind] at done
      cases there : core.queueAt (core.pktdrvTqueue id) with
      | error fault => simp [there] at done
      | ok queue =>
          cases drained : Noc.drain queue.ring.contents.length core.pktdrvQueue queue.ring with
          | mk codes' rest =>
              obtain ⟨pool, ring⟩ := rest
              simp only [there, RingQueue.hfQueueCount_eq, drained, Except.ok.injEq,
                Prod.mk.injEq] at done
              obtain ⟨rfl, rfl⟩ := done
              exact .drain call there drained
  | destroyTest id =>
      simp only [call, bind, Except.bind] at done
      cases there : core.queueAt (core.pktdrvTqueue id) with
      | error fault => simp [there] at done
      | ok queue =>
          simp only [there] at done
          split at done
          · rename_i kept
            simp only [Except.ok.injEq, Prod.mk.injEq] at done
            obtain ⟨rfl, rfl⟩ := done
            exact .keep call there fun empty => kept ((RingQueue.hfQueueDestroy_eq _).mpr empty)
          · rename_i freed
            simp only [Except.ok.injEq, Prod.mk.injEq] at done
            obtain ⟨rfl, rfl⟩ := done
            exact .test call there ((RingQueue.hfQueueDestroy_eq _).mp (by simpa using freed))
  | destroyFree id place =>
      simp only [call, bind, Except.bind] at done
      cases there : core.queueAt place with
      | error fault => simp [there] at done
      | ok queue =>
          simp only [there, Except.ok.injEq, Prod.mk.injEq] at done
          obtain ⟨rfl, rfl⟩ := done
          exact .free call there
  | destroyPort id =>
      simp only [call, Except.ok.injEq, Prod.mk.injEq] at done
      obtain ⟨rfl, rfl⟩ := done
      exact .clearPort call

@[simp] theorem setCall_same (core : Noc noc) (task : Nat) (call : CommCall) :
    (core.setCall task call).calls task = call := Function.update_self _ _ _

theorem setCall_other (core : Noc noc) {task other : Nat} (call : CommCall)
    (different : other ≠ task) : (core.setCall task call).calls other = core.calls other :=
  Function.update_of_ne different _ _

theorem hfRecv_started {task : Nat} (present : core.pktdrvTqueue task ≠ 0) (channel : UInt16) :
    core.hfRecv task channel = core.setCall task (.recv (.start channel)) := by
  rw [hfRecv, if_neg present]

theorem heldBy_congr {task : Nat} (same : core'.calls task = core.calls task) :
    core'.heldBy task = core.heldBy task := by
  unfold heldBy
  rw [same]

theorem cellsAt_congr {address : Nat} (same : core'.queues address = core.queues address) :
    core'.cellsAt address = core.cellsAt address := by
  unfold cellsAt
  rw [same]

theorem cellsAt_some {address : Nat} {queue : CommQueue}
    (there : core.queues address = some queue) : core.cellsAt address = queue.ring.contents := by
  unfold cellsAt
  rw [there]

theorem Listed.calls_update (listed : Listed core addresses tasks) {task : Nat}
    (member : task ∈ tasks)
    (others : ∀ other, other ≠ task → core'.calls other = core.calls other) :
    ∀ other, core'.calls other ≠ .idle → other ∈ tasks := by
  intro other calling
  by_cases same : other = task
  · rw [same]
    exact member
  · rw [others other same] at calling
    exact listed.calling other calling

theorem Listed.update (listed : Listed core addresses tasks) {task : Nat} (member : task ∈ tasks)
    (there : ∀ address, core'.queues address ≠ none ↔ core.queues address ≠ none)
    (others : ∀ other, other ≠ task → core'.calls other = core.calls other) :
    Listed core' addresses tasks :=
  ⟨listed.distinct, fun address => (there address).trans (listed.there address),
    listed.nonzero, listed.callers, listed.calls_update member others⟩

/-- What a step did to the places: a queue that is freed with buffers in it loses them. -/
def Placed (core core' : Noc noc) (addresses tasks : List Nat) (lost : List (Option Nat)) : Prop :=
  ∃ addresses', Listed core' addresses' tasks ∧
    (core'.places addresses' tasks ++ lost).Perm (core.places addresses tasks)

theorem Placed.of_moved (listed : Listed core addresses tasks) (listed' : Listed core' addresses tasks)
    (address task : Nat)
    (sameCells : ∀ other, other ≠ address → core'.cellsAt other = core.cellsAt other)
    (sameHeld : ∀ other, other ≠ task → core'.heldBy other = core.heldBy other)
    (moved : (core'.near address task).Perm (core.near address task)) :
    Placed core core' addresses tasks [] :=
  ⟨addresses, listed', by
    rw [List.append_nil]
    exact places_moved listed listed' address task sameCells sameHeld moved⟩

theorem Placed.of_quiet (listed : Listed core addresses tasks) {task : Nat} (member : task ∈ tasks)
    (pool : core'.pktdrvQueue = core.pktdrvQueue) (isr : core'.isr = core.isr)
    (queues : core'.queues = core.queues)
    (others : ∀ other, other ≠ task → core'.calls other = core.calls other)
    (held : core.heldBy task = []) (held' : core'.heldBy task = []) :
    Placed core core' addresses tasks [] := by
  have cells : ∀ address, core'.cellsAt address = core.cellsAt address :=
    fun address => cellsAt_congr (by rw [queues])
  refine .of_moved listed (listed.update member (fun _ => by rw [queues]) others) 0 task
    (fun other _ => cells other) (fun other away => heldBy_congr (others other away)) ?_
  simp only [near, pool, isr, cells, held, held']
  exact List.Perm.refl _

theorem Placed.of_ring (listed : Listed core addresses tasks) {task address : Nat}
    {queue : CommQueue} {ring : RingQueue Buffer queue.capacity}
    {pool : RingQueue Buffer noc.nocPacketSlots} {call : CommCall} (member : task ∈ tasks)
    (there : core.queues address = some queue)
    (core'_eq : core' = ({ core.setRing address queue ring with pktdrvQueue := pool }).setCall task call)
    (moved : (slotsOf pool.contents ++ slotsOf ring.contents ++
      slotsOf ((core'.heldBy task).map some)).Perm (slotsOf core.pktdrvQueue.contents ++
        slotsOf queue.ring.contents ++ slotsOf ((core.heldBy task).map some))) :
    Placed core core' addresses tasks [] := by
  have others : ∀ other, other ≠ task → core'.calls other = core.calls other := by
    intro other away
    rw [core'_eq]
    exact setCall_other _ _ away
  have stored : core'.queues address = some { queue with ring } := by
    rw [core'_eq]
    exact Function.update_self _ _ _
  have elsewhere : ∀ other, other ≠ address → core'.queues other = core.queues other := by
    intro other away
    rw [core'_eq]
    exact Function.update_of_ne away _ _
  refine .of_moved listed (listed.update member (fun other => ?_) others) address task
    (fun other away => cellsAt_congr (elsewhere other away))
    (fun other away => heldBy_congr (others other away)) ?_
  · by_cases same : other = address
    · rw [same, stored, there]
      simp
    · rw [elsewhere other same]
  · have poolEq : core'.pktdrvQueue = pool := by rw [core'_eq]; rfl
    have isrEq : core'.isr = core.isr := by rw [core'_eq]; rfl
    simp only [near, poolEq, isrEq, cellsAt_some there, cellsAt_some stored]
    rw [List.perm_iff_count] at moved ⊢
    intro slot
    have := moved slot
    simp only [List.count_append] at this ⊢
    omega

theorem heldBy_other {task : Nat} (other : ∀ call, core.calls task ≠ .recv call) :
    core.heldBy task = [] := by
  unfold heldBy
  split
  · rename_i call isRecv
    exact absurd isRecv (other call)
  · rfl

theorem heldBy_same {task : Nat}
    (others : ∀ other, other ≠ task → core'.calls other = core.calls other)
    (held : core.heldBy task = []) (held' : core'.heldBy task = []) (other : Nat) :
    core'.heldBy other = core.heldBy other := by
  by_cases same : other = task
  · rw [same, held, held']
  · exact heldBy_congr (others other same)

theorem Placed.of_added (listed : Listed core addresses tasks) {task address : Nat}
    (queue : CommQueue) (member : task ∈ tasks) (present : address ≠ 0)
    (absent : core.queues address = none) (empty : queue.ring.contents = [])
    (pool : core'.pktdrvQueue = core.pktdrvQueue) (isr : core'.isr = core.isr)
    (queues : core'.queues = Function.update core.queues address (some queue))
    (others : ∀ other, other ≠ task → core'.calls other = core.calls other)
    (held : core.heldBy task = []) (held' : core'.heldBy task = []) :
    Placed core core' addresses tasks [] := by
  have missing : address ∉ addresses := fun inside => (listed.there address).mpr inside absent
  have stored : core'.queues address = some queue := by rw [queues, Function.update_self]
  have elsewhere : ∀ other, other ≠ address → core'.queues other = core.queues other := by
    intro other away
    rw [queues, Function.update_of_ne away]
  refine ⟨address :: addresses, ⟨List.nodup_cons.mpr ⟨missing, listed.distinct⟩, fun other => ?_,
    ?_, listed.callers, listed.calls_update member others⟩, ?_⟩
  · by_cases same : other = address
    · simp [same, stored]
    · simp [same, elsewhere other same, ← listed.there other]
  · simp [listed.nonzero, present.symm]
  · have sameCells : addresses.flatMap (fun place => slotsOf (core'.cellsAt place)) =
        addresses.flatMap fun place => slotsOf (core.cellsAt place) := by
      refine List.flatMap_congr fun place inside => ?_
      rw [cellsAt_congr (elsewhere place fun same => missing (same ▸ inside))]
    simp only [places, List.flatMap_cons, sameCells, cellsAt_some stored, empty, pool, isr,
      heldBy_same others held held', List.append_nil]
    exact List.Perm.refl _

theorem Placed.of_freed (listed : Listed core addresses tasks) {task place : Nat}
    {queue : CommQueue} (member : task ∈ tasks) (stored : core.queues place = some queue)
    (pool : core'.pktdrvQueue = core.pktdrvQueue) (isr : core'.isr = core.isr)
    (queues : core'.queues = Function.update core.queues place none)
    (others : ∀ other, other ≠ task → core'.calls other = core.calls other)
    (held : core.heldBy task = []) (held' : core'.heldBy task = []) :
    Placed core core' addresses tasks (slotsOf queue.ring.contents) := by
  have inside : place ∈ addresses := (listed.there place).mp (by rw [stored]; simp)
  have elsewhere : ∀ other, other ≠ place → core'.queues other = core.queues other := by
    intro other away
    rw [queues, Function.update_of_ne away]
  refine ⟨addresses.erase place, ⟨listed.distinct.erase place, fun other => ?_,
    fun zero => listed.nonzero (List.mem_of_mem_erase zero), listed.callers,
    listed.calls_update member others⟩, ?_⟩
  · rw [listed.distinct.mem_erase_iff]
    by_cases same : other = place
    · simp [same, queues]
    · simp [same, elsewhere other same, ← listed.there other]
  · have sameCells : (addresses.erase place).flatMap (fun other => slotsOf (core'.cellsAt other)) =
        (addresses.erase place).flatMap fun other => slotsOf (core.cellsAt other) := by
      refine List.flatMap_congr fun other member => ?_
      rw [cellsAt_congr (elsewhere other fun same => listed.distinct.not_mem_erase (same ▸ member))]
    have front := (List.perm_cons_erase inside).flatMap_right
      fun other => slotsOf (core.cellsAt other)
    rw [List.flatMap_cons, cellsAt_some stored] at front
    rw [List.perm_iff_count] at front ⊢
    intro slot
    have := front slot
    simp only [places, sameCells, pool, isr, heldBy_same others held held', List.count_append] at this ⊢
    omega

theorem recv_mailStep {task : Nat} {call : RecvCall} {queue : CommQueue}
    {turn : RecvTurn noc queue.capacity} (listed : Listed core addresses tasks)
    (apart : Apart core addresses tasks) (isRecv : core.calls task = .recv call)
    (there : core.queueAt (core.pktdrvTqueue task) = .ok queue)
    (turned : call.step noc core.pktdrvQueue queue.ring = .ok turn)
    (ready : call.point.removes = true → queue.ring.contents ≠ []) :
    ∃ cells next, queue.ring.contents = cells.map some ∧ call.mailStep noc cells = some next ∧
      (∀ code ∈ turn.codes, code = 0) ∧
      turn.pktdrvQueue.contents = core.pktdrvQueue.contents ++ next.released.map some ∧
      turn.queue.contents = next.queue.map some ∧ turn.call = next.call := by
  obtain ⟨nonzero, stored⟩ := queueAt_ok.mp there
  obtain ⟨cells, isCells⟩ := apart.queue listed (core.pktdrvTqueue task)
  rw [cellsAt_some stored] at isCells
  have callReady : call.Ready cells := fun removes empty =>
    ready removes (by rw [isCells, empty]; rfl)
  obtain ⟨next, stepped⟩ := callReady.mailStep
  have held : core.heldBy task = call.point.held := by simp only [heldBy, isRecv]
  obtain ⟨turn', done, moved⟩ := RecvCall.step_mailStep core.pktdrvQueue queue.ring isCells
    (fun holds => apart.room listed task (Or.inr (by rwa [held]))) stepped
  rw [turned] at done
  cases done
  exact ⟨cells, next, isCells, stepped, moved⟩

theorem Advanced.placed {task address : Nat} {codes : List Int} (listed : Listed core addresses tasks)
    (apart : Apart core addresses tasks) (member : task ∈ tasks)
    (ready : ∀ call queue, core.calls task = .recv call →
      core.queueAt (core.pktdrvTqueue task) = .ok queue → call.point.removes = true →
      queue.ring.contents ≠ [])
    (fresh : ∀ making packets, core.calls task = .createQueue making packets →
      address = 0 ∨ core.queues address = none)
    (advanced : Advanced core task address codes core') :
    (∀ code ∈ codes, code = 0) ∧ ∃ lost, Placed core core' addresses tasks lost ∧
      (lost ≠ [] → ∃ id place queue, core.calls task = .destroyFree id place ∧
        core.queues place = some queue ∧ queue.ring.contents ≠ []) := by
  have none : ∀ code ∈ ([] : List Int), code = 0 := by simp
  have setCall_held : ∀ (state : Noc noc) (call : CommCall), (∀ recv, call ≠ .recv recv) →
      (state.setCall task call).heldBy task = [] := by
    intro state call other
    exact heldBy_other fun recv => by rw [setCall_same]; exact other recv
  cases advanced with
  | idle call | returned call =>
      exact ⟨none, [], ⟨addresses, listed, by rw [List.append_nil]⟩, fun more => absurd rfl more⟩
  | @recv call queue turn isRecv there turned =>
      obtain ⟨nonzero, stored⟩ := queueAt_ok.mp there
      have held : core.heldBy task = call.point.held := by simp only [heldBy, isRecv]
      obtain ⟨cells, next, isCells, stepped, zero, poolEq, queueEq, callEq⟩ := recv_mailStep listed
        apart isRecv there turned (ready call queue isRecv there)
      refine ⟨zero, [], .of_ring listed member stored rfl ?_, fun more => absurd rfl more⟩
      have moved := ((RecvCall.mailStep_perm stepped).map some).map (Option.map Buffer.slot)
      have held' : (({ core.setRing (core.pktdrvTqueue task) queue turn.queue with
          pktdrvQueue := turn.pktdrvQueue } : Noc noc).setCall task (.recv turn.call)).heldBy task =
          next.call.point.held := by
        simp only [heldBy, setCall_same, callEq]
      rw [held, held', poolEq, queueEq, isCells]
      rw [List.perm_iff_count] at moved ⊢
      intro slot
      have := moved slot
      simp only [slotsOf, List.map_append, List.count_append] at this ⊢
      omega
  | noMemory call null | createPort call | keep call there kept | test call there empty
  | clearPort call =>
      refine ⟨none, [], .of_quiet listed member rfl rfl rfl (fun other away => setCall_other _ _ away)
        (heldBy_other fun recv => by rw [call]; simp) (setCall_held _ _ fun recv => by simp),
        fun more => absurd rfl more⟩
  | @createQueue making packets call present =>
      refine ⟨none, [], .of_added listed (emptyQueue packets making) member present ((fresh making packets call).resolve_left present)
        rfl rfl rfl rfl (fun other away => setCall_other _ _ away)
        (heldBy_other fun recv => by rw [call]; simp) (setCall_held _ _ fun recv => by simp),
        fun more => absurd rfl more⟩
  | @drain id queue codes pool ring call there drained =>
      obtain ⟨nonzero, stored⟩ := queueAt_ok.mp there
      have near := (apart.near listed (core.pktdrvTqueue id) task).length_le
      simp only [Noc.near, cellsAt_some stored, slotsOf, List.length_append, List.length_map,
        List.length_range] at near
      obtain ⟨codes', pool', ring', done, zero, all, empty⟩ :=
        drain_all queue.ring.contents core.pktdrvQueue queue.ring rfl (by omega)
      rw [drained] at done
      cases done
      refine ⟨zero, [], .of_ring listed member stored rfl ?_, fun more => absurd rfl more⟩
      have quiet : core.heldBy task = [] := heldBy_other fun recv => by rw [call]; simp
      rw [quiet, setCall_held _ _ fun recv => by simp, all, empty]
      simp [slotsOf]
  | @free id place queue call there =>
      obtain ⟨nonzero, stored⟩ := queueAt_ok.mp there
      refine ⟨none, slotsOf queue.ring.contents, .of_freed listed member stored rfl rfl rfl
        (fun other away => setCall_other _ _ away) (heldBy_other fun recv => by rw [call]; simp)
        (setCall_held _ _ fun recv => by simp), fun more => ⟨id, place, queue, call, stored, ?_⟩⟩
      intro empty
      simp [empty, slotsOf] at more

theorem Listed.keep (listed : Listed core addresses tasks)
    (there : ∀ address, core'.queues address ≠ none ↔ core.queues address ≠ none)
    (calls : core'.calls = core.calls) : Listed core' addresses tasks :=
  ⟨listed.distinct, fun address => (there address).trans (listed.there address), listed.nonzero,
    listed.callers, by rw [calls]; exact listed.calling⟩

theorem niFetch_placed (listed : Listed core addresses tasks) (apart : Apart core addresses tasks)
    (packet : Packet) (idle : core.isr = none) :
    Placed core (core.niFetch packet) addresses tasks [] := by
  obtain ⟨buffers, stored⟩ := apart.pool listed
  obtain ⟨_, same⟩ | ⟨bufPtr, rest, pool, rfl, remaining, fetched⟩ := niFetch_cases packet stored
  · rw [same]
    exact ⟨addresses, listed, by rw [List.append_nil]⟩
  · rw [fetched]
    refine .of_moved listed (listed.keep (fun _ => Iff.rfl) rfl) 0 0 (fun _ _ => rfl) (fun _ _ => rfl) ?_
    rw [List.perm_iff_count]
    intro slot
    simp only [near, stored, remaining, idle, slotsOf, cellsAt, heldBy, List.map_cons, Option.map_some,
      Option.toList, List.map_nil, List.count_append, List.count_cons, List.count_nil]
    omega

theorem Delivered.placed {bufPtr : Buffer} {codes : List Int} (listed : Listed core addresses tasks)
    (running : core.isr = some bufPtr) (delivered : Delivered core bufPtr (.ok (codes, core'))) :
    (∀ code ∈ codes, code = 0) ∧ Placed core core' addresses tasks [] := by
  cases delivered with
  | dropped refused returned =>
      refine ⟨by simp, .of_moved listed (listed.keep (fun _ => Iff.rfl) rfl) 0 0 (fun _ _ => rfl)
        (fun _ _ => rfl) ?_⟩
      rw [List.perm_iff_count]
      intro slot
      simp only [near, returned, running, slotsOf, cellsAt, heldBy, List.map_append, List.map_cons,
        Option.map_some, Option.toList, List.map_nil, List.count_append, List.count_nil]
      omega
  | @queued k queue ring slot bound live whole there space contents =>
      obtain ⟨nonzero, stored⟩ := queueAt_ok.mp there
      have elsewhere : ∀ other, other ≠ core.pktdrvTqueue k →
          (core.setRing (core.pktdrvTqueue k) queue ring).queues other = core.queues other :=
        fun other away => Function.update_of_ne away _ _
      have here : (core.setRing (core.pktdrvTqueue k) queue ring).queues (core.pktdrvTqueue k) =
          some { queue with ring } := Function.update_self _ _ _
      refine ⟨by simp, .of_moved listed (listed.keep (fun other => ?_) rfl) (core.pktdrvTqueue k) 0
        (fun other away => cellsAt_congr (elsewhere other away)) (fun _ _ => rfl) ?_⟩
      · by_cases same : other = core.pktdrvTqueue k
        · simp [same, here, stored]
        · simp [elsewhere other same]
      · have cells : Noc.cellsAt ({ core.setRing (core.pktdrvTqueue k) queue ring with isr := none } :
            Noc noc) (core.pktdrvTqueue k) = ring.contents := cellsAt_some here
        have before := cellsAt_some stored
        rw [List.perm_iff_count]
        intro slot
        simp only [near, cells, before, contents, running, slotsOf, List.map_append, List.map_cons,
          Option.map_some, Option.toList, List.map_nil, List.count_append, List.count_nil]
        simp only [setRing, heldBy]
        omega

end Moving

end Noc

end Hellfire

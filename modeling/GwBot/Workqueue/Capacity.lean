import GwBot.Workqueue.ExactlyOnce

/-!
# The capacity of a workqueue

`count_pending_works` is the absolute difference of `tail` and `head`, so it counts the pending works only while neither or both of the
two have wrapped: with `tail` wrapped and `head` not yet, it is 2^32 less their number, and `try_queue_work_locked` refuses a work for
which there is room (`queue_refuses_with_room`). The two numbers agree again at 2^31 works, where the list is as long as it can be.
-/

namespace GwBot

open Lib

variable {F A : Type}

namespace WorkqueueStruct

/-- What the capacity of a queue promises: `count_pending_works` is the number of works accepted and not yet taken out, and a work is
refused, while the queue neither stops nor is blocked, exactly when `max_pending_works` are pending. -/
structure ExactCapacity (wq : WorkqueueStruct F A) (log : List (WqEvent F A)) : Prop where
  count : (acceptedWorks log).length = (takenOutWorks log).length + wq.countPendingWorks
  refuses : wq.shouldStop = false → wq.queueIsBlocked = false → ∀ work ks threadCreate,
    ((wq.tryQueueWorkLocked work ks threadCreate).2 = -EAGAIN ↔
      (acceptedWorks log).length = (takenOutWorks log).length + wq.attr.maxPendingWorks.toNat)

/-- The test that `try_queue_work_locked` makes is the only way it refuses a work in a queue that neither stops nor is blocked. -/
theorem tryQueueWorkLocked_refuses_iff (wq : WorkqueueStruct F A) (hs : wq.shouldStop = false) (hb : wq.queueIsBlocked = false)
    (work : WorkStruct F A) (ks : List Nat) (threadCreate : Int) :
    (wq.tryQueueWorkLocked work ks threadCreate).2 = -EAGAIN ↔ wq.attr.maxPendingWorks.toNat ≤ wq.countPendingWorks := by
  rcases wq.tryQueueWorkLocked_cases work ks threadCreate with ⟨hs', -⟩ | ⟨-, hfull, he⟩ | ⟨-, -, hroom, l, he, -⟩
  · exact absurd (hs.symm.trans hs') nofun
  · rw [he]
    exact iff_of_true rfl (hfull.resolve_left (fun hb' => absurd (hb.symm.trans hb') nofun))
  · rw [he]
    exact iff_of_false (show (0 : Int) ≠ -EAGAIN by decide) (Nat.not_le_of_lt hroom)

/-- The books of the works against what the counters say. -/
theorem exactCapacity_iff {wq : WorkqueueStruct F A} {log : List (WqEvent F A)} (hi : Inv wq)
    (hfifo : acceptedWorks log = takenOutWorks log ++ wq.pendingWorks) :
    ExactCapacity wq log ↔ wq.head ≤ wq.tail ∨ wq.pendingWorks.length = 2 ^ 31 := by
  have hmax := wq.attr.maxPendingWorks_le
  have hlen : wq.pendingWorks.length = occupancy wq.head wq.tail := window_length _ _ _ _
  have hbooks : (acceptedWorks log).length = (takenOutWorks log).length + occupancy wq.head wq.tail := by
    rw [hfifo, List.length_append, hlen]
  have hcount := absDiff_eq_occupancy_iff (Nat.le_trans hi.occupancy_le hmax)
  rw [hlen, ← hcount]
  constructor
  · intro h
    have := h.count
    unfold countPendingWorks at this
    omega
  · intro h
    refine ⟨by unfold countPendingWorks; omega, ?_⟩
    intro hs hb work ks threadCreate
    rw [wq.tryQueueWorkLocked_refuses_iff hs hb, countPendingWorks, h, hbooks]
    have := hi.occupancy_le
    omega

/-- In any run the capacity is exact in just the states in which the value of `head` is not above that of `tail`, or 2^31 works are
pending. -/
theorem capacity_exact_iff {attrArg : WorkqueueAttr} {env : AllocEnv} {wq₀ wq : WorkqueueStruct F A} {log : List (WqEvent F A)}
    (h0 : allocWorkqueue attrArg env = some (.ok wq₀)) (h : (machine F A).Reach wq₀ wq log) :
    ExactCapacity wq log ↔ wq.head ≤ wq.tail ∨ wq.pendingWorks.length = 2 ^ 31 := by
  have hfresh := allocWorkqueue_fresh h0
  exact exactCapacity_iff (Inv.of_run hfresh h) (fifo hfresh h)

/-- Two works are pending in a queue of two. -/
theorem capacity_exact_iff_small : ∃ (wq₀ wq : WorkqueueStruct Unit Unit) (log : List (WqEvent Unit Unit)),
    allocWorkqueue smallAttr AllocEnv.ok = some (.ok wq₀) ∧ (machine Unit Unit).Reach wq₀ wq log ∧
    wq.pendingWorks.length = 2 ∧ ExactCapacity wq log := by
  have hrun : ∃ wq₀ : WorkqueueStruct Unit Unit, allocWorkqueue smallAttr AllocEnv.ok = some (.ok wq₀) ∧
      ((machine Unit Unit).exec wq₀ [.queueWork none none none, .queueWork none none none, .queuer 1 [] 0, .queuer 0 [] 0]).map
        (fun r => (r.1.pendingWorks.length, decide (r.1.head ≤ r.1.tail))) = some (2, true) := by
    refine ⟨_, rfl, ?_⟩
    decide
  obtain ⟨wq₀, h0, he⟩ := hrun
  obtain ⟨wq, log, h, hval⟩ := Machine.exists_of_exec
    (fun (wq : WorkqueueStruct Unit Unit) _ => (wq.pendingWorks.length, decide (wq.head ≤ wq.tail))) he
  simp only [Prod.mk.injEq, decide_eq_true_eq] at hval
  exact ⟨wq₀, wq, log, h0, h, hval.1, (capacity_exact_iff h0 h).2 (Or.inl hval.2)⟩

/-! ## A queue with room that refuses -/

/-- A queue whose works have all been run, by its one worker, with both counters at `head`. -/
def drained (attr : AcceptedAttr) (pc : WorkerPc Unit Unit) (running head : UInt32) (workList : Nat → WorkStruct Unit Unit)
    (callers : List (QueueCall Unit Unit)) : WorkqueueStruct Unit Unit :=
  { shouldStop := false, queueIsBlocked := false, waitAllIsWaiting := false
    nrSleepingWorkers := 0, nrSleepingQueuers := 0, nrOnlineWorkers := 1, nrRunningWorkers := running
    attr := attr, workers := [⟨true, pc⟩], head := head, tail := head, workList := workList
    callers := callers, waiters := [], destroyer := .idle }

/-- The work of call `call` of `queue_work`, which does nothing. -/
def idleWork (call : Nat) : WorkStruct Unit Unit := ⟨none, none, none, call⟩

/-- One more work is queued, taken and run. -/
theorem exec_round (attr : AcceptedAttr) (head : UInt32) (workList : Nat → WorkStruct Unit Unit)
    (callers : List (QueueCall Unit Unit)) : (machine Unit Unit).exec (drained attr .finishing 1 head workList callers)
      [.queueWork none none none, .queuer callers.length [] 0, .worker 0 [], .run 0, .run 0] =
    some (drained attr .finishing 1 (head + 1) (writeSlot workList (slotOf attr.mask head) (idleWork callers.length))
        (callers ++ [⟨idleWork callers.length, .returned 0⟩]),
      [.job ⟨.accept, idleWork callers.length⟩, .job ⟨.take, idleWork callers.length⟩, .job ⟨.fin, idleWork callers.length⟩]) := by
  have hroom := Nat.not_le_of_lt attr.maxPendingWorks_pos
  have h0 : absDiff head head = 0 := absDiff_eq_zero_iff.2 rfl
  simp [Machine.execIf, machine, drained, step, queuerSection, queueWorkRound, tryQueueWorkLocked, countPendingWorks, h0, hroom,
    armWorker, armSpawnWorker, getFreeWorkerSlot, workerSection, workerResume, workerLoop, waitForEvent, setPc, workerRun, writeSlot,
    idleWork, wakeUpAllQueueWorkCallers, EAGAIN, List.findIdx?, List.findIdx?.go]

/-- Rounds take the counters anywhere. -/
theorem reach_drained : ∃ wq₀ : WorkqueueStruct Unit Unit, allocWorkqueue smallAttr AllocEnv.ok = some (.ok wq₀) ∧
    wq₀.attr.maxPendingWorks = 2 ∧
    ∀ n, ∃ workList callers log, (machine Unit Unit).Reach wq₀
      (drained wq₀.attr .finishing 1 (UInt32.ofNat (n + 1)) workList callers) log := by
  have hfirst : ∃ wq₀ : WorkqueueStruct Unit Unit, allocWorkqueue smallAttr AllocEnv.ok = some (.ok wq₀) ∧
      wq₀.attr.maxPendingWorks = 2 ∧ ∃ workList callers log, (machine Unit Unit).exec wq₀
        [.queueWork none none none, .queuer 0 [] 0, .worker 0 [], .run 0, .run 0] =
          some (drained wq₀.attr .finishing 1 1 workList callers, log) := ⟨_, rfl, rfl, _, _, _, rfl⟩
  obtain ⟨wq₀, h0, hmax, workList, callers, log, hfirst⟩ := hfirst
  refine ⟨wq₀, h0, hmax, fun n => ?_⟩
  induction n with
  | zero => exact ⟨workList, callers, _, Machine.Run.append_exec _ Machine.Run.init hfirst⟩
  | succ n ih =>
    obtain ⟨workList, callers, log, h⟩ := ih
    rw [UInt32.ofNat_add]
    exact ⟨_, _, _, Machine.Run.append_exec _ h (exec_round _ _ _ _)⟩

/-- After 2^32 - 1 works a further one makes `tail` wrap to 0. With that one work pending, in a queue of two, `count_pending_works` is
2^32 - 1 and the next work is refused. -/
theorem queue_refuses_with_room : ∃ (wq₀ wq : WorkqueueStruct Unit Unit) (log : List (WqEvent Unit Unit)),
    allocWorkqueue smallAttr AllocEnv.ok = some (.ok wq₀) ∧ (machine Unit Unit).Reach wq₀ wq log ∧
    wq.attr.maxPendingWorks = 2 ∧ wq.shouldStop = false ∧ wq.queueIsBlocked = false ∧ wq.pendingWorks.length = 1 ∧
    wq.countPendingWorks = 4294967295 ∧ (∀ work ks threadCreate, (wq.tryQueueWorkLocked work ks threadCreate).2 = -EAGAIN) ∧
    ¬ExactCapacity wq log := by
  obtain ⟨wq₀, h0, hmax, hreach⟩ := reach_drained
  obtain ⟨workList, callers, log, h⟩ := hreach 4294967294
  have hexec : ((machine Unit Unit).exec (drained wq₀.attr .finishing 1 4294967295 workList callers)
      [.queueWork none none none, .queuer callers.length [] 0]).map
      (fun r => (r.1.attr, r.1.shouldStop, r.1.queueIsBlocked, r.1.head, r.1.tail)) =
      some (wq₀.attr, false, false, 4294967295, 0) := by
    have hroom := Nat.not_le_of_lt wq₀.attr.maxPendingWorks_pos
    have hsame : absDiff 4294967295 4294967295 = 0 := absDiff_eq_zero_iff.2 rfl
    simp [Machine.execIf, machine, drained, step, queuerSection, queueWorkRound, tryQueueWorkLocked, countPendingWorks, hsame, hroom,
      armWorker, armSpawnWorker, getFreeWorkerSlot, EAGAIN, List.findIdx?, List.findIdx?.go]
  obtain ⟨⟨wq, ev⟩, hs, hval⟩ := Option.map_eq_some_iff.1 hexec
  simp only [Prod.mk.injEq] at hval
  obtain ⟨hattr, hstop, hblocked, hhead, htail⟩ := hval
  have hrun := Machine.Run.append_exec _ h hs
  have hcount : wq.countPendingWorks = 4294967295 := by
    rw [countPendingWorks, hhead, htail]
    decide
  have hpending : wq.pendingWorks.length = 1 := by
    rw [pendingWorks, window_length, hhead, htail]
    decide
  have hmax' : wq.attr.maxPendingWorks = 2 := by rw [hattr, hmax]
  refine ⟨wq₀, wq, log ++ ev, h0, hrun, hmax', hstop, hblocked, hpending, hcount, fun work ks threadCreate => ?_, fun hexact => ?_⟩
  · rw [wq.tryQueueWorkLocked_refuses_iff hstop hblocked, hmax', hcount]
    decide
  · have hfresh := allocWorkqueue_fresh h0
    rw [exactCapacity_iff (Inv.of_run hfresh hrun) (fifo hfresh hrun), hhead, htail, hpending] at hexact
    exact absurd hexact (by decide)

end WorkqueueStruct

end GwBot

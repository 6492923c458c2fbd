import GwBot.Workqueue.Sections

/-!
# The invariant of a workqueue

`WorkqueueStruct.Inv` holds at every lock boundary: the window of the work list is never longer than the list, the counters that
the code decides by are the numbers of threads they are named after (modulo 2^32), an unclaimed slot has no thread, and nothing is
pending once the queue stops. `Inv.of_run` proves it of every run that starts at `alloc_workqueue`.
-/

namespace GwBot

open Lib

variable {F A : Type}

namespace WorkqueueStruct

/-- What holds of a workqueue whenever its lock is free. -/
structure Inv (wq : WorkqueueStruct F A) : Prop where
  length : wq.workers.length = wq.attr.maxThreads.toNat
  occupancy_le : occupancy wq.head wq.tail ≤ wq.attr.maxPendingWorks.toNat
  free : ∀ t ∈ wq.workers, t.wq = false → t.pc = .noThread
  sleeping : wq.nrSleepingWorkers = UInt32.ofNat (wq.workers.countP (·.pc.isSleeping))
  running : wq.nrRunningWorkers = UInt32.ofNat (wq.workers.countP (·.pc.isRunning))
  queuers : wq.nrSleepingQueuers = UInt32.ofNat (wq.callers.countP (·.pc.isSleeping))
  stopped : wq.shouldStop = true → wq.head = wq.tail
  exited : ∀ t ∈ wq.workers, t.pc = .exited → wq.shouldStop = true
  destroyed : wq.destroyer ≠ .idle → wq.shouldStop = true

namespace Inv

variable {wq wq' : WorkqueueStruct F A}

/-! ## What the counters say -/

theorem countP_workers_lt (h : Inv wq) (q : WorkerThread F A → Bool) : wq.workers.countP q < 2 ^ 32 := by
  have h1 : wq.workers.countP q ≤ wq.workers.length := List.countP_le_length
  have h2 := UInt32.toNat_lt wq.attr.maxThreads
  have h3 := h.length
  omega

/-- `nr_sleeping_workers` is zero exactly when no worker is in `cond_wait`. -/
theorem nrSleepingWorkers_eq_zero_iff (h : Inv wq) :
    wq.nrSleepingWorkers = 0 ↔ wq.workers.countP (·.pc.isSleeping) = 0 := by
  rw [h.sleeping, ofNat_eq_zero_iff (h.countP_workers_lt _)]

/-- `nr_running_workers` is zero exactly when no worker is with a work. -/
theorem nrRunningWorkers_eq_zero_iff (h : Inv wq) :
    wq.nrRunningWorkers = 0 ↔ wq.workers.countP (·.pc.isRunning) = 0 := by
  rw [h.running, ofNat_eq_zero_iff (h.countP_workers_lt _)]

theorem toNat_nrRunningWorkers (h : Inv wq) : wq.nrRunningWorkers.toNat = wq.workers.countP (·.pc.isRunning) := by
  rw [h.running, UInt32.toNat_ofNat_of_lt' (h.countP_workers_lt _)]

/-! ## The table of workers -/

theorem woken_free {l l' : List (WorkerThread F A)} (hw : Woken l l') (hf : ∀ t ∈ l, t.wq = false → t.pc = .noThread) :
    ∀ t ∈ l', t.wq = false → t.pc = .noThread := by
  intro t ht hwq
  obtain ⟨k, hk⟩ := List.mem_iff_getElem?.1 ht
  obtain ⟨x, hx, rfl | rfl⟩ := hw.getElem? hk
  · exact hf t (List.mem_of_getElem? hx) hwq
  · rw [WorkerThread.wake_pc, hf x (List.mem_of_getElem? hx) hwq]
    rfl

/-- A notification makes no thread exit. -/
theorem woken_pc {l l' : List (WorkerThread F A)} {pc : WorkerPc F A} (hw : Woken l l') (hpc : ∀ b, pc ≠ .sleeping b)
    (h : ∃ t ∈ l', t.pc = pc) : ∃ t ∈ l, t.pc = pc := by
  obtain ⟨t, ht, rfl⟩ := h
  obtain ⟨k, hk⟩ := List.mem_iff_getElem?.1 ht
  obtain ⟨x, hx, rfl | rfl⟩ := hw.getElem? hk
  · exact ⟨t, List.mem_of_getElem? hx, rfl⟩
  · exact ⟨x, List.mem_of_getElem? hx, ((WorkerPc.wake_eq_iff hpc).1 rfl)⟩

/-- What `arm_worker` leaves of the table of workers. -/
theorem armed {ks : List Nat} {l l' : List (WorkerThread F A)} (ha : Armed ks l l')
    (hf : ∀ t ∈ l, t.wq = false → t.pc = .noThread) :
    l'.length = l.length ∧ (∀ t ∈ l', t.wq = false → t.pc = .noThread) ∧
    l'.countP (·.pc.isSleeping) = l.countP (·.pc.isSleeping) ∧ l'.countP (·.pc.isRunning) = l.countP (·.pc.isRunning) ∧
    l'.map (·.pc.held) = l.map (·.pc.held) ∧ ((∃ t ∈ l', t.pc = .exited) → ∃ t ∈ l, t.pc = .exited) := by
  cases ha with
  | same => exact ⟨rfl, hf, rfl, rfl, rfl, id⟩
  | @spawn k t pc hk hwq hpc =>
    have hold : t.pc = .noThread := hf t (List.mem_of_getElem? hk) hwq
    refine ⟨by simp, ?_, ?_, ?_, ?_, ?_⟩
    · intro x hx hxw
      rcases List.mem_or_eq_of_mem_set hx with h1 | rfl
      · exact hf x h1 hxw
      · nomatch hxw
    · refine countP_set_same _ hk ?_
      rw [hold]
      rcases hpc with rfl | rfl <;> rfl
    · refine countP_set_same _ hk ?_
      rw [hold]
      rcases hpc with rfl | rfl <;> rfl
    · rw [List.map_set]
      apply List.ext_getElem?
      intro j
      rw [List.getElem?_set]
      split
      · rename_i hkj
        subst hkj
        rw [List.getElem?_map, hk, Option.map_some, hold]
        rcases hpc with rfl | rfl <;> simp [WorkerPc.held, (List.getElem?_eq_some_iff.1 hk).1]
      · rfl
    · rintro ⟨x, hx, hxe⟩
      rcases List.mem_or_eq_of_mem_set hx with h1 | rfl
      · exact ⟨x, h1, hxe⟩
      · rcases hpc with rfl | rfl <;> nomatch hxe
  | signal =>
    have hw := signal_woken ks l
    exact ⟨hw.length_eq, woken_free hw hf, hw.countP_eq _ (fun t => t.pc.isSleeping_wake),
      hw.countP_eq _ (fun t => t.pc.isRunning_wake), hw.map_eq _ (fun t => t.pc.held_wake), woken_pc hw (by simp)⟩

/-- Notifications among the workers keep the invariant. -/
theorem woken_workers (h : Inv wq) {l : List (WorkerThread F A)} (hw : Woken wq.workers l) : Inv { wq with workers := l } where
  length := hw.length_eq.trans h.length
  occupancy_le := h.occupancy_le
  free := woken_free hw h.free
  sleeping := h.sleeping.trans (congrArg _ (hw.countP_eq _ (fun t => t.pc.isSleeping_wake)).symm)
  running := h.running.trans (congrArg _ (hw.countP_eq _ (fun t => t.pc.isRunning_wake)).symm)
  queuers := h.queuers
  stopped := h.stopped
  exited t ht hp := by
    obtain ⟨x, hx, hxp⟩ := woken_pc hw (by simp) ⟨t, ht, hp⟩
    exact h.exited x hx hxp
  destroyed := h.destroyed

/-- Notifications among the callers of `queue_work` keep the invariant. -/
theorem woken_callers (h : Inv wq) {l : List (QueueCall F A)} (hw : Woken wq.callers l) : Inv { wq with callers := l } :=
  { h with queuers := h.queuers.trans (congrArg _ (hw.countP_eq _ (fun c => c.pc.isSleeping_wake)).symm) }

/-- A worker that moves, with the counters following it, keeps the invariant; to the exit it moves only when the queue stops. -/
theorem move (h : Inv wq) {k : Nat} {t : WorkerThread F A} (hk : wq.workers[k]? = some t) (hne : t.pc ≠ .noThread)
    {pc : WorkerPc F A} {nS nR : UInt32}
    (hS : nS = UInt32.ofNat ((wq.workers.set k { t with pc := pc }).countP (·.pc.isSleeping)))
    (hR : nR = UInt32.ofNat ((wq.workers.set k { t with pc := pc }).countP (·.pc.isRunning)))
    (he : pc = .exited → wq.shouldStop = true) :
    Inv ({ wq with nrSleepingWorkers := nS, nrRunningWorkers := nR }.setPc k pc) := by
  have hw : ({ wq with nrSleepingWorkers := nS, nrRunningWorkers := nR }.setPc k pc).workers =
    wq.workers.set k { t with pc := pc } := modify_eq_set _ hk
  refine ⟨?_, h.occupancy_le, ?_, ?_, ?_, h.queuers, h.stopped, ?_, h.destroyed⟩
  · rw [hw, List.length_set]
    exact h.length
  · rw [hw]
    intro x hx hxw
    rcases List.mem_or_eq_of_mem_set hx with h1 | rfl
    · exact h.free x h1 hxw
    · exact absurd (h.free t (List.mem_of_getElem? hk) hxw) hne
  · rw [hw]
    exact hS
  · rw [hw]
    exact hR
  · rw [hw]
    intro x hx hxp
    rcases List.mem_or_eq_of_mem_set hx with h1 | rfl
    · exact h.exited x h1 hxp
    · exact he hxp

/-- A worker that moves outside of the counters, and not to the exit, keeps the invariant. -/
theorem setPc (h : Inv wq) {k : Nat} {t : WorkerThread F A} (hk : wq.workers[k]? = some t) {pc : WorkerPc F A}
    (hne : t.pc ≠ .noThread) (hs : pc.isSleeping = t.pc.isSleeping) (hr : pc.isRunning = t.pc.isRunning)
    (he : pc = .exited → wq.shouldStop = true) : Inv (wq.setPc k pc) :=
  h.move hk hne (h.sleeping.trans (congrArg _ (countP_set_same _ hk hs).symm))
    (h.running.trans (congrArg _ (countP_set_same _ hk hr).symm)) he

/-! ## The critical sections -/

/-- Taking the oldest entry out of the window keeps the invariant. -/
theorem pop (h : Inv wq) (ht : wq.head ≠ wq.tail) : Inv { wq with head := wq.head + 1 } :=
  { h with
    occupancy_le := by
      have := occupancy_pop ht
      have := h.occupancy_le
      show occupancy (wq.head + 1) wq.tail ≤ wq.attr.maxPendingWorks.toNat
      omega
    stopped := fun e => absurd (h.stopped e) ht }

/-- The loop of a worker that is in no counter keeps the invariant. -/
theorem workerLoop (h : Inv wq) {k : Nat} {t : WorkerThread F A} (hk : wq.workers[k]? = some t) (hp : t.pc = .starting) :
    Inv (wq.workerLoop k).1 := by
  have hne : t.pc ≠ .noThread := by rw [hp]; nofun
  have hs : t.pc.isSleeping = false := by rw [hp]; rfl
  have hr : t.pc.isRunning = false := by rw [hp]; rfl
  rcases wq.workerLoop_cases k with ⟨hstop, -, he⟩ | ⟨-, ht, he⟩ | ⟨-, -, he⟩
  · rw [he]
    have h' : Inv { wq with nrOnlineWorkers := wq.nrOnlineWorkers - 1 } := { h with }
    exact h'.setPc hk hne hs.symm hr.symm (fun _ => hstop)
  · rw [he]
    exact (h.pop ht).move hk hne (h.sleeping.trans (congrArg _ (countP_set_same _ hk hs.symm).symm))
      (counter_enter hk hr rfl h.running) nofun
  · rw [he]
    have h' : Inv { wq with waiters := if wq.waitAllIsWaiting then broadcast wq.waiters else wq.waiters } := { h with }
    exact h'.move hk hne (counter_enter hk hs rfl h.sleeping)
      (h.running.trans (congrArg _ (countP_set_same _ hk hr.symm).symm)) nofun

/-- The place a worker is given while it holds the lock does not matter: it moves on before the lock is free. -/
theorem workerLoop_setPc (wq : WorkqueueStruct F A) (k : Nat) (pc : WorkerPc F A) :
    (wq.setPc k pc).workerLoop k = wq.workerLoop k := by
  have hset : ∀ (l : List (WorkerThread F A)) (pc' : WorkerPc F A),
      (l.modify k (fun worker => { worker with pc := pc })).modify k (fun worker => { worker with pc := pc' }) =
        l.modify k (fun worker => { worker with pc := pc' }) := by
    intro l pc'
    rw [List.modify_modify_eq]
    rfl
  have hwait : (wq.setPc k pc).waitForEvent = (wq.waitForEvent.1.setPc k pc, wq.waitForEvent.2) := by
    by_cases hs : (wq.shouldStop && !wq.queueIsBlocked) = true
    · rw [show wq.waitForEvent = (wq, .returnFalse) from if_pos hs]
      exact if_pos hs
    · by_cases ht : wq.head ≠ wq.tail
      · rw [show wq.waitForEvent = (wq, .returnTrue) from (if_neg hs).trans (if_pos ht)]
        exact (if_neg hs).trans (if_pos ht)
      · rw [show wq.waitForEvent = _ from (if_neg hs).trans (if_neg ht)]
        exact (if_neg hs).trans (if_neg ht)
  unfold WorkqueueStruct.workerLoop
  rw [hwait]
  rcases wq.waitForEvent with ⟨w, o⟩
  cases o <;> simp only [WorkqueueStruct.setPc, hset]

/-- A worker that has just got the lock is in no counter. -/
theorem workerResume (h : Inv wq) {k : Nat} {ks : List Nat} {t : WorkerThread F A} (hk : wq.workers[k]? = some t)
    (hr : wq.workerResume ks t.pc = some wq') :
    Inv (wq'.setPc k .starting) ∧ (wq'.setPc k .starting).workers[k]? = some { t with pc := .starting } := by
  rcases wq.workerResume_cases hr with ⟨hp, rfl⟩ | ⟨hp, rfl⟩ | ⟨hp, rfl⟩
  · have h' : Inv { wq with nrOnlineWorkers := wq.nrOnlineWorkers + 1 } := { h with }
    refine ⟨h'.setPc hk (by rw [hp]; nofun) (by rw [hp]) (by rw [hp]) nofun, setPc_getElem? _ hk .starting⟩
  · refine ⟨h.move hk (by rw [hp]; nofun) (counter_leave hk (by rw [hp]; rfl) rfl h.sleeping)
      (h.running.trans (congrArg _ (countP_set_same _ hk (by rw [hp]; rfl)).symm)) nofun, setPc_getElem? _ hk .starting⟩
  · have h' : Inv { wq with
        callers := if wq.nrRunningWorkers - 1 = 0 then wq.callers
          else if wq.nrSleepingQueuers = 1 then signal ks wq.callers
          else if wq.nrSleepingQueuers > 1 then broadcast wq.callers
          else wq.callers } := by
      apply h.woken_callers
      split
      · exact Woken.refl _
      · exact signalOrBroadcast_woken _ _ _
    refine ⟨h'.move hk (by rw [hp]; nofun)
      (h.sleeping.trans (congrArg _ (countP_set_same _ hk (by rw [hp]; rfl)).symm))
      (counter_leave hk (by rw [hp]; rfl) rfl h.running) nofun, setPc_getElem? _ hk .starting⟩

/-- A critical section of a worker keeps the invariant. -/
theorem workerSection (h : Inv wq) {k : Nat} {ks : List Nat} {t : WorkerThread F A} (hk : wq.workers[k]? = some t)
    {r : WorkqueueStruct F A × List (WqEvent F A)} (hr : wq.workerSection k ks t.pc = some r) : Inv r.1 := by
  obtain ⟨wq', h1, rfl⟩ := Option.map_eq_some_iff.1 hr
  obtain ⟨h2, h3⟩ := h.workerResume hk h1
  rw [← workerLoop_setPc wq' k .starting]
  exact h2.workerLoop h3 rfl

/-- What a worker does outside of the lock keeps the invariant. -/
theorem workerRun (h : Inv wq) {k : Nat} {t : WorkerThread F A} (hk : wq.workers[k]? = some t)
    {r : WorkqueueStruct F A × List (WqEvent F A)} (hr : wq.workerRun k t.pc = some r) : Inv r.1 := by
  obtain ⟨st, work, pc, hp, he, hpc, -⟩ := wq.workerRun_cases hr
  rw [he]
  rcases hpc with rfl | ⟨st', rfl⟩
  · exact h.setPc hk (by rw [hp]; nofun) (by rw [hp]; rfl) (by rw [hp]; rfl) nofun
  · exact h.setPc hk (by rw [hp]; nofun) (by rw [hp]; rfl) (by rw [hp]; rfl) nofun

/-- The callers of `queue_work`, with their counter following them, keep the invariant. -/
theorem setCaller (h : Inv wq) {i : Nat} {c : QueueCall F A} {nQ : UInt32}
    (hQ : nQ = UInt32.ofNat ((wq.callers.set i c).countP (·.pc.isSleeping))) :
    Inv { wq with nrSleepingQueuers := nQ, callers := wq.callers.set i c } :=
  { h with queuers := hQ }

/-- Storing a work in a free slot keeps the invariant. -/
theorem accepted (h : Inv wq) {work : WorkStruct F A} {ks : List Nat} {l : List (WorkerThread F A)}
    (hs : wq.shouldStop = false) (hc : wq.countPendingWorks < wq.attr.maxPendingWorks.toNat) (ha : Armed ks wq.workers l) :
    Inv (wq.accepted work l) := by
  obtain ⟨h1, h2, h3, h4, -, h6⟩ := armed ha h.free
  have hocc := occupancy_lt_of_absDiff_lt wq.attr.maxPendingWorks_le h.occupancy_le hc
  exact
    { length := h1.trans h.length
      occupancy_le := by
        have := occupancy_push wq.attr.maxPendingWorks_le hocc
        show occupancy wq.head (wq.tail + 1) ≤ wq.attr.maxPendingWorks.toNat
        omega
      free := h2
      sleeping := h.sleeping.trans (congrArg _ h3.symm)
      running := h.running.trans (congrArg _ h4.symm)
      queuers := h.queuers
      stopped := fun e => absurd (hs.symm.trans e) nofun
      exited := fun t ht hp => by
        obtain ⟨x, hx, hxp⟩ := h6 ⟨t, ht, hp⟩
        exact h.exited x hx hxp
      destroyed := h.destroyed }

/-- A critical section of a call of `queue_work` keeps the invariant. -/
theorem queuerSection (h : Inv wq) {i : Nat} {ks : List Nat} {threadCreate : Int} {c : QueueCall F A}
    (hi : wq.callers[i]? = some c) {r : WorkqueueStruct F A × List (WqEvent F A)}
    (hr : wq.queuerSection i ks threadCreate c = some r) : Inv r.1 := by
  obtain ⟨hp, nQ, hnQ, hcases⟩ := wq.queuerSection_cases hr
  have hret : ∀ ret, nQ = UInt32.ofNat ((wq.callers.set i ⟨c.work, .returned ret⟩).countP (·.pc.isSleeping)) := by
    intro ret
    rcases hp with hp | hp
    · rw [hnQ, hp, countP_set_same _ hi (by rw [hp]; rfl)]
      exact (UInt32.sub_zero _).trans h.queuers
    · rw [hnQ, hp]
      exact counter_leave hi (by rw [hp]; rfl) rfl h.queuers
  have hsleep : nQ + 1 = UInt32.ofNat ((wq.callers.set i ⟨c.work, .sleeping false⟩).countP (·.pc.isSleeping)) := by
    have hlt := (List.getElem?_eq_some_iff.1 hi).1
    have hent := counter_enter (x := ⟨c.work, .returned 0⟩) (y := ⟨c.work, .sleeping false⟩)
      (List.getElem?_set_self hlt) rfl rfl (hret 0)
    rwa [List.set_set] at hent
  rcases hcases with ⟨-, rfl⟩ | ⟨-, -, rfl⟩ | ⟨hs, -, hc, l, rfl, ha, -⟩
  · exact h.setCaller (hret _)
  · exact h.setCaller hsleep
  · exact (h.accepted hs hc ha).setCaller (hret 0)

theorem joinRound (h : Inv wq) {i j : Nat} (hd : wq.destroyer = .joining j) {r : WorkqueueStruct F A × List (WqEvent F A)}
    (hr : wq.joinRound i = some r) : Inv r.1 := by
  have hstop : wq.shouldStop = true := h.destroyed (by rw [hd]; nofun)
  rcases wq.joinRound_cases hr with ⟨-, rfl⟩ | ⟨t, -, -, rfl⟩ <;> exact { h with destroyed := fun _ => hstop }

/-- The first critical section of `destroy_workqueue` keeps the invariant: it empties the window as it sets `should_stop`. -/
theorem destroySection (h : Inv wq) (ks : List Nat) : Inv (wq.destroySection ks).1 := by
  rw [wq.destroySection_eq]
  have h' : Inv { wq with shouldStop := true, head := wq.tail, destroyer := .joining 0 } :=
    { h with
      occupancy_le := by
        show occupancy wq.tail wq.tail ≤ _
        rw [occupancy_self]
        exact Nat.zero_le _
      stopped := fun _ => rfl
      exited := fun _ _ _ => rfl
      destroyed := fun _ => rfl }
  exact { h'.woken_workers (signalOrBroadcast_woken wq.nrSleepingWorkers ks wq.workers) with }

/-- Every step of the workqueue keeps the invariant. -/
theorem step (h : Inv wq) {a : Act F A} {ev : List (WqEvent F A)} (hs : wq.step a = some (wq', ev)) : Inv wq' := by
  obtain ⟨r, rfl, rfl, hc⟩ := wq.step_result hs
  cases hc with
  | queueWork func arg deleter => exact { h with queuers := h.queuers.trans (by rw [List.countP_append]; rfl) }
  | queuer hi hr => exact h.queuerSection hi hr
  | waitAll => exact { h with }
  | waiter _ hr =>
    obtain ⟨blocked, waiting, waiters, he, -⟩ := wq.waiterSection_frame hr
    rw [he]
    exact { h with }
  | worker hk hr => exact h.workerSection hk hr
  | run hk hr => exact h.workerRun hk hr
  | destroy ks _ => exact h.destroySection ks
  | join hd hr => exact h.joinRound hd hr
  | destroyEnd hd => exact { h with destroyed := fun _ => h.destroyed (by rw [hd]; nofun) }
  | spuriousWorker k => exact h.woken_workers (modify_woken _ k)
  | spuriousQueuer i => exact h.woken_callers (modify_woken _ i)
  | spuriousWaiter i => exact { h with }

end Inv

/-! ## The start -/

/-- What `alloc_workers` returns: `nr_thread_to_create` slots with a thread that has not run yet, and the rest unclaimed. -/
theorem allocWorkers_ok {attr : AcceptedAttr} {env : AllocEnv} {l : List (WorkerThread F A)}
    (h : allocWorkers attr env = .ok l) :
    l = List.replicate attr.nrThreadToCreate.toNat ⟨true, .starting⟩ ++
      List.replicate (attr.maxThreads.toNat - attr.nrThreadToCreate.toNat) ⟨false, .noThread⟩ := by
  unfold allocWorkers at h
  split at h
  · nomatch h
  · simp only at h
    split at h
    · nomatch h
    · exact (Except.ok.inj h).symm

/-- What `alloc_workqueue` returns when it succeeds: an empty queue with its first workers about to start. -/
structure Fresh (wq : WorkqueueStruct F A) : Prop where
  shouldStop : wq.shouldStop = false
  queueIsBlocked : wq.queueIsBlocked = false
  waitAllIsWaiting : wq.waitAllIsWaiting = false
  counters : wq.nrSleepingWorkers = 0 ∧ wq.nrSleepingQueuers = 0 ∧ wq.nrOnlineWorkers = 0 ∧ wq.nrRunningWorkers = 0
  head : wq.head = 0
  tail : wq.tail = 0
  workers : wq.workers = List.replicate wq.attr.nrThreadToCreate.toNat ⟨true, .starting⟩ ++
    List.replicate (wq.attr.maxThreads.toNat - wq.attr.nrThreadToCreate.toNat) ⟨false, .noThread⟩
  callers : wq.callers = []
  waiters : wq.waiters = []
  destroyer : wq.destroyer = .idle

theorem allocWorkqueue_fresh {attrArg : WorkqueueAttr} {env : AllocEnv} {wq : WorkqueueStruct F A}
    (h : allocWorkqueue attrArg env = some (.ok wq)) : Fresh wq := by
  unfold allocWorkqueue at h
  split at h
  · nomatch h
  · nomatch h
  · repeat' split at h
    all_goals simp only [Option.some.injEq, Except.ok.injEq, reduceCtorEq] at h
    rename_i workers hw
    subst h
    exact ⟨rfl, rfl, rfl, ⟨rfl, rfl, rfl, rfl⟩, rfl, rfl, allocWorkers_ok hw, rfl, rfl, rfl⟩

/-- The queue has the attributes that passed. -/
theorem allocWorkqueue_attr {attrArg : WorkqueueAttr} {env : AllocEnv} {wq : WorkqueueStruct F A}
    (h : allocWorkqueue attrArg env = some (.ok wq)) : validateAndAdjustWorkqueueAttr attrArg = some (.ok wq.attr) := by
  unfold allocWorkqueue at h
  split at h
  · nomatch h
  · nomatch h
  · rename_i hattr
    repeat' split at h
    all_goals simp only [Option.some.injEq, Except.ok.injEq, reduceCtorEq] at h
    subst h
    exact hattr

namespace Fresh

variable {wq : WorkqueueStruct F A}

/-- At the start a slot either is unclaimed, without a thread, or has a thread about to start. -/
theorem mem_workers (h : Fresh wq) {t : WorkerThread F A} (ht : t ∈ wq.workers) :
    t = ⟨true, .starting⟩ ∨ t = ⟨false, .noThread⟩ := by
  rw [h.workers, List.mem_append] at ht
  rcases ht with ht | ht
  · exact Or.inl (List.eq_of_mem_replicate ht)
  · exact Or.inr (List.eq_of_mem_replicate ht)

theorem countP_eq_zero (h : Fresh wq) (q : WorkerThread F A → Bool) (h1 : q ⟨true, .starting⟩ = false)
    (h2 : q ⟨false, .noThread⟩ = false) : wq.workers.countP q = 0 := by
  rw [List.countP_eq_zero]
  intro t ht
  rcases h.mem_workers ht with rfl | rfl
  · simp [h1]
  · simp [h2]

theorem inv (h : Fresh wq) : Inv wq where
  length := by
    have := wq.attr.nrThreadToCreate_le
    rw [h.workers, List.length_append, List.length_replicate, List.length_replicate]
    omega
  occupancy_le := by
    rw [h.head, h.tail, occupancy_self]
    exact Nat.zero_le _
  free t ht hwq := by
    rcases h.mem_workers ht with rfl | rfl
    · nomatch hwq
    · rfl
  sleeping := by
    rw [h.counters.1, h.countP_eq_zero _ rfl rfl]
    rfl
  running := by
    rw [h.counters.2.2.2, h.countP_eq_zero _ rfl rfl]
    rfl
  queuers := by
    rw [h.counters.2.1, h.callers]
    rfl
  stopped := fun e => absurd (h.shouldStop.symm.trans e) nofun
  exited t ht hp := by
    rcases h.mem_workers ht with rfl | rfl <;> nomatch hp
  destroyed := fun e => absurd h.destroyer e

end Fresh

/-- The invariant holds in every reachable state. -/
theorem Inv.of_run {C : WorkqueueStruct F A → Act F A → Prop} {wq₀ wq : WorkqueueStruct F A} {log : List (WqEvent F A)}
    (h0 : Fresh wq₀) (h : (machine F A).Run C wq₀ wq log) : Inv wq :=
  h.stateInv h0.inv (fun _ _ _ _ _ _ hi _ hs => hi.step hs)

end WorkqueueStruct

end GwBot

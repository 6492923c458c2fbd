import GwBot.Workqueue.Slots

/-!
# What the counters of a workqueue count

`Inv` has three of the four counters as the numbers of threads they are named after, modulo 2^32; here is the fourth,
`nr_online_workers`, and what they are as numbers. The table has fewer than 2^32 slots, so the three counters of the workers are the
numbers themselves, and each is above zero where the code decrements it. `nr_sleeping_queuers` counts callers, of which a workqueue may
have any number: it is theirs as long as there are fewer than 2^32 of them in `cond_wait` at once, which no process has.
-/

namespace GwBot

open Lib

variable {F A : Type}

/-- The worker has counted itself in `nr_online_workers` and has not left. -/
def WorkerPc.isOnline : WorkerPc F A → Bool
  | .noThread | .starting | .exited => false
  | .sleeping _ | .holding _ _ | .finishing => true

@[simp] theorem WorkerPc.isOnline_wake (pc : WorkerPc F A) : pc.wake.isOnline = pc.isOnline := by
  cases pc <;> rfl

/-- Whenever the lock is free a worker that is online sleeps or is with a work. -/
theorem WorkerPc.isOnline_eq (pc : WorkerPc F A) : pc.isOnline = (pc.isSleeping || pc.isRunning) := by
  cases pc <;> rfl

theorem WorkerPc.created_of_isOnline {pc : WorkerPc F A} (h : pc.isOnline = true) : pc.created = true := by
  cases pc <;> first | rfl | nomatch h

namespace WorkqueueStruct

variable {wq wq' : WorkqueueStruct F A}

/-! ## The workers that are online -/

/-- `nr_online_workers` is the number of workers that are online. -/
def OnlineCounted (wq : WorkqueueStruct F A) : Prop := wq.nrOnlineWorkers = UInt32.ofNat (wq.workers.countP (·.pc.isOnline))

namespace OnlineCounted

/-- A worker that moves, with the counter following it. -/
theorem move {k : Nat} {t : WorkerThread F A} (hk : wq.workers[k]? = some t) {pc : WorkerPc F A} {n : UInt32}
    (hn : n = UInt32.ofNat ((wq.workers.set k { t with pc := pc }).countP (·.pc.isOnline))) :
    OnlineCounted ({ wq with nrOnlineWorkers := n }.setPc k pc) := by
  unfold OnlineCounted
  rw [setPc_workers { wq with nrOnlineWorkers := n } hk]
  exact hn

/-- A worker that moves and stays online, or stays off. -/
theorem move_same (h : OnlineCounted wq) {k : Nat} {t : WorkerThread F A} (hk : wq.workers[k]? = some t) {pc : WorkerPc F A}
    (hp : pc.isOnline = t.pc.isOnline) : OnlineCounted (wq.setPc k pc) :=
  move hk (h.trans (congrArg _ (countP_set_same _ hk hp).symm))

/-- A worker that gets the lock is online, if it was not before. -/
theorem workerResume (h : OnlineCounted wq) {k : Nat} {ks : List Nat} {t : WorkerThread F A} (hk : wq.workers[k]? = some t)
    (hr : wq.workerResume ks t.pc = some wq') : OnlineCounted (wq'.setPc k .finishing) := by
  rcases wq.workerResume_cases hr with ⟨hp, rfl⟩ | ⟨hp, rfl⟩ | ⟨hp, rfl⟩
  · exact move hk (counter_enter hk (by rw [hp]; rfl) rfl h)
  · have h' : OnlineCounted { wq with nrSleepingWorkers := wq.nrSleepingWorkers - 1 } := h
    exact h'.move_same hk (congrArg WorkerPc.isOnline hp).symm
  · refine OnlineCounted.move_same ?_ hk (congrArg WorkerPc.isOnline hp).symm
    exact h

/-- The loop of a worker that is online: it stays so, or is counted out as it leaves. -/
theorem workerLoop (h : OnlineCounted wq) {k : Nat} {t : WorkerThread F A} (hk : wq.workers[k]? = some t) (hp : t.pc = .finishing) :
    OnlineCounted (wq.workerLoop k).1 := by
  have honline : t.pc.isOnline = true := by rw [hp]; rfl
  rcases wq.workerLoop_cases k with ⟨-, -, he⟩ | ⟨-, -, he⟩ | ⟨-, -, he⟩ <;> rw [he]
  · exact move hk (counter_leave hk honline rfl h)
  · have h' : OnlineCounted { wq with head := wq.head + 1, nrRunningWorkers := wq.nrRunningWorkers + 1 } := h
    exact h'.move_same hk honline.symm
  · have h' : OnlineCounted
        { wq with
          waiters := if wq.waitAllIsWaiting then broadcast wq.waiters else wq.waiters
          nrSleepingWorkers := wq.nrSleepingWorkers + 1 } := h
    exact h'.move_same hk honline.symm

theorem workerSection (h : OnlineCounted wq) {k : Nat} {ks : List Nat} {t : WorkerThread F A} (hk : wq.workers[k]? = some t)
    {r : WorkqueueStruct F A × List (WqEvent F A)} (hr : wq.workerSection k ks t.pc = some r) : OnlineCounted r.1 := by
  obtain ⟨w, h1, rfl⟩ := Option.map_eq_some_iff.1 hr
  obtain ⟨-, hworkers, -⟩ := workerResume_view h1
  have hk' : w.workers[k]? = some t := hworkers ▸ hk
  rw [← Inv.workerLoop_setPc w k .finishing]
  exact (h.workerResume hk h1).workerLoop (setPc_getElem? _ hk' _) rfl

/-- Where no counter moves, notifications and slots that are claimed change nothing. -/
theorem of_same (h : OnlineCounted wq) (hn : wq'.nrOnlineWorkers = wq.nrOnlineWorkers)
    (hw : wq'.workers.countP (·.pc.isOnline) = wq.workers.countP (·.pc.isOnline)) : OnlineCounted wq' := by
  unfold OnlineCounted
  rw [hn, hw]
  exact h

theorem of_woken (h : OnlineCounted wq) (hn : wq'.nrOnlineWorkers = wq.nrOnlineWorkers) (hw : Woken wq.workers wq'.workers) :
    OnlineCounted wq' :=
  h.of_same hn (hw.countP_eq _ (fun t => t.pc.isOnline_wake))

/-- A thread that is created is not online yet. -/
theorem countP_armed {ks : List Nat} {l l' : List (WorkerThread F A)} (ha : Armed ks l l')
    (hf : ∀ t ∈ l, t.wq = false → t.pc = .noThread) : l'.countP (·.pc.isOnline) = l.countP (·.pc.isOnline) := by
  cases ha with
  | same => rfl
  | spawn pc hk hwq hpc =>
    refine countP_set_same _ hk ?_
    rw [hf _ (List.mem_of_getElem? hk) hwq]
    rcases hpc with rfl | rfl <;> rfl
  | signal => exact (signal_woken ks l).countP_eq _ (fun t => t.pc.isOnline_wake)

/-- Every step keeps it. -/
theorem step (hi : Inv wq) (h : OnlineCounted wq) {a : Act F A} {ev : List (WqEvent F A)} (hs : wq.step a = some (wq', ev)) :
    OnlineCounted wq' := by
  obtain ⟨r, rfl, rfl, hc⟩ := wq.step_result hs
  cases hc with
  | queuer _ hr =>
    obtain ⟨-, nQ, -, hcases⟩ := wq.queuerSection_cases hr
    rcases hcases with ⟨-, rfl⟩ | ⟨-, -, rfl⟩ | ⟨-, -, -, l, rfl, ha, -⟩
    · exact h
    · exact h
    · exact h.of_same rfl (countP_armed ha hi.free)
  | waiter _ hr =>
    obtain ⟨blocked, waiting, waiters, he, -⟩ := wq.waiterSection_frame hr
    rw [he]
    exact h
  | worker hk hr => exact h.workerSection hk hr
  | run hk hr =>
    obtain ⟨st, work, pc, hp, he, hpc, -⟩ := wq.workerRun_cases hr
    rw [he]
    refine h.move_same hk ?_
    rw [hp]
    rcases hpc with rfl | ⟨st', rfl⟩ <;> rfl
  | destroy ks _ =>
    rw [wq.destroySection_eq]
    exact h.of_woken rfl (signalOrBroadcast_woken _ _ _)
  | join _ hr =>
    rcases wq.joinRound_cases hr with ⟨-, rfl⟩ | ⟨t, -, -, rfl⟩ <;> exact h
  | spuriousWorker k => exact h.of_woken rfl (modify_woken _ k)
  | _ => exact h

theorem of_run {C : WorkqueueStruct F A → Act F A → Prop} {wq₀ : WorkqueueStruct F A} {log : List (WqEvent F A)} (h0 : Fresh wq₀)
    (h : (machine F A).Run C wq₀ wq log) : OnlineCounted wq := by
  refine h.stateInv ?_ (fun _ _ _ _ _ hr hc _ hs => hc.step (Inv.of_run h0 hr) hs)
  unfold OnlineCounted
  rw [h0.counters.2.2.1, h0.countP_eq_zero _ rfl rfl]
  rfl

/-- As a number: the table is too short for the counter to wrap. -/
theorem toNat (hi : Inv wq) (h : OnlineCounted wq) : wq.nrOnlineWorkers.toNat = wq.workers.countP (·.pc.isOnline) := by
  rw [show wq.nrOnlineWorkers = _ from h, UInt32.toNat_ofNat_of_lt' (hi.countP_workers_lt _)]

end OnlineCounted

/-! ## The accounts -/

/-- What the counters say whenever the lock is free: how many workers are in `cond_wait`, how many are with a work, and how many callers
of `queue_work` are in `cond_wait`; they are within what there is, and nobody is left in them when `destroy_workqueue` has joined. The
table bounds the workers, but nothing here bounds the callers: their counter is right as a `uint32_t`, and as a number while they are
as few as the threads of a process. -/
structure CountersRight (wq : WorkqueueStruct F A) : Prop where
  sleepingWorkers : wq.nrSleepingWorkers.toNat = wq.workers.countP (·.pc.isSleeping)
  runningWorkers : wq.nrRunningWorkers.toNat = wq.workers.countP (·.pc.isRunning)
  sleepingQueuers : wq.nrSleepingQueuers = UInt32.ofNat (wq.callers.countP (·.pc.isSleeping))
  toNat_sleepingQueuers : wq.callers.countP (·.pc.isSleeping) < 2 ^ 32 →
    wq.nrSleepingQueuers.toNat = wq.callers.countP (·.pc.isSleeping)
  le_online : wq.nrSleepingWorkers.toNat + wq.nrRunningWorkers.toNat ≤ wq.nrOnlineWorkers.toNat
  online_le : wq.nrOnlineWorkers.toNat ≤ wq.workers.countP (·.pc.created)
  created_le : wq.workers.countP (·.pc.created) ≤ wq.attr.maxThreads.toNat
  joined : wq.destroyer = .joined ∨ wq.destroyer = .done →
    wq.nrSleepingWorkers = 0 ∧ wq.nrRunningWorkers = 0 ∧ wq.nrOnlineWorkers = 0

/-- Where a thread that gets the lock decrements a counter, or a worker may go on to leave, that counter is above zero. -/
structure NoUnderflow (wq : WorkqueueStruct F A) : Prop where
  sleepingWorkers : ∀ (k : Nat) (t : WorkerThread F A), wq.workers[k]? = some t → t.pc = .sleeping true → 0 < wq.nrSleepingWorkers.toNat
  runningWorkers : ∀ (k : Nat) (t : WorkerThread F A), wq.workers[k]? = some t → t.pc = .finishing → 0 < wq.nrRunningWorkers.toNat
  onlineWorkers : ∀ (k : Nat) (t : WorkerThread F A) ks w, wq.workers[k]? = some t → wq.workerResume ks t.pc = some w →
    0 < w.nrOnlineWorkers.toNat
  sleepingQueuers : ∀ (i : Nat) (c : QueueCall F A), wq.callers[i]? = some c → c.pc = .sleeping true →
    wq.callers.countP (·.pc.isSleeping) < 2 ^ 32 → 0 < wq.nrSleepingQueuers.toNat

/-- A worker that is online sleeps or is with a work, and not both. -/
theorem countP_isOnline (l : List (WorkerThread F A)) :
    l.countP (·.pc.isOnline) = l.countP (·.pc.isSleeping) + l.countP (·.pc.isRunning) := by
  induction l with
  | nil => rfl
  | cons t l ih =>
    rw [List.countP_cons, List.countP_cons, List.countP_cons, ih, WorkerPc.isOnline_eq]
    cases t.pc <;> simp [WorkerPc.isSleeping, WorkerPc.isRunning] <;> omega

namespace Inv

theorem toNat_nrSleepingWorkers (h : Inv wq) : wq.nrSleepingWorkers.toNat = wq.workers.countP (·.pc.isSleeping) := by
  rw [h.sleeping, UInt32.toNat_ofNat_of_lt' (h.countP_workers_lt _)]

theorem toNat_nrSleepingQueuers (h : Inv wq) (hlt : wq.callers.countP (·.pc.isSleeping) < 2 ^ 32) :
    wq.nrSleepingQueuers.toNat = wq.callers.countP (·.pc.isSleeping) := by
  rw [h.queuers, UInt32.toNat_ofNat_of_lt' hlt]

/-- When the joins are done every thread is gone, and a thread that is gone is in no counter. -/
theorem counters_joined (hi : Inv wq) (ho : OnlineCounted wq) (hj : Joined wq) (hd : wq.destroyer = .joined ∨ wq.destroyer = .done) :
    wq.nrSleepingWorkers = 0 ∧ wq.nrRunningWorkers = 0 ∧ wq.nrOnlineWorkers = 0 := by
  have honline : wq.workers.countP (·.pc.isOnline) = 0 := by
    refine List.countP_eq_zero.2 (fun t ht => ?_)
    obtain ⟨k, hk⟩ := List.mem_iff_getElem?.1 ht
    have hgone := hj k t hk (by rcases hd with hd | hd <;> rw [hasJoined, hd])
    cases hp : t.pc <;> rw [hp] at hgone <;> first | exact Bool.false_ne_true | cases hgone
  have hsum := countP_isOnline wq.workers
  refine ⟨hi.nrSleepingWorkers_eq_zero_iff.2 (by omega), hi.nrRunningWorkers_eq_zero_iff.2 (by omega), ?_⟩
  rw [show wq.nrOnlineWorkers = _ from ho, honline]
  rfl

theorem countersRight (hi : Inv wq) (ho : OnlineCounted wq) (hj : Joined wq) : CountersRight wq where
  sleepingWorkers := hi.toNat_nrSleepingWorkers
  runningWorkers := hi.toNat_nrRunningWorkers
  sleepingQueuers := hi.queuers
  toNat_sleepingQueuers := hi.toNat_nrSleepingQueuers
  le_online := by rw [hi.toNat_nrSleepingWorkers, hi.toNat_nrRunningWorkers, ho.toNat hi, countP_isOnline]
  online_le := by
    rw [ho.toNat hi]
    exact List.countP_mono_left (fun t _ h => WorkerPc.created_of_isOnline h)
  created_le := hi.length ▸ List.countP_le_length
  joined := hi.counters_joined ho hj

theorem noUnderflow (hi : Inv wq) (ho : OnlineCounted wq) : NoUnderflow wq where
  sleepingWorkers k t hk hp := by
    rw [hi.toNat_nrSleepingWorkers]
    exact countP_pos_of_getElem? _ hk (by rw [hp]; rfl)
  runningWorkers k t hk hp := by
    rw [hi.toNat_nrRunningWorkers]
    exact countP_pos_of_getElem? _ hk (by rw [hp]; rfl)
  onlineWorkers k t ks w hk hr := by
    -- the worker that has the lock is online itself
    have hcount := ho.workerResume hk hr
    obtain ⟨hi', hk'⟩ := hi.workerResume hk hr
    obtain ⟨-, hworkers, -⟩ := workerResume_view hr
    have hpos := countP_pos_of_getElem? (fun t => t.pc.isOnline) (w.setPc_getElem? (hworkers ▸ hk) .finishing) rfl
    have hlt : (w.setPc k .finishing).workers.countP (fun t => t.pc.isOnline) < 2 ^ 32 := by
      have hle : (w.setPc k .finishing).workers.countP (fun t => t.pc.isOnline) ≤ _ := List.countP_le_length
      have hlen : (w.setPc k .finishing).workers.length = wq.attr.maxThreads.toNat := by
        rw [w.setPc_workers (hworkers ▸ hk), List.length_set, hworkers, hi.length]
      have := wq.attr.maxThreads.toNat_lt
      omega
    rw [show w.nrOnlineWorkers = _ from hcount, UInt32.toNat_ofNat_of_lt' hlt]
    exact hpos
  sleepingQueuers i c hc hp hlt := by
    rw [hi.toNat_nrSleepingQueuers hlt]
    exact countP_pos_of_getElem? _ hc (by rw [hp]; rfl)

end Inv

/-- In every reachable state the counters are what they are named after, and no decrement takes one of them below zero. -/
theorem worker_accounting {attrArg : WorkqueueAttr} {env : AllocEnv} {wq₀ : WorkqueueStruct F A} {log : List (WqEvent F A)}
    (h0 : allocWorkqueue attrArg env = some (.ok wq₀)) (h : (machine F A).Reach wq₀ wq log) : CountersRight wq ∧ NoUnderflow wq := by
  have hfresh := allocWorkqueue_fresh h0
  have hi := Inv.of_run hfresh h
  have ho := OnlineCounted.of_run hfresh h
  exact ⟨hi.countersRight ho (Joined.of_run hfresh h), hi.noUnderflow ho⟩

/-- Of two workers one runs a work and one sleeps, and a call waits for a place in the list. -/
theorem worker_accounting_small : ∃ (wq₀ wq : WorkqueueStruct Unit Unit) (log : List (WqEvent Unit Unit)),
    allocWorkqueue ⟨0, 2, 2, 2⟩ AllocEnv.ok = some (.ok wq₀) ∧ (machine Unit Unit).Reach wq₀ wq log ∧
    (wq.nrSleepingWorkers, wq.nrRunningWorkers, wq.nrOnlineWorkers, wq.nrSleepingQueuers) = (1, 1, 2, 1) ∧
    CountersRight wq ∧ NoUnderflow wq := by
  have hrun : ∃ wq₀ : WorkqueueStruct Unit Unit, allocWorkqueue ⟨0, 2, 2, 2⟩ AllocEnv.ok = some (.ok wq₀) ∧
      ((machine Unit Unit).exec wq₀
        [.worker 0 [], .worker 1 [], .queueWork none none none, .queuer 0 [] 0, .worker 0 [], .waitAll, .waiter 0,
          .queueWork none none none, .queuer 1 [] 0]).map
        (fun r => (r.1.nrSleepingWorkers, r.1.nrRunningWorkers, r.1.nrOnlineWorkers, r.1.nrSleepingQueuers)) =
        some (1, 1, 2, 1) := by
    refine ⟨_, rfl, ?_⟩
    decide
  obtain ⟨wq₀, h0, he⟩ := hrun
  obtain ⟨wq, log, h, hval⟩ := Machine.exists_of_exec
    (fun (wq : WorkqueueStruct Unit Unit) _ =>
      (wq.nrSleepingWorkers, wq.nrRunningWorkers, wq.nrOnlineWorkers, wq.nrSleepingQueuers)) he
  exact ⟨wq₀, wq, log, h0, h, hval, worker_accounting h0 h⟩

end WorkqueueStruct

end GwBot

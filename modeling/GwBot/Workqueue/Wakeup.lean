import GwBot.Workqueue.NoStrand

/-!
# Callers of `queue_work` that nobody wakes

A call of `queue_work` that finds the queue full or blocked sleeps on `queue_work_cond`, and only `wake_up_all_queue_work_callers`
notifies it. That function gives up when `nr_running_workers` is zero, and its caller has just left that count, so the last worker
to finish notifies nobody; `wait_all_work_done` and `destroy_workqueue`, which also let such a call through, never notify. `Stranded`
is the state this can end in, `queue_work_caller_stranded` a run that ends in it, and `WakesCallers` what a run has to observe so
that it does not.
-/

namespace GwBot

open Lib

variable {F A : Type}

/-- The call is asleep with no notification pending, or has returned. -/
def CallPc.isIdle : CallPc → Bool
  | .sleeping false | .returned _ => true
  | _ => false

/-- The worker is back from its work and waits for the lock. -/
def WorkerPc.isFinishing : WorkerPc F A → Bool
  | .finishing => true
  | _ => false

namespace WorkqueueStruct

/-- A call of `queue_work` is asleep on `queue_work_cond` with no notification pending for it. -/
def CallerAsleep (wq : WorkqueueStruct F A) : Prop := ∃ c ∈ wq.callers, c.pc.asleep = true

instance (wq : WorkqueueStruct F A) : Decidable wq.CallerAsleep :=
  inferInstanceAs (Decidable (∃ c ∈ wq.callers, c.pc.asleep = true))

/-- There is no call of `destroy_workqueue` that can go on. -/
def destroyerIdle (wq : WorkqueueStruct F A) : Bool :=
  match wq.destroyer with
  | .idle | .done | .undefined _ => true
  | .joining i => (wq.joinRound i).isNone
  | .joined => false

/-- A call of `queue_work` is asleep with no notification pending, `try_queue_work_locked` would not return `-EAGAIN` to it, and every
thread is asleep with no notification pending, has returned or has exited. -/
def Stranded (wq : WorkqueueStruct F A) : Prop :=
  (∃ c ∈ wq.callers, c.pc.asleep = true ∧ (wq.tryQueueWorkLocked c.work [] 0).2 ≠ -EAGAIN) ∧
  (∀ c ∈ wq.callers, c.pc.isIdle = true) ∧ (∀ pc ∈ wq.waiters, pc.isIdle = true) ∧
  (∀ t ∈ wq.workers, t.pc.isAwake = false) ∧ wq.destroyerIdle = true

instance (wq : WorkqueueStruct F A) : Decidable wq.Stranded :=
  inferInstanceAs (Decidable (_ ∧ _ ∧ _ ∧ _ ∧ _))

/-- Three works are accepted and a fourth call finds the queue full and sleeps. The only worker runs all three works, each time as
the only one running, and goes to sleep. -/
theorem queue_work_caller_stranded : ∃ (wq₀ wq : WorkqueueStruct Unit Unit) (log : List (WqEvent Unit Unit)),
    allocWorkqueue smallAttr AllocEnv.ok = some (.ok wq₀) ∧ (machine Unit Unit).Reach wq₀ wq log ∧ wq.Stranded := by
  have hrun : ∃ wq₀ : WorkqueueStruct Unit Unit, allocWorkqueue smallAttr AllocEnv.ok = some (.ok wq₀) ∧
      ((machine Unit Unit).exec wq₀
        [.worker 0 [], .queueWork (some ()) none none, .queuer 0 [] 0, .worker 0 [], .queueWork (some ()) none none,
          .queueWork (some ()) none none, .queueWork (some ()) none none, .queuer 1 [] 0, .queuer 2 [] 0, .queuer 3 [] 0,
          .run 0, .run 0, .run 0, .worker 0 [], .run 0, .run 0, .run 0, .worker 0 [], .run 0, .run 0, .run 0,
          .worker 0 []]).map (fun r => decide r.1.Stranded) = some true := by
    refine ⟨_, rfl, ?_⟩
    decide
  obtain ⟨wq₀, h0, he⟩ := hrun
  obtain ⟨wq, log, h, hval⟩ := Machine.exists_of_exec (fun (wq : WorkqueueStruct Unit Unit) _ => decide wq.Stranded) he
  exact ⟨wq₀, wq, log, h0, h, of_decide_eq_true hval⟩

/-! ## When every caller is woken -/

/-- What a run has to observe while a call of `queue_work` is asleep with no notification pending. A worker that comes back from a work
as the only one running finds the queue not stopping, and blocked or with a work pending; another one finds a count of the sleeping
calls that has not wrapped; `wait_all_work_done` does not return but when the queue stops; and `destroy_workqueue` is called with two
workers running. -/
def WakesCallers (wq : WorkqueueStruct F A) : Act F A → Prop
  | .worker k _ => wq.CallerAsleep → wq.workers[k]?.any (fun t => t.pc.isFinishing) = true →
      (wq.nrRunningWorkers = 1 → wq.shouldStop = false ∧ (wq.queueIsBlocked = true ∨ wq.head ≠ wq.tail)) ∧
      (wq.nrRunningWorkers ≠ 1 → wq.nrSleepingQueuers > 1 ∨ wq.callers.countP (fun c => c.pc.isSleeping) = 1)
  | .waiter _ => wq.CallerAsleep → wq.countPendingWorks = 0 → wq.nrRunningWorkers = 0 → wq.shouldStop = true
  | .destroy _ => wq.CallerAsleep → wq.nrRunningWorkers > 1
  | _ => True

instance (wq : WorkqueueStruct F A) (a : Act F A) : Decidable (wq.WakesCallers a) :=
  match a with
  | .worker _ _ => inferInstanceAs (Decidable (_ → _ → _ ∧ _))
  | .waiter _ => inferInstanceAs (Decidable (_ → _ → _ → _))
  | .destroy _ => inferInstanceAs (Decidable (_ → _))
  | .queueWork _ _ _ | .queuer _ _ _ | .waitAll | .run _ | .join | .destroyEnd | .spuriousWorker _ | .spuriousQueuer _
  | .spuriousWaiter _ => inferInstanceAs (Decidable True)

variable {wq wq' : WorkqueueStruct F A}

theorem CallerAsleep.of_woken (h : wq'.CallerAsleep) (hw : Woken wq.callers wq'.callers) : wq.CallerAsleep :=
  hw.exists_mem_of (fun c hasleep => absurd (c.pc.asleep_wake.symm.trans hasleep) nofun) h

theorem CallerAsleep.of_set (h : wq'.CallerAsleep) {i : Nat} {c : QueueCall F A} (he : wq'.callers = wq.callers.set i c)
    (hc : c.pc.asleep = false) : wq.CallerAsleep := by
  obtain ⟨d, hd, hasleep⟩ := h
  rw [he] at hd
  rcases List.mem_or_eq_of_mem_set hd with h1 | rfl
  · exact ⟨d, h1, hasleep⟩
  · exact absurd (hc.symm.trans hasleep) nofun

/-- What holds while a call of `queue_work` is asleep with no notification pending: the queue does not stop, and is blocked, or has a
work pending or running; or two works are running, so that the next to finish is not the last. And in a queue without a thread
nothing has been taken, so that what the call found is still so. -/
structure Notified (wq : WorkqueueStruct F A) : Prop where
  awaited : wq.CallerAsleep → (wq.shouldStop = false ∧ (wq.queueIsBlocked = true ∨ wq.head ≠ wq.tail ∨
    0 < wq.workers.countP (fun t => t.pc.isRunning))) ∨ 2 ≤ wq.workers.countP (fun t => t.pc.isRunning)
  threadless : wq.CallerAsleep → wq.shouldStop = false → ¬HasThread wq.workers →
    wq.queueIsBlocked = true ∨ wq.attr.maxPendingWorks.toNat ≤ wq.countPendingWorks

/-- A full queue is not empty. -/
theorem head_ne_tail_of_full (h : wq.attr.maxPendingWorks.toNat ≤ wq.countPendingWorks) : wq.head ≠ wq.tail := by
  intro e
  have hpos := wq.attr.maxPendingWorks_pos
  have hz : wq.countPendingWorks = 0 := absDiff_eq_zero_iff.2 e
  omega

namespace Notified

/-- A critical section of a call of `queue_work`. -/
theorem queuerSection (hi : Inv wq) (h : Notified wq) {i : Nat} {ks : List Nat} {threadCreate : Int} {c : QueueCall F A}
    {r : WorkqueueStruct F A × List (WqEvent F A)} (hr : wq.queuerSection i ks threadCreate c = some r) : Notified r.1 := by
  obtain ⟨-, nQ, -, hcases⟩ := wq.queuerSection_cases hr
  rcases hcases with ⟨-, rfl⟩ | ⟨hs, hb, rfl⟩ | ⟨hs, hb, hc, l, rfl, ha, -⟩
  · exact ⟨fun hU => h.awaited (hU.of_set rfl rfl), fun hU => h.threadless (hU.of_set rfl rfl)⟩
  · -- it sleeps because the queue is blocked or full
    refine ⟨fun _ => Or.inl ⟨hs, ?_⟩, fun _ _ _ => hb⟩
    rcases hb with hb | hb
    · exact Or.inl hb
    · exact Or.inr (Or.inl (head_ne_tail_of_full hb))
  · refine ⟨fun _ => Or.inl ⟨hs, Or.inr (Or.inl ?_)⟩, fun hU _ hno => ?_⟩
    · have hlt := occupancy_lt_of_absDiff_lt wq.attr.maxPendingWorks_le hi.occupancy_le hc
      have hpush := occupancy_push wq.attr.maxPendingWorks_le hlt
      intro e
      have hz : occupancy wq.head (wq.tail + 1) = 0 := occupancy_eq_zero_iff.2 e
      omega
    · rcases h.threadless (hU.of_set rfl rfl) hs (fun ht => hno (ht.armed ha hi.free)) with h1 | h1
      · exact absurd (hb.symm.trans h1) nofun
      · omega

/-- A critical section of a call of `wait_all_work_done`. -/
theorem waiterSection (h : Notified wq) {i : Nat} {pc : CallPc} {r : WorkqueueStruct F A × List (WqEvent F A)}
    (hc : wq.WakesCallers (.waiter i)) (hr : wq.waiterSection i pc = some r) : Notified r.1 := by
  -- what is left of a call that returns: the queue stops
  have hleave : wq.CallerAsleep → (wq.countPendingWorks = 0 ∧ wq.nrRunningWorkers = 0) ∨ wq.shouldStop = true →
      wq.shouldStop = true := by
    intro hU hend
    rcases hend with ⟨h1, h2⟩ | h1
    · exact hc hU h1 h2
    · exact h1
  have hrunning : wq.shouldStop = true → wq.CallerAsleep → 2 ≤ wq.workers.countP (fun t => t.pc.isRunning) := by
    intro hs hU
    exact (h.awaited hU).resolve_left (fun h1 => absurd (h1.1.symm.trans hs) nofun)
  rcases wq.waiterSection_cases hr with ⟨-, he, -⟩ | ⟨-, he⟩ <;> rw [he]
  · rcases waitAllRound_cases { wq with queueIsBlocked := true } i with ⟨-, hs, he⟩ | ⟨hend, he⟩ <;> rw [he]
    · exact ⟨fun _ => Or.inl ⟨hs, Or.inl rfl⟩, fun _ _ _ => Or.inl rfl⟩
    · refine ⟨fun hU => Or.inr (hrunning (hleave hU hend) hU), fun hU hs => ?_⟩
      exact absurd (hs.symm.trans (hleave hU hend)) nofun
  · rcases waitAllRound_cases { wq with waitAllIsWaiting := false } i with ⟨-, hs, he⟩ | ⟨hend, he⟩ <;> rw [he]
    · exact ⟨h.awaited, h.threadless⟩
    · refine ⟨fun hU => Or.inr (hrunning (hleave hU hend) hU), fun hU hs => ?_⟩
      exact absurd (hs.symm.trans (hleave hU hend)) nofun

/-- The notification of a worker that is not the last one running leaves no call of `queue_work` asleep. -/
theorem not_asleep_of_notify (hi : Inv wq) (ks : List Nat)
    (hn : wq.nrSleepingQueuers > 1 ∨ wq.callers.countP (fun c => c.pc.isSleeping) = 1) :
    ∀ c ∈ (if wq.nrSleepingQueuers = 1 then signal ks wq.callers
      else if wq.nrSleepingQueuers > 1 then broadcast wq.callers
      else wq.callers), c.pc.asleep = false := by
  refine notify_awake ks (fun c => c.pc.isSleeping) (fun c hc => c.pc.isSleeping_of_asleep hc) hi.queuers ?_
  exact hn.imp_right Nat.le_of_eq

/-- A worker that has got the lock back, before its loop goes on: what is awaited is so without counting it. -/
theorem workerResume (hi : Inv wq) (h : Notified wq) {k : Nat} {ks : List Nat} {t : WorkerThread F A}
    (hk : wq.workers[k]? = some t) (hc : wq.WakesCallers (.worker k ks)) {w : WorkqueueStruct F A}
    (hr : wq.workerResume ks t.pc = some w) : w.CallerAsleep → (w.shouldStop = false ∧ (w.queueIsBlocked = true ∨
      w.head ≠ w.tail ∨ 0 < (w.workers.set k { t with pc := .starting }).countP (fun t => t.pc.isRunning))) ∨
      2 ≤ (w.workers.set k { t with pc := .starting }).countP (fun t => t.pc.isRunning) := by
  have hsame : t.pc.isRunning = false → (wq.workers.set k { t with pc := .starting }).countP (fun t => t.pc.isRunning) =
      wq.workers.countP (fun t => t.pc.isRunning) := fun hp => countP_set_same _ hk hp.symm
  rcases wq.workerResume_cases hr with ⟨hp, rfl⟩ | ⟨hp, rfl⟩ | ⟨hp, rfl⟩
  · intro hU
    simp only [hsame (by rw [hp]; rfl)]
    exact h.awaited hU
  · intro hU
    simp only [hsame (by rw [hp]; rfl)]
    exact h.awaited hU
  · intro hU
    left
    have hfin : wq.workers[k]?.any (fun t => t.pc.isFinishing) = true := by
      rw [hk, Option.any_some, hp]
      rfl
    by_cases hlast : wq.nrRunningWorkers - 1 = 0
    · have hU' : wq.CallerAsleep := hU.of_woken (by
        show Woken wq.callers (if _ then _ else _)
        rw [if_pos hlast]
        exact Woken.refl _)
      have hone : wq.nrRunningWorkers = 1 := by
        rw [← UInt32.sub_add_cancel wq.nrRunningWorkers 1, hlast]
        rfl
      obtain ⟨hs, hb⟩ := (hc hU' hfin).1 hone
      exact ⟨hs, hb.imp_right Or.inl⟩
    · -- it is not the last one, so it notifies every call that sleeps
      have hU' : wq.CallerAsleep := hU.of_woken (by
        show Woken wq.callers (if _ then _ else _)
        rw [if_neg hlast]
        exact signalOrBroadcast_woken _ _ _)
      have hone : wq.nrRunningWorkers ≠ 1 := fun e => hlast (by rw [e]; rfl)
      obtain ⟨c, hcm, hasleep⟩ := hU
      change c ∈ (if _ then _ else _) at hcm
      rw [if_neg hlast] at hcm
      exact absurd ((not_asleep_of_notify hi ks ((hc hU' hfin).2 hone) c hcm).symm.trans hasleep) nofun

/-- A critical section of a worker. -/
theorem workerSection (hi : Inv wq) (h : Notified wq) {k : Nat} {ks : List Nat} {t : WorkerThread F A}
    (hk : wq.workers[k]? = some t) (hc : wq.WakesCallers (.worker k ks)) {r : WorkqueueStruct F A × List (WqEvent F A)}
    (hr : wq.workerSection k ks t.pc = some r) : Notified r.1 := by
  obtain ⟨w, h1, rfl⟩ := Option.map_eq_some_iff.1 hr
  have hkey := workerResume hi h hk hc h1
  obtain ⟨-, hw, -⟩ := workerResume_view h1
  have hk' : w.workers[k]? = some t := hw ▸ hk
  have hlt := (List.getElem?_eq_some_iff.1 hk').1
  have hempty : w.shouldStop = true → w.head = w.tail := by
    rcases wq.workerResume_cases h1 with ⟨-, rfl⟩ | ⟨-, rfl⟩ | ⟨-, rfl⟩ <;> exact hi.stopped
  -- a worker that has not taken a work does not count as running
  have hcount : ∀ pc : WorkerPc F A, pc.isRunning = false → (w.workers.set k { t with pc := pc }).countP
      (fun t => t.pc.isRunning) = (w.workers.set k { t with pc := .starting }).countP (fun t => t.pc.isRunning) := by
    intro pc hp
    have := countP_set_same (x := { t with pc := .starting }) (y := { t with pc := pc }) (fun t => t.pc.isRunning)
      (List.getElem?_set_self hlt) hp
    rwa [List.set_set] at this
  have hend : ∀ (w' : WorkqueueStruct F A) (pc : WorkerPc F A), w'.workers = w.workers.set k { t with pc := pc } →
      pc ≠ .noThread → (w'.CallerAsleep → (w'.shouldStop = false ∧ (w'.queueIsBlocked = true ∨ w'.head ≠ w'.tail ∨
        0 < (w.workers.set k { t with pc := pc }).countP (fun t => t.pc.isRunning))) ∨
        2 ≤ (w.workers.set k { t with pc := pc }).countP (fun t => t.pc.isRunning)) → Notified w' := by
    intro w' pc hw' hpc ha
    refine ⟨hw' ▸ ha, fun _ _ hno => absurd ?_ hno⟩
    rw [hw']
    exact ⟨_, List.mem_of_getElem? (List.getElem?_set_self hlt), hpc⟩
  rcases w.workerLoop_cases k with ⟨-, -, he⟩ | ⟨-, hne, he⟩ | ⟨-, -, he⟩ <;> rw [he]
  · refine hend _ .exited (modify_eq_set _ hk') nofun ?_
    rw [hcount _ rfl]
    exact hkey
  · refine hend _ _ (modify_eq_set _ hk') nofun (fun _ => Or.inl ⟨?_, Or.inr (Or.inr ?_)⟩)
    · rw [← Bool.not_eq_true]
      exact fun hs => hne (hempty hs)
    · exact countP_pos_of_getElem? _ (List.getElem?_set_self hlt) rfl
  · refine hend _ (.sleeping false) (modify_eq_set _ hk') nofun ?_
    rw [hcount _ rfl]
    exact hkey

/-- Every step that observes the condition keeps it. -/
theorem step (hi : Inv wq) (h : Notified wq) {a : Act F A} (hc : wq.WakesCallers a) {ev : List (WqEvent F A)}
    (hs : wq.step a = some (wq', ev)) : Notified wq' := by
  obtain ⟨r, rfl, rfl, hcase⟩ := wq.step_result hs
  cases hcase with
  | queueWork func arg deleter =>
    have hU : ∀ c ∈ wq.callers ++ [⟨⟨func, arg, deleter, wq.callers.length⟩, .entering⟩], c.pc.asleep = true →
        wq.CallerAsleep := by
      intro c hcm hasleep
      rcases List.mem_append.1 hcm with h1 | h1
      · exact ⟨c, h1, hasleep⟩
      · rw [List.mem_singleton.1 h1] at hasleep
        nomatch hasleep
    exact ⟨fun ⟨c, hcm, hasleep⟩ => h.awaited (hU c hcm hasleep), fun ⟨c, hcm, hasleep⟩ => h.threadless (hU c hcm hasleep)⟩
  | queuer _ hr => exact h.queuerSection hi hr
  | waitAll => exact ⟨h.awaited, h.threadless⟩
  | waiter _ hr => exact h.waiterSection hc hr
  | worker hk hr => exact h.workerSection hi hk hc hr
  | @run k t r hk hr =>
    obtain ⟨st, work, pc, hp, he, hpc, -⟩ := wq.workerRun_cases hr
    rw [he]
    have hw := wq.setPc_workers hk pc
    have hcount : (wq.setPc k pc).workers.countP (fun t => t.pc.isRunning) = wq.workers.countP (fun t => t.pc.isRunning) := by
      rw [hw]
      refine countP_set_same _ hk ?_
      rw [hp]
      rcases hpc with rfl | ⟨st', rfl⟩ <;> rfl
    refine ⟨?_, fun _ _ hno => absurd ⟨_, List.mem_of_getElem? (wq.setPc_getElem? hk pc), ?_⟩ hno⟩
    · rw [hcount]
      exact h.awaited
    · rcases hpc with rfl | ⟨st', rfl⟩ <;> nofun
  | destroy ks _ =>
    have hcount := (signalOrBroadcast_woken wq.nrSleepingWorkers ks wq.workers).countP_eq (fun t => t.pc.isRunning)
      (fun t => t.pc.isRunning_wake)
    rw [wq.destroySection_eq]
    refine ⟨fun hU => Or.inr ?_, fun _ hs => nomatch hs⟩
    have htwo := UInt32.lt_iff_toNat_lt.1 (hc hU)
    rw [hi.toNat_nrRunningWorkers] at htwo
    exact hcount ▸ htwo
  | join _ hr =>
    rcases wq.joinRound_cases hr with ⟨-, rfl⟩ | ⟨t, -, -, rfl⟩ <;> exact ⟨h.awaited, h.threadless⟩
  | destroyEnd _ => exact ⟨h.awaited, h.threadless⟩
  | spuriousWorker k =>
    have hw := modify_woken wq.workers k
    have hcount := hw.countP_eq (fun t => t.pc.isRunning) (fun t => t.pc.isRunning_wake)
    refine ⟨?_, fun hU hs hno => h.threadless hU hs (fun ht => hno (ht.woken hw))⟩
    rw [hcount]
    exact h.awaited
  | spuriousQueuer i =>
    exact ⟨fun hU => h.awaited (hU.of_woken (modify_woken _ i)), fun hU => h.threadless (hU.of_woken (modify_woken _ i))⟩
  | spuriousWaiter i => exact ⟨h.awaited, h.threadless⟩

theorem of_run {wq₀ : WorkqueueStruct F A} {log : List (WqEvent F A)} (h0 : Fresh wq₀)
    (h : (machine F A).Run WakesCallers wq₀ wq log) : Notified wq := by
  have hnone : ¬wq₀.CallerAsleep := by
    rintro ⟨c, hc, -⟩
    rw [h0.callers] at hc
    nomatch hc
  refine h.stateInv ⟨fun hU => absurd hU hnone, fun hU => absurd hU hnone⟩ ?_
  intro s log a s' ev hr hn hc hs
  exact hn.step (Inv.of_run h0 hr) hc hs

end Notified

/-- In a run that observes the condition no call of `queue_work` is left asleep with nobody to wake it while it could go on. -/
theorem queue_work_callers_are_woken {attrArg : WorkqueueAttr} {env : AllocEnv} {wq₀ wq : WorkqueueStruct F A}
    {log : List (WqEvent F A)} (h0 : allocWorkqueue attrArg env = some (.ok wq₀))
    (h : (machine F A).Run WakesCallers wq₀ wq log) : ¬wq.Stranded := by
  rintro ⟨⟨c, hc, hasleep, hgo⟩, -, -, hworkers, -⟩
  have hfresh := allocWorkqueue_fresh h0
  have hn := Notified.of_run hfresh h
  have hU : wq.CallerAsleep := ⟨c, hc, hasleep⟩
  have hidle : ¬HasAwake wq.workers := by
    rintro ⟨t, ht, hp⟩
    exact absurd ((hworkers t ht).symm.trans hp) nofun
  have hrunning : wq.workers.countP (fun t => t.pc.isRunning) = 0 := by
    rw [List.countP_eq_zero]
    intro t ht hp
    refine hidle ⟨t, ht, ?_⟩
    cases hpc : t.pc <;> rw [hpc] at hp <;> first | rfl | nomatch hp
  rcases hn.awaited hU with ⟨hs, hb⟩ | h2
  · rcases wq.tryQueueWorkLocked_cases c.work [] 0 with ⟨hstop, -⟩ | ⟨-, -, he⟩ | ⟨-, hblocked, hroom, -⟩
    · exact absurd (hs.symm.trans hstop) nofun
    · rw [he] at hgo
      exact hgo rfl
    · rcases hb with hb | hne | hpos
      · exact absurd (hblocked.symm.trans hb) nofun
      · by_cases ht : HasThread wq.workers
        · exact hidle (Alive.of_run hfresh h hs ht hne)
        · rcases hn.threadless hU hs ht with hb | hfull
          · exact absurd (hblocked.symm.trans hb) nofun
          · omega
      · omega
  · omega

/-- Two workers run while the queue is full and a fifth call sleeps; the first to come back notifies it. -/
theorem queue_work_callers_are_woken_small : ∃ (wq₀ wq : WorkqueueStruct Unit Unit) (log : List (WqEvent Unit Unit)),
    allocWorkqueue ⟨0, 2, 2, 2⟩ AllocEnv.ok = some (.ok wq₀) ∧ (machine Unit Unit).Run WakesCallers wq₀ wq log ∧
    wq.callers.map (fun c => c.pc) = [.returned 0, .returned 0, .returned 0, .returned 0, .sleeping true] ∧ ¬wq.Stranded := by
  have hrun : ∃ wq₀ : WorkqueueStruct Unit Unit, allocWorkqueue ⟨0, 2, 2, 2⟩ AllocEnv.ok = some (.ok wq₀) ∧
      ((machine Unit Unit).execIf WakesCallers wq₀
        [.worker 0 [], .worker 1 [], .queueWork none none none, .queueWork none none none, .queueWork none none none,
          .queueWork none none none, .queueWork none none none, .queuer 0 [0] 0, .worker 0 [], .queuer 1 [1] 0, .worker 1 [],
          .queuer 2 [] 0, .queuer 3 [] 0, .queuer 4 [] 0, .run 0, .run 0, .worker 0 []]).map
        (fun r => r.1.callers.map (fun c => c.pc)) =
          some [.returned 0, .returned 0, .returned 0, .returned 0, .sleeping true] := by
    refine ⟨_, rfl, ?_⟩
    decide
  obtain ⟨wq₀, h0, he⟩ := hrun
  obtain ⟨wq, log, h, hval⟩ := Machine.exists_of_exec
    (fun (wq : WorkqueueStruct Unit Unit) _ => wq.callers.map (fun c => c.pc)) he
  exact ⟨wq₀, wq, log, h0, h, hval, queue_work_callers_are_woken h0 h⟩


end WorkqueueStruct

end GwBot

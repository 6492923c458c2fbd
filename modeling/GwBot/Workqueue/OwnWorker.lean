import GwBot.Workqueue.Slots

/-!
# A worker for each pending work

While the pool is below its limit every pending work should have a worker of its own on the way to it: `arm_worker` notifies a
sleeper, or starts a thread when nobody sleeps. It tells the two apart by `nr_sleeping_workers`, which still has the workers that were
notified and have not run since; so of two works that come in a row the second may notify nobody and start nothing, though a slot is
free (`work_waits_below_limit`). `ArmsAnother` is what a run has to observe so that this does not happen.
-/

namespace GwBot

open Lib

variable {F A : Type}

/-- The worker is neither with a work nor asleep without a notification: it starts, or was notified. -/
def WorkerPc.isReady : WorkerPc F A → Bool
  | .starting | .sleeping true => true
  | _ => false

namespace WorkqueueStruct

variable {wq wq' : WorkqueueStruct F A}

/-! ## The workers by where they stand -/

/-- The workers on their way to the test of their loop. -/
def readyCount (l : List (WorkerThread F A)) : Nat := l.countP (fun t => t.pc.isReady)

/-- The workers asleep without a notification. -/
def asleepCount (l : List (WorkerThread F A)) : Nat := l.countP Sleeper.asleep

/-- The slots without a thread. -/
def unstartedCount (l : List (WorkerThread F A)) : Nat := l.countP (fun t => !t.pc.created)

/-- Each slot has a worker with a work, one on its way, one asleep, or no thread, as long as none has left. -/
theorem length_eq_counts {l : List (WorkerThread F A)} (h : ∀ t ∈ l, t.pc ≠ .exited) :
    l.length = l.countP (fun t => t.pc.isRunning) + readyCount l + asleepCount l + unstartedCount l := by
  induction l with
  | nil => rfl
  | cons t l ih =>
    have hrest := ih (fun x hx => h x (List.mem_cons_of_mem t hx))
    have hone : 1 = (if t.pc.isRunning then 1 else 0) + (if t.pc.isReady then 1 else 0) +
        (if Sleeper.asleep t then 1 else 0) + (if !t.pc.created then 1 else 0) := by
      show 1 = _ + _ + (if t.pc.asleep then 1 else 0) + _
      cases hp : t.pc with
      | sleeping b => cases b <;> rfl
      | exited => exact absurd hp (h t List.mem_cons_self)
      | _ => rfl
    unfold readyCount asleepCount unstartedCount at *
    rw [List.length_cons, List.countP_cons, List.countP_cons, List.countP_cons, List.countP_cons]
    omega

/-- A notification takes a worker from those asleep to those on their way. -/
theorem ready_add_asleep_woken {l l' : List (WorkerThread F A)} (h : Woken l l') :
    readyCount l' + asleepCount l' = readyCount l + asleepCount l := by
  unfold readyCount asleepCount
  induction h with
  | nil => rfl
  | @cons t u _ _ htu _ ih =>
    rw [List.countP_cons, List.countP_cons, List.countP_cons, List.countP_cons]
    rcases htu with rfl | rfl
    · omega
    · have hone : (if (Sleeper.wake t).pc.isReady then 1 else 0) + (if Sleeper.asleep (Sleeper.wake t) then 1 else 0) =
          (if t.pc.isReady then 1 else 0) + (if Sleeper.asleep t then 1 else 0) := by
        show (if t.pc.wake.isReady then 1 else 0) + (if t.pc.wake.asleep then 1 else 0) =
          (if t.pc.isReady then 1 else 0) + (if t.pc.asleep then 1 else 0)
        cases t.pc with
        | sleeping b => cases b <;> rfl
        | _ => rfl
      omega

theorem unstarted_woken {l l' : List (WorkerThread F A)} (h : Woken l l') : unstartedCount l' = unstartedCount l :=
  h.countP_eq _ (fun t => congrArg (!·) t.pc.created_wake)

/-- No slot is without a thread when none is free, if the claimed slots are those with a thread. -/
theorem unstarted_eq_zero_iff (h : ∀ t ∈ wq.workers, t.wq = t.pc.created) :
    unstartedCount wq.workers = 0 ↔ wq.getFreeWorkerSlot = none := by
  unfold unstartedCount getFreeWorkerSlot
  rw [List.countP_eq_zero, List.findIdx?_eq_none_iff]
  refine forall₂_congr (fun t ht => ?_)
  rw [h t ht, Bool.not_eq_true]

/-! ## The law -/

/-- While the queue does not stop, as many workers are on their way as works are pending, or as many as the pool can still give. -/
def OwnWorkers (wq : WorkqueueStruct F A) : Prop :=
  wq.shouldStop = false →
    min wq.pendingWorks.length (wq.attr.maxThreads.toNat - wq.nrRunningWorkers.toNat) ≤ readyCount wq.workers

instance (wq : WorkqueueStruct F A) : Decidable wq.OwnWorkers := inferInstanceAs (Decidable (_ → _))

/-- What a run has to observe: when a work is accepted while some worker is counted as sleeping, though all of those have been notified,
and a slot is free, more workers are on their way than works are pending. -/
def ArmsAnother (wq : WorkqueueStruct F A) : Act F A → Prop
  | .queuer _ _ _ => wq.accepts = true → wq.nrSleepingWorkers ≠ 0 → asleepCount wq.workers = 0 →
      wq.getFreeWorkerSlot = none ∨ wq.pendingWorks.length < readyCount wq.workers
  | _ => True

instance (wq : WorkqueueStruct F A) (a : Act F A) : Decidable (wq.ArmsAnother a) :=
  match a with
  | .queuer _ _ _ => inferInstanceAs (Decidable (_ → _ → _ → _))
  | .queueWork _ _ _ | .waitAll | .waiter _ | .worker _ _ | .run _ | .destroy _ | .join | .destroyEnd | .spuriousWorker _
  | .spuriousQueuer _ | .spuriousWaiter _ => inferInstanceAs (Decidable True)

/-- The law again: the pool cannot give more exactly when nobody is asleep and no slot is without a thread. -/
theorem ownWorkers_iff (hi : Inv wq) : wq.OwnWorkers ↔ (wq.shouldStop = false →
    wq.pendingWorks.length ≤ readyCount wq.workers ∨ (asleepCount wq.workers = 0 ∧ unstartedCount wq.workers = 0)) := by
  unfold OwnWorkers
  refine forall_congr' (fun hs => ?_)
  have hexit : ∀ t ∈ wq.workers, t.pc ≠ .exited := fun t ht hp => absurd (hs.symm.trans (hi.exited t ht hp)) nofun
  have hcounts := length_eq_counts hexit
  rw [hi.length, ← hi.toNat_nrRunningWorkers] at hcounts
  omega

/-! ## The steps -/

theorem pendingWorks_length (wq : WorkqueueStruct F A) : wq.pendingWorks.length = occupancy wq.head wq.tail := window_length _ _ _ _

/-- The law as a property of the pool and of the number of works pending. -/
def Covered (l : List (WorkerThread F A)) (pending : Nat) : Prop :=
  pending ≤ readyCount l ∨ (asleepCount l = 0 ∧ unstartedCount l = 0)

theorem Covered.woken {l l' : List (WorkerThread F A)} {pending : Nat} (h : Covered l pending) (hw : Woken l l') :
    Covered l' pending := by
  have h1 := ready_add_asleep_woken hw
  have h2 : asleepCount l' ≤ asleepCount l := hw.countP_asleep_le
  have h3 := unstarted_woken hw
  unfold Covered at *
  omega

/-- A worker that takes a work needs none for it any more. -/
theorem Covered.take {l : List (WorkerThread F A)} {pending k : Nat} {t : WorkerThread F A} (h : Covered l (pending + 1))
    (hk : l[k]? = some t) (ht : t.pc.created = true) (work : WorkStruct F A) :
    Covered (l.set k { t with pc := .holding .taken work }) pending := by
  have h1 := countP_set (y := { t with pc := .holding .taken work }) (fun t : WorkerThread F A => t.pc.isReady) hk
  have h2 := countP_set (y := { t with pc := .holding .taken work }) Sleeper.asleep hk
  have h3 := countP_set (y := { t with pc := .holding .taken work }) (fun t : WorkerThread F A => !t.pc.created) hk
  have h4 : (WorkerPc.holding .taken work).isReady = false := rfl
  have h5 : Sleeper.asleep ({ t with pc := .holding .taken work } : WorkerThread F A) = false := rfl
  have h6 : (WorkerPc.holding .taken work).created = true := rfl
  simp only [h4, h5, h6, ht, Bool.not_true, Bool.false_eq_true, if_false, Nat.add_zero] at h1 h2 h3
  have h7 : (if t.pc.isReady = true then 1 else 0) ≤ 1 := by split <;> omega
  unfold Covered readyCount asleepCount unstartedCount at *
  omega

/-- A worker that goes on with its work is on its way neither before nor after. -/
theorem Covered.run {l : List (WorkerThread F A)} {pending k : Nat} {t : WorkerThread F A} {pc : WorkerPc F A}
    (h : Covered l pending) (hk : l[k]? = some t) (ht : t.pc.isRunning = true) (hpc : pc.isRunning = true) :
    Covered (l.set k { t with pc := pc }) pending := by
  have hout : ∀ pc : WorkerPc F A, pc.isRunning = true → pc.isReady = false ∧ pc.asleep = false ∧ pc.created = true := by
    intro pc hpc
    cases pc <;> first | exact ⟨rfl, rfl, rfl⟩ | nomatch hpc
  obtain ⟨h1, h2, h3⟩ := hout t.pc ht
  obtain ⟨h4, h5, h6⟩ := hout pc hpc
  unfold Covered readyCount asleepCount unstartedCount at *
  rw [countP_set_same _ hk (h4.trans h1.symm), countP_set_same _ hk (h5.trans h2.symm),
    countP_set_same _ hk (congrArg (!·) (h6.trans h3.symm))]
  exact h

/-- What a work that is accepted needs: when the signal finds nobody asleep, a worker on its way that no other work needs. -/
theorem covered_armWorker_iff (hi : Inv wq) (hclaimed : ∀ t ∈ wq.workers, t.wq = t.pc.created) {pending : Nat}
    (h : Covered wq.workers pending) {ks : List Nat} {threadCreate : Int} {l : List (WorkerThread F A)}
    (harm : ArmWorker wq ks threadCreate l) (hcreate : wq.nrSleepingWorkers = 0 → wq.getFreeWorkerSlot ≠ none → threadCreate = 0) :
    Covered l (pending + 1) ↔ (wq.nrSleepingWorkers ≠ 0 → asleepCount wq.workers = 0 →
      wq.getFreeWorkerSlot = none ∨ pending < readyCount wq.workers) := by
  have hasleep : wq.nrSleepingWorkers = 0 → asleepCount wq.workers = 0 := by
    intro h0
    have hzero := hi.nrSleepingWorkers_eq_zero_iff.1 h0
    rw [List.countP_eq_zero] at hzero
    refine List.countP_eq_zero.2 (fun t ht hta => hzero t ht (t.pc.isSleeping_of_asleep hta))
  cases harm with
  | full h0 hk =>
    refine iff_of_true (Or.inr ⟨hasleep h0, (unstarted_eq_zero_iff hclaimed).2 hk⟩) (fun hne => absurd h0 hne)
  | @spawn k h0 hk =>
    refine iff_of_true ?_ (fun hne => absurd h0 hne)
    obtain ⟨t, ht, htf⟩ := wq.getFreeWorkerSlot_some hk
    rw [if_pos (hcreate h0 (by rw [hk]; nofun))]
    have hpc := hi.free t (List.mem_of_getElem? ht) htf
    have hready := countP_set (y := ⟨true, .starting⟩) (fun t : WorkerThread F A => t.pc.isReady) ht
    have hfree : unstartedCount wq.workers ≠ 0 :=
      fun e => absurd (((unstarted_eq_zero_iff hclaimed).1 e).symm.trans hk) nofun
    have hbefore : (WorkerPc.noThread : WorkerPc F A).isReady = false := rfl
    have hafter : (WorkerPc.starting : WorkerPc F A).isReady = true := rfl
    simp only [hpc, hbefore, hafter, Bool.false_eq_true, if_false, if_true, Nat.add_zero] at hready
    left
    have := h.resolve_right (fun e => hfree e.2)
    unfold readyCount at *
    omega
  | signal hne =>
    have hw := signal_woken ks wq.workers
    by_cases h0 : asleepCount wq.workers = 0
    · -- the signal finds nobody
      rw [hw.eq_of_awake h0, ← unstarted_eq_zero_iff hclaimed]
      unfold Covered
      constructor
      · intro hcov _ _
        omega
      · intro hcond
        have := hcond hne h0
        omega
    · refine iff_of_true ?_ (fun _ e => absurd e h0)
      have hlt := signal_countP_asleep ks (Nat.pos_of_ne_zero h0)
      have hsum := ready_add_asleep_woken hw
      unfold Covered asleepCount at *
      omega

/-- The law of a queue, as it is proved: `ownWorkers_iff` with the pool and the pending works put together. -/
def CoveredQueue (wq : WorkqueueStruct F A) : Prop :=
  wq.shouldStop = false → Covered wq.workers (occupancy wq.head wq.tail)

theorem coveredQueue_iff (hi : Inv wq) : wq.CoveredQueue ↔ wq.OwnWorkers := by
  rw [ownWorkers_iff hi, pendingWorks_length]
  rfl

/-- A critical section of a worker keeps the law: a worker that takes a work is one fewer on its way for one fewer work, and it sleeps only
when nothing is pending. -/
theorem CoveredQueue.workerSection (h : wq.CoveredQueue) {k : Nat} {ks : List Nat} {t : WorkerThread F A}
    (hk : wq.workers[k]? = some t) {r : WorkqueueStruct F A × List (WqEvent F A)} (hr : wq.workerSection k ks t.pc = some r) :
    r.1.CoveredQueue := by
  intro hs
  have hstop : wq.shouldStop = false := (wq.workerSection_kept hr).shouldStop ▸ hs
  obtain ⟨w, h1, rfl⟩ := Option.map_eq_some_iff.1 hr
  have hcreated : t.pc.created = true := by
    rcases wq.workerResume_cases h1 with ⟨hp, -⟩ | ⟨hp, -⟩ | ⟨hp, -⟩ <;> rw [hp] <;> rfl
  have hw : w.workers = wq.workers ∧ w.head = wq.head ∧ w.tail = wq.tail ∧ w.shouldStop = wq.shouldStop := by
    rcases wq.workerResume_cases h1 with ⟨-, rfl⟩ | ⟨-, rfl⟩ | ⟨-, rfl⟩ <;> exact ⟨rfl, rfl, rfl, rfl⟩
  obtain ⟨hworkers, hhead, htail, hstop'⟩ := hw
  have hk' : w.workers[k]? = some t := hworkers ▸ hk
  have hcov : Covered w.workers (occupancy w.head w.tail) := by
    rw [hworkers, hhead, htail]
    exact h hstop
  rcases w.workerLoop_cases k with ⟨hexit, -⟩ | ⟨-, hne, he⟩ | ⟨-, hempty, he⟩
  · exact absurd ((hstop'.trans hstop).symm.trans hexit) nofun
  · rw [he]
    rw [occupancy_pop hne] at hcov
    have htable := hcov.take hk' hcreated (w.workList (slotOf w.attr.mask w.head))
    rw [← w.setPc_workers hk'] at htable
    exact htable
  · rw [he]
    left
    show occupancy w.head w.tail ≤ _
    rw [hempty, occupancy_self]
    exact Nat.zero_le _

/-- What a step of a run in which every `thread_create` succeeds needs, to keep the law. -/
theorem CoveredQueue.step_iff (hi : Inv wq) (hclaimed : ∀ t ∈ wq.workers, t.wq = t.pc.created) (h : wq.CoveredQueue) {a : Act F A}
    (hc : wq.SpawnSucceeds a) {ev : List (WqEvent F A)} (hs : wq.step a = some (wq', ev)) :
    wq'.CoveredQueue ↔ wq.ArmsAnother a := by
  obtain ⟨r, rfl, rfl, hcase⟩ := wq.step_result hs
  cases hcase with
  | @queuer i ks threadCreate c r _ hr =>
    have hstop := (wq.queuerSection_kept hr).shouldStop
    rcases wq.queuerSection_workers hr with ⟨hacc, hw, hhead, htail⟩ | ⟨hacc, hhead, htail, harm⟩
    · refine iff_of_true ?_ (fun hacc' => absurd (hacc.symm.trans hacc') (by simp))
      unfold CoveredQueue
      rw [hw, hhead, htail, hstop]
      exact h
    · obtain ⟨hrunning, -, hroom⟩ := wq.accepts_iff.1 hacc
      have hfree := occupancy_lt_of_absDiff_lt wq.attr.maxPendingWorks_le hi.occupancy_le hroom
      have hcreate : wq.nrSleepingWorkers = 0 → wq.getFreeWorkerSlot ≠ none → threadCreate = 0 := by
        intro h0 hslot
        exact hc (by simp [spawns, hacc, h0, Option.isSome_iff_ne_none, hslot])
      have hiff := covered_armWorker_iff hi hclaimed (h hrunning) harm hcreate
      unfold CoveredQueue
      rw [hhead, htail, occupancy_push wq.attr.maxPendingWorks_le hfree, hstop, hiff, ← pendingWorks_length]
      exact ⟨fun hcov _ => hcov hrunning, fun hcov _ => hcov hacc⟩
  | waiter _ hr =>
    refine iff_of_true ?_ trivial
    obtain ⟨blocked, waiting, waiters, he, -⟩ := wq.waiterSection_frame hr
    rw [he]
    exact h
  | worker hk hr => exact iff_of_true (h.workerSection hk hr) trivial
  | run hk hr =>
    refine iff_of_true ?_ trivial
    obtain ⟨st, work, pc, hp, he, hpc, -⟩ := wq.workerRun_cases hr
    intro hs'
    rw [he] at hs' ⊢
    rw [wq.setPc_workers hk]
    refine (h hs').run hk (by rw [hp]; rfl) ?_
    rcases hpc with rfl | ⟨st', rfl⟩ <;> rfl
  | destroy ks _ =>
    refine iff_of_true (fun hs' => ?_) trivial
    rw [wq.destroySection_eq] at hs'
    cases hs'
  | join _ hr =>
    refine iff_of_true ?_ trivial
    rcases wq.joinRound_cases hr with ⟨-, rfl⟩ | ⟨t, -, -, rfl⟩ <;> exact h
  | spuriousWorker k => exact iff_of_true (fun hs' => (h hs').woken (modify_woken _ k)) trivial
  | _ => exact iff_of_true h trivial

/-- What the runs of the law observe: `thread_create` succeeds, and a work is accepted only when it gets another worker. -/
def ArmsWorkers (wq : WorkqueueStruct F A) (a : Act F A) : Prop := wq.SpawnSucceeds a ∧ wq.ArmsAnother a

instance (wq : WorkqueueStruct F A) (a : Act F A) : Decidable (wq.ArmsWorkers a) := inferInstanceAs (Decidable (_ ∧ _))

theorem CoveredQueue.of_run {wq₀ : WorkqueueStruct F A} {log : List (WqEvent F A)} (h0 : Fresh wq₀)
    (h : (machine F A).Run ArmsWorkers wq₀ wq log) : wq.CoveredQueue := by
  refine h.stateInv ?_ ?_
  · intro _
    left
    rw [h0.head, h0.tail, occupancy_self]
    exact Nat.zero_le _
  · intro s log a s' ev hr hcov hc hs
    have hclaimed := (SlotsMatch.of_run h0 (hr.mono (fun _ _ hc => hc.1))).claimed
    exact (hcov.step_iff (Inv.of_run h0 hr) hclaimed hc.1 hs).2 hc.2

/-- In a run in which `thread_create` succeeds and no work is accepted for which `arm_worker` neither notifies nor starts a worker, every
pending work has one on its way to it while the pool is below its limit; and the first work that is so accepted has none. -/
theorem pending_work_has_own_worker {attrArg : WorkqueueAttr} {env : AllocEnv} {wq₀ wq : WorkqueueStruct F A}
    {log : List (WqEvent F A)} (h0 : allocWorkqueue attrArg env = some (.ok wq₀))
    (h : (machine F A).Run ArmsWorkers wq₀ wq log) :
    wq.OwnWorkers ∧
    ∀ a wq' ev, wq.SpawnSucceeds a → wq.step a = some (wq', ev) → (wq'.OwnWorkers ↔ wq.ArmsAnother a) := by
  have hfresh := allocWorkqueue_fresh h0
  have hi := Inv.of_run hfresh h
  have hcov := CoveredQueue.of_run hfresh h
  refine ⟨(coveredQueue_iff hi).1 hcov, fun a wq' ev hc hs => ?_⟩
  have hclaimed := (SlotsMatch.of_run hfresh (h.mono (fun _ _ hc => hc.1))).claimed
  rw [← coveredQueue_iff (hi.step hs)]
  exact hcov.step_iff hi hclaimed hc hs

/-- The sleeping worker is back before the second work comes, and a thread is started for that. -/
theorem pending_work_has_own_worker_small : ∃ (wq₀ wq : WorkqueueStruct Unit Unit) (log : List (WqEvent Unit Unit)),
    allocWorkqueue ⟨1, 2, 1, 2⟩ AllocEnv.ok = some (.ok wq₀) ∧ (machine Unit Unit).Run ArmsWorkers wq₀ wq log ∧
    wq.pendingWorks.length = 1 ∧ wq.nrRunningWorkers = 1 ∧ wq.OwnWorkers := by
  have hrun : ∃ wq₀ : WorkqueueStruct Unit Unit, allocWorkqueue ⟨1, 2, 1, 2⟩ AllocEnv.ok = some (.ok wq₀) ∧
      ((machine Unit Unit).execIf ArmsWorkers wq₀
        [.worker 0 [], .queueWork none none none, .queueWork none none none, .queuer 0 [] 0, .worker 0 [], .queuer 1 [] 0]).map
        (fun r => (r.1.pendingWorks.length, r.1.nrRunningWorkers)) = some (1, 1) := by
    refine ⟨_, rfl, ?_⟩
    decide
  obtain ⟨wq₀, h0, he⟩ := hrun
  obtain ⟨wq, log, h, hval⟩ := Machine.exists_of_exec
    (fun (wq : WorkqueueStruct Unit Unit) _ => (wq.pendingWorks.length, wq.nrRunningWorkers)) he
  obtain ⟨hp, hr⟩ := Prod.mk.inj hval
  exact ⟨wq₀, wq, log, h0, h, hp, hr, (pending_work_has_own_worker h0 h).1⟩

/-- Two works come before the worker that the first one notified has run. It takes the first and the second waits behind it, in a pool
of two of which one slot is free. -/
theorem work_waits_below_limit : ∃ (wq₀ wq : WorkqueueStruct Unit Unit) (log : List (WqEvent Unit Unit)),
    allocWorkqueue ⟨1, 2, 1, 2⟩ AllocEnv.ok = some (.ok wq₀) ∧ (machine Unit Unit).Run SpawnSucceeds wq₀ wq log ∧
    wq.shouldStop = false ∧ wq.pendingWorks.length = 1 ∧ wq.nrRunningWorkers = 1 ∧ wq.attr.maxThreads = 2 ∧
    readyCount wq.workers = 0 ∧ ¬wq.OwnWorkers := by
  have hrun : ∃ wq₀ : WorkqueueStruct Unit Unit, allocWorkqueue ⟨1, 2, 1, 2⟩ AllocEnv.ok = some (.ok wq₀) ∧
      ((machine Unit Unit).execIf SpawnSucceeds wq₀
        [.worker 0 [], .queueWork none none none, .queueWork none none none, .queuer 0 [] 0, .queuer 1 [] 0, .worker 0 []]).map
        (fun r => (r.1.shouldStop, r.1.pendingWorks.length, r.1.nrRunningWorkers, r.1.attr.maxThreads, readyCount r.1.workers)) =
          some (false, 1, 1, 2, 0) := by
    refine ⟨_, rfl, ?_⟩
    decide
  obtain ⟨wq₀, h0, he⟩ := hrun
  obtain ⟨wq, log, h, hval⟩ := Machine.exists_of_exec
    (fun (wq : WorkqueueStruct Unit Unit) _ => (wq.shouldStop, wq.pendingWorks.length, wq.nrRunningWorkers, wq.attr.maxThreads,
      readyCount wq.workers)) he
  simp only [Prod.mk.injEq] at hval
  obtain ⟨hs, hp, hr, hmax, hready⟩ := hval
  refine ⟨wq₀, wq, log, h0, h, hs, hp, hr, hmax, hready, fun hown => ?_⟩
  have := hown hs
  rw [hp, hr, hmax, hready] at this
  exact absurd this (by decide)

end WorkqueueStruct

end GwBot

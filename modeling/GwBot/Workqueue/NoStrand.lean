import GwBot.Workqueue.ExactlyOnce

/-!
# Pending work is never stranded

`arm_worker` signals when `nr_sleeping_workers` is not zero, and that counter still has the workers that were notified and have not
run since. So the signal may find nobody; but then one of those workers is on its way, and it looks at the queue before it sleeps.
When the counter is zero no thread sleeps at all, so a thread that was ever created is awake, whether or not the spawn succeeds.
-/

namespace GwBot

open Lib

variable {F A : Type}

/-- The worker will come to the test of its loop: it is starting, notified, or with a work. -/
def WorkerPc.isAwake : WorkerPc F A → Bool
  | .starting | .sleeping true | .holding _ _ | .finishing => true
  | _ => false

theorem WorkerPc.isAwake_wake {pc : WorkerPc F A} (h : pc.isAwake = true) : pc.wake.isAwake = true := by
  cases pc with
  | noThread => nomatch h
  | sleeping b => rfl
  | exited => nomatch h
  | _ => rfl

theorem WorkerPc.isAwake_of_asleep {pc : WorkerPc F A} (h : pc.asleep = true) : pc.wake.isAwake = true := by
  cases pc with
  | sleeping b => rfl
  | _ => nomatch h

/-- A thread that was created, has not exited and is not counted as sleeping is awake. -/
theorem WorkerPc.isAwake_of_not_sleeping {pc : WorkerPc F A} (h1 : pc ≠ .noThread) (h2 : pc ≠ .exited)
    (h3 : pc.isSleeping = false) : pc.isAwake = true := by
  cases pc with
  | noThread => exact absurd rfl h1
  | sleeping b => nomatch h3
  | exited => exact absurd rfl h2
  | _ => rfl

namespace WorkqueueStruct

variable {wq wq' : WorkqueueStruct F A}

/-- There is a worker thread. -/
def HasThread (l : List (WorkerThread F A)) : Prop := ∃ t ∈ l, t.pc ≠ .noThread

/-- A worker is awake. -/
def HasAwake (l : List (WorkerThread F A)) : Prop := ∃ t ∈ l, t.pc.isAwake = true

/-- While the queue does not stop, and once it has a thread, one is awake when a work is pending. -/
def Alive (wq : WorkqueueStruct F A) : Prop :=
  wq.shouldStop = false → HasThread wq.workers → wq.head ≠ wq.tail → HasAwake wq.workers

theorem HasThread.woken {l l' : List (WorkerThread F A)} (h : HasThread l) (hw : Woken l l') : HasThread l' :=
  hw.exists_mem (fun _ hp e => hp ((WorkerPc.wake_eq_iff (by simp)).1 e)) h

theorem HasThread.of_woken {l l' : List (WorkerThread F A)} (h : HasThread l') (hw : Woken l l') : HasThread l :=
  hw.exists_mem_of (fun t hp e => hp (by rw [WorkerThread.wake_pc, e]; rfl)) h

theorem HasAwake.woken {l l' : List (WorkerThread F A)} (h : HasAwake l) (hw : Woken l l') : HasAwake l' :=
  hw.exists_mem (fun _ => WorkerPc.isAwake_wake) h

/-- A slot that is claimed was without a thread, so the threads stay as they were. -/
theorem mem_set_of_ne {l : List (WorkerThread F A)} {k : Nat} {t t' x : WorkerThread F A} (hk : l[k]? = some t)
    (ht : t.pc = .noThread) (hx : x ∈ l) (hp : x.pc ≠ .noThread) : x ∈ l.set k t' := by
  obtain ⟨j, hj⟩ := List.mem_iff_getElem?.1 hx
  refine List.mem_iff_getElem?.2 ⟨j, ?_⟩
  have hne : k ≠ j := by
    rintro rfl
    cases hk.symm.trans hj
    exact hp ht
  rw [List.getElem?_set_ne hne]
  exact hj

/-- A thread that was there before `arm_worker` is there after it, or is the one that it started. -/
theorem HasThread.armed {ks : List Nat} {l l' : List (WorkerThread F A)} (h : HasThread l) (ha : Armed ks l l')
    (hfree : ∀ t ∈ l, t.wq = false → t.pc = .noThread) : HasThread l' := by
  cases ha with
  | same => exact h
  | spawn pc hk hwq _ =>
    obtain ⟨t, ht, hp⟩ := h
    exact ⟨t, mem_set_of_ne hk (hfree _ (List.mem_of_getElem? hk) hwq) ht hp, hp⟩
  | signal => exact h.woken (signal_woken _ _)

/-- A thread that is there after `arm_worker` was there before it, or has just been started. -/
theorem HasThread.of_armed {ks : List Nat} {l l' : List (WorkerThread F A)} (h : HasThread l') (ha : Armed ks l l') :
    HasThread l ∨ HasAwake l' := by
  obtain ⟨t, ht, hp⟩ := h
  cases ha with
  | same => exact Or.inl ⟨t, ht, hp⟩
  | spawn pc _ _ hpc =>
    rcases List.mem_or_eq_of_mem_set ht with h1 | rfl
    · exact Or.inl ⟨t, h1, hp⟩
    · exact Or.inr ⟨_, ht, by rw [hpc.resolve_right hp]; rfl⟩
  | signal =>
    exact Or.inl (HasThread.of_woken ⟨t, ht, hp⟩ (signal_woken ks l))

/-- After a work has been accepted a worker is awake. -/
theorem hasAwake_accepted (h : Inv wq) (hs : wq.shouldStop = false) (ht : HasThread wq.workers) {ks : List Nat}
    {l : List (WorkerThread F A)} (ha : Armed ks wq.workers l) (hsig : wq.nrSleepingWorkers ≠ 0 → l = signal ks wq.workers) :
    HasAwake l := by
  by_cases h0 : wq.nrSleepingWorkers = 0
  · -- nobody sleeps, so the thread there is, is awake, and no spawn takes its slot
    obtain ⟨t, htm, htp⟩ := ht
    have hexit : t.pc ≠ .exited := fun e => absurd (hs.symm.trans (h.exited t htm e)) nofun
    have hsleep : t.pc.isSleeping = false := by
      have := List.countP_eq_zero.1 (h.nrSleepingWorkers_eq_zero_iff.1 h0) t htm
      exact Bool.not_eq_true _ ▸ this
    have hawake := WorkerPc.isAwake_of_not_sleeping htp hexit hsleep
    cases ha with
    | same => exact ⟨t, htm, hawake⟩
    | spawn pc hk hwq _ => exact ⟨t, mem_set_of_ne hk (h.free _ (List.mem_of_getElem? hk) hwq) htm htp, hawake⟩
    | signal => exact HasAwake.woken ⟨t, htm, hawake⟩ (signal_woken _ _)
  · rw [hsig h0]
    by_cases hasleep : ∃ t ∈ wq.workers, Sleeper.asleep t = true
    · obtain ⟨k, t, -, hat, hk⟩ := signal_wakes ks hasleep
      exact ⟨_, List.mem_of_getElem? hk, WorkerPc.isAwake_of_asleep hat⟩
    · -- the sleepers that are counted have all been notified already
      have hpos : 0 < wq.workers.countP (·.pc.isSleeping) :=
        Nat.pos_of_ne_zero (fun e => h0 (h.nrSleepingWorkers_eq_zero_iff.2 e))
      obtain ⟨t, htm, htp⟩ := List.countP_pos_iff.1 hpos
      refine HasAwake.woken ⟨t, htm, ?_⟩ (signal_woken _ _)
      cases hp : t.pc with
      | sleeping b =>
        cases b with
        | true => rfl
        | false => exact absurd ⟨t, htm, by show t.pc.asleep = true; rw [hp]; rfl⟩ hasleep
      | _ =>
        rw [hp] at htp
        nomatch htp

/-- A worker that moves keeps the queue alive when it is awake after it or nothing is pending. -/
theorem alive_of_move {k : Nat} {t : WorkerThread F A} {pc : WorkerPc F A} (hk : wq.workers[k]? = some t)
    (hstop : wq'.shouldStop = wq.shouldStop) (hw : wq'.workers = wq.workers.set k { t with pc := pc })
    (hawake : wq'.head ≠ wq'.tail → wq.shouldStop = false → pc.isAwake = true) : Alive wq' := by
  intro hs _ hne
  refine ⟨{ t with pc := pc }, ?_, hawake hne (hstop ▸ hs)⟩
  rw [hw]
  exact List.mem_of_getElem? (List.getElem?_set_self (List.getElem?_eq_some_iff.1 hk).1)

theorem Alive.woken (h : Alive wq) (hstop : wq'.shouldStop = wq.shouldStop) (hw : Woken wq.workers wq'.workers)
    (hhead : wq'.head = wq.head) (htail : wq'.tail = wq.tail) : Alive wq' := by
  intro hs ht hne
  exact (h (hstop ▸ hs) (ht.of_woken hw) (by rwa [← hhead, ← htail])).woken hw

/-- A critical section of a worker keeps the queue alive: it sleeps only when nothing is pending and exits only when the queue
stops. -/
theorem alive_workerSection {k : Nat} {ks : List Nat} {t : WorkerThread F A} (hk : wq.workers[k]? = some t)
    {r : WorkqueueStruct F A × List (WqEvent F A)} (hr : wq.workerSection k ks t.pc = some r) : Alive r.1 := by
  obtain ⟨w, h1, rfl⟩ := Option.map_eq_some_iff.1 hr
  have hkept := wq.workerSection_kept hr
  obtain ⟨-, hw, -⟩ := workerResume_view h1
  have hk' : w.workers[k]? = some t := hw ▸ hk
  rcases w.workerLoop_cases k with ⟨hstop, -, he⟩ | ⟨-, -, he⟩ | ⟨-, ht, he⟩
  · intro hs
    rw [he] at hs
    exact absurd (hs.symm.trans hstop) nofun
  · rw [he]
    exact alive_of_move hk' rfl (modify_eq_set _ hk') (fun _ _ => rfl)
  · rw [he]
    exact alive_of_move hk' rfl (modify_eq_set _ hk') (fun hne _ => absurd ht hne)

/-- Every step keeps the queue alive. -/
theorem Alive.step (hi : Inv wq) (h : Alive wq) {a : Act F A} {ev : List (WqEvent F A)}
    (hs : wq.step a = some (wq', ev)) : Alive wq' := by
  obtain ⟨r, rfl, rfl, hc⟩ := wq.step_result hs
  cases hc with
  | queueWork func arg deleter => exact h
  | queuer _ hr =>
    obtain ⟨-, nQ, -, hcases⟩ := wq.queuerSection_cases hr
    rcases hcases with ⟨-, rfl⟩ | ⟨-, -, rfl⟩ | ⟨hstop, -, -, l, rfl, ha, hsig⟩
    · exact h
    · exact h
    · intro _ ht _
      rcases ht.of_armed ha with ht | hawake
      · exact hasAwake_accepted hi hstop ht ha hsig
      · exact hawake
  | waitAll => exact h
  | waiter _ hr =>
    obtain ⟨blocked, waiting, waiters, he, -⟩ := wq.waiterSection_frame hr
    rw [he]
    exact h
  | worker hk hr => exact alive_workerSection hk hr
  | run hk hr =>
    obtain ⟨st, work, pc, hp, he, hpc, -⟩ := wq.workerRun_cases hr
    rw [he]
    refine alive_of_move hk rfl (wq.setPc_workers hk pc) ?_
    rcases hpc with rfl | ⟨st', rfl⟩ <;> exact fun _ _ => rfl
  | destroy ks _ =>
    intro hs
    rw [wq.destroySection_eq] at hs
    nomatch hs
  | join _ hr =>
    rcases wq.joinRound_cases hr with ⟨-, rfl⟩ | ⟨t, -, -, rfl⟩ <;> exact h
  | destroyEnd _ => exact h
  | spuriousWorker k => exact h.woken rfl (modify_woken _ k) rfl rfl
  | spuriousQueuer i => exact h
  | spuriousWaiter i => exact h

theorem Alive.of_run {C : WorkqueueStruct F A → Act F A → Prop} {wq₀ : WorkqueueStruct F A} {log : List (WqEvent F A)}
    (h0 : Fresh wq₀) (h : (machine F A).Run C wq₀ wq log) : Alive wq := by
  refine h.stateInv ?_ (fun _ _ _ _ _ hr ha _ hs => ha.step (Inv.of_run h0 hr) hs)
  intro _ _ hne
  exact absurd (h0.head.trans h0.tail.symm) hne

/-- A queue never loses its last thread. -/
theorem HasThread.step (hi : Inv wq) (h : HasThread wq.workers) {a : Act F A} {ev : List (WqEvent F A)}
    (hs : wq.step a = some (wq', ev)) : HasThread wq'.workers := by
  cases step_workers hs with
  | woken hw => exact h.woken hw
  | armed _ ha => exact h.armed ha hi.free
  | move pc hk _ hne he =>
    rw [he]
    exact ⟨_, List.mem_of_getElem? (List.getElem?_set_self (List.getElem?_eq_some_iff.1 hk).1), hne⟩

theorem HasThread.of_run {C : WorkqueueStruct F A → Act F A → Prop} {wq₀ : WorkqueueStruct F A} {log : List (WqEvent F A)}
    (h0 : Fresh wq₀) (hn : 0 < wq₀.attr.nrThreadToCreate.toNat) (h : (machine F A).Run C wq₀ wq log) :
    HasThread wq.workers := by
  refine h.stateInv (I := fun wq => HasThread wq.workers) ?_ (fun _ _ _ _ _ hr ht _ hs => ht.step (Inv.of_run h0 hr) hs)
  refine ⟨⟨true, .starting⟩, ?_, nofun⟩
  rw [h0.workers]
  exact List.mem_append_left _ (List.mem_replicate.2 ⟨Nat.pos_iff_ne_zero.1 hn, rfl⟩)

/-- In a workqueue that `alloc_workqueue` gave at least one worker, whatever becomes of the spawns that follow: while it does not stop
and a work is pending, a worker is not asleep without a notification. -/
theorem pending_work_not_stranded {attrArg : WorkqueueAttr} {env : AllocEnv} {wq₀ wq : WorkqueueStruct F A}
    {log : List (WqEvent F A)} (h0 : allocWorkqueue attrArg env = some (.ok wq₀))
    (hn : 1 ≤ wq₀.attr.minThreads.toNat ∨ wq₀.attr.flags &&& WQ_F_LAZY_THREAD_CREATION = 0)
    (h : (machine F A).Reach wq₀ wq log) (hs : wq.shouldStop = false) (hne : wq.head ≠ wq.tail) :
    ∃ t ∈ wq.workers, t.pc.isAwake = true := by
  have hpos : 0 < wq₀.attr.nrThreadToCreate.toNat := by
    unfold AcceptedAttr.nrThreadToCreate
    split
    · rename_i hlazy
      exact hn.resolve_right hlazy
    · exact wq₀.attr.maxThreads_pos
  have hfresh := allocWorkqueue_fresh h0
  exact Alive.of_run hfresh h hs (HasThread.of_run hfresh hpos h) hne

/-- The only worker has been notified and has not run since when a second work comes, and no thread can be created. -/
theorem pending_work_not_stranded_small : ∃ (wq₀ wq : WorkqueueStruct Unit Unit) (log : List (WqEvent Unit Unit)),
    allocWorkqueue ⟨1, 2, 1, 2⟩ AllocEnv.ok = some (.ok wq₀) ∧ (machine Unit Unit).Reach wq₀ wq log ∧
    wq.nrSleepingWorkers = 1 ∧ wq.workers.map (·.pc.asleep) = [false, false] ∧ ∃ t ∈ wq.workers, t.pc.isAwake = true := by
  have hrun : ∃ wq₀ : WorkqueueStruct Unit Unit, allocWorkqueue ⟨1, 2, 1, 2⟩ AllocEnv.ok = some (.ok wq₀) ∧
      (1 ≤ wq₀.attr.minThreads.toNat ∧ ((machine Unit Unit).exec wq₀
        [.worker 0 [], .queueWork none none none, .queueWork none none none, .queuer 0 [] (-EAGAIN),
          .queuer 1 [] (-EAGAIN)]).map (fun r => (r.1.nrSleepingWorkers, r.1.workers.map (·.pc.asleep), r.1.shouldStop,
            decide (r.1.head ≠ r.1.tail))) = some (1, [false, false], false, true)) := by
    refine ⟨_, rfl, ?_⟩
    decide
  obtain ⟨wq₀, h0, hmin, he⟩ := hrun
  obtain ⟨wq, log, h, hval⟩ := Machine.exists_of_exec
    (fun (wq : WorkqueueStruct Unit Unit) _ => (wq.nrSleepingWorkers, wq.workers.map (·.pc.asleep), wq.shouldStop,
      decide (wq.head ≠ wq.tail))) he
  simp only [Prod.mk.injEq, decide_eq_true_eq] at hval
  exact ⟨wq₀, wq, log, h0, h, hval.1, hval.2.1,
    pending_work_not_stranded h0 (Or.inl hmin) h hval.2.2.1 hval.2.2.2⟩

end WorkqueueStruct

end GwBot

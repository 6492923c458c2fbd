import GwBot.Workqueue.Jobs

/-!
# What `wait_all_work_done` waits for

A call of `wait_all_work_done` leaves its loop when no work is pending and no worker is running, or when the queue stops. While the
queue does not stop nothing is dropped, so every work accepted by then has been run to its end (`wait_all_work_done_waits`). All the
calls share one flag, and each clears it as it wakes up; but a call that wakes up either sets it again or finds that nobody has to
sleep any more, so the flag is set whenever a call is asleep with no notification pending (`WaitersAwaitWork`).
-/

namespace GwBot

open Lib

variable {F A : Type}

namespace WorkqueueStruct

variable {wq wq' : WorkqueueStruct F A}

/-! ## No lost wake-up -/

/-- Whenever a call of `wait_all_work_done` is asleep with no notification pending, the flag that makes a worker notify it is set, the
queue does not stop, and a work is pending or running. -/
def WaitersAwaitWork (wq : WorkqueueStruct F A) : Prop :=
  ∀ pc ∈ wq.waiters, pc.asleep = true →
    wq.waitAllIsWaiting = true ∧ wq.shouldStop = false ∧ (wq.head ≠ wq.tail ∨ wq.nrRunningWorkers ≠ 0)

/-- When nobody is asleep there is nothing to show. -/
theorem WaitersAwaitWork.of_awake (h : ∀ pc ∈ wq.waiters, pc.asleep = false) : WaitersAwaitWork wq := by
  intro pc hpc hasleep
  rw [h pc hpc] at hasleep
  nomatch hasleep

namespace WaitersAwaitWork

/-- When the queue stops, or nothing is pending or running, no call is asleep. -/
theorem awake (h : WaitersAwaitWork wq) (hend : (wq.head = wq.tail ∧ wq.nrRunningWorkers = 0) ∨ wq.shouldStop = true) :
    ∀ pc ∈ wq.waiters, pc.asleep = false := by
  intro pc hpc
  rw [← Bool.not_eq_true]
  intro hasleep
  obtain ⟨-, hs, hwork⟩ := h pc hpc hasleep
  rcases hend with ⟨h1, h2⟩ | hstop
  · exact hwork.elim (fun hne => hne h1) (fun hne => hne h2)
  · exact absurd (hs.symm.trans hstop) nofun

/-- An accepted work is pending. -/
theorem accepted (hi : Inv wq) (h : WaitersAwaitWork wq) (hc : wq.countPendingWorks < wq.attr.maxPendingWorks.toNat) :
    ∀ pc ∈ wq.waiters, pc.asleep = true →
      wq.waitAllIsWaiting = true ∧ wq.shouldStop = false ∧ (wq.head ≠ wq.tail + 1 ∨ wq.nrRunningWorkers ≠ 0) := by
  intro pc hpc hasleep
  obtain ⟨hflag, hs, -⟩ := h pc hpc hasleep
  refine ⟨hflag, hs, Or.inl (fun e => ?_)⟩
  have hlt := occupancy_lt_of_absDiff_lt wq.attr.maxPendingWorks_le hi.occupancy_le hc
  have hpush := occupancy_push wq.attr.maxPendingWorks_le hlt
  have hzero := occupancy_eq_zero_iff.2 e
  omega

/-- A round of a call: it goes to sleep with the flag set, or finds that no call has to sleep. -/
theorem waitAllRound (h : ∀ pc ∈ wq.waiters, pc.asleep = true →
      wq.shouldStop = false ∧ (wq.head ≠ wq.tail ∨ wq.nrRunningWorkers ≠ 0)) (i : Nat) :
    WaitersAwaitWork (wq.waitAllRound i).1 := by
  rcases wq.waitAllRound_cases i with ⟨hwork, hs, he⟩ | ⟨hend, he⟩ <;> rw [he]
  · intro pc _ _
    refine ⟨rfl, hs, hwork.imp_left (fun hpos e => ?_)⟩
    have hzero : wq.countPendingWorks = 0 := absDiff_eq_zero_iff.2 e
    omega
  · refine of_awake (fun pc hpc => ?_)
    rcases List.mem_or_eq_of_mem_set hpc with hpc | rfl
    · rw [← Bool.not_eq_true]
      intro hasleep
      obtain ⟨hs, hwork⟩ := h pc hpc hasleep
      rcases hend with ⟨h1, h2⟩ | hstop
      · exact hwork.elim (fun hne => hne (absDiff_eq_zero_iff.1 h1)) (fun hne => hne h2)
      · exact absurd (hs.symm.trans hstop) nofun
    · rfl

/-- A critical section of a call of `wait_all_work_done`. -/
theorem waiterSection (h : WaitersAwaitWork wq) {i : Nat} {pc : CallPc} {r : WorkqueueStruct F A × List (WqEvent F A)}
    (hr : wq.waiterSection i pc = some r) : WaitersAwaitWork r.1 := by
  rcases wq.waiterSection_cases hr with ⟨-, he, -⟩ | ⟨-, he⟩ <;> rw [he]
  · refine waitAllRound (fun pc hpc hasleep => ?_) i
    exact (h pc hpc hasleep).2
  · refine waitAllRound (fun pc hpc hasleep => ?_) i
    exact (h pc hpc hasleep).2

/-- A critical section of a worker: the last one to find nothing pending notifies every call. -/
theorem workerSection (h : WaitersAwaitWork wq) {k : Nat} {ks : List Nat} {t : WorkerThread F A} (hk : wq.workers[k]? = some t)
    {r : WorkqueueStruct F A × List (WqEvent F A)} (hr : wq.workerSection k ks t.pc = some r) (hi : Inv r.1) :
    WaitersAwaitWork r.1 := by
  obtain ⟨w, h1, rfl⟩ := Option.map_eq_some_iff.1 hr
  have hw : ∀ pc ∈ w.waiters, pc.asleep = true → w.waitAllIsWaiting = true ∧ w.shouldStop = false := by
    intro pc hpc hasleep
    rcases wq.workerResume_cases h1 with ⟨-, rfl⟩ | ⟨-, rfl⟩ | ⟨-, rfl⟩ <;>
      exact ⟨(h pc hpc hasleep).1, (h pc hpc hasleep).2.1⟩
  obtain ⟨-, hworkers, -⟩ := workerResume_view h1
  have hk' : w.workers[k]? = some t := hworkers ▸ hk
  rcases w.workerLoop_cases k with ⟨hstop, -, he⟩ | ⟨-, -, he⟩ | ⟨-, -, he⟩
  · rw [he]
    intro pc hpc hasleep
    exact absurd ((hw pc hpc hasleep).2.symm.trans hstop) nofun
  · have hrunning : (w.workerLoop k).1.nrRunningWorkers ≠ 0 := by
      rw [Ne, hi.nrRunningWorkers_eq_zero_iff, he]
      exact Nat.pos_iff_ne_zero.1 (countP_pos_of_getElem? _ (setPc_getElem? _ hk' _) rfl)
    rw [he] at hrunning ⊢
    intro pc hpc hasleep
    exact ⟨(hw pc hpc hasleep).1, (hw pc hpc hasleep).2, Or.inr hrunning⟩
  · rw [he]
    refine of_awake (fun pc hpc => ?_)
    change pc ∈ (if w.waitAllIsWaiting then broadcast w.waiters else w.waiters) at hpc
    split at hpc
    · exact broadcast_awake _ pc hpc
    · rename_i hflag
      rw [← Bool.not_eq_true]
      exact fun hasleep => hflag (hw pc hpc hasleep).1

/-- Every step keeps it. -/
theorem step (hi : Inv wq) (h : WaitersAwaitWork wq) {a : Act F A} {ev : List (WqEvent F A)}
    (hs : wq.step a = some (wq', ev)) : WaitersAwaitWork wq' := by
  have hi' := hi.step hs
  obtain ⟨r, rfl, rfl, hc⟩ := wq.step_result hs
  cases hc with
  | queueWork func arg deleter => exact h
  | queuer _ hr =>
    obtain ⟨-, nQ, -, hcases⟩ := wq.queuerSection_cases hr
    rcases hcases with ⟨-, rfl⟩ | ⟨-, -, rfl⟩ | ⟨-, -, hc, l, rfl, -⟩
    · exact h
    · exact h
    · exact h.accepted hi hc
  | waitAll =>
    intro pc hpc hasleep
    rcases List.mem_append.1 hpc with hpc | hpc
    · exact h pc hpc hasleep
    · rw [List.mem_singleton.1 hpc] at hasleep
      nomatch hasleep
  | waiter _ hr => exact h.waiterSection hr
  | worker hk hr => exact h.workerSection hk hr hi'
  | run hk hr =>
    obtain ⟨st, work, pc, -, he, -, -⟩ := wq.workerRun_cases hr
    rw [he]
    exact h
  | destroy ks _ =>
    rw [wq.destroySection_eq]
    refine of_awake (fun pc hpc => ?_)
    change pc ∈ (if wq.waitAllIsWaiting then broadcast wq.waiters else wq.waiters) at hpc
    split at hpc
    · exact broadcast_awake _ pc hpc
    · rename_i hflag
      rw [← Bool.not_eq_true]
      exact fun hasleep => hflag (h pc hpc hasleep).1
  | join _ hr =>
    rcases wq.joinRound_cases hr with ⟨-, rfl⟩ | ⟨t, -, -, rfl⟩ <;> exact h
  | destroyEnd _ => exact h
  | spuriousWorker k => exact h
  | spuriousQueuer i => exact h
  | spuriousWaiter i => exact fun pc hpc hasleep => h pc ((modify_woken _ i).mem_of_asleep hpc hasleep) hasleep

theorem of_run {C : WorkqueueStruct F A → Act F A → Prop} {wq₀ : WorkqueueStruct F A} {log : List (WqEvent F A)}
    (h0 : Fresh wq₀) (h : (machine F A).Run C wq₀ wq log) : WaitersAwaitWork wq := by
  refine h.stateInv ?_ (fun _ _ _ _ _ hr hw _ hs => hw.step (Inv.of_run h0 hr) hs)
  intro pc hpc
  rw [h0.waiters] at hpc
  nomatch hpc

end WaitersAwaitWork

/-- In every reachable state, with any number of calls of `wait_all_work_done`: one that is asleep on `wait_all_cond` with no
notification pending has a pending or running work to wait for, and `destroy_workqueue` has not been called. -/
theorem no_lost_wait_all_wakeup {attrArg : WorkqueueAttr} {env : AllocEnv} {wq₀ : WorkqueueStruct F A}
    {log : List (WqEvent F A)} (h0 : allocWorkqueue attrArg env = some (.ok wq₀)) (h : (machine F A).Reach wq₀ wq log)
    {i : Nat} (hi : wq.waiters[i]? = some (.sleeping false)) :
    ¬(wq.countPendingWorks = 0 ∧ wq.nrRunningWorkers = 0) ∧ wq.destroyer = .idle := by
  have hfresh := allocWorkqueue_fresh h0
  obtain ⟨-, hs, hwork⟩ := WaitersAwaitWork.of_run hfresh h _ (List.mem_of_getElem? hi) rfl
  refine ⟨fun hend => ?_, ?_⟩
  · exact hwork.elim (fun hne => hne (absDiff_eq_zero_iff.1 hend.1)) (fun hne => hne hend.2)
  · by_contra hd
    exact absurd (hs.symm.trans ((Inv.of_run hfresh h).destroyed hd)) nofun

/-- Two calls sleep while a work runs; the first is woken spuriously, clears the flag and goes back to sleep. -/
theorem no_lost_wait_all_wakeup_small : ∃ (wq₀ wq : WorkqueueStruct Unit Unit) (log : List (WqEvent Unit Unit)),
    allocWorkqueue smallAttr AllocEnv.ok = some (.ok wq₀) ∧ (machine Unit Unit).Reach wq₀ wq log ∧
    wq.waiters = [.sleeping false, .sleeping false] ∧
    ¬(wq.countPendingWorks = 0 ∧ wq.nrRunningWorkers = 0) ∧ wq.destroyer = .idle := by
  have hrun : ∃ wq₀ : WorkqueueStruct Unit Unit, allocWorkqueue smallAttr AllocEnv.ok = some (.ok wq₀) ∧
      ((machine Unit Unit).exec wq₀
        [.worker 0 [], .queueWork (some ()) none none, .queuer 0 [] 0, .worker 0 [], .waitAll, .waitAll, .waiter 0, .waiter 1,
          .spuriousWaiter 0, .waiter 0]).map (fun r => r.1.waiters) = some [.sleeping false, .sleeping false] := by
    refine ⟨_, rfl, ?_⟩
    decide
  obtain ⟨wq₀, h0, he⟩ := hrun
  obtain ⟨wq, log, h, hval⟩ := Machine.exists_of_exec (fun (wq : WorkqueueStruct Unit Unit) _ => wq.waiters) he
  exact ⟨wq₀, wq, log, h0, h, hval, no_lost_wait_all_wakeup h0 h (i := 1) (by rw [hval]; rfl)⟩

/-! ## What has been run when a call returns -/

/-- A call of `wait_all_work_done` returns when nothing is pending and no worker is running, or when the queue stops. -/
theorem waitReturn_cases {a : Act F A} {ev : List (WqEvent F A)} (hs : wq.step a = some (wq', ev)) {i : Nat}
    (hret : .waitReturn i ∈ ev) : (wq.countPendingWorks = 0 ∧ wq.nrRunningWorkers = 0) ∨ wq.shouldStop = true := by
  obtain ⟨r, rfl, rfl, hc⟩ := wq.step_result hs
  cases hc with
  | queueWork func arg deleter => nomatch hret
  | queuer _ hr =>
    obtain ⟨-, nQ, -, hcases⟩ := wq.queuerSection_cases hr
    rcases hcases with ⟨-, rfl⟩ | ⟨-, -, rfl⟩ | ⟨-, -, -, l, rfl, -⟩ <;> simp at hret
  | waitAll => nomatch hret
  | @waiter j _ _ _ hr =>
    rcases wq.waiterSection_cases hr with ⟨-, -, he⟩ | ⟨-, he⟩ <;> rw [he] at hret
    · rcases waitAllRound_cases { wq with queueIsBlocked := true } j with ⟨-, -, he⟩ | ⟨hend, -⟩
      · simp [he] at hret
      · exact hend
    · rcases waitAllRound_cases { wq with waitAllIsWaiting := false } j with ⟨-, -, he⟩ | ⟨hend, -⟩
      · simp [he] at hret
      · exact hend
  | @worker k _ _ _ _ hr =>
    obtain ⟨w, -, rfl⟩ := Option.map_eq_some_iff.1 hr
    rcases w.workerLoop_cases k with ⟨-, -, he⟩ | ⟨-, -, he⟩ | ⟨-, -, he⟩ <;> simp [he] at hret
  | run _ hr =>
    obtain ⟨st, work, pc, -, -, -, hev | ⟨kind, -, hev⟩⟩ := wq.workerRun_cases hr <;> simp [hev] at hret
  | destroy ks _ => simp [wq.destroySection_eq] at hret
  | join _ hr =>
    rcases wq.joinRound_cases hr with ⟨-, rfl⟩ | ⟨t, -, -, rfl⟩
    · nomatch hret
    · simp only at hret
      split at hret
      · simp at hret
      · nomatch hret
  | destroyEnd _ => nomatch hret
  | spuriousWorker k => nomatch hret
  | spuriousQueuer i => nomatch hret
  | spuriousWaiter i => nomatch hret

/-- A workqueue with nothing pending and no worker running is an empty queue of jobs. -/
theorem view_of_quiet (hi : Inv wq) (hend : wq.countPendingWorks = 0 ∧ wq.nrRunningWorkers = 0) :
    wq.view.pending = [] ∧ ∀ x ∈ wq.view.held, x = none := by
  refine ⟨?_, ?_⟩
  · change window wq.workList wq.attr.mask wq.head wq.tail = []
    rw [absDiff_eq_zero_iff.1 hend.1, window_self]
  · intro x hx
    obtain ⟨t, ht, rfl⟩ := List.mem_map.1 hx
    have hidle := List.countP_eq_zero.1 (hi.nrRunningWorkers_eq_zero_iff.1 hend.2) t ht
    cases hp : t.pc <;> rw [hp] at hidle <;> first | rfl | exact absurd rfl hidle

/-- The work of call `i` of `queue_work` has been run to its end: its function, if it has one, has been called once and has returned,
its deleter, if it has one, has been called once, and the worker is back from it. -/
structure RunToEnd (log : List (WqEvent F A)) (i : Nat) (work : WorkStruct F A) : Prop where
  call : countOfCall .call i log = if work.func.isSome then 1 else 0
  ret : countOfCall .ret i log = if work.func.isSome then 1 else 0
  del : countOfCall .del i log = if work.deleter.isSome then 1 else 0
  fin : countOfCall .fin i log = 1

/-- Before the queue stops, an empty queue of jobs has run every accepted work to its end. -/
theorem runToEnd_of_quiet {C : WorkqueueStruct F A → Act F A → Prop} {wq₀ : WorkqueueStruct F A} {log : List (WqEvent F A)}
    (h0 : Fresh wq₀) (h : (machine F A).Run C wq₀ wq log) (hstop : wq.shouldStop = false)
    (hend : wq.countPendingWorks = 0 ∧ wq.nrRunningWorkers = 0) {i : Nat} {c : QueueCall F A} (hi : wq.callers[i]? = some c)
    (hret : c.pc = .returned 0) : RunToEnd log i c.work := by
  have hinv := Inv.of_run h0 h
  obtain ⟨hpending, hheld⟩ := view_of_quiet hinv hend
  have hidle : wq.destroyer = .idle := by
    by_contra hd
    exact absurd (hstop.symm.trans (hinv.destroyed hd)) nofun
  have hdrop := (idle_of_run h0 h hidle).2 (fun work => work.call == i)
  have hp : JobQueue.pendingCount (fun work => work.call == i) wq.view = 0 := by
    rw [JobQueue.pendingCount, hpending]
    rfl
  have hh := JobQueue.heldCount_eq_zero (fun work => work.call == i) hheld
  have honce := (runsOnce_of_run h0 h hi hret).once
  obtain ⟨hdel, hcall⟩ := honce.settled hp hh
  have hcalled := hcall hdrop
  have hreturned := (balance h0 h (fun work => work.call == i)).returned
  rw [JobQueue.heldAt_eq_zero _ _ hheld, Nat.zero_add] at hreturned
  have hplaced := honce.placed
  rw [hp, hh, hdrop, Nat.add_zero, Nat.zero_add] at hplaced
  exact ⟨hcalled, hreturned.symm.trans hcalled, hdel, hplaced⟩

/-- When a call of `wait_all_work_done` returns on a queue that does not stop, the work of every call of `queue_work` that has returned 0
by then, and so of every one that had before the call took the lock, has been run to its end. -/
theorem wait_all_work_done_waits {attrArg : WorkqueueAttr} {env : AllocEnv} {wq₀ : WorkqueueStruct F A}
    {log ev : List (WqEvent F A)} {a : Act F A} {w : Nat} (h0 : allocWorkqueue attrArg env = some (.ok wq₀))
    (h : (machine F A).Reach wq₀ wq log) (hs : wq.step a = some (wq', ev)) (hw : .waitReturn w ∈ ev)
    (hstop : wq.shouldStop = false) {i : Nat} {c : QueueCall F A} (hi : wq.callers[i]? = some c)
    (hret : c.pc = .returned 0) : RunToEnd log i c.work := by
  rcases waitReturn_cases hs hw with hend | hstop'
  · exact runToEnd_of_quiet (allocWorkqueue_fresh h0) h hstop hend hi hret
  · exact absurd (hstop.symm.trans hstop') nofun

/-- A work is taken before the call enters; the call sleeps until the deleter has returned. -/
theorem wait_all_work_done_waits_small : ∃ (wq₀ wq wq' : WorkqueueStruct Unit Unit) (log ev : List (WqEvent Unit Unit)),
    allocWorkqueue smallAttr AllocEnv.ok = some (.ok wq₀) ∧ (machine Unit Unit).Reach wq₀ wq log ∧
    wq.step (.waiter 0) = some (wq', ev) ∧ ev = [.waitReturn 0] ∧ RunToEnd log 0 ⟨some (), none, some (), 0⟩ := by
  have hrun : ∃ wq₀ : WorkqueueStruct Unit Unit, allocWorkqueue smallAttr AllocEnv.ok = some (.ok wq₀) ∧
      ((machine Unit Unit).exec wq₀
        [.worker 0 [], .queueWork (some ()) none (some ()), .queuer 0 [] 0, .worker 0 [], .waitAll, .waiter 0, .run 0, .run 0,
          .run 0, .run 0, .worker 0 []]).map (fun r => ((r.1.step (.waiter 0)).map (·.2), r.1.shouldStop, r.1.callers)) =
        some (some [.waitReturn 0], false, [⟨⟨some (), none, some (), 0⟩, .returned 0⟩]) := by
    refine ⟨_, rfl, ?_⟩
    decide
  obtain ⟨wq₀, h0, he⟩ := hrun
  obtain ⟨wq, log, h, hval⟩ := Machine.exists_of_exec
    (fun (wq : WorkqueueStruct Unit Unit) _ => ((wq.step (.waiter 0)).map (·.2), wq.shouldStop, wq.callers)) he
  simp only [Prod.mk.injEq] at hval
  obtain ⟨hstep, hstop, hcallers⟩ := hval
  obtain ⟨⟨wq', ev⟩, hs, rfl⟩ := Option.map_eq_some_iff.1 hstep
  have hi : wq.callers[0]? = some ⟨⟨some (), none, some (), 0⟩, .returned 0⟩ := by
    rw [hcallers]
    rfl
  exact ⟨wq₀, wq, wq', log, _, h0, h, hs, rfl, wait_all_work_done_waits h0 h hs (List.mem_singleton.2 rfl) hstop hi rfl⟩

end WorkqueueStruct

end GwBot

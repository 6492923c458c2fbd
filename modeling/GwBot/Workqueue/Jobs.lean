import GwBot.Workqueue.ExactlyOnce

/-!
# What each action does to the works

For a component that drives a workqueue and keeps books of its own: what an action does to the pending works, to what each worker
holds and to the calls of `queue_work`, one lemma for each kind of action.
-/

namespace GwBot

open Lib

variable {F A : Type}

namespace WorkqueueStruct

variable {wq wq' : WorkqueueStruct F A}

/-- An action that submits nothing and neither takes, runs nor drops a work: the works stay where they are. -/
def Act.isQuiet : Act F A → Bool
  | .waitAll | .waiter _ | .join | .destroyEnd | .spuriousWorker _ | .spuriousQueuer _ | .spuriousWaiter _ => true
  | .queueWork _ _ _ | .queuer _ _ _ | .worker _ _ | .run _ | .destroy _ => false

theorem quiet_jobs {a : Act F A} {ev : List (WqEvent F A)} (hs : wq.step a = some (wq', ev)) (ha : a.isQuiet = true) :
    jobLog ev = [] ∧ wq'.view = wq.view ∧ Woken wq.callers wq'.callers := by
  obtain ⟨r, rfl, rfl, hc⟩ := wq.step_result hs
  cases hc with
  | queueWork func arg deleter => nomatch ha
  | queuer _ hr => nomatch ha
  | waitAll => exact ⟨rfl, rfl, Woken.refl _⟩
  | waiter _ hr =>
    obtain ⟨blocked, waiting, waiters, he, hev⟩ := wq.waiterSection_frame hr
    rw [he]
    exact ⟨hev, rfl, Woken.refl _⟩
  | worker hk hr => nomatch ha
  | run hk hr => nomatch ha
  | destroy ks _ => nomatch ha
  | join _ hr =>
    refine ⟨(joinRound_view hr).1, (joinRound_view hr).2, ?_⟩
    rcases wq.joinRound_cases hr with ⟨-, rfl⟩ | ⟨t, -, -, rfl⟩ <;> exact Woken.refl _
  | destroyEnd _ => exact ⟨rfl, rfl, Woken.refl _⟩
  | spuriousWorker k =>
    have hheld := (modify_woken wq.workers k).map_eq (·.pc.held) (fun t => t.pc.held_wake)
    exact ⟨rfl, congrArg (JobQueue.mk wq.pendingWorks) hheld, Woken.refl _⟩
  | spuriousQueuer i => exact ⟨rfl, rfl, modify_woken _ i⟩
  | spuriousWaiter i => exact ⟨rfl, rfl, Woken.refl _⟩

/-- A new call of `queue_work`. -/
theorem queueWork_jobs {func : Option F} {arg : Option A} {deleter : Option F} {ev : List (WqEvent F A)}
    (hs : wq.step (.queueWork func arg deleter) = some (wq', ev)) :
    ev = [] ∧ wq'.view = wq.view ∧
      wq'.callers = wq.callers ++ [⟨⟨func, arg, deleter, wq.callers.length⟩, .entering⟩] := by
  obtain ⟨-, hc⟩ := wq.step_cases hs
  cases hc
  exact ⟨rfl, rfl, rfl⟩

/-- A critical section of a call of `queue_work`: its work is accepted as it returns 0, or nothing happens to the works. -/
theorem queuer_jobs (h : Inv wq) {i : Nat} {ks : List Nat} {threadCreate : Int} {ev : List (WqEvent F A)}
    (hs : wq.step (.queuer i ks threadCreate) = some (wq', ev)) :
    ∃ c, wq.callers[i]? = some c ∧ c.pc.isAccepted = false ∧
      ((ev = [.job ⟨.accept, c.work⟩] ∧ wq'.view = ⟨wq.view.pending ++ [c.work], wq.view.held⟩ ∧
          wq'.callers = wq.callers.set i ⟨c.work, .returned 0⟩) ∨
        (ev = [] ∧ wq'.view = wq.view ∧ ∃ pc, ((pc = .returned (-EOWNERDEAD) ∧ wq.shouldStop = true) ∨ pc = .sleeping false) ∧
          wq'.callers = wq.callers.set i ⟨c.work, pc⟩)) := by
  obtain ⟨r, rfl, rfl, hc⟩ := wq.step_result hs
  cases hc with
  | @queuer _ _ _ c r hi hr =>
    obtain ⟨hp, nQ, -, hcases⟩ := wq.queuerSection_cases hr
    refine ⟨c, hi, by rcases hp with hp | hp <;> rw [hp] <;> rfl, ?_⟩
    rcases hcases with ⟨hstop, rfl⟩ | ⟨-, -, rfl⟩ | ⟨-, -, hc, l, rfl, ha, -⟩
    · exact Or.inr ⟨rfl, rfl, .returned (-EOWNERDEAD), Or.inl ⟨rfl, hstop⟩, rfl⟩
    · exact Or.inr ⟨rfl, rfl, .sleeping false, Or.inr rfl, rfl⟩
    · obtain ⟨-, -, -, -, hheld, -⟩ := Inv.armed ha h.free
      have hlt := occupancy_lt_of_absDiff_lt wq.attr.maxPendingWorks_le h.occupancy_le hc
      have hpush := window_push wq.workList wq.attr.isMask wq.attr.mask_le (wq.attr.mask_succ ▸ hlt) c.work
      exact Or.inl ⟨rfl, congr (congrArg JobQueue.mk hpush) hheld, rfl⟩

/-- A critical section of a worker: it takes the oldest work or leaves the works as they are. -/
theorem worker_jobs {k : Nat} {ks : List Nat} {ev : List (WqEvent F A)} (hs : wq.step (.worker k ks) = some (wq', ev)) :
    Woken wq.callers wq'.callers ∧ wq.view.held[k]? = some none ∧
      ((ev = [] ∧ wq'.view = wq.view) ∨
        ∃ work rest, ev = [.job ⟨.take, work⟩] ∧ wq.view.pending = work :: rest ∧
          wq'.view = ⟨rest, wq.view.held.set k (some (.taken, work))⟩) := by
  obtain ⟨r, rfl, rfl, hc⟩ := wq.step_result hs
  cases hc with
  | @worker _ _ t r hk hr =>
    refine ⟨(workerSection_callers hr).1, ?_⟩
    obtain ⟨w, h1, rfl⟩ := Option.map_eq_some_iff.1 hr
    obtain ⟨hv, hw, hp⟩ := workerResume_view h1
    have hk' : w.workers[k]? = some t := hw ▸ hk
    have hheld := view_getElem? hk
    rw [hp] at hheld
    refine ⟨hheld, ?_⟩
    rcases w.workerLoop_cases k with ⟨-, -, he⟩ | ⟨-, ht, he⟩ | ⟨-, -, he⟩ <;> rw [he]
    · left
      have := setPc_view_same { w with nrOnlineWorkers := w.nrOnlineWorkers - 1 } hk' .exited hp.symm
      exact ⟨rfl, this.trans hv⟩
    · right
      have hset := setPc_view { w with head := w.head + 1, nrRunningWorkers := w.nrRunningWorkers + 1 } hk'
        (.holding .taken (w.workList (slotOf w.attr.mask w.head)))
      refine ⟨_, window w.workList w.attr.mask (w.head + 1) w.tail, rfl, ?_, ?_⟩
      · rw [← hv]
        exact window_pop ht
      · rw [← hv]
        exact hset
    · left
      have := setPc_view_same { w with
        waiters := if w.waitAllIsWaiting then broadcast w.waiters else w.waiters
        nrSleepingWorkers := w.nrSleepingWorkers + 1 } hk' (.sleeping false) hp.symm
      exact ⟨rfl, this.trans hv⟩

/-- What a worker does with a work it holds: what it logs, and the stage it comes to, or none when it has done with it. -/
def runEffect (work : WorkStruct F A) : Stage → List JobKind × Option Stage
  | .taken => if work.func.isSome then ([.call], some .running) else ([], some .ran)
  | .running => ([.ret], some .ran)
  | .ran => if work.deleter.isSome then ([.del], some .deleting) else ([.fin], none)
  | .deleting => ([.fin], none)

/-- Past its function a work only has its deleter called, or is done with. -/
theorem runEffect_past (work : WorkStruct F A) {st : Stage} (h1 : st ≠ .taken) (h2 : st ≠ .running) :
    runEffect work st = ([.del], some .deleting) ∨ runEffect work st = ([.fin], none) := by
  cases st with
  | taken => exact absurd rfl h1
  | running => exact absurd rfl h2
  | ran =>
    by_cases h : work.deleter.isSome = true
    · exact Or.inl (if_pos h)
    · exact Or.inr (if_neg h)
  | deleting => exact Or.inr rfl

theorem run_jobs {k : Nat} {ev : List (WqEvent F A)} (hs : wq.step (.run k) = some (wq', ev)) :
    ∃ st work, wq.view.held[k]? = some (some (st, work)) ∧ wq'.callers = wq.callers ∧
      ev = (runEffect work st).1.map (fun kind => .job ⟨kind, work⟩) ∧
      wq'.view = ⟨wq.view.pending, wq.view.held.set k ((runEffect work st).2.map (fun st' => (st', work)))⟩ := by
  obtain ⟨r, rfl, rfl, hc⟩ := wq.step_result hs
  cases hc with
  | @run _ t r hk hr =>
    have hview := view_getElem? hk
    cases hp : t.pc with
    | holding st work =>
      rw [hp] at hr hview
      refine ⟨st, work, hview, ?_⟩
      cases st <;> simp only [WorkqueueStruct.workerRun] at hr <;> unfold runEffect
      · split at hr
        · rename_i hf
          cases hr
          rw [wq.setPc_view hk, if_pos hf]
          exact ⟨rfl, rfl, rfl⟩
        · rename_i hf
          cases hr
          rw [wq.setPc_view hk, if_neg hf]
          exact ⟨rfl, rfl, rfl⟩
      · cases hr
        rw [wq.setPc_view hk]
        exact ⟨rfl, rfl, rfl⟩
      · split at hr
        · rename_i hd
          cases hr
          rw [wq.setPc_view hk, if_pos hd]
          exact ⟨rfl, rfl, rfl⟩
        · rename_i hd
          cases hr
          rw [wq.setPc_view hk, if_neg hd]
          exact ⟨rfl, rfl, rfl⟩
      · cases hr
        rw [wq.setPc_view hk]
        exact ⟨rfl, rfl, rfl⟩
    | _ =>
      rw [hp] at hr
      cases hr

/-- The first section of `destroy_workqueue` drops every pending work. -/
theorem destroy_jobs {ks : List Nat} {ev : List (WqEvent F A)} (hs : wq.step (.destroy ks) = some (wq', ev)) :
    ev = (wq.view.pending.flatMap (JobQueue.dropEvents WorkStruct.hasDeleter)).map .job ∧
      wq'.view = ⟨[], wq.view.held⟩ ∧ wq'.callers = wq.callers := by
  obtain ⟨r, rfl, rfl, hc⟩ := wq.step_result hs
  cases hc with
  | destroy ks _ =>
    refine ⟨?_, destroySection_eq_view wq ks, ?_⟩ <;> rw [wq.destroySection_eq]
    rfl

/-- The attributes stay, and a queue that stops goes on stopping. -/
theorem step_attr {a : Act F A} {ev : List (WqEvent F A)} (hs : wq.step a = some (wq', ev)) :
    wq'.attr = wq.attr ∧ (wq.shouldStop = true → wq'.shouldStop = true) := by
  obtain ⟨-, hc⟩ := wq.step_cases hs
  rcases hc.kept with hkept | ⟨ks, -, he⟩ | ⟨i, -, hr⟩ | ⟨-, he⟩
  · exact ⟨hkept.attr, fun h => hkept.shouldStop.trans h⟩
  · have he' := he.trans (wq.destroySection_eq ks)
    exact ⟨congrArg (fun r => r.1.attr) he', fun _ => congrArg (fun r => r.1.shouldStop) he'⟩
  · rcases wq.joinRound_cases hr with ⟨-, he⟩ | ⟨t, -, -, he⟩
    · cases he
      exact ⟨rfl, id⟩
    · cases he
      exact ⟨rfl, id⟩
  · cases he
    exact ⟨rfl, id⟩

theorem attr_of_run {C : WorkqueueStruct F A → Act F A → Prop} {wq₀ : WorkqueueStruct F A} {log : List (WqEvent F A)}
    (h : (machine F A).Run C wq₀ wq log) : wq.attr = wq₀.attr :=
  h.stateInv (I := fun wq => wq.attr = wq₀.attr) rfl (fun _ _ _ _ _ _ hi _ hs => (step_attr hs).1.trans hi)

/-- `queue_work` returns 0, or `-EOWNERDEAD` when the queue stops. -/
def ReturnsOk (wq : WorkqueueStruct F A) : Prop :=
  ∀ c ∈ wq.callers, ∀ ret, c.pc = .returned ret → ret = 0 ∨ (ret = -EOWNERDEAD ∧ wq.shouldStop = true)

theorem ReturnsOk.woken (h : ReturnsOk wq) (hstop : wq.shouldStop = true → wq'.shouldStop = true)
    (hw : Woken wq.callers wq'.callers) : ReturnsOk wq' := by
  intro c' hc' ret hret
  obtain ⟨i, hi⟩ := List.mem_iff_getElem?.1 hc'
  obtain ⟨c, hc, hcc⟩ := hw.getElem? hi
  refine (h c (List.mem_of_getElem? hc) ret ?_).imp_right (fun hr => ⟨hr.1, hstop hr.2⟩)
  rcases hcc with rfl | rfl
  · exact hret
  · change c.pc.wake = .returned ret at hret
    cases hp : c.pc <;> rw [hp] at hret <;> first | exact hret | nomatch hret

theorem ReturnsOk.step (hi : Inv wq) (h : ReturnsOk wq) {a : Act F A} {ev : List (WqEvent F A)}
    (hs : wq.step a = some (wq', ev)) : ReturnsOk wq' := by
  have hstop := (step_attr hs).2
  have hold : ∀ c ∈ wq.callers, ∀ ret, c.pc = .returned ret → ret = 0 ∨ (ret = -EOWNERDEAD ∧ wq'.shouldStop = true) :=
    fun c hc ret hret => (h c hc ret hret).imp_right (fun hr => ⟨hr.1, hstop hr.2⟩)
  have hquiet : a.isQuiet = true → ReturnsOk wq' := fun hq => h.woken hstop (quiet_jobs hs hq).2.2
  cases a with
  | queueWork func arg deleter =>
    obtain ⟨-, -, hcs⟩ := queueWork_jobs hs
    intro c hc ret hret
    rw [hcs, List.mem_append, List.mem_singleton] at hc
    rcases hc with hc | rfl
    · exact hold c hc ret hret
    · nomatch hret
  | queuer i ks threadCreate =>
    obtain ⟨c, -, -, ⟨-, -, hcs⟩ | ⟨-, -, pc, hpc, hcs⟩⟩ := queuer_jobs hi hs
    · intro d hd ret hret
      rw [hcs] at hd
      rcases List.mem_or_eq_of_mem_set hd with hd | rfl
      · exact hold d hd ret hret
      · cases hret
        exact Or.inl rfl
    · intro d hd ret hret
      rw [hcs] at hd
      rcases List.mem_or_eq_of_mem_set hd with hd | rfl
      · exact hold d hd ret hret
      · rcases hpc with ⟨rfl, hst⟩ | rfl
        · cases hret
          exact Or.inr ⟨rfl, hstop hst⟩
        · nomatch hret
  | worker k ks => exact h.woken hstop (worker_jobs hs).1
  | run k =>
    obtain ⟨st, work, -, hcs, -⟩ := run_jobs hs
    exact h.woken hstop (hcs ▸ Woken.refl _)
  | destroy ks => exact h.woken hstop ((destroy_jobs hs).2.2 ▸ Woken.refl _)
  | waitAll | waiter i | join | destroyEnd | spuriousWorker k | spuriousQueuer i | spuriousWaiter i => exact hquiet rfl

theorem ReturnsOk.of_run {C : WorkqueueStruct F A → Act F A → Prop} {wq₀ : WorkqueueStruct F A} {log : List (WqEvent F A)}
    (h0 : Fresh wq₀) (h : (machine F A).Run C wq₀ wq log) : ReturnsOk wq := by
  refine h.stateInv ?_ (fun _ _ _ _ _ hr ho _ hs => ho.step (Inv.of_run h0 hr) hs)
  intro c hc
  rw [h0.callers] at hc
  nomatch hc

/-- Only `destroy_workqueue` starts the destruction. -/
theorem step_destroyer {a : Act F A} {ev : List (WqEvent F A)} (hs : wq.step a = some (wq', ev)) (hd : wq'.destroyer ≠ .idle) :
    wq.destroyer ≠ .idle ∨ ∃ ks, a = .destroy ks := by
  obtain ⟨r, rfl, rfl, hc⟩ := wq.step_result hs
  cases hc with
  | queueWork func arg deleter => exact Or.inl hd
  | queuer _ hr => exact Or.inl ((wq.queuerSection_kept hr).destroyer ▸ hd)
  | waitAll => exact Or.inl hd
  | waiter _ hr =>
    obtain ⟨blocked, waiting, waiters, he, -⟩ := wq.waiterSection_frame hr
    rw [he] at hd
    exact Or.inl hd
  | worker _ hr => exact Or.inl ((wq.workerSection_kept hr).destroyer ▸ hd)
  | run _ hr => exact Or.inl ((wq.workerRun_kept hr).destroyer ▸ hd)
  | destroy ks _ => exact Or.inr ⟨ks, rfl⟩
  | join hj _ => exact Or.inl (by rw [hj]; nofun)
  | destroyEnd hj => exact Or.inl (by rw [hj]; nofun)
  | spuriousWorker k => exact Or.inl hd
  | spuriousQueuer i => exact Or.inl hd
  | spuriousWaiter i => exact Or.inl hd

/-- Only `destroy_workqueue` drops works. -/
theorem step_drop (h : Inv wq) {a : Act F A} {ev : List (WqEvent F A)} (hs : wq.step a = some (wq', ev))
    (ha : ∀ ks, a ≠ .destroy ks) (p : WorkStruct F A → Bool) : JobQueue.countOf .drop p (jobLog ev) = 0 := by
  have hquiet : a.isQuiet = true → JobQueue.countOf .drop p (jobLog ev) = 0 := by
    intro hq
    rw [(quiet_jobs hs hq).1]
    rfl
  have hone : ∀ (kind : JobKind) (work : WorkStruct F A), kind ≠ .drop →
      JobQueue.countOf .drop p (jobLog [WqEvent.job ⟨kind, work⟩]) = 0 := by
    intro kind work hk
    exact (JobQueue.countOf_singleton _ _ _ _).trans (if_neg (fun e => hk e.1))
  cases a with
  | queueWork func arg deleter =>
    rw [(queueWork_jobs hs).1]
    rfl
  | queuer i ks threadCreate =>
    obtain ⟨c, -, -, ⟨rfl, -⟩ | ⟨rfl, -⟩⟩ := queuer_jobs h hs
    · exact hone _ _ nofun
    · rfl
  | worker k ks =>
    obtain ⟨-, -, ⟨rfl, -⟩ | ⟨work, rest, rfl, -⟩⟩ := worker_jobs hs
    · rfl
    · exact hone _ _ nofun
  | run k =>
    obtain ⟨st, work, -, -, rfl, -⟩ := run_jobs hs
    cases st with
    | taken =>
      rw [runEffect]
      split
      · exact hone _ _ nofun
      · rfl
    | running | deleting => exact hone _ _ nofun
    | ran =>
      rw [runEffect]
      split
      · exact hone _ _ nofun
      · exact hone _ _ nofun
  | destroy ks => exact absurd rfl (ha ks)
  | waitAll | waiter i | join | destroyEnd | spuriousWorker k | spuriousQueuer i | spuriousWaiter i => exact hquiet rfl

/-- Before `destroy_workqueue` is called the queue does not stop and no work has been dropped. -/
theorem idle_of_run {C : WorkqueueStruct F A → Act F A → Prop} {wq₀ : WorkqueueStruct F A} {log : List (WqEvent F A)}
    (h0 : Fresh wq₀) (h : (machine F A).Run C wq₀ wq log) (hd : wq.destroyer = .idle) :
    wq.shouldStop = false ∧ ∀ p, JobQueue.countOf .drop p (jobLog log) = 0 := by
  refine h.invariant (I := fun wq log => wq.destroyer = .idle → wq.shouldStop = false ∧
    ∀ p, JobQueue.countOf .drop p (jobLog log) = 0) (fun _ => ⟨h0.shouldStop, fun _ => rfl⟩) ?_ hd
  intro s log a s' ev hr hi _ hs hd
  obtain ⟨-, hc⟩ := s.step_cases hs
  have hstart : ∀ ks, (s.destroySection ks).1.destroyer ≠ .idle := by
    intro ks hd
    rw [s.destroySection_eq] at hd
    nomatch hd
  have hidle : (∀ ks, a ≠ .destroy ks) ∧ s.destroyer = .idle ∧ s'.shouldStop = s.shouldStop := by
    refine ⟨?_, ?_⟩
    · rintro ks rfl
      cases hc with
      | destroy ks _ => exact hstart ks hd
    · rcases hc.kept with hkept | ⟨ks, -, he⟩ | ⟨i, hj, hr⟩ | ⟨-, he⟩
      · exact ⟨hkept.destroyer ▸ hd, hkept.shouldStop⟩
      · cases he
        exact absurd hd (hstart ks)
      · rcases s.joinRound_cases hr with ⟨-, he⟩ | ⟨t, -, -, he⟩
        · cases he
          nomatch hd
        · cases he
          rcases afterJoin_cases t i with hn | hn <;> exact absurd (hn.symm.trans hd) nofun
      · cases he
        nomatch hd
  obtain ⟨h1, h2⟩ := hi hidle.2.1
  refine ⟨hidle.2.2.trans h1, fun p => ?_⟩
  rw [jobLog_append, JobQueue.countOf_append, h2, step_drop (Inv.of_run h0 hr) hs hidle.1]

/-- Every work that is in the log, pending, or held by a worker is that of the call of `queue_work` whose number it has. -/
theorem works_of_calls {C : WorkqueueStruct F A → Act F A → Prop} {wq₀ : WorkqueueStruct F A} {log : List (WqEvent F A)}
    (h0 : Fresh wq₀) (h : (machine F A).Run C wq₀ wq log) :
    (∀ e ∈ jobLog log, ∃ c, wq.callers[e.job.call]? = some c ∧ c.work = e.job) ∧
    (∀ work ∈ wq.view.pending, ∃ c, wq.callers[work.call]? = some c ∧ c.work = work) ∧
    (∀ st work, some (st, work) ∈ wq.view.held → ∃ c, wq.callers[work.call]? = some c ∧ c.work = work) := by
  classical
  have hcalls := Calls.of_run h0 h
  -- a work that is nobody's has not been accepted, so it is nowhere
  have hnone := (balance h0 h (fun work => !decide (∃ c, wq.callers[work.call]? = some c ∧ c.work = work))).none_of_not_accepted
    (by
      rw [JobQueue.countOf, List.countP_eq_zero]
      intro e he
      simp only [Bool.and_eq_true, beq_iff_eq, Bool.not_eq_true', decide_eq_false_iff_not, not_and, not_not]
      intro hk
      exact hcalls.mem e.job (mem_acceptedWorks.2 ⟨e, he, hk, rfl⟩))
  simp only [Bool.not_eq_false', decide_eq_true_eq] at hnone
  exact hnone

end WorkqueueStruct

end GwBot

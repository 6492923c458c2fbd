import GwBot.Workqueue.Invariant

/-!
# The workqueue is a queue of jobs

Seen through `WorkqueueStruct.view`, every step of the workqueue is a step of the abstract `JobQueue` or changes nothing
(`step_view`), so every run of the one is a run of the other (`refines`).
-/

namespace GwBot

open Lib

variable {F A : Type}

/-- The work has a function. -/
def WorkStruct.hasFunc (work : WorkStruct F A) : Bool := work.func.isSome

/-- The work has a deleter. -/
def WorkStruct.hasDeleter (work : WorkStruct F A) : Bool := work.deleter.isSome

/-- Setting an entry to what it is changes nothing. -/
theorem set_eq_self {β : Type} {l : List β} {k : Nat} {x : β} (h : l[k]? = some x) : l.set k x = l := by
  obtain ⟨hlt, rfl⟩ := List.getElem?_eq_some_iff.1 h
  exact List.set_getElem_self hlt

namespace WorkqueueStruct

/-- The steps of the abstract queue for these works. -/
abbrev JobStep : JobQueue (WorkStruct F A) → List (JobEvent (WorkStruct F A)) → JobQueue (WorkStruct F A) → Prop :=
  JobQueue.Step WorkStruct.hasFunc WorkStruct.hasDeleter

/-- The step is one of the abstract queue, or none of its business. -/
def ViewStep (wq wq' : WorkqueueStruct F A) (ev : List (WqEvent F A)) : Prop :=
  JobStep wq.view (jobLog ev) wq'.view ∨ (jobLog ev = [] ∧ wq'.view = wq.view)

variable {wq wq' : WorkqueueStruct F A}

theorem view_held_eq (wq : WorkqueueStruct F A) : wq.view.held = wq.workers.map (·.pc.held) := rfl

theorem view_getElem? {k : Nat} {t : WorkerThread F A} (hk : wq.workers[k]? = some t) : wq.view.held[k]? = some t.pc.held := by
  rw [view_held_eq, List.getElem?_map, hk]
  rfl

theorem setPc_view (wq : WorkqueueStruct F A) {k : Nat} {t : WorkerThread F A} (hk : wq.workers[k]? = some t) (pc : WorkerPc F A) :
    (wq.setPc k pc).view = { wq.view with held := wq.view.held.set k pc.held } := by
  have hw := wq.setPc_workers hk pc
  unfold view
  rw [hw, List.map_set]
  rfl

theorem setPc_view_same (wq : WorkqueueStruct F A) {k : Nat} {t : WorkerThread F A} (hk : wq.workers[k]? = some t) (pc : WorkerPc F A)
    (hp : pc.held = t.pc.held) : (wq.setPc k pc).view = wq.view := by
  rw [wq.setPc_view hk, hp, set_eq_self (view_getElem? hk)]

/-- The loop of a worker that holds nothing takes the oldest work or changes nothing. -/
theorem workerLoop_view (wq : WorkqueueStruct F A) {k : Nat} {t : WorkerThread F A} (hk : wq.workers[k]? = some t) (hp : t.pc.held = none) :
    ViewStep wq (wq.workerLoop k).1 (wq.workerLoop k).2 := by
  have hview := view_getElem? hk
  rw [hp] at hview
  rcases wq.workerLoop_cases k with ⟨-, -, he⟩ | ⟨-, ht, he⟩ | ⟨-, -, he⟩
  · rw [he]
    exact Or.inr ⟨rfl, setPc_view_same { wq with nrOnlineWorkers := wq.nrOnlineWorkers - 1 } hk _ hp.symm⟩
  · rw [he]
    left
    rw [setPc_view { wq with head := wq.head + 1, nrRunningWorkers := wq.nrRunningWorkers + 1 } hk]
    exact JobQueue.Step.take k _ _ (window_pop ht) hview
  · rw [he]
    exact Or.inr ⟨rfl, setPc_view_same { wq with
      waiters := if wq.waitAllIsWaiting then broadcast wq.waiters else wq.waiters
      nrSleepingWorkers := wq.nrSleepingWorkers + 1 } hk _ hp.symm⟩

/-- A worker that gets the lock changes none of the works. -/
theorem workerResume_view {ks : List Nat} {pc : WorkerPc F A} (h : wq.workerResume ks pc = some wq') :
    wq'.view = wq.view ∧ wq'.workers = wq.workers ∧ pc.held = none := by
  rcases wq.workerResume_cases h with ⟨rfl, rfl⟩ | ⟨rfl, rfl⟩ | ⟨rfl, rfl⟩ <;> exact ⟨rfl, rfl, rfl⟩

theorem workerSection_view {k : Nat} {ks : List Nat} {t : WorkerThread F A} (hk : wq.workers[k]? = some t)
    {r : WorkqueueStruct F A × List (WqEvent F A)} (hr : wq.workerSection k ks t.pc = some r) : ViewStep wq r.1 r.2 := by
  obtain ⟨wq', h1, rfl⟩ := Option.map_eq_some_iff.1 hr
  obtain ⟨hv, hw, hp⟩ := workerResume_view h1
  have h2 := wq'.workerLoop_view (hw ▸ hk) hp
  unfold ViewStep at *
  rwa [hv] at h2

/-- What a worker does outside of the lock moves its work on. -/
theorem workerRun_view {k : Nat} {t : WorkerThread F A} (hk : wq.workers[k]? = some t)
    {r : WorkqueueStruct F A × List (WqEvent F A)} (hr : wq.workerRun k t.pc = some r) : ViewStep wq r.1 r.2 := by
  have hview := view_getElem? hk
  cases hp : t.pc with
  | holding st work =>
    rw [hp] at hr hview
    left
    cases st <;> simp only [WorkqueueStruct.workerRun] at hr
    · split at hr
      · rename_i hf
        cases hr
        rw [wq.setPc_view hk]
        exact JobQueue.Step.call k work hview hf
      · rename_i hf
        cases hr
        rw [wq.setPc_view hk]
        exact JobQueue.Step.skip k work hview (Bool.not_eq_true _ ▸ hf)
    · cases hr
      rw [wq.setPc_view hk]
      exact JobQueue.Step.ret k work hview
    · split at hr
      · rename_i hd
        cases hr
        rw [wq.setPc_view hk]
        exact JobQueue.Step.del k work hview hd
      · rename_i hd
        cases hr
        rw [wq.setPc_view hk]
        exact JobQueue.Step.finNoDel k work hview (Bool.not_eq_true _ ▸ hd)
    · cases hr
      rw [wq.setPc_view hk]
      exact JobQueue.Step.fin k work hview
  | _ =>
    rw [hp] at hr
    cases hr

/-- A call of `queue_work` appends its work to the pending ones or changes nothing. -/
theorem queuerSection_view (h : Inv wq) {i : Nat} {ks : List Nat} {threadCreate : Int} {c : QueueCall F A}
    {r : WorkqueueStruct F A × List (WqEvent F A)} (hr : wq.queuerSection i ks threadCreate c = some r) :
    ViewStep wq r.1 r.2 := by
  obtain ⟨-, nQ, -, hcases⟩ := wq.queuerSection_cases hr
  rcases hcases with ⟨-, rfl⟩ | ⟨-, -, rfl⟩ | ⟨-, -, hc, l, rfl, ha, -⟩
  · exact Or.inr ⟨rfl, rfl⟩
  · exact Or.inr ⟨rfl, rfl⟩
  · left
    obtain ⟨-, -, -, -, hheld, -⟩ := Inv.armed ha h.free
    have hlt := occupancy_lt_of_absDiff_lt wq.attr.maxPendingWorks_le h.occupancy_le hc
    have hpush := window_push wq.workList wq.attr.isMask wq.attr.mask_le (wq.attr.mask_succ ▸ hlt) c.work
    have hview : ({ wq.accepted c.work l with
          nrSleepingQueuers := nQ
          callers := wq.callers.set i ⟨c.work, .returned 0⟩ } : WorkqueueStruct F A).view =
        { wq.view with pending := wq.view.pending ++ [c.work] } :=
      congr (congrArg JobQueue.mk hpush) hheld
    rw [hview]
    exact JobQueue.Step.accept c.work

theorem joinRound_view {i : Nat} {r : WorkqueueStruct F A × List (WqEvent F A)} (hr : wq.joinRound i = some r) :
    jobLog r.2 = [] ∧ r.1.view = wq.view := by
  rcases wq.joinRound_cases hr with ⟨-, rfl⟩ | ⟨t, -, -, rfl⟩
  · exact ⟨rfl, rfl⟩
  · refine ⟨?_, rfl⟩
    show jobLog (if t.wq then _ else _) = []
    split <;> rfl

/-- The first critical section of `destroy_workqueue` leaves no work pending and takes none from a worker. -/
theorem destroySection_eq_view (wq : WorkqueueStruct F A) (ks : List Nat) :
    (wq.destroySection ks).1.view = ⟨[], wq.view.held⟩ := by
  have hheld := (signalOrBroadcast_woken wq.nrSleepingWorkers ks wq.workers).map_eq (·.pc.held) (fun t => t.pc.held_wake)
  have hempty : ∀ w : WorkqueueStruct F A, w.head = w.tail → w.workers.map (·.pc.held) = wq.view.held →
      w.view = ⟨[], wq.view.held⟩ := by
    intro w h1 h2
    rw [← h2]
    show JobQueue.mk (window w.workList w.attr.mask w.head w.tail) _ = _
    rw [h1, window_self]
  rw [wq.destroySection_eq]
  exact hempty _ rfl hheld

/-- It drops the pending works. -/
theorem destroySection_view (wq : WorkqueueStruct F A) (ks : List Nat) :
    ViewStep wq (wq.destroySection ks).1 (wq.destroySection ks).2 := by
  left
  rw [wq.destroySection_eq_view, wq.destroySection_eq, jobLog_map_job]
  exact JobQueue.Step.drop

/-- Every step of the workqueue is a step of the queue of jobs, or changes nothing of it. -/
theorem step_view (h : Inv wq) {a : Act F A} {ev : List (WqEvent F A)} (hs : wq.step a = some (wq', ev)) :
    ViewStep wq wq' ev := by
  obtain ⟨r, rfl, rfl, hc⟩ := wq.step_result hs
  cases hc with
  | queueWork func arg deleter => exact Or.inr ⟨rfl, rfl⟩
  | queuer _ hr => exact queuerSection_view h hr
  | waitAll => exact Or.inr ⟨rfl, rfl⟩
  | waiter _ hr =>
    obtain ⟨blocked, waiting, waiters, he, hev⟩ := wq.waiterSection_frame hr
    rw [he]
    exact Or.inr ⟨hev, rfl⟩
  | worker hk hr => exact workerSection_view hk hr
  | run hk hr => exact workerRun_view hk hr
  | destroy ks _ => exact destroySection_view wq ks
  | join _ hr => exact Or.inr (joinRound_view hr)
  | destroyEnd _ => exact Or.inr ⟨rfl, rfl⟩
  | spuriousWorker k =>
    have hheld := (modify_woken wq.workers k).map_eq (·.pc.held) (fun t => t.pc.held_wake)
    exact Or.inr ⟨rfl, congrArg (JobQueue.mk wq.pendingWorks) hheld⟩
  | spuriousQueuer i => exact Or.inr ⟨rfl, rfl⟩
  | spuriousWaiter i => exact Or.inr ⟨rfl, rfl⟩

/-- Every run of the workqueue is a run of the queue of jobs. -/
theorem refines {C : WorkqueueStruct F A → Act F A → Prop} {wq₀ : WorkqueueStruct F A} {log : List (WqEvent F A)}
    (h0 : Fresh wq₀) (h : (machine F A).Run C wq₀ wq log) :
    (JobQueue.spec WorkStruct.hasFunc WorkStruct.hasDeleter).Reach wq₀.view wq.view (jobLog log) :=
  h.refines view WqEvent.job? (fun _ _ _ _ _ hr _ hs => step_view (Inv.of_run h0 hr) hs)

theorem Fresh.view_pending (h : Fresh wq) : wq.view.pending = [] := by
  show window wq.workList wq.attr.mask wq.head wq.tail = []
  rw [h.head, h.tail, window_self]

theorem Fresh.view_held (h : Fresh wq) : ∀ x ∈ wq.view.held, x = none := by
  intro x hx
  obtain ⟨t, ht, rfl⟩ := List.mem_map.1 hx
  rcases h.mem_workers ht with rfl | rfl <;> rfl

/-- The books of the works that satisfy `p`, in every reachable state. -/
theorem balance {C : WorkqueueStruct F A → Act F A → Prop} {wq₀ : WorkqueueStruct F A} {log : List (WqEvent F A)}
    (h0 : Fresh wq₀) (h : (machine F A).Run C wq₀ wq log) (p : WorkStruct F A → Bool) :
    JobQueue.Balance WorkStruct.hasFunc WorkStruct.hasDeleter p wq.view (jobLog log) :=
  JobQueue.balance_of_reach p h0.view_pending h0.view_held (refines h0 h)

/-- The works are taken out of the list, by a worker or by a drop, in the order in which they were accepted. -/
theorem fifo {C : WorkqueueStruct F A → Act F A → Prop} {wq₀ : WorkqueueStruct F A} {log : List (WqEvent F A)}
    (h0 : Fresh wq₀) (h : (machine F A).Run C wq₀ wq log) : JobQueue.Fifo wq.view (jobLog log) :=
  JobQueue.fifo_of_reach h0.view_pending (refines h0 h)

end WorkqueueStruct

end GwBot

import GwBot.Workqueue.Refine

/-!
# Every accepted work runs once, in order

The books of the works are those of the abstract queue; what is left is to tell the works apart. Each call of `queue_work` submits
one work under its own number, and has had it accepted exactly when it has returned 0 (`Calls`). With the joins of
`destroy_workqueue` behind it no thread is left that could hold a work (`Joined`).
-/

namespace GwBot

open Lib

variable {F A : Type}

/-- The works accepted so far, in order. -/
def acceptedWorks (log : List (WqEvent F A)) : List (WorkStruct F A) := JobQueue.jobsOf [.accept] (jobLog log)

/-- The works taken out of the list so far, by a worker or by `clear_pending_works`, in order. -/
def takenOutWorks (log : List (WqEvent F A)) : List (WorkStruct F A) := JobQueue.jobsOf [.take, .drop] (jobLog log)

/-- How many events of kind `k` the log has for the work of call `i` of `queue_work`. -/
def countOfCall (k : JobKind) (i : Nat) (log : List (WqEvent F A)) : Nat :=
  JobQueue.countOf k (fun work => work.call == i) (jobLog log)

theorem acceptedWorks_append (l l' : List (WqEvent F A)) : acceptedWorks (l ++ l') = acceptedWorks l ++ acceptedWorks l' := by
  rw [acceptedWorks, jobLog_append, JobQueue.jobsOf_append]
  rfl

theorem mem_acceptedWorks {log : List (WqEvent F A)} {work : WorkStruct F A} :
    work ∈ acceptedWorks log ↔ ∃ e ∈ jobLog log, e.kind = .accept ∧ e.job = work := by
  simp [acceptedWorks, JobQueue.jobsOf, and_assoc]

theorem countOfCall_accept (i : Nat) (log : List (WqEvent F A)) :
    countOfCall .accept i log = (acceptedWorks log).countP (fun work => work.call == i) := by
  rw [acceptedWorks, JobQueue.jobsOf, List.countP_map, List.countP_filter]
  refine List.countP_congr (fun e _ => ?_)
  simp [and_comm]

/-- The call has returned 0. -/
def CallPc.isAccepted (pc : CallPc) : Bool := pc == .returned 0

@[simp] theorem CallPc.isAccepted_wake (pc : CallPc) : pc.wake.isAccepted = pc.isAccepted := by
  cases pc <;> rfl

namespace WorkqueueStruct

variable {wq wq' : WorkqueueStruct F A}

/-! ## The calls of `queue_work` -/

/-- What a step does to the calls of `queue_work`: a new one comes, one that is awake moves, or some are notified. -/
inductive CallersStep (wq wq' : WorkqueueStruct F A) (accepted : List (WorkStruct F A)) : Prop where
  | call (work : WorkStruct F A) : work.call = wq.callers.length → wq'.callers = wq.callers ++ [⟨work, .entering⟩] →
      accepted = [] → CallersStep wq wq' accepted
  | move {i : Nat} {c : QueueCall F A} (pc : CallPc) : wq.callers[i]? = some c → c.pc = .entering ∨ c.pc = .sleeping true →
      wq'.callers = wq.callers.set i ⟨c.work, pc⟩ → accepted = (if pc.isAccepted then [c.work] else []) →
      CallersStep wq wq' accepted
  | woken : Woken wq.callers wq'.callers → accepted = [] → CallersStep wq wq' accepted

theorem workerLoop_callers (wq : WorkqueueStruct F A) (k : Nat) :
    (wq.workerLoop k).1.callers = wq.callers ∧ acceptedWorks (wq.workerLoop k).2 = [] := by
  rcases wq.workerLoop_cases k with ⟨-, -, he⟩ | ⟨-, -, he⟩ | ⟨-, -, he⟩ <;> rw [he] <;> exact ⟨rfl, rfl⟩

theorem workerSection_callers {k : Nat} {ks : List Nat} {pc : WorkerPc F A} {r : WorkqueueStruct F A × List (WqEvent F A)}
    (h : wq.workerSection k ks pc = some r) : Woken wq.callers r.1.callers ∧ acceptedWorks r.2 = [] := by
  obtain ⟨wq', h1, rfl⟩ := Option.map_eq_some_iff.1 h
  obtain ⟨h2, h3⟩ := wq'.workerLoop_callers k
  refine ⟨?_, h3⟩
  rw [h2]
  rcases wq.workerResume_cases h1 with ⟨-, rfl⟩ | ⟨-, rfl⟩ | ⟨-, rfl⟩
  · exact Woken.refl _
  · exact Woken.refl _
  · show Woken wq.callers (if _ then _ else _)
    split
    · exact Woken.refl _
    · exact signalOrBroadcast_woken _ _ _

theorem step_callers {a : Act F A} {ev : List (WqEvent F A)} (hs : wq.step a = some (wq', ev)) :
    CallersStep wq wq' (acceptedWorks ev) := by
  obtain ⟨r, rfl, rfl, hc⟩ := wq.step_result hs
  cases hc with
  | queueWork func arg deleter => exact CallersStep.call _ rfl rfl rfl
  | queuer hi hr =>
    obtain ⟨hp, nQ, -, hcases⟩ := wq.queuerSection_cases hr
    rcases hcases with ⟨-, rfl⟩ | ⟨-, -, rfl⟩ | ⟨-, -, -, l, rfl, -⟩
    · exact CallersStep.move (.returned (-EOWNERDEAD)) hi hp rfl rfl
    · exact CallersStep.move (.sleeping false) hi hp rfl rfl
    · exact CallersStep.move (.returned 0) hi hp rfl rfl
  | waitAll => exact CallersStep.woken (Woken.refl _) rfl
  | waiter _ hr =>
    obtain ⟨blocked, waiting, waiters, he, hev⟩ := wq.waiterSection_frame hr
    rw [he, acceptedWorks, hev]
    exact CallersStep.woken (Woken.refl _) rfl
  | worker hk hr => exact CallersStep.woken (workerSection_callers hr).1 (workerSection_callers hr).2
  | run hk hr =>
    obtain ⟨st, work, pc, -, he, -, hev⟩ := wq.workerRun_cases hr
    rw [he]
    refine CallersStep.woken (Woken.refl _) ?_
    rcases hev with hev | ⟨kind, hkind, hev⟩ <;> rw [hev]
    · rfl
    · cases kind <;> simp at hkind <;> rfl
  | destroy ks _ =>
    rw [wq.destroySection_eq]
    refine CallersStep.woken (Woken.refl _) ?_
    rw [acceptedWorks, jobLog_map_job, (JobQueue.jobsOf_drops _ _).2]
  | join _ hr =>
    have h0 := (joinRound_view hr).1
    refine CallersStep.woken ?_ (by rw [acceptedWorks, h0]; rfl)
    rcases wq.joinRound_cases hr with ⟨-, rfl⟩ | ⟨t, -, -, rfl⟩ <;> exact Woken.refl _
  | destroyEnd _ => exact CallersStep.woken (Woken.refl _) rfl
  | spuriousWorker k => exact CallersStep.woken (Woken.refl _) rfl
  | spuriousQueuer i => exact CallersStep.woken (modify_woken _ i) rfl
  | spuriousWaiter i => exact CallersStep.woken (Woken.refl _) rfl

/-- What is known of the calls of `queue_work`: each submits one work under its own number, which has been accepted once when the
call has returned 0, and never otherwise. -/
structure Calls (wq : WorkqueueStruct F A) (accepted : List (WorkStruct F A)) : Prop where
  call_eq : ∀ (i : Nat) (c : QueueCall F A), wq.callers[i]? = some c → c.work.call = i
  count : ∀ i : Nat,
    accepted.countP (fun work => work.call == i) = if wq.callers[i]?.any (fun c => c.pc.isAccepted) then 1 else 0
  mem : ∀ work ∈ accepted, ∃ c, wq.callers[work.call]? = some c ∧ c.work = work

namespace Calls

variable {acc : List (WorkStruct F A)}

/-- A new call of `queue_work` has had nothing accepted. -/
theorem call (h : Calls wq acc) {work : WorkStruct F A} (hwork : work.call = wq.callers.length)
    (he : wq'.callers = wq.callers ++ [⟨work, .entering⟩]) : Calls wq' acc := by
  have hget : ∀ i : Nat, wq'.callers[i]? = wq.callers[i]? ∨ (wq'.callers[i]? = some ⟨work, .entering⟩ ∧
      wq.callers[i]? = none ∧ i = wq.callers.length) := by
    intro i
    rw [he]
    rcases Nat.lt_trichotomy i wq.callers.length with hlt | rfl | hgt
    · exact Or.inl (List.getElem?_append_left hlt)
    · exact Or.inr ⟨List.getElem?_concat_length, List.getElem?_eq_none (Nat.le_refl _), rfl⟩
    · left
      rw [List.getElem?_eq_none (Nat.le_of_lt hgt), List.getElem?_eq_none (by simp; omega)]
  refine ⟨?_, ?_, ?_⟩
  · intro i c hi
    rcases hget i with h1 | ⟨h1, -, rfl⟩
    · exact h.call_eq i c (h1 ▸ hi)
    · rw [h1] at hi
      cases hi
      exact hwork
  · intro i
    rw [h.count i]
    rcases hget i with h1 | ⟨h1, h2, -⟩
    · rw [h1]
    · rw [h1, h2]
      rfl
  · intro w hw
    obtain ⟨c, hc, hcw⟩ := h.mem w hw
    rcases hget w.call with h1 | ⟨-, h2, -⟩
    · exact ⟨c, h1.trans hc, hcw⟩
    · cases h2.symm.trans hc

/-- A call that moves has its work accepted when it returns 0. -/
theorem move (h : Calls wq acc) {i : Nat} {c : QueueCall F A} {pc : CallPc} (hi : wq.callers[i]? = some c)
    (hp : c.pc.isAccepted = false) (he : wq'.callers = wq.callers.set i ⟨c.work, pc⟩) :
    Calls wq' (acc ++ if pc.isAccepted then [c.work] else []) := by
  have hlt := (List.getElem?_eq_some_iff.1 hi).1
  have hcall := h.call_eq i c hi
  have hself : wq'.callers[i]? = some ⟨c.work, pc⟩ := he ▸ List.getElem?_set_self hlt
  have hother : ∀ j : Nat, i ≠ j → wq'.callers[j]? = wq.callers[j]? := fun j hj => he ▸ List.getElem?_set_ne hj
  refine ⟨?_, ?_, ?_⟩
  · intro j d hj
    by_cases hij : i = j
    · subst hij
      cases hself.symm.trans hj
      exact hcall
    · exact h.call_eq j d (hother j hij ▸ hj)
  · intro j
    rw [List.countP_append, h.count j]
    by_cases hij : i = j
    · subst hij
      rw [hself, hi, Option.any_some, Option.any_some, hp]
      cases pc.isAccepted <;> simp [hcall]
    · rw [hother j hij]
      cases pc.isAccepted <;> simp [hcall, hij]
  · intro w hw
    rcases List.mem_append.1 hw with hw | hw
    · obtain ⟨d, hd, hdw⟩ := h.mem w hw
      by_cases hij : i = w.call
      · rw [← hij] at hd ⊢
        cases hd.symm.trans hi
        exact ⟨⟨c.work, pc⟩, hself, hdw⟩
      · exact ⟨d, (hother _ hij).trans hd, hdw⟩
    · have : w = c.work := by
        split at hw
        · exact List.mem_singleton.1 hw
        · nomatch hw
      subst this
      rw [hcall]
      exact ⟨⟨c.work, pc⟩, hself, rfl⟩

/-- Notifications change neither the work of a call nor whether it has returned. -/
theorem woken (h : Calls wq acc) (hw : Woken wq.callers wq'.callers) : Calls wq' acc := by
  refine ⟨?_, ?_, ?_⟩
  · intro i c hi
    obtain ⟨d, hd, hcd⟩ := hw.getElem? hi
    have := h.call_eq i d hd
    rcases hcd with rfl | rfl <;> exact this
  · intro i
    rw [h.count i]
    have hmap := congrArg (fun l => l[i]?) (hw.map_eq (fun c => c.pc.isAccepted) (fun c => c.pc.isAccepted_wake))
    simp only [List.getElem?_map] at hmap
    cases h1 : wq.callers[i]? <;> cases h2 : wq'.callers[i]? <;> rw [h1, h2] at hmap <;> simp_all
  · intro w hmem
    obtain ⟨c, hc, hcw⟩ := h.mem w hmem
    obtain ⟨d, hd, hcd⟩ := hw.getElem?_of hc
    refine ⟨d, hd, ?_⟩
    rcases hcd with rfl | rfl <;> exact hcw

theorem step {ev : List (WorkStruct F A)} (h : Calls wq acc) (hs : CallersStep wq wq' ev) : Calls wq' (acc ++ ev) := by
  cases hs with
  | call work hwork he hev =>
    rw [hev, List.append_nil]
    exact h.call hwork he
  | move pc hi hp he hev =>
    rw [hev]
    exact h.move hi (by rcases hp with hp | hp <;> rw [hp] <;> rfl) he
  | woken hw hev =>
    rw [hev, List.append_nil]
    exact h.woken hw

theorem of_run {C : WorkqueueStruct F A → Act F A → Prop} {wq₀ : WorkqueueStruct F A} {log : List (WqEvent F A)}
    (h0 : Fresh wq₀) (h : (machine F A).Run C wq₀ wq log) : Calls wq (acceptedWorks log) := by
  refine h.invariant (I := fun wq log => Calls wq (acceptedWorks log)) ?_ ?_
  · refine ⟨?_, ?_, nofun⟩
    · intro i c hi
      rw [h0.callers] at hi
      nomatch hi
    · intro i
      rw [h0.callers]
      rfl
  · intro s log a s' ev _ hi _ hs
    rw [acceptedWorks_append]
    exact hi.step (step_callers hs)

end Calls

/-! ## The joins of `destroy_workqueue` -/

/-- There is no thread, or it has returned from `worker_func`. -/
def isGone (pc : WorkerPc F A) : Bool :=
  match pc with
  | .noThread | .exited => true
  | _ => false

/-- `join_all_workers` has passed slot `k`. -/
def hasJoined (wq : WorkqueueStruct F A) (k : Nat) : Bool :=
  match wq.destroyer with
  | .idle => false
  | .joining i | .undefined i => k < i
  | .joined | .done => true

/-- The threads of the slots that `join_all_workers` has passed are gone. -/
def Joined (wq : WorkqueueStruct F A) : Prop :=
  ∀ (k : Nat) (t : WorkerThread F A), wq.workers[k]? = some t → wq.hasJoined k = true → isGone t.pc = true

/-- What a step does to the table of workers: threads are notified, a call of `queue_work` stores a work and arms a worker, or a worker
that is not gone moves. -/
inductive TableStep (wq : WorkqueueStruct F A) (a : Act F A) (wq' : WorkqueueStruct F A) : Prop where
  | woken : Woken wq.workers wq'.workers → TableStep wq a wq'
  | armed {i : Nat} {ks : List Nat} {threadCreate : Int} : a = .queuer i ks threadCreate → wq.accepts = true →
      ArmWorker wq ks threadCreate wq'.workers → TableStep wq a wq'
  | move {k : Nat} {t : WorkerThread F A} (pc : WorkerPc F A) : wq.workers[k]? = some t → isGone t.pc = false →
      pc ≠ .noThread → wq'.workers = wq.workers.set k { t with pc := pc } → TableStep wq a wq'

theorem workerLoop_workers (wq : WorkqueueStruct F A) {k : Nat} {t : WorkerThread F A} (hk : wq.workers[k]? = some t) :
    ∃ pc, (wq.workerLoop k).1.workers = wq.workers.set k { t with pc := pc } ∧ pc ≠ .noThread := by
  rcases wq.workerLoop_cases k with ⟨-, -, he⟩ | ⟨-, -, he⟩ | ⟨-, -, he⟩ <;> rw [he] <;>
    exact ⟨_, modify_eq_set _ hk, nofun⟩

theorem step_table {a : Act F A} {ev : List (WqEvent F A)} (hs : wq.step a = some (wq', ev)) : TableStep wq a wq' := by
  obtain ⟨r, rfl, rfl, hc⟩ := wq.step_result hs
  cases hc with
  | queueWork func arg deleter => exact TableStep.woken (Woken.refl _)
  | queuer _ hr =>
    rcases wq.queuerSection_workers hr with ⟨-, hw, -⟩ | ⟨hacc, -, -, harm⟩
    · exact TableStep.woken (hw ▸ Woken.refl _)
    · exact TableStep.armed rfl hacc harm
  | waitAll => exact TableStep.woken (Woken.refl _)
  | waiter _ hr =>
    obtain ⟨blocked, waiting, waiters, he, -⟩ := wq.waiterSection_frame hr
    rw [he]
    exact TableStep.woken (Woken.refl _)
  | @worker k ks t r hk hr =>
    obtain ⟨wq₁, h1, rfl⟩ := Option.map_eq_some_iff.1 hr
    obtain ⟨-, hw, -⟩ := workerResume_view h1
    obtain ⟨pc, hpc, hne⟩ := wq₁.workerLoop_workers (hw ▸ hk)
    refine TableStep.move pc hk ?_ hne (hpc.trans (by rw [hw]))
    rcases wq.workerResume_cases h1 with ⟨hp, -⟩ | ⟨hp, -⟩ | ⟨hp, -⟩ <;> rw [hp] <;> rfl
  | run hk hr =>
    obtain ⟨st, work, pc, hp, he, hpc, -⟩ := wq.workerRun_cases hr
    rw [he]
    refine TableStep.move pc hk (by rw [hp]; rfl) ?_ (wq.setPc_workers hk pc)
    rcases hpc with rfl | ⟨st', rfl⟩ <;> nofun
  | destroy ks _ =>
    rw [wq.destroySection_eq]
    exact TableStep.woken (signalOrBroadcast_woken _ _ _)
  | join _ hr =>
    rcases wq.joinRound_cases hr with ⟨-, rfl⟩ | ⟨t, -, -, rfl⟩ <;> exact TableStep.woken (Woken.refl _)
  | destroyEnd _ => exact TableStep.woken (Woken.refl _)
  | spuriousWorker k => exact TableStep.woken (modify_woken _ k)
  | spuriousQueuer i => exact TableStep.woken (Woken.refl _)
  | spuriousWaiter i => exact TableStep.woken (Woken.refl _)

/-- What a step does to the table of workers: threads are notified, one may be started for a work that is accepted, or one that is not
gone moves. -/
inductive WorkersStep (wq wq' : WorkqueueStruct F A) : Prop where
  | woken : Woken wq.workers wq'.workers → WorkersStep wq wq'
  | armed {ks : List Nat} : wq.shouldStop = false → Armed ks wq.workers wq'.workers → WorkersStep wq wq'
  | move {k : Nat} {t : WorkerThread F A} (pc : WorkerPc F A) : wq.workers[k]? = some t → isGone t.pc = false →
      pc ≠ .noThread → wq'.workers = wq.workers.set k { t with pc := pc } → WorkersStep wq wq'

/-- The same without the system call that creates the thread. -/
theorem step_workers {a : Act F A} {ev : List (WqEvent F A)} (hs : wq.step a = some (wq', ev)) : WorkersStep wq wq' := by
  cases step_table hs with
  | woken hw => exact WorkersStep.woken hw
  | armed _ hacc harm => exact WorkersStep.armed (wq.accepts_iff.1 hacc).1 harm.armed
  | move pc hk hgone hne he => exact WorkersStep.move pc hk hgone hne he

/-- Once the queue stops, threads that are gone stay so. -/
theorem WorkersStep.gone (h : WorkersStep wq wq') (hstop : wq.shouldStop = true) {k : Nat} {t' : WorkerThread F A}
    (hk : wq'.workers[k]? = some t') : ∃ t, wq.workers[k]? = some t ∧ (isGone t.pc = true → isGone t'.pc = true) := by
  cases h with
  | woken hw =>
    obtain ⟨t, ht, htt⟩ := hw.getElem? hk
    refine ⟨t, ht, fun hg => ?_⟩
    rcases htt with rfl | rfl
    · exact hg
    · rw [WorkerThread.wake_pc]
      cases hp : t.pc <;> rw [hp] at hg <;> first | rfl | nomatch hg
  | armed hs _ => exact absurd (hs.symm.trans hstop) nofun
  | move pc hj hp _ he =>
    rw [he, List.getElem?_set] at hk
    split at hk
    · rename_i hjk
      subst hjk
      exact ⟨_, hj, fun hg => absurd (hp.symm.trans hg) nofun⟩
    · exact ⟨t', hk, id⟩

/-- The joins pass no slot but one whose thread is gone. -/
theorem step_joined {a : Act F A} {ev : List (WqEvent F A)} (hs : wq.step a = some (wq', ev)) {k : Nat}
    (hj : wq'.hasJoined k = true) {t : WorkerThread F A} (hk : wq.workers[k]? = some t)
    (hfree : t.wq = false → isGone t.pc = true) :
    wq.hasJoined k = true ∨ (wq'.workers = wq.workers ∧ isGone t.pc = true) := by
  obtain ⟨-, hc⟩ := wq.step_cases hs
  rcases hc.kept with hkept | ⟨ks, -, he⟩ | ⟨i, hd, hr⟩ | ⟨hd, -⟩
  · left
    rwa [hasJoined, hkept.destroyer] at hj
  · have hd : wq'.destroyer = .joining 0 := by
      rw [wq.destroySection_eq] at he
      exact congrArg (fun r => r.1.destroyer) he
    rw [hasJoined, hd] at hj
    exact absurd (of_decide_eq_true hj) (Nat.not_lt_zero k)
  · rcases wq.joinRound_cases hr with ⟨hnone, he⟩ | ⟨t', hi, hgone, he⟩
    · left
      rw [hasJoined, hd]
      exact decide_eq_true (Nat.lt_of_lt_of_le (List.getElem?_eq_some_iff.1 hk).1 (List.getElem?_eq_none_iff.1 hnone))
    · obtain ⟨rfl, -⟩ := Prod.mk.inj he
      have hle : k < i ∨ k = i := by
        rw [hasJoined] at hj
        rcases afterJoin_cases t' i with hn | hn <;> rw [hn] at hj
        · exact Nat.lt_succ_iff_lt_or_eq.1 (of_decide_eq_true hj)
        · exact Or.inl (of_decide_eq_true hj)
      rcases hle with hlt | rfl
      · left
        rw [hasJoined, hd]
        exact decide_eq_true hlt
      · right
        cases hi.symm.trans hk
        refine ⟨rfl, ?_⟩
        rcases hgone with hwq | hp | hp
        · exact hfree hwq
        · rw [hp]
          rfl
        · rw [hp]
          rfl
  · left
    rw [hasJoined, hd]

/-- Before `destroy_workqueue` is called no slot has been passed, and its first section passes none. -/
theorem hasJoined_of_not_stopped (h : Inv wq) (hs : wq.shouldStop = false) {a : Act F A} {ev : List (WqEvent F A)}
    (hstep : wq.step a = some (wq', ev)) (k : Nat) : wq'.hasJoined k = false := by
  have hidle : wq.destroyer = .idle := by
    by_contra hd
    exact absurd (hs.symm.trans (h.destroyed hd)) nofun
  obtain ⟨-, hc⟩ := wq.step_cases hstep
  rcases hc.kept with hkept | ⟨ks, -, he⟩ | ⟨i, hd, -⟩ | ⟨hd, -⟩
  · rw [hasJoined, hkept.destroyer, hidle]
  · have hd : wq'.destroyer = .joining 0 := by
      rw [wq.destroySection_eq] at he
      exact congrArg (fun r => r.1.destroyer) he
    rw [hasJoined, hd]
    exact decide_eq_false (Nat.not_lt_zero k)
  · exact absurd (hidle.symm.trans hd) nofun
  · exact absurd (hidle.symm.trans hd) nofun

theorem Joined.step (h : Inv wq) (hj : Joined wq) {a : Act F A} {ev : List (WqEvent F A)}
    (hs : wq.step a = some (wq', ev)) : Joined wq' := by
  intro k t' hk hjoined
  cases hstop : wq.shouldStop with
  | false => exact absurd ((hasJoined_of_not_stopped h hstop hs k).symm.trans hjoined) nofun
  | true =>
    obtain ⟨t, ht, hgone⟩ := (step_workers hs).gone hstop hk
    have hfree : t.wq = false → isGone t.pc = true := fun hwq => by
      rw [h.free t (List.mem_of_getElem? ht) hwq]
      rfl
    rcases step_joined hs hjoined ht hfree with h1 | ⟨hw, h1⟩
    · exact hgone (hj k t ht h1)
    · cases (hw ▸ hk).symm.trans ht
      exact h1

theorem Joined.of_run {C : WorkqueueStruct F A → Act F A → Prop} {wq₀ : WorkqueueStruct F A} {log : List (WqEvent F A)}
    (h0 : Fresh wq₀) (h : (machine F A).Run C wq₀ wq log) : Joined wq := by
  refine h.stateInv ?_ (fun _ _ _ _ _ hr hj _ hs => hj.step (Inv.of_run h0 hr) hs)
  intro k t _ hjoined
  rw [hasJoined, h0.destroyer] at hjoined
  nomatch hjoined

/-- When `destroy_workqueue` has joined all workers no work is pending and no worker holds one. -/
theorem view_of_joined (h : Inv wq) (hj : Joined wq) (hd : wq.destroyer = .joined ∨ wq.destroyer = .done) :
    wq.view.pending = [] ∧ ∀ x ∈ wq.view.held, x = none := by
  have hstop : wq.shouldStop = true := h.destroyed (by rcases hd with hd | hd <;> rw [hd] <;> nofun)
  refine ⟨?_, ?_⟩
  · show window wq.workList wq.attr.mask wq.head wq.tail = []
    rw [h.stopped hstop, window_self]
  · intro x hx
    obtain ⟨t, ht, rfl⟩ := List.mem_map.1 hx
    obtain ⟨k, hk⟩ := List.mem_iff_getElem?.1 ht
    have hgone := hj k t hk (by rcases hd with hd | hd <;> rw [hasJoined, hd])
    cases hp : t.pc <;> rw [hp] at hgone <;> first | rfl | nomatch hgone

/-! ## The slots of the work list -/

/-- A step leaves the work list as it is, or stores a work in the slot of the tail of a queue that is not full. -/
theorem step_workList (h : Inv wq) {a : Act F A} {ev : List (WqEvent F A)} (hs : wq.step a = some (wq', ev)) :
    wq'.workList = wq.workList ∨ (occupancy wq.head wq.tail < wq.attr.maxPendingWorks.toNat ∧
      ∃ work, wq'.workList = writeSlot wq.workList (slotOf wq.attr.mask wq.tail) work) := by
  obtain ⟨r, rfl, rfl, hc⟩ := wq.step_result hs
  cases hc with
  | queueWork func arg deleter => exact Or.inl rfl
  | queuer _ hr =>
    obtain ⟨-, nQ, -, hcases⟩ := wq.queuerSection_cases hr
    rcases hcases with ⟨-, rfl⟩ | ⟨-, -, rfl⟩ | ⟨-, -, hc, l, rfl, -⟩
    · exact Or.inl rfl
    · exact Or.inl rfl
    · exact Or.inr ⟨occupancy_lt_of_absDiff_lt wq.attr.maxPendingWorks_le h.occupancy_le hc, _, rfl⟩
  | waitAll => exact Or.inl rfl
  | waiter _ hr =>
    obtain ⟨blocked, waiting, waiters, he, -⟩ := wq.waiterSection_frame hr
    rw [he]
    exact Or.inl rfl
  | @worker k ks t r hk hr =>
    left
    have hloop : ∀ w : WorkqueueStruct F A, (w.workerLoop k).1.workList = w.workList := by
      intro w
      rcases w.workerLoop_cases k with ⟨-, -, he⟩ | ⟨-, -, he⟩ | ⟨-, -, he⟩ <;> rw [he] <;> rfl
    obtain ⟨w, h1, rfl⟩ := Option.map_eq_some_iff.1 hr
    refine (hloop w).trans ?_
    rcases wq.workerResume_cases h1 with ⟨-, rfl⟩ | ⟨-, rfl⟩ | ⟨-, rfl⟩ <;> rfl
  | run hk hr =>
    obtain ⟨st, work, pc, -, he, -, -⟩ := wq.workerRun_cases hr
    rw [he]
    exact Or.inl rfl
  | destroy ks _ =>
    rw [wq.destroySection_eq]
    exact Or.inl rfl
  | join _ hr =>
    rcases wq.joinRound_cases hr with ⟨-, rfl⟩ | ⟨t, -, -, rfl⟩ <;> exact Or.inl rfl
  | destroyEnd _ => exact Or.inl rfl
  | spuriousWorker k => exact Or.inl rfl
  | spuriousQueuer i => exact Or.inl rfl
  | spuriousWaiter i => exact Or.inl rfl

/-- No step overwrites a slot of the window. -/
theorem step_slot (h : Inv wq) {a : Act F A} {ev : List (WqEvent F A)} (hs : wq.step a = some (wq', ev)) {n : Nat}
    (hn : n < occupancy wq.head wq.tail) : wq'.workList (slotOf wq.attr.mask (wq.head + UInt32.ofNat n)) =
      wq.workList (slotOf wq.attr.mask (wq.head + UInt32.ofNat n)) := by
  rcases step_workList h hs with he | ⟨hlt, work, he⟩
  · rw [he]
  · rw [he, writeSlot, if_neg (slotOf_ne_tail wq.attr.isMask hn (wq.attr.mask_succ ▸ hlt))]

/-! ## Exactly once -/

/-- What becomes of the work of a call of `queue_work` that has returned 0: it runs once, and after the joins its deleter, if it has
one, has been called, and its function too unless it was dropped. -/
structure RunsOnce (wq : WorkqueueStruct F A) (log : List (WqEvent F A)) (i : Nat) (work : WorkStruct F A) : Prop where
  once : JobQueue.Once WorkStruct.hasFunc WorkStruct.hasDeleter (fun work' => work'.call == i) work wq.view (jobLog log)
  joined : wq.destroyer = .joined ∨ wq.destroyer = .done → countOfCall .del i log = (if work.deleter.isSome then 1 else 0) ∧
    (countOfCall .drop i log = 0 → countOfCall .call i log = if work.func.isSome then 1 else 0)

/-- Nothing has happened to the work of call `i`: it is not in the work list, no worker holds it, and the log does not name it. -/
structure Untouched (wq : WorkqueueStruct F A) (log : List (WqEvent F A)) (i : Nat) : Prop where
  log : ∀ e ∈ jobLog log, e.job.call ≠ i
  pending : ∀ work ∈ wq.pendingWorks, work.call ≠ i
  held : ∀ st work, some (st, work) ∈ wq.view.held → work.call ≠ i

theorem runsOnce_of_run {C : WorkqueueStruct F A → Act F A → Prop} {wq₀ : WorkqueueStruct F A} {log : List (WqEvent F A)}
    (h0 : Fresh wq₀) (h : (machine F A).Run C wq₀ wq log) {i : Nat} {c : QueueCall F A} (hi : wq.callers[i]? = some c)
    (hret : c.pc = .returned 0) : RunsOnce wq log i c.work := by
  have hcalls := Calls.of_run h0 h
  have hone : JobQueue.countOf .accept (fun work => work.call == i) (jobLog log) = 1 := by
    have := (countOfCall_accept i log).trans (hcalls.count i)
    rwa [hi, Option.any_some, hret] at this
  have hsame : ∀ e ∈ jobLog log, e.kind = .accept → (e.job.call == i) = true → e.job = c.work := by
    intro e he hk hcall
    obtain ⟨d, hd, hdw⟩ := hcalls.mem e.job (mem_acceptedWorks.2 ⟨e, he, hk, rfl⟩)
    rw [beq_iff_eq.1 hcall, hi] at hd
    cases hd
    exact hdw.symm
  have honce := JobQueue.once_of_balance (balance h0 h) hone hsame
  refine ⟨honce, fun hd => ?_⟩
  obtain ⟨hp, hh⟩ := view_of_joined (Inv.of_run h0 h) (Joined.of_run h0 h) hd
  exact honce.settled (by rw [JobQueue.pendingCount, hp]; rfl) (JobQueue.heldCount_eq_zero _ hh)

theorem untouched_of_run {C : WorkqueueStruct F A → Act F A → Prop} {wq₀ : WorkqueueStruct F A} {log : List (WqEvent F A)}
    (h0 : Fresh wq₀) (h : (machine F A).Run C wq₀ wq log) {i : Nat} {c : QueueCall F A} (hi : wq.callers[i]? = some c)
    (hret : c.pc ≠ .returned 0) : Untouched wq log i := by
  have hzero : JobQueue.countOf .accept (fun work => work.call == i) (jobLog log) = 0 := by
    have := (countOfCall_accept i log).trans ((Calls.of_run h0 h).count i)
    rwa [hi, Option.any_some, CallPc.isAccepted, beq_false_of_ne hret] at this
  obtain ⟨h1, h2, h3⟩ := (balance h0 h _).none_of_not_accepted hzero
  exact ⟨fun e he => ne_of_beq_false (h1 e he), fun w hw => ne_of_beq_false (h2 w hw),
    fun st w hw => ne_of_beq_false (h3 st w hw)⟩

/-- The works of a workqueue, in any run of its threads: they leave the work list in the order in which they were accepted, no step
overwrites the slot of one that is still pending, a work whose `queue_work` returned 0 runs exactly once, and one whose call did
not is never touched. -/
theorem works_run_exactly_once {attrArg : WorkqueueAttr} {env : AllocEnv} {wq₀ wq : WorkqueueStruct F A}
    {log : List (WqEvent F A)} (h0 : allocWorkqueue attrArg env = some (.ok wq₀)) (h : (machine F A).Reach wq₀ wq log) :
    acceptedWorks log = takenOutWorks log ++ wq.pendingWorks ∧
    (∀ a wq' ev, wq.step a = some (wq', ev) → ∀ n < occupancy wq.head wq.tail,
      wq'.workList (slotOf wq.attr.mask (wq.head + UInt32.ofNat n)) =
        wq.workList (slotOf wq.attr.mask (wq.head + UInt32.ofNat n))) ∧
    (∀ i c, wq.callers[i]? = some c → c.pc = .returned 0 → RunsOnce wq log i c.work) ∧
    (∀ i c, wq.callers[i]? = some c → c.pc ≠ .returned 0 → Untouched wq log i) := by
  have hfresh := allocWorkqueue_fresh h0
  have hinv := Inv.of_run hfresh h
  refine ⟨fifo hfresh h, ?_, ?_, ?_⟩
  · intro a wq' ev hs n hn
    exact step_slot hinv hs hn
  · intro i c hi hret
    exact runsOnce_of_run hfresh h hi hret
  · intro i c hi hret
    exact untouched_of_run hfresh h hi hret

/-- The attributes of a queue of two slots with one worker. -/
def smallAttr : WorkqueueAttr := ⟨0, 1, 1, 2⟩

/-- System calls that all succeed. -/
def AllocEnv.ok : AllocEnv := ⟨true, 0, 0, 0, 0, true, fun _ => 0⟩

/-- Two works are accepted; the first is run to its end while the second is dropped by `destroy_workqueue`. -/
theorem works_run_exactly_once_small : ∃ (wq₀ wq : WorkqueueStruct Unit Unit) (log : List (WqEvent Unit Unit)),
    allocWorkqueue smallAttr AllocEnv.ok = some (.ok wq₀) ∧ (machine Unit Unit).Reach wq₀ wq log ∧
    (wq.destroyer, countOfCall .call 0 log, countOfCall .drop 1 log) = (.done, 1, 1) ∧
    acceptedWorks log = takenOutWorks log ++ wq.pendingWorks := by
  have hrun : ∃ wq₀ : WorkqueueStruct Unit Unit, allocWorkqueue smallAttr AllocEnv.ok = some (.ok wq₀) ∧
      ((machine Unit Unit).exec wq₀
        [.worker 0 [], .queueWork (some ()) none (some ()), .queuer 0 [] 0, .queueWork (some ()) none (some ()), .worker 0 [],
          .queuer 1 [] 0, .run 0, .run 0, .destroy [], .run 0, .run 0, .worker 0 [], .join, .join, .destroyEnd]).map
        (fun r => (r.1.destroyer, countOfCall .call 0 r.2, countOfCall .drop 1 r.2)) = some (.done, 1, 1) := by
    refine ⟨_, rfl, ?_⟩
    decide
  obtain ⟨wq₀, h0, he⟩ := hrun
  obtain ⟨wq, log, h, hval⟩ := Machine.exists_of_exec
    (fun (wq : WorkqueueStruct Unit Unit) log => (wq.destroyer, countOfCall .call 0 log, countOfCall .drop 1 log)) he
  exact ⟨wq₀, wq, log, h0, h, hval, (works_run_exactly_once h0 h).1⟩

end WorkqueueStruct

end GwBot

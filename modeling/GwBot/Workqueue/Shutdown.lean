import GwBot.Workqueue.Jobs
import GwBot.Workqueue.Slots
import GwBot.Workqueue.Wakeup

/-!
# Joining the workers

`destroy_workqueue` sets `should_stop`, notifies every sleeping worker once and joins them all. A notified worker leaves only when the
queue is not blocked; when a call of `wait_all_work_done` has not yet returned, the worker finds it blocked and goes back to sleep, and
that call unblocks the queue without notifying anybody. `JoinStranded` is the state this ends in, `worker_stranded_at_shutdown` a run
that ends in it, and `FindsUnblocked` what a run has to observe so that it does not. A join completes once the thread has exited, and
only if there is one: a slot that is claimed for a thread that was not created is joined all the same, which is undefined.
-/

namespace GwBot

open Lib

variable {F A : Type}

/-- `destroy_workqueue` is in `join_all_workers`. -/
def DestroyPc.isJoining : DestroyPc → Bool
  | .joining _ => true
  | _ => false

/-- A worker that is neither awake nor asleep is gone. -/
theorem WorkerPc.eq_of_idle {pc : WorkerPc F A} (h1 : pc.isAwake = false) (h2 : pc.asleep = false) :
    pc = .noThread ∨ pc = .exited := by
  cases pc with
  | noThread => exact Or.inl rfl
  | sleeping b =>
    cases b with
    | false => nomatch h2
    | true => nomatch h1
  | exited => exact Or.inr rfl
  | _ => nomatch h1

namespace WorkqueueStruct

/-- `destroy_workqueue` is in `join_all_workers`, a worker is asleep on `worker_cond` with no notification pending, and every thread but
the destroyer is asleep with no notification pending, has returned or has exited. -/
def JoinStranded (wq : WorkqueueStruct F A) : Prop :=
  (∃ t ∈ wq.workers, t.pc.asleep = true) ∧ (∀ t ∈ wq.workers, t.pc.isAwake = false) ∧ (∀ c ∈ wq.callers, c.pc.isIdle = true) ∧
  (∀ pc ∈ wq.waiters, pc.isIdle = true) ∧ wq.destroyer.isJoining = true

instance (wq : WorkqueueStruct F A) : Decidable wq.JoinStranded :=
  inferInstanceAs (Decidable (_ ∧ _ ∧ _ ∧ _ ∧ _))

/-- No call is made, and none takes the lock for the first time, once `destroy_workqueue` has started. -/
def NoNewCalls (wq : WorkqueueStruct F A) : Act F A → Prop
  | .queueWork _ _ _ | .waitAll => wq.destroyer = .idle
  | .queuer i _ _ => wq.destroyer = .idle ∨ wq.callers[i]?.any (fun c => c.pc.isSleeping) = true
  | .waiter i => wq.destroyer = .idle ∨ wq.waiters[i]?.any CallPc.isSleeping = true
  | _ => True

instance (wq : WorkqueueStruct F A) (a : Act F A) : Decidable (wq.NoNewCalls a) :=
  match a with
  | .queueWork _ _ _ | .waitAll => inferInstanceAs (Decidable (_ = _))
  | .queuer _ _ _ | .waiter _ => inferInstanceAs (Decidable (_ ∨ _))
  | .worker _ _ | .run _ | .destroy _ | .join | .destroyEnd | .spuriousWorker _ | .spuriousQueuer _ | .spuriousWaiter _ =>
    inferInstanceAs (Decidable True)

/-- The only worker finishes its work and notifies the call that waits for it. Before that call runs, the queue is destroyed; the worker
finds it still blocked and sleeps, and the call returns. -/
theorem worker_stranded_at_shutdown : ∃ (wq₀ wq : WorkqueueStruct Unit Unit) (log : List (WqEvent Unit Unit)),
    allocWorkqueue smallAttr AllocEnv.ok = some (.ok wq₀) ∧ (machine Unit Unit).Run NoNewCalls wq₀ wq log ∧
    wq.JoinStranded ∧ (∀ i, wq.destroyer = .joining i → wq.joinRound i = none) := by
  have hrun : ∃ wq₀ : WorkqueueStruct Unit Unit, allocWorkqueue smallAttr AllocEnv.ok = some (.ok wq₀) ∧
      ((machine Unit Unit).execIf NoNewCalls wq₀
        [.worker 0 [], .queueWork (some ()) none none, .queuer 0 [] 0, .worker 0 [], .waitAll, .waiter 0, .run 0, .run 0,
          .run 0, .worker 0 [], .destroy [], .worker 0 [], .waiter 0]).map
        (fun r => (decide r.1.JoinStranded, r.1.destroyer, (r.1.joinRound 0).isNone)) = some (true, .joining 0, true) := by
    refine ⟨_, rfl, ?_⟩
    decide
  obtain ⟨wq₀, h0, he⟩ := hrun
  obtain ⟨wq, log, h, hval⟩ := Machine.exists_of_exec
    (fun (wq : WorkqueueStruct Unit Unit) _ => (decide wq.JoinStranded, wq.destroyer, (wq.joinRound 0).isNone)) he
  simp only [Prod.mk.injEq, decide_eq_true_eq, Option.isNone_iff_eq_none] at hval
  refine ⟨wq₀, wq, log, h0, h, hval.1, fun i hi => ?_⟩
  cases hval.2.1.symm.trans hi
  exact hval.2.2

/-! ## When every worker leaves -/

/-- What a run has to observe: a worker that gets the lock once the queue stops finds it not blocked. -/
def FindsUnblocked (wq : WorkqueueStruct F A) : Act F A → Prop
  | .worker _ _ => wq.shouldStop = true → wq.queueIsBlocked = false
  | _ => True

instance (wq : WorkqueueStruct F A) (a : Act F A) : Decidable (wq.FindsUnblocked a) :=
  match a with
  | .worker _ _ => inferInstanceAs (Decidable (_ → _))
  | .queueWork _ _ _ | .queuer _ _ _ | .waitAll | .waiter _ | .run _ | .destroy _ | .join | .destroyEnd | .spuriousWorker _
  | .spuriousQueuer _ | .spuriousWaiter _ => inferInstanceAs (Decidable True)

variable {wq wq' : WorkqueueStruct F A}

/-- `wake_up_all_workers` leaves no worker asleep. -/
theorem destroySection_awake (hi : Inv wq) (ks : List Nat) : ∀ t ∈ (wq.destroySection ks).1.workers, t.pc.asleep = false := by
  rw [wq.destroySection_eq]
  refine notify_awake ks (fun t => t.pc.isSleeping) (fun t ht => t.pc.isSleeping_of_asleep ht) hi.sleeping ?_
  by_cases hle : wq.workers.countP (fun t => t.pc.isSleeping) ≤ 1
  · exact Or.inr hle
  · left
    rw [gt_iff_lt, UInt32.lt_iff_toNat_lt, hi.sleeping, UInt32.toNat_ofNat_of_lt' (hi.countP_workers_lt _)]
    exact Nat.lt_of_not_le hle

/-- A worker that finds the queue stopping and not blocked leaves. -/
theorem workerSection_exits {k : Nat} {ks : List Nat} {t : WorkerThread F A} (hk : wq.workers[k]? = some t)
    {r : WorkqueueStruct F A × List (WqEvent F A)} (hr : wq.workerSection k ks t.pc = some r) (hstop : wq.shouldStop = true)
    (hblocked : wq.queueIsBlocked = false) : r.1.workers = wq.workers.set k { t with pc := .exited } := by
  obtain ⟨w, h1, rfl⟩ := Option.map_eq_some_iff.1 hr
  have hw : w.shouldStop = true ∧ w.queueIsBlocked = false ∧ w.workers = wq.workers := by
    rcases wq.workerResume_cases h1 with ⟨-, rfl⟩ | ⟨-, rfl⟩ | ⟨-, rfl⟩ <;> exact ⟨hstop, hblocked, rfl⟩
  rcases w.workerLoop_cases k with ⟨-, -, he⟩ | ⟨hgo, -⟩ | ⟨hgo, -⟩
  · rw [he, ← hw.2.2]
    exact modify_eq_set _ (hw.2.2 ▸ hk)
  · exact absurd (hw.2.1.symm.trans (hgo hw.1)) nofun
  · exact absurd (hw.2.1.symm.trans (hgo hw.1)) nofun

/-- Once `destroy_workqueue` has left its first critical section no worker is asleep without a notification. -/
def NoneLeftAsleep (wq : WorkqueueStruct F A) : Prop := wq.destroyer ≠ .idle → ∀ t ∈ wq.workers, t.pc.asleep = false

namespace NoneLeftAsleep

/-- Every step that observes the condition keeps it. -/
theorem step (hi : Inv wq) (h : NoneLeftAsleep wq) {a : Act F A} (hc : wq.FindsUnblocked a) {ev : List (WqEvent F A)}
    (hs : wq.step a = some (wq', ev)) : NoneLeftAsleep wq' := by
  intro hd
  rcases step_destroyer hs hd with hd0 | ⟨ks, rfl⟩
  · have hstop := hi.destroyed hd0
    have hawake := h hd0
    have hset : ∀ {k : Nat} {t : WorkerThread F A}, t.pc.asleep = false → wq'.workers = wq.workers.set k t →
        ∀ t ∈ wq'.workers, t.pc.asleep = false := by
      intro k t ht he x hx
      rw [he] at hx
      rcases List.mem_or_eq_of_mem_set hx with hx | rfl
      · exact hawake x hx
      · exact ht
    have hwoken : Woken wq.workers wq'.workers → ∀ t ∈ wq'.workers, t.pc.asleep = false := by
      intro hw t ht
      rw [← Bool.not_eq_true]
      intro hasleep
      exact absurd ((hawake t (hw.mem_of_asleep ht hasleep)).symm.trans hasleep) nofun
    obtain ⟨r, rfl, rfl, hcase⟩ := wq.step_result hs
    cases hcase with
    | queueWork func arg deleter => exact hawake
    | queuer _ hr =>
      obtain ⟨-, nQ, -, hcases⟩ := wq.queuerSection_cases hr
      rcases hcases with ⟨-, rfl⟩ | ⟨-, -, rfl⟩ | ⟨hs, -⟩
      · exact hawake
      · exact hawake
      · exact absurd (hs.symm.trans hstop) nofun
    | waitAll => exact hawake
    | waiter _ hr =>
      obtain ⟨blocked, waiting, waiters, he, -⟩ := wq.waiterSection_frame hr
      exact hwoken (by rw [he]; exact Woken.refl _)
    | worker hk hr => exact hset rfl (workerSection_exits hk hr hstop (hc hstop))
    | run hk hr =>
      obtain ⟨st, work, pc, -, he, hpc, -⟩ := wq.workerRun_cases hr
      refine hset ?_ (he ▸ wq.setPc_workers hk pc)
      rcases hpc with rfl | ⟨st', rfl⟩ <;> rfl
    | destroy ks hidle => exact absurd hidle hd0
    | join _ hr =>
      rcases wq.joinRound_cases hr with ⟨-, rfl⟩ | ⟨t, -, -, rfl⟩ <;> exact hawake
    | destroyEnd _ => exact hawake
    | spuriousWorker k => exact hwoken (modify_woken _ k)
    | spuriousQueuer i => exact hawake
    | spuriousWaiter i => exact hawake
  · obtain ⟨-, hcase⟩ := wq.step_cases hs
    cases hcase with
    | destroy _ _ => exact destroySection_awake hi ks

theorem of_run {wq₀ : WorkqueueStruct F A} {log : List (WqEvent F A)} (h0 : Fresh wq₀)
    (h : (machine F A).Run FindsUnblocked wq₀ wq log) : NoneLeftAsleep wq := by
  refine h.stateInv (fun hd => absurd h0.destroyer hd) ?_
  intro s log a s' ev hr hn hc hs
  exact hn.step (Inv.of_run h0 hr) hc hs

end NoneLeftAsleep

/-! ## The joins -/

/-- The join of slot `i` completes: the thread to join has exited, or there is none to join and the slot is free. -/
def JoinCompletes (wq : WorkqueueStruct F A) (i : Nat) : Prop :=
  ∃ r, wq.joinRound i = some r ∧ r.1.destroyer ≠ .undefined i

/-- Slot `i` is claimed for a thread that was not created. -/
def claimedForNone (wq : WorkqueueStruct F A) (i : Nat) : Bool := wq.workers[i]?.any (fun t => t.wq && !t.pc.created)

/-- Once no worker is awake or asleep, the join of a slot completes unless it is claimed for a thread that was not created. -/
theorem joinCompletes_iff {i : Nat} (hidle : ∀ t ∈ wq.workers, t.pc.isAwake = false)
    (hnone : ∀ t ∈ wq.workers, t.pc.asleep = false) : wq.JoinCompletes i ↔ wq.claimedForNone i = false := by
  unfold JoinCompletes claimedForNone joinRound
  split
  · rename_i hi
    rw [hi]
    exact iff_of_true ⟨_, rfl, nofun⟩ rfl
  · rename_i t hi
    rw [hi, Option.any_some]
    cases hwq : t.wq with
    | false => exact iff_of_true ⟨_, rfl, nofun⟩ rfl
    | true =>
      have ht := List.mem_of_getElem? hi
      rw [if_neg nofun]
      rcases WorkerPc.eq_of_idle (hidle t ht) (hnone t ht) with hp | hp <;> rw [hp]
      · refine iff_of_false ?_ nofun
        rintro ⟨r, hr, hne⟩
        cases hr
        exact hne rfl
      · exact iff_of_true ⟨_, rfl, nofun⟩ rfl

/-- What a run has to observe so that every join completes: a worker that gets the lock once the queue stops finds it not blocked, and a
`thread_create` that a call of `queue_work` comes to succeeds. -/
def LetsJoin (wq : WorkqueueStruct F A) (a : Act F A) : Prop := wq.FindsUnblocked a ∧ wq.SpawnSucceeds a

instance (wq : WorkqueueStruct F A) (a : Act F A) : Decidable (wq.LetsJoin a) := inferInstanceAs (Decidable (_ ∧ _))

theorem not_claimedForNone (h : ∀ t ∈ wq.workers, t.wq = t.pc.created) (i : Nat) : wq.claimedForNone i = false := by
  unfold claimedForNone
  cases hi : wq.workers[i]? with
  | none => rfl
  | some t =>
    rw [Option.any_some, h t (List.mem_of_getElem? hi)]
    exact Bool.and_not_self _

/-- As long as the slots match the threads, no join is undefined. -/
theorem step_defined (h : ∀ t ∈ wq.workers, t.wq = t.pc.created) (hd : ∀ i, wq.destroyer ≠ .undefined i) {a : Act F A}
    {ev : List (WqEvent F A)} (hs : wq.step a = some (wq', ev)) (i : Nat) : wq'.destroyer ≠ .undefined i := by
  obtain ⟨-, hc⟩ := wq.step_cases hs
  rcases hc.kept with hkept | ⟨ks, -, he⟩ | ⟨j, -, hr⟩ | ⟨-, he⟩
  · rw [hkept.destroyer]
    exact hd i
  · rw [wq.destroySection_eq] at he
    cases he
    nofun
  · rcases wq.joinRound_cases hr with ⟨-, he⟩ | ⟨t, ht, -, he⟩
    · cases he
      nofun
    · rw [SlotsMatch.afterJoin_of_claimed (h t (List.mem_of_getElem? ht))] at he
      cases he
      nofun
  · cases he
    nofun

theorem defined_of_run {wq₀ : WorkqueueStruct F A} {log : List (WqEvent F A)} (h0 : Fresh wq₀)
    (h : (machine F A).Run SpawnSucceeds wq₀ wq log) : ∀ i, wq.destroyer ≠ .undefined i := by
  refine h.stateInv (I := fun wq => ∀ i, wq.destroyer ≠ .undefined i) ?_ ?_
  · intro i
    rw [h0.destroyer]
    nofun
  · intro s log a s' ev hr hd _ hs
    exact step_defined (SlotsMatch.of_run h0 hr).claimed hd hs

/-- In a run that observes the condition `join_all_workers` never waits for a worker that nobody will wake, and once no worker has
anything left to do the join of a slot completes, if the slot is not claimed for a thread that was not created. When every
`thread_create` that a call of `queue_work` comes to succeeds too, no join is undefined and every one completes. -/
theorem workers_leave_at_shutdown {attrArg : WorkqueueAttr} {env : AllocEnv} {wq₀ wq : WorkqueueStruct F A}
    {log : List (WqEvent F A)} (h0 : allocWorkqueue attrArg env = some (.ok wq₀))
    (h : (machine F A).Run FindsUnblocked wq₀ wq log) :
    ¬wq.JoinStranded ∧
    (∀ i, wq.destroyer = .joining i → (∀ t ∈ wq.workers, t.pc.isAwake = false) →
      (wq.JoinCompletes i ↔ wq.claimedForNone i = false)) ∧
    ((machine F A).Run LetsJoin wq₀ wq log → (∀ i, wq.destroyer ≠ .undefined i) ∧
      ∀ i, wq.destroyer = .joining i → (∀ t ∈ wq.workers, t.pc.isAwake = false) → wq.JoinCompletes i) := by
  have hfresh := allocWorkqueue_fresh h0
  have hnone := NoneLeftAsleep.of_run hfresh h
  have hcompletes : ∀ i, wq.destroyer = .joining i → (∀ t ∈ wq.workers, t.pc.isAwake = false) →
      (wq.JoinCompletes i ↔ wq.claimedForNone i = false) := by
    intro i hd hidle
    exact joinCompletes_iff hidle (hnone (by rw [hd]; nofun))
  refine ⟨?_, hcompletes, fun hboth => ?_⟩
  · rintro ⟨⟨t, ht, hasleep⟩, -, -, -, hjoining⟩
    have hd : wq.destroyer ≠ .idle := by
      intro hd
      rw [hd] at hjoining
      nomatch hjoining
    exact absurd ((hnone hd t ht).symm.trans hasleep) nofun
  · have hspawns : (machine F A).Run SpawnSucceeds wq₀ wq log := hboth.mono (fun _ _ hc => hc.2)
    refine ⟨defined_of_run hfresh hspawns, fun i hd hidle => ?_⟩
    exact (hcompletes i hd hidle).2 (not_claimedForNone (SlotsMatch.of_run hfresh hspawns).claimed i)

/-- The call that waits has returned before the worker gets the lock, and the worker leaves and is joined. -/
theorem workers_leave_at_shutdown_small : ∃ (wq₀ wq : WorkqueueStruct Unit Unit) (log : List (WqEvent Unit Unit)),
    allocWorkqueue smallAttr AllocEnv.ok = some (.ok wq₀) ∧ (machine Unit Unit).Run LetsJoin wq₀ wq log ∧
    wq.destroyer = .joining 0 ∧ wq.workers.map (·.pc) = [.exited] ∧ ¬wq.JoinStranded ∧ wq.JoinCompletes 0 := by
  have hrun : ∃ wq₀ : WorkqueueStruct Unit Unit, allocWorkqueue smallAttr AllocEnv.ok = some (.ok wq₀) ∧
      ((machine Unit Unit).execIf LetsJoin wq₀
        [.worker 0 [], .queueWork (some ()) none none, .queuer 0 [] 0, .worker 0 [], .waitAll, .waiter 0, .run 0, .run 0,
          .run 0, .worker 0 [], .destroy [], .waiter 0, .worker 0 []]).map
        (fun r => (r.1.destroyer, r.1.workers.map (·.pc))) = some (.joining 0, [.exited]) := by
    refine ⟨_, rfl, ?_⟩
    decide
  obtain ⟨wq₀, h0, he⟩ := hrun
  obtain ⟨wq, log, h, hval⟩ := Machine.exists_of_exec
    (fun (wq : WorkqueueStruct Unit Unit) _ => (wq.destroyer, wq.workers.map (·.pc))) he
  obtain ⟨hd, hpcs⟩ := Prod.mk.inj hval
  have hidle : ∀ t ∈ wq.workers, t.pc.isAwake = false := by
    intro t ht
    rw [List.mem_singleton.1 (hpcs ▸ List.mem_map_of_mem ht : t.pc ∈ [WorkerPc.exited])]
    rfl
  obtain ⟨hstranded, -, hjoins⟩ := workers_leave_at_shutdown h0 (h.mono (fun _ _ hc => hc.1))
  exact ⟨wq₀, wq, log, h0, h, hd, hpcs, hstranded, (hjoins h).2 0 hd hidle⟩

end WorkqueueStruct

end GwBot

import GwBot.Lib.Settle
import GwBot.Workqueue.NoStrand
import GwBot.Workqueue.WaitAll

/-!
# Accepted works get done

With no new calls, whatever the order in which the workers get the lock and go on with their works, they come to rest after a number of
steps that the works pending and the threads bound, and then every accepted work has been run to its end, or was dropped when the queue
stopped. The measure weighs a pending work as one that has just been taken.
-/

namespace GwBot

open Lib

variable {F A : Type}

/-- The steps that a worker may still take before it looks at the queue again, or less; `w` is that of one that has just taken a work. -/
def WorkerPc.stepsLeft (w : Nat) : WorkerPc F A → Nat
  | .noThread | .sleeping false | .exited => 0
  | .starting | .sleeping true | .finishing => 1
  | .holding .deleting _ => 2
  | .holding .ran _ => 3
  | .holding .running _ => 4
  | .holding .taken _ => w

theorem WorkerPc.stepsLeft_le {w : Nat} (hw : 5 ≤ w) (pc : WorkerPc F A) : pc.stepsLeft w ≤ w := by
  cases pc with
  | sleeping b => cases b <;> simp only [stepsLeft] <;> omega
  | holding st work => cases st <;> simp only [stepsLeft] <;> omega
  | _ =>
    simp only [stepsLeft]
    omega

/-- A worker that is awake is there. -/
theorem WorkerPc.not_isGone_of_isAwake {pc : WorkerPc F A} (h : pc.isAwake = true) : WorkqueueStruct.isGone pc = false := by
  cases pc <;> first | rfl | nomatch h

/-- A worker with a work is on its way back to the queue. -/
theorem WorkerPc.isAwake_of_isRunning {pc : WorkerPc F A} (h : pc.isRunning = true) : pc.isAwake = true := by
  cases pc <;> first | rfl | nomatch h

namespace WorkqueueStruct

/-- A step of a worker. -/
def Act.isWorker : Act F A → Bool
  | .worker _ _ | .run _ => true
  | _ => false

variable {wq wq' : WorkqueueStruct F A} {a : Act F A} {ev : List (WqEvent F A)}

/-- What is left for the workers to do. -/
def stepsLeft (w : Nat) (wq : WorkqueueStruct F A) : Nat :=
  w * occupancy wq.head wq.tail + poolWeight (fun t => t.pc.stepsLeft w) wq.workers

/-- A worker that moves takes from what is left what it takes from its own part. -/
theorem stepsLeft_setPc (wq : WorkqueueStruct F A) (w : Nat) {k : Nat} {t : WorkerThread F A} (hk : wq.workers[k]? = some t) (pc : WorkerPc F A) :
    (wq.setPc k pc).stepsLeft w + t.pc.stepsLeft w = wq.stepsLeft w + pc.stepsLeft w := by
  have hset : poolWeight (fun t => t.pc.stepsLeft w) (wq.workers.set k { t with pc := pc }) + t.pc.stepsLeft w =
    poolWeight (fun t => t.pc.stepsLeft w) wq.workers + pc.stepsLeft w := poolWeight_set (fun t => t.pc.stepsLeft w) hk _
  have hhead : (wq.setPc k pc).head = wq.head ∧ (wq.setPc k pc).tail = wq.tail := ⟨rfl, rfl⟩
  rw [stepsLeft, stepsLeft, hhead.1, hhead.2, wq.setPc_workers hk]
  omega

/-- A worker that gets the lock has one step left, and the round of its loop that follows takes more than one away: it exits, sleeps, or
takes a work that was pending. -/
theorem stepsLeft_workerSection (w : Nat) {k : Nat} {ks : List Nat} {t : WorkerThread F A} (hk : wq.workers[k]? = some t)
    {r : WorkqueueStruct F A × List (WqEvent F A)} (hr : wq.workerSection k ks t.pc = some r) :
    r.1.stepsLeft w + 1 = wq.stepsLeft w := by
  obtain ⟨wq₁, h1, rfl⟩ := Option.map_eq_some_iff.1 hr
  have hsame : wq₁.stepsLeft w = wq.stepsLeft w ∧ wq₁.workers = wq.workers ∧ t.pc.stepsLeft w = 1 := by
    rcases wq.workerResume_cases h1 with ⟨hp, rfl⟩ | ⟨hp, rfl⟩ | ⟨hp, rfl⟩ <;> rw [hp] <;> exact ⟨rfl, rfl, rfl⟩
  obtain ⟨hleft, hworkers, hone⟩ := hsame
  have hk₁ : wq₁.workers[k]? = some t := hworkers ▸ hk
  rcases wq₁.workerLoop_cases k with ⟨-, -, he⟩ | ⟨-, hne, he⟩ | ⟨-, -, he⟩
  · rw [he]
    have := stepsLeft_setPc { wq₁ with nrOnlineWorkers := wq₁.nrOnlineWorkers - 1 } w hk₁ .exited
    rw [hone] at this
    exact this.trans hleft
  · rw [he]
    have hmove := stepsLeft_setPc { wq₁ with head := wq₁.head + 1, nrRunningWorkers := wq₁.nrRunningWorkers + 1 } w hk₁
      (.holding .taken (wq₁.workList (slotOf wq₁.attr.mask wq₁.head)))
    have hpop : stepsLeft w { wq₁ with head := wq₁.head + 1, nrRunningWorkers := wq₁.nrRunningWorkers + 1 } + w =
        wq₁.stepsLeft w := by
      simp only [stepsLeft]
      rw [occupancy_pop hne, Nat.mul_succ]
      omega
    rw [hone] at hmove
    rw [← hleft, ← hpop]
    exact hmove
  · rw [he]
    have := stepsLeft_setPc { wq₁ with
      waiters := if wq₁.waitAllIsWaiting then broadcast wq₁.waiters else wq₁.waiters
      nrSleepingWorkers := wq₁.nrSleepingWorkers + 1 } w hk₁ (.sleeping false)
    rw [hone] at this
    exact this.trans hleft

/-- A worker that goes on with its work has less left to do of it. -/
theorem stepsLeft_workerRun {w : Nat} (hw : 5 ≤ w) {k : Nat} {t : WorkerThread F A} (hk : wq.workers[k]? = some t)
    {r : WorkqueueStruct F A × List (WqEvent F A)} (hr : wq.workerRun k t.pc = some r) : r.1.stepsLeft w < wq.stepsLeft w := by
  have hmove : ∀ pc : WorkerPc F A, pc.stepsLeft w < t.pc.stepsLeft w → (wq.setPc k pc).stepsLeft w < wq.stepsLeft w := by
    intro pc hlt
    have := stepsLeft_setPc wq w hk pc
    omega
  cases hp : t.pc with
  | holding st work =>
    rw [hp] at hr hmove
    cases st <;> simp only [workerRun] at hr
    · split at hr <;> cases hr <;> exact hmove _ (by simp only [WorkerPc.stepsLeft]; omega)
    · cases hr
      exact hmove _ (by simp only [WorkerPc.stepsLeft]; omega)
    · split at hr <;> cases hr <;> exact hmove _ (by simp only [WorkerPc.stepsLeft]; omega)
    · cases hr
      exact hmove _ (by simp only [WorkerPc.stepsLeft]; omega)
  | _ =>
    rw [hp] at hr
    cases hr

/-- A worker that has just taken a work and goes on with it has no more than four steps left. -/
theorem stepsLeft_workerRun_taken (w : Nat) {k : Nat} {t : WorkerThread F A} (hk : wq.workers[k]? = some t)
    {work : WorkStruct F A} (hp : t.pc = .holding .taken work) {r : WorkqueueStruct F A × List (WqEvent F A)}
    (hr : wq.workerRun k t.pc = some r) : r.1.stepsLeft w + w ≤ wq.stepsLeft w + 4 := by
  have hmove : ∀ pc : WorkerPc F A, (wq.setPc k pc).stepsLeft w + w = wq.stepsLeft w + pc.stepsLeft w := by
    intro pc
    have := stepsLeft_setPc wq w hk pc
    rwa [hp] at this
  rw [hp] at hr
  simp only [workerRun] at hr
  split at hr
  · cases hr
    exact Nat.le_of_eq (hmove _)
  · cases hr
    have : (wq.setPc k (.holding .ran work)).stepsLeft w + w = wq.stepsLeft w + 3 := hmove _
    show (wq.setPc k (.holding .ran work)).stepsLeft w + w ≤ _
    omega

/-- Every step of a worker leaves it less to do. -/
theorem stepsLeft_step {w : Nat} (hw : 5 ≤ w) (ha : a.isWorker = true) (hs : wq.step a = some (wq', ev)) :
    wq'.stepsLeft w < wq.stepsLeft w := by
  obtain ⟨r, rfl, rfl, hc⟩ := wq.step_result hs
  cases hc with
  | worker hk hr => exact Nat.lt_of_succ_le (Nat.le_of_eq (stepsLeft_workerSection w hk hr))
  | run hk hr => exact stepsLeft_workerRun hw hk hr
  | _ => nomatch ha

/-- The workers come to rest. -/
theorem workers_descend : (machine F A).Descends (fun _ => True) (fun a => a.isWorker = true) (stepsLeft 5) where
  kept := fun _ _ _ _ _ _ _ => trivial
  less := fun _ _ _ _ _ ha hs => stepsLeft_step (Nat.le_refl 5) ha hs

theorem stepsLeft_le {w : Nat} (hw : 5 ≤ w) (wq : WorkqueueStruct F A) :
    wq.stepsLeft w ≤ w * (wq.pendingWorks.length + wq.workers.length) := by
  have hpool := poolWeight_le (w := fun t : WorkerThread F A => t.pc.stepsLeft w) wq.workers (fun t => t.pc.stepsLeft_le hw)
  have hlen : wq.pendingWorks.length = occupancy wq.head wq.tail := window_length _ _ _ _
  rw [stepsLeft, hlen, Nat.mul_add]
  omega

/-! ## New works -/

theorem stepsLeft_wake_le (w : Nat) (pc : WorkerPc F A) : pc.wake.stepsLeft w ≤ pc.stepsLeft w + 1 := by
  cases pc with
  | sleeping b => exact Nat.le_add_left _ _
  | _ => exact Nat.le_succ _

/-- What `arm_worker` adds is no more than a step for each worker. -/
theorem poolWeight_armed (w : Nat) {ks : List Nat} {l l' : List (WorkerThread F A)} (ha : Armed ks l l') :
    poolWeight (fun t => t.pc.stepsLeft w) l' ≤ poolWeight (fun t => t.pc.stepsLeft w) l + l.length := by
  cases ha with
  | same => exact Nat.le_add_right _ _
  | @spawn k t pc hk _ hpc =>
    have hset : poolWeight (fun t => t.pc.stepsLeft w) (l.set k ⟨true, pc⟩) + t.pc.stepsLeft w =
      poolWeight (fun t => t.pc.stepsLeft w) l + pc.stepsLeft w := poolWeight_set (fun t => t.pc.stepsLeft w) hk ⟨true, pc⟩
    have hone : pc.stepsLeft w ≤ 1 := by
      rcases hpc with rfl | rfl
      · exact Nat.le_refl 1
      · exact Nat.zero_le 1
    have hpos : 0 < l.length := Nat.lt_of_le_of_lt (Nat.zero_le k) (List.getElem?_eq_some_iff.1 hk).1
    omega
  | signal => exact poolWeight_woken (fun t => stepsLeft_wake_le w t.pc) (signal_woken ks l)

/-- A critical section of `queue_work`: the call returns, with one more work to do and workers notified for it or not; or it goes to sleep
and nothing else changes. -/
theorem stepsLeft_queuer (w : Nat) (hi : Inv wq) {i : Nat} {ks : List Nat} {threadCreate : Int}
    (hs : wq.step (.queuer i ks threadCreate) = some (wq', ev)) :
    ∃ c pc, wq.callers[i]? = some c ∧ (c.pc = .entering ∨ c.pc = .sleeping true) ∧ wq'.callers = wq.callers.set i ⟨c.work, pc⟩ ∧
      ((∃ ret, pc = .returned ret) ∧ wq'.stepsLeft w ≤ wq.stepsLeft w + w + wq.workers.length ∨
        pc = .sleeping false ∧ wq'.stepsLeft w = wq.stepsLeft w) := by
  obtain ⟨r, rfl, rfl, hc⟩ := wq.step_result hs
  cases hc with
  | @queuer _ _ _ c _ hci hr =>
    obtain ⟨hpc, nQ, -, hcases⟩ := wq.queuerSection_cases hr
    rcases hcases with ⟨-, rfl⟩ | ⟨-, -, rfl⟩ | ⟨-, -, hroom, l, rfl, harmed, -⟩
    · refine ⟨c, _, hci, hpc, rfl, Or.inl ⟨⟨_, rfl⟩, ?_⟩⟩
      show wq.stepsLeft w ≤ _
      omega
    · exact ⟨c, _, hci, hpc, rfl, Or.inr ⟨rfl, rfl⟩⟩
    · refine ⟨c, _, hci, hpc, rfl, Or.inl ⟨⟨_, rfl⟩, ?_⟩⟩
      have hlt := occupancy_lt_of_absDiff_lt wq.attr.maxPendingWorks_le hi.occupancy_le hroom
      have hpush := occupancy_push wq.attr.maxPendingWorks_le hlt
      have hpool := poolWeight_armed w harmed
      show w * occupancy wq.head (wq.tail + 1) + poolWeight (fun t => t.pc.stepsLeft w) l ≤ _
      rw [hpush, Nat.mul_succ, stepsLeft]
      omega

/-- A worker that is woken without a notification has one more step to take, or less. -/
theorem stepsLeft_spuriousWorker (w : Nat) {k : Nat} (hs : wq.step (.spuriousWorker k) = some (wq', ev)) :
    wq'.stepsLeft w ≤ wq.stepsLeft w + 1 ∧ wq'.callers = wq.callers := by
  obtain ⟨r, rfl, rfl, hc⟩ := wq.step_result hs
  cases hc
  refine ⟨?_, rfl⟩
  show w * occupancy wq.head wq.tail + poolWeight (fun t => t.pc.stepsLeft w) (wq.workers.modify k Sleeper.wake) ≤ _
  unfold stepsLeft
  cases hk : wq.workers[k]? with
  | none =>
    rw [List.modify_eq_self (List.getElem?_eq_none_iff.1 hk)]
    exact Nat.le_succ _
  | some t =>
    have hset := poolWeight_set (fun t : WorkerThread F A => t.pc.stepsLeft w) hk (Sleeper.wake t)
    have hwake := stepsLeft_wake_le w t.pc
    change _ + t.pc.stepsLeft w = _ + t.pc.wake.stepsLeft w at hset
    rw [modify_eq_set Sleeper.wake hk]
    omega

/-! ## Workers at rest -/

/-- What a worker that is awake does next. -/
def nextAct (k : Nat) : WorkerPc F A → Act F A
  | .holding _ _ => .run k
  | _ => .worker k []

/-- A worker that is awake has a step to take, unless the queue is freed. -/
theorem step_nextAct_ne_none (hd : wq.destroyer ≠ .done) {k : Nat} {t : WorkerThread F A} (hk : wq.workers[k]? = some t)
    (ht : t.pc.isAwake = true) : wq.step (nextAct k t.pc) ≠ none := by
  cases hp : t.pc with
  | holding st work =>
    cases st <;> simp only [nextAct, step, if_neg hd, hk, hp, workerRun]
    · split <;> simp
    · simp
    · split <;> simp
    · simp
  | starting | finishing =>
    simp only [nextAct, step, if_neg hd, hk, hp, workerSection, workerResume]
    simp
  | sleeping b =>
    cases b with
    | true =>
      simp only [nextAct, step, if_neg hd, hk, hp, workerSection, workerResume]
      simp
    | false =>
      rw [hp] at ht
      cases ht
  | _ =>
    rw [hp] at ht
    cases ht

theorem isWorker_nextAct (k : Nat) (pc : WorkerPc F A) : (nextAct k pc).isWorker = true := by
  cases pc <;> rfl

/-- When the workers are at rest none is awake: one that is could go on, and after the joins they have all left. -/
theorem not_awake_of_settled (hj : Joined wq) (h : (machine F A).Settled (fun a => a.isWorker = true) wq) :
    ∀ t ∈ wq.workers, t.pc.isAwake = false := by
  intro t ht
  obtain ⟨k, hk⟩ := List.mem_iff_getElem?.1 ht
  rw [← Bool.not_eq_true]
  intro hawake
  by_cases hd : wq.destroyer = .done
  · have hgone := hj k t hk (by rw [hasJoined, hd])
    exact Bool.false_ne_true ((WorkerPc.not_isGone_of_isAwake hawake).symm.trans hgone)
  · exact step_nextAct_ne_none hd hk hawake (h _ (isWorker_nextAct k t.pc))

/-- A queue with a thread, none of whose workers is awake, has nothing to do. -/
theorem quiet_of_not_awake (hi : Inv wq) (halive : Alive wq) (hthread : HasThread wq.workers)
    (h : ∀ t ∈ wq.workers, t.pc.isAwake = false) : wq.countPendingWorks = 0 ∧ wq.nrRunningWorkers = 0 := by
  refine ⟨absDiff_eq_zero_iff.2 ?_, hi.nrRunningWorkers_eq_zero_iff.2 (List.countP_eq_zero.2 fun t ht hrun => ?_)⟩
  · by_contra hne
    by_cases hstop : wq.shouldStop = true
    · exact hne (hi.stopped hstop)
    · obtain ⟨t, ht, hta⟩ := halive (Bool.not_eq_true _ ▸ hstop) hthread hne
      exact absurd ((h t ht).symm.trans hta) nofun
  · exact absurd ((h t ht).symm.trans (WorkerPc.isAwake_of_isRunning hrun)) nofun

/-- The work of call `i` of `queue_work` has left the queue: it has been run to its end, or the queue has stopped and it was dropped. -/
structure Done (wq : WorkqueueStruct F A) (log : List (WqEvent F A)) (i : Nat) (work : WorkStruct F A) : Prop where
  left : countOfCall .fin i log + countOfCall .drop i log = 1
  del : countOfCall .del i log = if work.deleter.isSome then 1 else 0
  run : wq.shouldStop = false → RunToEnd log i work

/-- From any state that a workqueue with a worker reaches: its workers, left to themselves, take no more than five steps for each work
pending and each thread; they can be carried on until none has a step left; and wherever they come to rest nothing is pending, and the
work of every call of `queue_work` that returned 0 is done. -/
theorem accepted_works_get_done {attrArg : WorkqueueAttr} {env : AllocEnv} {wq₀ wq : WorkqueueStruct F A} {log : List (WqEvent F A)}
    (h0 : allocWorkqueue attrArg env = some (.ok wq₀))
    (hn : 1 ≤ wq₀.attr.minThreads.toNat ∨ wq₀.attr.flags &&& WQ_F_LAZY_THREAD_CREATION = 0)
    (h : (machine F A).Reach wq₀ wq log) :
    (∀ as wq' log', (∀ a ∈ as, a.isWorker = true) → (machine F A).exec wq as = some (wq', log') →
      as.length ≤ 5 * (wq.pendingWorks.length + wq.workers.length)) ∧
    (∃ as wq' log', (machine F A).exec wq as = some (wq', log') ∧ (∀ a ∈ as, a.isWorker = true) ∧
      (machine F A).Settled (fun a => a.isWorker = true) wq') ∧
    ∀ wq' log', (machine F A).Run (fun _ a => a.isWorker = true) wq wq' log' →
      (machine F A).Settled (fun a => a.isWorker = true) wq' → wq'.pendingWorks = [] ∧
        ∀ i c, wq'.callers[i]? = some c → c.pc = .returned 0 → Done wq' (log ++ log') i c.work := by
  have hfresh := allocWorkqueue_fresh h0
  have hpos : 0 < wq₀.attr.nrThreadToCreate.toNat := by
    unfold AcceptedAttr.nrThreadToCreate
    split
    · rename_i hlazy
      exact hn.resolve_right hlazy
    · exact wq₀.attr.maxThreads_pos
  refine ⟨fun as wq' log' hworker he => ?_, workers_descend.exists_settled trivial, fun wq' log' hrest hset => ?_⟩
  · have hlen := (workers_descend.length_le trivial hworker he).1
    have hle := stepsLeft_le (Nat.le_refl 5) wq
    omega
  · have hrun := h.trans hrest.reach
    have hinv := Inv.of_run hfresh hrun
    have hend := quiet_of_not_awake hinv (Alive.of_run hfresh hrun) (HasThread.of_run hfresh hpos hrun)
      (not_awake_of_settled (Joined.of_run hfresh hrun) hset)
    obtain ⟨hpending, hheld⟩ := view_of_quiet hinv hend
    refine ⟨hpending, fun i c hi hret => ?_⟩
    have honce := (runsOnce_of_run hfresh hrun hi hret).once
    have hp : JobQueue.pendingCount (fun work => work.call == i) wq'.view = 0 := by
      rw [JobQueue.pendingCount, hpending]
      rfl
    have hh := JobQueue.heldCount_eq_zero (fun work => work.call == i) hheld
    have hplaced := honce.placed
    rw [hp, hh, Nat.zero_add] at hplaced
    exact ⟨hplaced, (honce.settled hp hh).1, fun hstop => runToEnd_of_quiet hfresh hrun hstop hend hi hret⟩

/-- One worker, which has not started yet, and one work for it. -/
theorem accepted_works_get_done_small : ∃ (wq₀ wq : WorkqueueStruct Unit Unit) (log : List (WqEvent Unit Unit)),
    allocWorkqueue smallAttr AllocEnv.ok = some (.ok wq₀) ∧ (machine Unit Unit).Reach wq₀ wq log ∧ wq.pendingWorks.length = 1 ∧
    ∃ as wq' log', (machine Unit Unit).exec wq as = some (wq', log') ∧ as.length ≤ 10 ∧ wq'.pendingWorks = [] := by
  have hrun : ∃ wq₀ : WorkqueueStruct Unit Unit, allocWorkqueue smallAttr AllocEnv.ok = some (.ok wq₀) ∧
      wq₀.attr.flags &&& WQ_F_LAZY_THREAD_CREATION = 0 ∧
      ((machine Unit Unit).exec wq₀ [.queueWork (some ()) none (some ()), .queuer 0 [] 0]).map
        (fun r => (r.1.pendingWorks.length, r.1.workers.length)) = some (1, 1) := by
    refine ⟨_, rfl, ?_⟩
    decide
  obtain ⟨wq₀, h0, hn, he⟩ := hrun
  obtain ⟨wq, log, h, hval⟩ := Machine.exists_of_exec
    (fun (wq : WorkqueueStruct Unit Unit) _ => (wq.pendingWorks.length, wq.workers.length)) he
  obtain ⟨hpending, hworkers⟩ := Prod.mk.inj hval
  obtain ⟨hbound, ⟨as, wq', log', hexec, hworker, hset⟩, hdone⟩ := accepted_works_get_done h0 (Or.inr hn) h
  have hlen := hbound as wq' log' hworker hexec
  rw [hpending, hworkers] at hlen
  exact ⟨wq₀, wq, log, h0, h, hpending, as, wq', log', hexec, hlen, (hdone wq' log' (Machine.run_of_exec hexec hworker) hset).1⟩

end WorkqueueStruct

end GwBot

import GwBot.Workqueue.Defs

/-!
# What each critical section does

One case lemma for each function of the workqueue, so that no later proof unfolds the code again, and the workqueue seen as a
queue of jobs (`WorkqueueStruct.view`): the window of the work list and what each worker holds.
-/

namespace GwBot

open Lib

variable {F A : Type}

/-! ## Thread states -/

/-- The worker entered `cond_wait` and has not got the lock back. -/
def WorkerPc.isSleeping : WorkerPc F A → Bool
  | .sleeping _ => true
  | _ => false

/-- The worker took a work and has not accounted for it. -/
def WorkerPc.isRunning : WorkerPc F A → Bool
  | .holding _ _ => true
  | .finishing => true
  | _ => false

/-- The work in the worker's local copy, and how far it is with it. -/
def WorkerPc.held : WorkerPc F A → Option (Stage × WorkStruct F A)
  | .holding st work => some (st, work)
  | _ => none

/-- The call entered `cond_wait` and has not got the lock back. -/
def CallPc.isSleeping : CallPc → Bool
  | .sleeping _ => true
  | _ => false

/-- A notification alone does not take a worker out of its `cond_wait`. -/
@[simp] theorem WorkerPc.isSleeping_wake (pc : WorkerPc F A) : pc.wake.isSleeping = pc.isSleeping := by
  cases pc <;> rfl

/-- Nor does it start or end a work. -/
@[simp] theorem WorkerPc.isRunning_wake (pc : WorkerPc F A) : pc.wake.isRunning = pc.isRunning := by
  cases pc <;> rfl

@[simp] theorem WorkerPc.held_wake (pc : WorkerPc F A) : pc.wake.held = pc.held := by
  cases pc <;> rfl

@[simp] theorem CallPc.isSleeping_wake (pc : CallPc) : pc.wake.isSleeping = pc.isSleeping := by
  cases pc <;> rfl

/-- Who waits for a notification is in a `cond_wait`. -/
theorem WorkerPc.isSleeping_of_asleep (pc : WorkerPc F A) (h : pc.asleep = true) : pc.isSleeping = true := by
  cases pc <;> first | rfl | nomatch h

theorem CallPc.isSleeping_of_asleep (pc : CallPc) (h : pc.asleep = true) : pc.isSleeping = true := by
  cases pc <;> first | rfl | nomatch h

/-- What a wake changes of a thread is where it stands. -/
@[simp] theorem WorkerThread.wake_pc (t : WorkerThread F A) : (Sleeper.wake t).pc = t.pc.wake := rfl

@[simp] theorem WorkerThread.wake_wq (t : WorkerThread F A) : (Sleeper.wake t).wq = t.wq := rfl

@[simp] theorem QueueCall.wake_pc (c : QueueCall F A) : (Sleeper.wake c).pc = c.pc.wake := rfl

@[simp] theorem QueueCall.wake_work (c : QueueCall F A) : (Sleeper.wake c).work = c.work := rfl

/-- A wake brings no worker to a place other than its `cond_wait`. -/
theorem WorkerPc.wake_eq_iff {pc pc' : WorkerPc F A} (h : ∀ b, pc' ≠ .sleeping b) : pc.wake = pc' ↔ pc = pc' := by
  cases pc with
  | sleeping b => exact ⟨fun e => absurd e.symm (h true), fun e => absurd e.symm (h b)⟩
  | _ => exact Iff.rfl

/-- Modifying a thread that is there is setting it. -/
theorem modify_eq_set {β : Type} {l : List β} {k : Nat} {x : β} (f : β → β) (h : l[k]? = some x) :
    l.modify k f = l.set k (f x) := by
  apply List.ext_getElem?
  intro i
  rw [List.getElem?_modify, List.getElem?_set]
  by_cases hik : k = i
  · subst hik
    obtain ⟨hlt, rfl⟩ := List.getElem?_eq_some_iff.1 h
    simp [hlt]
  · simp [hik]

/-- A spurious wake-up is a notification of one thread. -/
theorem modify_woken {τ : Type} [Sleeper τ] (l : List τ) (k : Nat) : Woken l (l.modify k Sleeper.wake) := by
  induction l generalizing k with
  | nil =>
    rw [List.modify_nil]
    exact List.Forall₂.nil
  | cons x xs ih =>
    cases k with
    | zero => exact List.Forall₂.cons (Or.inr rfl) (Woken.refl xs)
    | succ k => exact List.Forall₂.cons (Or.inl rfl) (ih k)

/-- What an event says about a work. -/
def WqEvent.job? : WqEvent F A → Option (JobEvent (WorkStruct F A))
  | .job e => some e
  | _ => none

/-- What a log says about the works. -/
def jobLog (log : List (WqEvent F A)) : List (JobEvent (WorkStruct F A)) := log.filterMap WqEvent.job?

@[simp] theorem jobLog_singleton (e : JobEvent (WorkStruct F A)) : jobLog [.job e] = [e] := rfl

/-- The events of the works, of two logs. -/
theorem jobLog_append (l l' : List (WqEvent F A)) : jobLog (l ++ l') = jobLog l ++ jobLog l' := List.filterMap_append

theorem jobLog_map_job (l : List (JobEvent (WorkStruct F A))) : jobLog (l.map .job) = l := by
  unfold jobLog
  induction l with
  | nil => rfl
  | cons e es ih =>
    rw [List.map_cons, List.filterMap_cons, ih]
    rfl

namespace WorkqueueStruct

variable (wq : WorkqueueStruct F A)

/-- The works pending in the work list, oldest first. -/
def pendingWorks : List (WorkStruct F A) := window wq.workList wq.attr.mask wq.head wq.tail

/-- The workqueue as a queue of jobs. -/
def view : JobQueue (WorkStruct F A) := ⟨wq.pendingWorks, wq.workers.map (·.pc.held)⟩

/-- To move a worker is to replace it in the table. -/
theorem setPc_workers {k : Nat} {t : WorkerThread F A} (h : wq.workers[k]? = some t) (pc : WorkerPc F A) :
    (wq.setPc k pc).workers = wq.workers.set k { t with pc := pc } :=
  modify_eq_set _ h

/-- And it is found there. -/
theorem setPc_getElem? {k : Nat} {t : WorkerThread F A} (h : wq.workers[k]? = some t) (pc : WorkerPc F A) :
    (wq.setPc k pc).workers[k]? = some { t with pc := pc } := by
  rw [wq.setPc_workers h]
  exact List.getElem?_set_self (List.getElem?_eq_some_iff.1 h).1

/-! ## The case lemmas -/

/-- What the first free slot is. -/
theorem getFreeWorkerSlot_some {k : Nat} (h : wq.getFreeWorkerSlot = some k) :
    ∃ t, wq.workers[k]? = some t ∧ t.wq = false := by
  obtain ⟨hlt, hk, -⟩ := List.findIdx?_eq_some_iff_getElem.1 h
  exact ⟨wq.workers[k], List.getElem?_eq_getElem hlt, by simpa using hk⟩

/-- How `arm_worker` changes the table of workers: not at all, by a slot that is claimed, or by a signal. -/
inductive Armed (ks : List Nat) : List (WorkerThread F A) → List (WorkerThread F A) → Prop where
  | same (l : List (WorkerThread F A)) : Armed ks l l
  | spawn {l : List (WorkerThread F A)} {k : Nat} {t : WorkerThread F A} (pc : WorkerPc F A) : l[k]? = some t → t.wq = false →
      pc = .starting ∨ pc = .noThread → Armed ks l (l.set k ⟨true, pc⟩)
  | signal (l : List (WorkerThread F A)) : Armed ks l (signal ks l)

/-- `arm_worker` signals when it counts a sleeper, and tries to spawn otherwise. -/
theorem armWorker_cases (ks : List Nat) (threadCreate : Int) :
    ∃ l, (wq.armWorker ks threadCreate).1 = { wq with workers := l } ∧ Armed ks wq.workers l ∧
      (wq.nrSleepingWorkers ≠ 0 → l = signal ks wq.workers) := by
  unfold armWorker armSpawnWorker
  split
  · rename_i h0
    split
    · exact ⟨wq.workers, rfl, Armed.same _, fun h => absurd h0 h⟩
    · rename_i k hk
      obtain ⟨t, ht, hf⟩ := wq.getFreeWorkerSlot_some hk
      refine ⟨_, rfl, Armed.spawn _ ht hf ?_, fun h => absurd h0 h⟩
      split
      · exact Or.inl rfl
      · exact Or.inr rfl
  · exact ⟨_, rfl, Armed.signal _, fun _ => rfl⟩

/-- The queue after `work` is stored and the table of workers has become `l`. -/
def accepted (work : WorkStruct F A) (l : List (WorkerThread F A)) : WorkqueueStruct F A :=
  { wq with
    workList := writeSlot wq.workList (slotOf wq.attr.mask wq.tail) work
    tail := wq.tail + 1
    workers := l }

/-- The three ends of `try_queue_work_locked`. -/
theorem tryQueueWorkLocked_cases (work : WorkStruct F A) (ks : List Nat) (threadCreate : Int) :
    (wq.shouldStop = true ∧ wq.tryQueueWorkLocked work ks threadCreate = (wq, -EOWNERDEAD)) ∨
    (wq.shouldStop = false ∧ (wq.queueIsBlocked = true ∨ wq.attr.maxPendingWorks.toNat ≤ wq.countPendingWorks) ∧
      wq.tryQueueWorkLocked work ks threadCreate = (wq, -EAGAIN)) ∨
    (wq.shouldStop = false ∧ wq.queueIsBlocked = false ∧ wq.countPendingWorks < wq.attr.maxPendingWorks.toNat ∧
      ∃ l, wq.tryQueueWorkLocked work ks threadCreate = (wq.accepted work l, 0) ∧ Armed ks wq.workers l ∧
        (wq.nrSleepingWorkers ≠ 0 → l = signal ks wq.workers)) := by
  unfold tryQueueWorkLocked
  by_cases hs : wq.shouldStop = true
  · exact Or.inl ⟨hs, if_pos hs⟩
  · rw [if_neg hs]
    rw [Bool.not_eq_true] at hs
    by_cases hb : wq.queueIsBlocked = true
    · exact Or.inr (Or.inl ⟨hs, Or.inl hb, if_pos hb⟩)
    · rw [if_neg hb]
      rw [Bool.not_eq_true] at hb
      by_cases hc : wq.countPendingWorks ≥ wq.attr.maxPendingWorks.toNat
      · exact Or.inr (Or.inl ⟨hs, Or.inr hc, if_pos hc⟩)
      · rw [if_neg hc]
        obtain ⟨l, h1, h2, h3⟩ := armWorker_cases
          { wq with
            workList := writeSlot wq.workList (slotOf wq.attr.mask wq.tail) work
            tail := wq.tail + 1 } ks threadCreate
        exact Or.inr (Or.inr ⟨hs, hb, Nat.lt_of_not_le hc, l, congrArg (·, 0) h1, h2, h3⟩)

/-- The three ends of a round of `queue_work`: refused because the queue stops, asleep, or accepted. -/
theorem queueWorkRound_cases (i : Nat) (work : WorkStruct F A) (ks : List Nat) (threadCreate : Int) :
    (wq.shouldStop = true ∧ wq.queueWorkRound i work ks threadCreate =
      ({ wq with callers := wq.callers.set i ⟨work, .returned (-EOWNERDEAD)⟩ }, [])) ∨
    (wq.shouldStop = false ∧ (wq.queueIsBlocked = true ∨ wq.attr.maxPendingWorks.toNat ≤ wq.countPendingWorks) ∧
      wq.queueWorkRound i work ks threadCreate =
        ({ wq with
            nrSleepingQueuers := wq.nrSleepingQueuers + 1
            callers := wq.callers.set i ⟨work, .sleeping false⟩ }, [])) ∨
    (wq.shouldStop = false ∧ wq.queueIsBlocked = false ∧ wq.countPendingWorks < wq.attr.maxPendingWorks.toNat ∧
      ∃ l, wq.queueWorkRound i work ks threadCreate =
          ({ wq.accepted work l with callers := wq.callers.set i ⟨work, .returned 0⟩ }, [.job ⟨.accept, work⟩]) ∧
        Armed ks wq.workers l ∧ (wq.nrSleepingWorkers ≠ 0 → l = signal ks wq.workers)) := by
  unfold queueWorkRound
  rcases wq.tryQueueWorkLocked_cases work ks threadCreate with ⟨hs, h⟩ | ⟨hs, hb, h⟩ | ⟨hs, hb, hc, l, h, h1, h2⟩
  · refine Or.inl ⟨hs, ?_⟩
    rw [h]
    rfl
  · refine Or.inr (Or.inl ⟨hs, hb, ?_⟩)
    rw [h]
    rfl
  · refine Or.inr (Or.inr ⟨hs, hb, hc, l, ?_, h1, h2⟩)
    rw [h]
    rfl

/-- The three ends of the loop of a worker: it leaves, takes the oldest work, or goes to sleep. -/
theorem workerLoop_cases (k : Nat) :
    (wq.shouldStop = true ∧ wq.queueIsBlocked = false ∧ wq.workerLoop k =
      ({ wq with nrOnlineWorkers := wq.nrOnlineWorkers - 1 }.setPc k .exited, [])) ∨
    ((wq.shouldStop = true → wq.queueIsBlocked = true) ∧ wq.head ≠ wq.tail ∧ wq.workerLoop k =
      ({ wq with
          head := wq.head + 1
          nrRunningWorkers := wq.nrRunningWorkers + 1 }.setPc k
            (.holding .taken (wq.workList (slotOf wq.attr.mask wq.head))),
        [.job ⟨.take, wq.workList (slotOf wq.attr.mask wq.head)⟩])) ∨
    ((wq.shouldStop = true → wq.queueIsBlocked = true) ∧ wq.head = wq.tail ∧ wq.workerLoop k =
      ({ wq with
          waiters := if wq.waitAllIsWaiting then broadcast wq.waiters else wq.waiters
          nrSleepingWorkers := wq.nrSleepingWorkers + 1 }.setPc k (.sleeping false), [])) := by
  by_cases hs : (wq.shouldStop && !wq.queueIsBlocked) = true
  · have h : wq.waitForEvent = (wq, .returnFalse) := if_pos hs
    rw [Bool.and_eq_true, Bool.not_eq_true'] at hs
    exact Or.inl ⟨hs.1, hs.2, by simp only [workerLoop, h]⟩
  · have hb : wq.shouldStop = true → wq.queueIsBlocked = true := by
      intro h1
      rw [h1, Bool.true_and, Bool.not_eq_true', Bool.not_eq_false] at hs
      exact hs
    by_cases ht : wq.head ≠ wq.tail
    · have h : wq.waitForEvent = (wq, .returnTrue) := (if_neg hs).trans (if_pos ht)
      exact Or.inr (Or.inl ⟨hb, ht, by simp only [workerLoop, h]⟩)
    · refine Or.inr (Or.inr ⟨hb, not_not.1 ht, ?_⟩)
      have h : wq.waitForEvent = _ := (if_neg hs).trans (if_neg ht)
      simp only [workerLoop, h]

/-- `clear_pending_works` empties the window, oldest first. -/
theorem clearLoop_eq (n : Nat) (head : UInt32) (h : n = occupancy head wq.tail) :
    wq.clearLoop n head = (wq.tail, entriesFrom wq.workList wq.attr.mask head n) := by
  induction n generalizing head with
  | zero =>
    have : head = wq.tail := occupancy_eq_zero_iff.1 h.symm
    rw [this]
    rfl
  | succ n ih =>
    have hne : head ≠ wq.tail := fun e => by rw [e, occupancy_self] at h; omega
    have hpop := occupancy_pop hne
    rw [clearLoop, if_pos hne, ih (head + 1) (by omega)]
    rfl

/-- `clear_pending_works` drops all that is pending, and logs each. -/
theorem clearPendingWorks_eq : wq.clearPendingWorks =
    ({ wq with head := wq.tail },
      (wq.pendingWorks.flatMap (JobQueue.dropEvents (fun work => work.deleter.isSome))).map .job) := by
  unfold clearPendingWorks
  rw [wq.clearLoop_eq _ _ rfl]
  rfl

/-- The first critical section of `destroy_workqueue`: the pending works are dropped, and every sleeping worker and, when one is
said to wait, every sleeping `wait_all_work_done` call is notified. -/
theorem destroySection_eq (ks : List Nat) : wq.destroySection ks =
    ({ wq with
        shouldStop := true
        head := wq.tail
        destroyer := .joining 0
        workers := if wq.nrSleepingWorkers = 1 then signal ks wq.workers
          else if wq.nrSleepingWorkers > 1 then broadcast wq.workers
          else wq.workers
        waiters := if wq.waitAllIsWaiting then broadcast wq.waiters else wq.waiters },
      (wq.pendingWorks.flatMap (JobQueue.dropEvents (fun work => work.deleter.isSome))).map .job) := by
  unfold destroySection
  rw [clearPendingWorks_eq]
  rfl

/-- What a worker changes when it gets the lock: its counter, and, coming back from a work, the notified callers of `queue_work`. -/
theorem workerResume_cases {ks : List Nat} {pc : WorkerPc F A} {wq' : WorkqueueStruct F A}
    (h : wq.workerResume ks pc = some wq') :
    (pc = .starting ∧ wq' = { wq with nrOnlineWorkers := wq.nrOnlineWorkers + 1 }) ∨
    (pc = .sleeping true ∧ wq' = { wq with nrSleepingWorkers := wq.nrSleepingWorkers - 1 }) ∨
    (pc = .finishing ∧ wq' =
      { wq with
        nrRunningWorkers := wq.nrRunningWorkers - 1
        callers :=
          if wq.nrRunningWorkers - 1 = 0 then wq.callers
          else if wq.nrSleepingQueuers = 1 then signal ks wq.callers
          else if wq.nrSleepingQueuers > 1 then broadcast wq.callers
          else wq.callers }) := by
  cases pc with
  | noThread => nomatch h
  | starting => exact Or.inl ⟨rfl, (Option.some.inj h).symm⟩
  | sleeping b =>
    cases b with
    | false => nomatch h
    | true => exact Or.inr (Or.inl ⟨rfl, (Option.some.inj h).symm⟩)
  | holding st work => nomatch h
  | finishing =>
    refine Or.inr (Or.inr ⟨rfl, ?_⟩)
    rw [← Option.some.inj h]
    unfold wakeUpAllQueueWorkCallers
    simp only
    split <;> rfl
  | exited => nomatch h

/-- The three ends of a critical section of a call of `queue_work`, which starts by leaving the count of the sleeping ones. -/
theorem queuerSection_cases {i : Nat} {ks : List Nat} {threadCreate : Int} {c : QueueCall F A}
    {r : WorkqueueStruct F A × List (WqEvent F A)} (h : wq.queuerSection i ks threadCreate c = some r) :
    (c.pc = .entering ∨ c.pc = .sleeping true) ∧ ∃ nQ, nQ = wq.nrSleepingQueuers - (if c.pc.isSleeping then 1 else 0) ∧
    ((wq.shouldStop = true ∧ r =
      ({ wq with nrSleepingQueuers := nQ, callers := wq.callers.set i ⟨c.work, .returned (-EOWNERDEAD)⟩ }, [])) ∨
    (wq.shouldStop = false ∧ (wq.queueIsBlocked = true ∨ wq.attr.maxPendingWorks.toNat ≤ wq.countPendingWorks) ∧
      r = ({ wq with nrSleepingQueuers := nQ + 1, callers := wq.callers.set i ⟨c.work, .sleeping false⟩ }, [])) ∨
    (wq.shouldStop = false ∧ wq.queueIsBlocked = false ∧ wq.countPendingWorks < wq.attr.maxPendingWorks.toNat ∧
      ∃ l, r = ({ wq.accepted c.work l with
          nrSleepingQueuers := nQ
          callers := wq.callers.set i ⟨c.work, .returned 0⟩ }, [.job ⟨.accept, c.work⟩]) ∧
        Armed ks wq.workers l ∧ (wq.nrSleepingWorkers ≠ 0 → l = signal ks wq.workers))) := by
  unfold queuerSection at h
  split at h
  · rename_i hp
    have h0 : wq.nrSleepingQueuers = wq.nrSleepingQueuers - (if c.pc.isSleeping then 1 else 0) := by
      rw [hp]
      exact (UInt32.sub_zero _).symm
    refine ⟨Or.inl hp, _, h0, ?_⟩
    rw [← Option.some.inj h]
    exact wq.queueWorkRound_cases i c.work ks threadCreate
  · rename_i hp
    refine ⟨Or.inr hp, wq.nrSleepingQueuers - 1, by rw [hp]; rfl, ?_⟩
    rw [← Option.some.inj h]
    exact queueWorkRound_cases { wq with nrSleepingQueuers := wq.nrSleepingQueuers - 1 } i c.work ks threadCreate
  · nomatch h

/-- `try_queue_work_locked` would store a work. -/
def accepts (wq : WorkqueueStruct F A) : Bool :=
  !wq.shouldStop && !wq.queueIsBlocked && wq.countPendingWorks < wq.attr.maxPendingWorks.toNat

/-- `queue_work` takes a work when the queue is not stopped or blocked, and has room. -/
theorem accepts_iff : wq.accepts = true ↔
    wq.shouldStop = false ∧ wq.queueIsBlocked = false ∧ wq.countPendingWorks < wq.attr.maxPendingWorks.toNat := by
  simp [accepts, and_assoc]

/-- The table of workers after `arm_worker`. -/
inductive ArmWorker (wq : WorkqueueStruct F A) (ks : List Nat) (threadCreate : Int) : List (WorkerThread F A) → Prop where
  | full : wq.nrSleepingWorkers = 0 → wq.getFreeWorkerSlot = none → ArmWorker wq ks threadCreate wq.workers
  | spawn {k : Nat} : wq.nrSleepingWorkers = 0 → wq.getFreeWorkerSlot = some k → ArmWorker wq ks threadCreate
      (wq.workers.set k ⟨true, if threadCreate = 0 then .starting else .noThread⟩)
  | signal : wq.nrSleepingWorkers ≠ 0 → ArmWorker wq ks threadCreate (signal ks wq.workers)

/-- `arm_worker` does one of three things to the table. -/
theorem armWorker_workers (wq : WorkqueueStruct F A) (ks : List Nat) (threadCreate : Int) :
    ArmWorker wq ks threadCreate (wq.armWorker ks threadCreate).1.workers := by
  unfold armWorker armSpawnWorker
  by_cases h0 : wq.nrSleepingWorkers = 0
  · rw [if_pos h0]
    cases hk : wq.getFreeWorkerSlot with
    | none => exact ArmWorker.full h0 hk
    | some k => exact ArmWorker.spawn h0 hk
  · rw [if_neg h0]
    exact ArmWorker.signal h0

/-- Each is one of the changes that `Armed` allows. -/
theorem ArmWorker.armed {wq : WorkqueueStruct F A} {ks : List Nat} {threadCreate : Int} {l : List (WorkerThread F A)}
    (h : ArmWorker wq ks threadCreate l) : Armed ks wq.workers l := by
  cases h with
  | full => exact Armed.same _
  | spawn _ hk =>
    obtain ⟨t, ht, hf⟩ := wq.getFreeWorkerSlot_some hk
    refine Armed.spawn _ ht hf ?_
    split
    · exact Or.inl rfl
    · exact Or.inr rfl
  | signal => exact Armed.signal _

/-- What `arm_worker` does depends on the table and on the count of the sleeping workers. -/
theorem ArmWorker.frame {ks : List Nat} {threadCreate : Int} {l : List (WorkerThread F A)} {wq wq' : WorkqueueStruct F A}
    (h : ArmWorker wq' ks threadCreate l)
    (hw : wq'.workers = wq.workers) (hn : wq'.nrSleepingWorkers = wq.nrSleepingWorkers) : ArmWorker wq ks threadCreate l := by
  have hfree : wq'.getFreeWorkerSlot = wq.getFreeWorkerSlot := by
    unfold getFreeWorkerSlot
    rw [hw]
  cases h with
  | full h0 hk =>
    rw [hw]
    exact ArmWorker.full (hn ▸ h0) (hfree ▸ hk)
  | spawn h0 hk =>
    rw [hw]
    exact ArmWorker.spawn (hn ▸ h0) (hfree ▸ hk)
  | signal h0 =>
    rw [hw]
    exact ArmWorker.signal (hn ▸ h0)

/-- What a call of `queue_work` does to the table: nothing, or what `arm_worker` does for a work that is stored. -/
theorem queueWorkRound_workers (wq : WorkqueueStruct F A) (i : Nat) (work : WorkStruct F A) (ks : List Nat) (threadCreate : Int) :
    (wq.accepts = false ∧ (wq.queueWorkRound i work ks threadCreate).1.workers = wq.workers ∧
      (wq.queueWorkRound i work ks threadCreate).1.head = wq.head ∧
      (wq.queueWorkRound i work ks threadCreate).1.tail = wq.tail) ∨
    (wq.accepts = true ∧ (wq.queueWorkRound i work ks threadCreate).1.head = wq.head ∧
      (wq.queueWorkRound i work ks threadCreate).1.tail = wq.tail + 1 ∧
      ArmWorker wq ks threadCreate (wq.queueWorkRound i work ks threadCreate).1.workers) := by
  rcases wq.queueWorkRound_cases i work ks threadCreate with ⟨hs, he⟩ | ⟨hs, hb, he⟩ | ⟨hs, hb, hc, l, he, -⟩
  · rw [he]
    exact Or.inl ⟨by simp [accepts, hs], rfl, rfl, rfl⟩
  · rw [he]
    refine Or.inl ⟨?_, rfl, rfl, rfl⟩
    rcases hb with hb | hb <;> simp [accepts, hb]
  · have haccepts : wq.accepts = true := wq.accepts_iff.2 ⟨hs, hb, hc⟩
    have htry : wq.tryQueueWorkLocked work ks threadCreate = (({ wq with
        workList := writeSlot wq.workList (slotOf wq.attr.mask wq.tail) work
        tail := wq.tail + 1 }.armWorker ks threadCreate).1, 0) := by
      unfold tryQueueWorkLocked
      rw [if_neg (by rw [hs]; decide), if_neg (by rw [hb]; decide), if_neg (Nat.not_le_of_lt hc)]
    have hround : (wq.queueWorkRound i work ks threadCreate).1.workers = ({ wq with
        workList := writeSlot wq.workList (slotOf wq.attr.mask wq.tail) work
        tail := wq.tail + 1 }.armWorker ks threadCreate).1.workers := by
      unfold queueWorkRound
      rw [htry]
      rfl
    refine Or.inr ⟨haccepts, by rw [he]; rfl, by rw [he]; rfl, ?_⟩
    rw [hround]
    exact (armWorker_workers _ ks threadCreate).frame rfl rfl

/-- What a critical section of a call of `queue_work` does to the table is what its round of the loop does. -/
theorem queuerSection_workers {i : Nat} {ks : List Nat} {threadCreate : Int} {c : QueueCall F A}
    {r : WorkqueueStruct F A × List (WqEvent F A)} (h : wq.queuerSection i ks threadCreate c = some r) :
    (wq.accepts = false ∧ r.1.workers = wq.workers ∧ r.1.head = wq.head ∧ r.1.tail = wq.tail) ∨
    (wq.accepts = true ∧ r.1.head = wq.head ∧ r.1.tail = wq.tail + 1 ∧ ArmWorker wq ks threadCreate r.1.workers) := by
  unfold queuerSection at h
  split at h
  · rw [← Option.some.inj h]
    exact wq.queueWorkRound_workers i c.work ks threadCreate
  · rw [← Option.some.inj h]
    rcases queueWorkRound_workers { wq with nrSleepingQueuers := wq.nrSleepingQueuers - 1 } i c.work ks threadCreate with
      hkept | ⟨h1, h2, h3, h4⟩
    · exact Or.inl hkept
    · exact Or.inr ⟨h1, h2, h3, h4.frame rfl rfl⟩
  · nomatch h

/-- The two ends of a round of `wait_all_work_done`: it sleeps, or returns and unblocks the queue. -/
theorem waitAllRound_cases (i : Nat) :
    ((wq.countPendingWorks > 0 ∨ wq.nrRunningWorkers ≠ 0) ∧ wq.shouldStop = false ∧ wq.waitAllRound i =
      ({ wq with waitAllIsWaiting := true, waiters := wq.waiters.set i (.sleeping false) }, [])) ∨
    (((wq.countPendingWorks = 0 ∧ wq.nrRunningWorkers = 0) ∨ wq.shouldStop = true) ∧ wq.waitAllRound i =
      ({ wq with queueIsBlocked := false, waiters := wq.waiters.set i (.returned 0) }, [.waitReturn i])) := by
  unfold waitAllRound
  by_cases h : (wq.countPendingWorks > 0 ∨ wq.nrRunningWorkers ≠ 0) ∧ wq.shouldStop = false
  · exact Or.inl ⟨h.1, h.2, if_pos h⟩
  · refine Or.inr ⟨?_, if_neg h⟩
    by_cases hs : wq.shouldStop = true
    · exact Or.inr hs
    · left
      rw [Bool.not_eq_true] at hs
      simp only [hs, and_true, not_or, not_lt, Nat.le_zero, not_not] at h
      exact h

/-- A critical section of a call of `wait_all_work_done` is a round of its loop, after the queue has been blocked if the call is
only entering. -/
theorem waiterSection_cases {i : Nat} {pc : CallPc} {r : WorkqueueStruct F A × List (WqEvent F A)}
    (h : wq.waiterSection i pc = some r) :
    (pc = .entering ∧ r.1 = ({ wq with queueIsBlocked := true }.waitAllRound i).1 ∧
      r.2 = .waitEnter i :: ({ wq with queueIsBlocked := true }.waitAllRound i).2) ∨
    (pc = .sleeping true ∧ r = { wq with waitAllIsWaiting := false }.waitAllRound i) := by
  unfold waiterSection at h
  split at h
  · cases h
    exact Or.inl ⟨rfl, rfl, rfl⟩
  · cases h
    exact Or.inr ⟨rfl, rfl⟩
  · nomatch h

/-- A call of `wait_all_work_done` touches only what is its own. -/
theorem waiterSection_frame {i : Nat} {pc : CallPc} {r : WorkqueueStruct F A × List (WqEvent F A)}
    (h : wq.waiterSection i pc = some r) :
    ∃ blocked waiting waiters, r.1 =
      { wq with queueIsBlocked := blocked, waitAllIsWaiting := waiting, waiters := waiters } ∧ jobLog r.2 = [] := by
  have hround : ∀ w : WorkqueueStruct F A, ∃ blocked waiting waiters, (w.waitAllRound i).1 =
      { w with queueIsBlocked := blocked, waitAllIsWaiting := waiting, waiters := waiters } ∧
      jobLog (w.waitAllRound i).2 = [] := by
    intro w
    rcases w.waitAllRound_cases i with ⟨-, -, he⟩ | ⟨-, he⟩ <;> rw [he] <;> exact ⟨_, _, _, rfl, rfl⟩
  rcases wq.waiterSection_cases h with ⟨-, h1, h2⟩ | ⟨-, h1⟩
  · obtain ⟨blocked, waiting, waiters, h3, h4⟩ := hround { wq with queueIsBlocked := true }
    exact ⟨blocked, waiting, waiters, h1.trans h3, by rw [h2]; exact h4⟩
  · obtain ⟨blocked, waiting, waiters, h3, h4⟩ := hround { wq with waitAllIsWaiting := false }
    rw [h1]
    exact ⟨blocked, waiting, waiters, h3, h4⟩

/-- What a worker does with the work it holds: it moves on to another stage, or has done with it, and logs no more than that. -/
theorem workerRun_cases {k : Nat} {pc : WorkerPc F A} {r : WorkqueueStruct F A × List (WqEvent F A)}
    (h : wq.workerRun k pc = some r) :
    ∃ st work pc', pc = .holding st work ∧ r.1 = wq.setPc k pc' ∧ (pc' = .finishing ∨ ∃ st', pc' = .holding st' work) ∧
      (r.2 = [] ∨ ∃ kind ∈ [JobKind.call, .ret, .del, .fin], r.2 = [.job ⟨kind, work⟩]) := by
  cases pc with
  | holding st work =>
    refine ⟨st, work, ?_⟩
    cases st <;> simp only [workerRun] at h
    · split at h <;> cases h
      · exact ⟨_, rfl, rfl, Or.inr ⟨_, rfl⟩, Or.inr ⟨.call, by simp, rfl⟩⟩
      · exact ⟨_, rfl, rfl, Or.inr ⟨_, rfl⟩, Or.inl rfl⟩
    · cases h
      exact ⟨_, rfl, rfl, Or.inr ⟨_, rfl⟩, Or.inr ⟨.ret, by simp, rfl⟩⟩
    · split at h <;> cases h
      · exact ⟨_, rfl, rfl, Or.inr ⟨_, rfl⟩, Or.inr ⟨.del, by simp, rfl⟩⟩
      · exact ⟨_, rfl, rfl, Or.inl rfl, Or.inr ⟨.fin, by simp, rfl⟩⟩
    · cases h
      exact ⟨_, rfl, rfl, Or.inl rfl, Or.inr ⟨.fin, by simp, rfl⟩⟩
  | _ => nomatch h

/-- Where `join_all_workers` stands when it is done with slot `i`: past it, unless the slot is claimed and has no thread. -/
def afterJoin (t : WorkerThread F A) (i : Nat) : DestroyPc :=
  match t.wq, t.pc with
  | true, .noThread => .undefined i
  | _, _ => .joining (i + 1)

/-- A join of a slot is passed, or it is that of a thread that was never created. -/
theorem afterJoin_cases (t : WorkerThread F A) (i : Nat) : afterJoin t i = .joining (i + 1) ∨ afterJoin t i = .undefined i := by
  unfold afterJoin
  split
  · exact Or.inr rfl
  · exact Or.inl rfl

/-- What a round of `join_all_workers` finds: the end of the table, or a slot whose thread is gone, which it joins if it is claimed. -/
theorem joinRound_cases {i : Nat} {r : WorkqueueStruct F A × List (WqEvent F A)} (h : wq.joinRound i = some r) :
    (wq.workers[i]? = none ∧ r = ({ wq with destroyer := .joined }, [])) ∨
    (∃ t, wq.workers[i]? = some t ∧ (t.wq = false ∨ t.pc = .exited ∨ t.pc = .noThread) ∧
      r = ({ wq with destroyer := afterJoin t i }, if t.wq then [.join i] else [])) := by
  unfold joinRound at h
  split at h
  · rename_i hi
    exact Or.inl ⟨hi, (Option.some.inj h).symm⟩
  · rename_i t hi
    refine Or.inr ⟨t, hi, ?_⟩
    split at h
    · rename_i hwq
      cases h
      exact ⟨Or.inl hwq, by simp [afterJoin, hwq]⟩
    · rename_i hwq
      rw [Bool.not_eq_false] at hwq
      split at h
      · rename_i hp
        cases h
        exact ⟨Or.inr (Or.inl hp), by simp [afterJoin, hp, hwq]⟩
      · rename_i hp
        cases h
        exact ⟨Or.inr (Or.inr hp), by simp [afterJoin, hp, hwq]⟩
      · cases h

/-- The ways a step goes, one for each kind of action. -/
inductive StepCase (wq : WorkqueueStruct F A) : Act F A → WorkqueueStruct F A × List (WqEvent F A) → Prop where
  | queueWork (func : Option F) (arg : Option A) (deleter : Option F) : StepCase wq (.queueWork func arg deleter)
      ({ wq with callers := wq.callers ++ [⟨⟨func, arg, deleter, wq.callers.length⟩, .entering⟩] }, [])
  | queuer {i : Nat} {ks : List Nat} {threadCreate : Int} {c : QueueCall F A} {r : WorkqueueStruct F A × List (WqEvent F A)} :
      wq.callers[i]? = some c → wq.queuerSection i ks threadCreate c = some r → StepCase wq (.queuer i ks threadCreate) r
  | waitAll : StepCase wq .waitAll ({ wq with waiters := wq.waiters ++ [.entering] }, [])
  | waiter {i : Nat} {pc : CallPc} {r : WorkqueueStruct F A × List (WqEvent F A)} :
      wq.waiters[i]? = some pc → wq.waiterSection i pc = some r → StepCase wq (.waiter i) r
  | worker {k : Nat} {ks : List Nat} {t : WorkerThread F A} {r : WorkqueueStruct F A × List (WqEvent F A)} :
      wq.workers[k]? = some t → wq.workerSection k ks t.pc = some r → StepCase wq (.worker k ks) r
  | run {k : Nat} {t : WorkerThread F A} {r : WorkqueueStruct F A × List (WqEvent F A)} :
      wq.workers[k]? = some t → wq.workerRun k t.pc = some r → StepCase wq (.run k) r
  | destroy (ks : List Nat) : wq.destroyer = .idle → StepCase wq (.destroy ks) (wq.destroySection ks)
  | join {i : Nat} {r : WorkqueueStruct F A × List (WqEvent F A)} :
      wq.destroyer = .joining i → wq.joinRound i = some r → StepCase wq .join r
  | destroyEnd : wq.destroyer = .joined → StepCase wq .destroyEnd ({ wq with destroyer := .done }, [])
  | spuriousWorker (k : Nat) : StepCase wq (.spuriousWorker k) ({ wq with workers := wq.workers.modify k Sleeper.wake }, [])
  | spuriousQueuer (i : Nat) : StepCase wq (.spuriousQueuer i) ({ wq with callers := wq.callers.modify i Sleeper.wake }, [])
  | spuriousWaiter (i : Nat) : StepCase wq (.spuriousWaiter i) ({ wq with waiters := wq.waiters.modify i Sleeper.wake }, [])

/-- Every step, under the guard of each. -/
theorem step_cases {a : Act F A} {r : WorkqueueStruct F A × List (WqEvent F A)} (h : wq.step a = some r) :
    wq.destroyer ≠ .done ∧ StepCase wq a r := by
  unfold step at h
  split at h
  · nomatch h
  rename_i hdone
  refine ⟨hdone, ?_⟩
  cases a with
  | queueWork func arg deleter =>
    cases h
    exact StepCase.queueWork func arg deleter
  | queuer i ks threadCreate =>
    simp only at h
    split at h
    · exact StepCase.queuer ‹_› h
    · nomatch h
  | waitAll =>
    cases h
    exact StepCase.waitAll
  | waiter i =>
    simp only at h
    split at h
    · exact StepCase.waiter ‹_› h
    · nomatch h
  | worker k ks =>
    simp only at h
    split at h
    · exact StepCase.worker ‹_› h
    · nomatch h
  | run k =>
    simp only at h
    split at h
    · exact StepCase.run ‹_› h
    · nomatch h
  | destroy ks =>
    simp only at h
    split at h
    · cases h
      exact StepCase.destroy ks ‹_›
    · nomatch h
  | join =>
    simp only at h
    split at h
    · exact StepCase.join ‹_› h
    · nomatch h
  | destroyEnd =>
    simp only at h
    split at h
    · cases h
      exact StepCase.destroyEnd ‹_›
    · nomatch h
  | spuriousWorker k =>
    cases h
    exact StepCase.spuriousWorker k
  | spuriousQueuer i =>
    cases h
    exact StepCase.spuriousQueuer i
  | spuriousWaiter i =>
    cases h
    exact StepCase.spuriousWaiter i

/-- What a step leaves, under one name for `cases` to replace. -/
theorem step_result {wq' : WorkqueueStruct F A} {a : Act F A} {ev : List (WqEvent F A)} (h : wq.step a = some (wq', ev)) :
    ∃ r : WorkqueueStruct F A × List (WqEvent F A), wq' = r.1 ∧ ev = r.2 ∧ StepCase wq a r :=
  ⟨(wq', ev), rfl, rfl, (wq.step_cases h).2⟩

/-- What only `destroy_workqueue` changes. -/
structure Kept (wq wq' : WorkqueueStruct F A) : Prop where
  attr : wq'.attr = wq.attr
  shouldStop : wq'.shouldStop = wq.shouldStop
  destroyer : wq'.destroyer = wq.destroyer

/-- A call of `queue_work` changes nothing of that. -/
theorem queuerSection_kept {i : Nat} {ks : List Nat} {threadCreate : Int} {c : QueueCall F A}
    {r : WorkqueueStruct F A × List (WqEvent F A)} (h : wq.queuerSection i ks threadCreate c = some r) : Kept wq r.1 := by
  obtain ⟨-, nQ, -, hcases⟩ := wq.queuerSection_cases h
  rcases hcases with ⟨-, rfl⟩ | ⟨-, -, rfl⟩ | ⟨-, -, -, l, rfl, -⟩ <;> exact ⟨rfl, rfl, rfl⟩

theorem workerSection_kept {k : Nat} {ks : List Nat} {pc : WorkerPc F A} {r : WorkqueueStruct F A × List (WqEvent F A)}
    (h : wq.workerSection k ks pc = some r) : Kept wq r.1 := by
  have hloop : ∀ w : WorkqueueStruct F A, Kept w (w.workerLoop k).1 := by
    intro w
    rcases w.workerLoop_cases k with ⟨-, -, he⟩ | ⟨-, -, he⟩ | ⟨-, -, he⟩ <;> rw [he] <;> exact ⟨rfl, rfl, rfl⟩
  obtain ⟨w, h1, rfl⟩ := Option.map_eq_some_iff.1 h
  obtain ⟨h2, h3, h4⟩ := hloop w
  rcases wq.workerResume_cases h1 with ⟨-, rfl⟩ | ⟨-, rfl⟩ | ⟨-, rfl⟩ <;> exact ⟨h2, h3, h4⟩

theorem workerRun_kept {k : Nat} {pc : WorkerPc F A} {r : WorkqueueStruct F A × List (WqEvent F A)}
    (h : wq.workerRun k pc = some r) : Kept wq r.1 := by
  obtain ⟨st, work, pc', -, he, -⟩ := wq.workerRun_cases h
  rw [he]
  exact ⟨rfl, rfl, rfl⟩

/-- Every step is one of `destroy_workqueue`, or changes none of what that function changes. -/
theorem StepCase.kept {a : Act F A} {r : WorkqueueStruct F A × List (WqEvent F A)} (h : StepCase wq a r) :
    Kept wq r.1 ∨ (∃ ks, wq.destroyer = .idle ∧ r = wq.destroySection ks) ∨
      (∃ i, wq.destroyer = .joining i ∧ wq.joinRound i = some r) ∨
      (wq.destroyer = .joined ∧ r = ({ wq with destroyer := .done }, [])) := by
  cases h with
  | queueWork func arg deleter => exact Or.inl ⟨rfl, rfl, rfl⟩
  | queuer _ hr => exact Or.inl (wq.queuerSection_kept hr)
  | waitAll => exact Or.inl ⟨rfl, rfl, rfl⟩
  | waiter _ hr =>
    obtain ⟨blocked, waiting, waiters, he, -⟩ := wq.waiterSection_frame hr
    rw [he]
    exact Or.inl ⟨rfl, rfl, rfl⟩
  | worker _ hr => exact Or.inl (wq.workerSection_kept hr)
  | run _ hr => exact Or.inl (wq.workerRun_kept hr)
  | destroy ks hd => exact Or.inr (Or.inl ⟨ks, hd, rfl⟩)
  | join hd hr => exact Or.inr (Or.inr (Or.inl ⟨_, hd, hr⟩))
  | destroyEnd hd => exact Or.inr (Or.inr (Or.inr ⟨hd, rfl⟩))
  | spuriousWorker k => exact Or.inl ⟨rfl, rfl, rfl⟩
  | spuriousQueuer i => exact Or.inl ⟨rfl, rfl, rfl⟩
  | spuriousWaiter i => exact Or.inl ⟨rfl, rfl, rfl⟩

/-- `signal` for one, `broadcast` for more: either wakes sleepers at most. -/
theorem signalOrBroadcast_woken {τ : Type} [Sleeper τ] (n : UInt32) (ks : List Nat) (l : List τ) :
    Woken l (if n = 1 then signal ks l else if n > 1 then broadcast l else l) := by
  split
  · exact signal_woken ks l
  · split
    · exact broadcast_woken l
    · exact Woken.refl l

end WorkqueueStruct

end GwBot

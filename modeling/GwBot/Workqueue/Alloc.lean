import GwBot.Workqueue.Drain

/-!
# Creating the workers

`alloc_workers` with the threads that it has started running beside it. They find nothing to do: so where it succeeds, the queue is in a
state that the threads of a queue whose workers are all created in one step can bring it to; and where `thread_create` fails, those that
have started leave and are joined, the youngest first, before the table and the queue are freed.
-/

namespace GwBot

open Lib

variable {F A : Type}

/-- Where the caller of `alloc_workers` stands: at the test of its loop, behind a `thread_create` that has failed, in the loop of
`thread_join`, or returned. -/
inductive AllocPc where
  | creating (i : Nat)
  | failed (i : Nat) (ret : Int)
  | joining (i : Nat) (ret : Int)
  | returned (ret : Int)
  deriving DecidableEq, Repr

/-- The queue with the table that `alloc_workers` has allocated, and where its caller stands. -/
structure AllocWorkers (F A : Type) where
  wq : WorkqueueStruct F A
  pc : AllocPc

/-- What is logged: a `thread_join`, and what the threads log. -/
inductive AllocEvent (F A : Type) where
  | join (i : Nat)
  | wq (e : WqEvent F A)
  deriving DecidableEq, Repr

/-- A step of a worker thread, of its own accord or not. -/
def WorkqueueStruct.Act.isThread : WorkqueueStruct.Act F A → Bool
  | .worker _ _ | .run _ | .spuriousWorker _ => true
  | _ => false

/-- What `alloc_workqueue` makes of its attributes, with a table. -/
def WorkqueueStruct.ofTable (attr : AcceptedAttr) (workers : List (WorkerThread F A)) : WorkqueueStruct F A :=
  { shouldStop := false, queueIsBlocked := false, waitAllIsWaiting := false
    nrSleepingWorkers := 0, nrSleepingQueuers := 0, nrOnlineWorkers := 0, nrRunningWorkers := 0
    attr := attr, workers := workers, head := 0, tail := 0, workList := fun _ => default
    callers := [], waiters := [], destroyer := .idle }

namespace AllocWorkers

/-- The steps: of the caller, and of a thread. -/
inductive Act (F A : Type) where
  | caller
  | thread (a : WorkqueueStruct.Act F A)

/-- What comes before the loop. -/
def init (attr : AcceptedAttr) : AllocWorkers F A :=
  ⟨.ofTable attr (List.replicate attr.maxThreads.toNat ⟨false, .noThread⟩), .creating 0⟩

/-- A step of the caller. -/
def callerStep (env : WorkqueueStruct.AllocEnv) (s : AllocWorkers F A) : Option (AllocWorkers F A × List (AllocEvent F A)) :=
  match s.pc with
  | .creating i =>
    if i < s.wq.attr.nrThreadToCreate.toNat then
      if env.threadCreate i = 0 then some (⟨{ s.wq with workers := s.wq.workers.set i ⟨true, .starting⟩ }, .creating (i + 1)⟩, [])
      else some (⟨{ s.wq with workers := s.wq.workers.set i ⟨true, .noThread⟩ }, .failed i (env.threadCreate i)⟩, [])
    else some ({ s with pc := .returned 0 }, [])
  | .failed i ret => some (⟨{ s.wq with shouldStop := true, workers := broadcast s.wq.workers }, .joining i ret⟩, [])
  | .joining 0 ret => some ({ s with pc := .returned ret }, [])
  | .joining (i + 1) ret =>
    match s.wq.workers[i]? with
    | some ⟨_, .exited⟩ => some ({ s with pc := .joining i ret }, [.join i])
    | _ => none
  | .returned _ => none

/-- A step. -/
def step (env : WorkqueueStruct.AllocEnv) (s : AllocWorkers F A) : Act F A → Option (AllocWorkers F A × List (AllocEvent F A))
  | .caller => s.callerStep env
  | .thread a => if a.isThread then (s.wq.step a).map (fun r => ({ s with wq := r.1 }, r.2.map .wq)) else none

/-- `alloc_workers` as a machine. -/
def machine (env : WorkqueueStruct.AllocEnv) : Machine (AllocWorkers F A) (Act F A) (AllocEvent F A) := ⟨step env⟩

end AllocWorkers

/-! ## A worker and the table -/

namespace WorkqueueStruct

variable {wq wq' : WorkqueueStruct F A} {ev : List (WqEvent F A)} {k : Nat} {ks : List Nat} {pc : WorkerPc F A}

theorem workerResume_table {wq₁ : WorkqueueStruct F A} (h : wq.workerResume ks pc = some wq₁) (ws : List (WorkerThread F A)) :
    { wq with workers := ws }.workerResume ks pc = some { wq₁ with workers := ws } := by
  obtain ⟨rfl, rfl⟩ | ⟨rfl, rfl⟩ | ⟨rfl, rfl⟩ := wq.workerResume_cases h
  · rfl
  · rfl
  · unfold workerResume wakeUpAllQueueWorkCallers
    simp only [Option.some.injEq]
    split <;> rfl

theorem workerLoop_table (wq : WorkqueueStruct F A) (k : Nat) :
    ∃ (wq' : WorkqueueStruct F A) (pc' : WorkerPc F A) (ev : List (WqEvent F A)), ∀ ws,
    { wq with workers := ws }.workerLoop k = ({ wq' with workers := ws.modify k (fun t => { t with pc := pc' }) }, ev) := by
  by_cases hstop : (wq.shouldStop && !wq.queueIsBlocked) = true
  · refine ⟨{ wq with nrOnlineWorkers := wq.nrOnlineWorkers - 1 }, .exited, [], fun ws => ?_⟩
    have hwait : { wq with workers := ws }.waitForEvent = ({ wq with workers := ws }, .returnFalse) := if_pos hstop
    simp only [workerLoop, hwait]
    rfl
  · by_cases hne : wq.head ≠ wq.tail
    · refine ⟨{ wq with head := wq.head + 1, nrRunningWorkers := wq.nrRunningWorkers + 1 },
        .holding .taken (wq.workList (slotOf wq.attr.mask wq.head)), [.job ⟨.take, wq.workList (slotOf wq.attr.mask wq.head)⟩],
        fun ws => ?_⟩
      have hwait : { wq with workers := ws }.waitForEvent = ({ wq with workers := ws }, .returnTrue) :=
        (if_neg hstop).trans (if_pos hne)
      simp only [workerLoop, hwait]
      rfl
    · refine ⟨{ wq with
          waiters := if wq.waitAllIsWaiting then broadcast wq.waiters else wq.waiters
          nrSleepingWorkers := wq.nrSleepingWorkers + 1 }, .sleeping false, [], fun ws => ?_⟩
      have hwait : { wq with workers := ws }.waitForEvent = _ := (if_neg hstop).trans (if_neg hne)
      simp only [workerLoop, hwait]
      rfl

/-- A critical section of a worker depends on no slot of the table but its own, and changes no other. -/
theorem workerSection_table (hs : wq.workerSection k ks pc = some (wq', ev)) :
    ∃ pc', wq'.workers = wq.workers.modify k (fun t => { t with pc := pc' }) ∧ ∀ ws,
      { wq with workers := ws }.workerSection k ks pc = some ({ wq' with workers := ws.modify k (fun t => { t with pc := pc' }) }, ev) := by
  obtain ⟨wq₁, hres, hloop⟩ := Option.map_eq_some_iff.1 hs
  have hworkers : wq₁.workers = wq.workers := by
    have hown := workerResume_table hres wq.workers
    rw [hres] at hown
    exact congrArg (fun wq => wq.workers) (Option.some.inj hown)
  obtain ⟨wq₂, pc', ev', hall⟩ := workerLoop_table wq₁ k
  have hown := hall wq₁.workers
  rw [hloop, Prod.mk.injEq] at hown
  obtain ⟨rfl, rfl⟩ := hown
  refine ⟨pc', by rw [hworkers], fun ws => ?_⟩
  rw [workerSection, workerResume_table hres, Option.map_some, hall]

/-! ## Queues with nothing to do -/

/-- There is no thread, or it has not got to the queue yet, or it sleeps. -/
def isIdle : WorkerPc F A → Bool
  | .noThread | .starting | .sleeping _ => true
  | _ => false

/-- There is no thread, or it is to find that the queue stops, or it has returned. -/
def isLeaving : WorkerPc F A → Bool
  | .noThread | .starting | .sleeping true | .exited => true
  | _ => false

/-- A queue without works that does not stop, as far as its workers see it. -/
structure Idle (wq : WorkqueueStruct F A) : Prop where
  running : wq.shouldStop = false
  unblocked : wq.queueIsBlocked = false
  empty : wq.head = wq.tail
  destroyer : wq.destroyer = .idle
  threads : ∀ t ∈ wq.workers, isIdle t.pc = true

/-- A queue that stops, whose workers have all been told. -/
structure Stopping (wq : WorkqueueStruct F A) : Prop where
  stopping : wq.shouldStop = true
  unblocked : wq.queueIsBlocked = false
  destroyer : wq.destroyer = .idle
  threads : ∀ t ∈ wq.workers, isLeaving t.pc = true

/-- A worker that gets the lock without coming back from a work. -/
theorem workerResume_awake {wq₁ : WorkqueueStruct F A} (hpc : pc ≠ .finishing) (h : wq.workerResume ks pc = some wq₁) :
    (pc = .starting ∨ pc = .sleeping true) ∧ ∃ n m, wq₁ = { wq with nrOnlineWorkers := n, nrSleepingWorkers := m } := by
  obtain ⟨rfl, rfl⟩ | ⟨rfl, rfl⟩ | ⟨rfl, -⟩ := wq.workerResume_cases h
  · exact ⟨Or.inl rfl, _, _, rfl⟩
  · exact ⟨Or.inr rfl, _, _, rfl⟩
  · exact absurd rfl hpc

/-- A worker that finds nothing to do goes to sleep. -/
theorem Idle.workerSection (h : Idle wq) (hpc : pc ≠ .finishing) (hs : wq.workerSection k ks pc = some (wq', ev)) :
    (pc = .starting ∨ pc = .sleeping true) ∧ ev = [] ∧
      ∃ n m l, wq' = { wq with nrOnlineWorkers := n, nrSleepingWorkers := m, waiters := l }.setPc k (.sleeping false) := by
  obtain ⟨wq₁, hres, hloop⟩ := Option.map_eq_some_iff.1 hs
  obtain ⟨hawake, n, m, rfl⟩ := workerResume_awake hpc hres
  refine ⟨hawake, ?_⟩
  rcases workerLoop_cases { wq with nrOnlineWorkers := n, nrSleepingWorkers := m } k with ⟨hstop, -⟩ | ⟨-, hne, -⟩ | ⟨-, -, he⟩
  · exact absurd (h.running.symm.trans hstop) Bool.false_ne_true
  · exact absurd h.empty hne
  · rw [he] at hloop
    cases hloop
    exact ⟨rfl, _, _, _, rfl⟩

/-- A worker that finds that the queue stops leaves. -/
theorem Stopping.workerSection (h : Stopping wq) (hpc : pc ≠ .finishing) (hs : wq.workerSection k ks pc = some (wq', ev)) :
    (pc = .starting ∨ pc = .sleeping true) ∧ ev = [] ∧
      ∃ n m, wq' = { wq with nrOnlineWorkers := n, nrSleepingWorkers := m }.setPc k .exited := by
  obtain ⟨wq₁, hres, hloop⟩ := Option.map_eq_some_iff.1 hs
  obtain ⟨hawake, n, m, rfl⟩ := workerResume_awake hpc hres
  refine ⟨hawake, ?_⟩
  have hblocked : ¬(wq.shouldStop = true → wq.queueIsBlocked = true) := fun himp =>
    Bool.false_ne_true (h.unblocked.symm.trans (himp h.stopping))
  rcases workerLoop_cases { wq with nrOnlineWorkers := n, nrSleepingWorkers := m } k with ⟨-, -, he⟩ | ⟨himp, -⟩ | ⟨himp, -⟩
  · rw [he] at hloop
    cases hloop
    exact ⟨rfl, _, _, rfl⟩
  · exact absurd himp hblocked
  · exact absurd himp hblocked

/-- What holds of the threads of a table holds when one of them has moved. -/
theorem forall_setPc {q : WorkerPc F A → Bool} {t : WorkerThread F A} {pc' : WorkerPc F A} (hk : wq.workers[k]? = some t)
    (h : ∀ t ∈ wq.workers, q t.pc = true) (hpc : q pc' = true) : ∀ t ∈ (wq.setPc k pc').workers, q t.pc = true := by
  rw [wq.setPc_workers hk]
  intro t ht
  rcases List.mem_or_eq_of_mem_set ht with hmem | rfl
  · exact h t hmem
  · exact hpc

theorem forall_wake {q : WorkerPc F A → Bool} (hwake : ∀ pc, q pc = true → q pc.wake = true) (h : ∀ t ∈ wq.workers, q t.pc = true)
    (k : Nat) : ∀ t ∈ wq.workers.modify k Sleeper.wake, q t.pc = true := by
  intro t ht
  obtain ⟨j, hj⟩ := List.mem_iff_getElem?.1 ht
  obtain ⟨x, hx, rfl | rfl⟩ := (modify_woken wq.workers k).getElem? hj
  · exact h t (List.mem_of_getElem? hx)
  · exact hwake x.pc (h x (List.mem_of_getElem? hx))

theorem isIdle_wake (pc : WorkerPc F A) (h : isIdle pc = true) : isIdle pc.wake = true := by
  cases pc <;> first | rfl | nomatch h

theorem isLeaving_wake (pc : WorkerPc F A) (h : isIdle pc = true ∨ isLeaving pc = true) : isLeaving pc.wake = true := by
  cases pc <;> first | rfl | simp [isIdle, isLeaving] at h

theorem Idle.set (h : Idle wq) {i : Nat} {t : WorkerThread F A} (ht : isIdle t.pc = true) :
    Idle { wq with workers := wq.workers.set i t } where
  running := h.running
  unblocked := h.unblocked
  empty := h.empty
  destroyer := h.destroyer
  threads := fun t' ht' => (List.mem_or_eq_of_mem_set ht').elim (h.threads t') (fun heq => heq ▸ ht)

/-- What a step of a thread does to the table of a queue that has nothing to do. -/
inductive TableMove (wq wq' : WorkqueueStruct F A) (pc' : WorkerPc F A) : Act F A → Prop where
  | moved {k : Nat} {ks : List Nat} {t : WorkerThread F A} : wq.workers[k]? = some t → (t.pc = .starting ∨ t.pc = .sleeping true) →
      wq'.workers = wq.workers.set k { t with pc := pc' } → TableMove wq wq' pc' (.worker k ks)
  | wake (k : Nat) : wq' = { wq with workers := wq.workers.modify k Sleeper.wake } → TableMove wq wq' pc' (.spuriousWorker k)

theorem Idle.step (h : Idle wq) {a : Act F A} (ha : a.isThread = true) (hs : wq.step a = some (wq', ev)) :
    Idle wq' ∧ wq'.attr = wq.attr ∧ ev = [] ∧ TableMove wq wq' (.sleeping false) a := by
  obtain ⟨r, rfl, rfl, hc⟩ := wq.step_result hs
  cases hc with
  | @worker k ks t r hk hr =>
    have hidle := h.threads t (List.mem_of_getElem? hk)
    have hpc : t.pc ≠ .finishing := fun heq => by simp [heq, isIdle] at hidle
    obtain ⟨hawake, hev, n, m, l, he⟩ := h.workerSection hpc hr
    rw [he]
    exact ⟨⟨h.running, h.unblocked, h.empty, h.destroyer, forall_setPc (q := isIdle) hk h.threads rfl⟩, rfl, hev,
      .moved hk hawake (setPc_workers _ hk _)⟩
  | @run k t r hk hr =>
    have hidle := h.threads t (List.mem_of_getElem? hk)
    obtain ⟨st, work, pc', hpc, -⟩ := wq.workerRun_cases hr
    simp [hpc, isIdle] at hidle
  | spuriousWorker k =>
    exact ⟨⟨h.running, h.unblocked, h.empty, h.destroyer, forall_wake isIdle_wake h.threads k⟩, rfl, rfl, .wake k rfl⟩
  | _ => cases ha

theorem Stopping.step (h : Stopping wq) {a : Act F A} (ha : a.isThread = true) (hs : wq.step a = some (wq', ev)) :
    Stopping wq' ∧ wq'.attr = wq.attr ∧ ev = [] ∧ TableMove wq wq' .exited a := by
  obtain ⟨r, rfl, rfl, hc⟩ := wq.step_result hs
  cases hc with
  | @worker k ks t r hk hr =>
    have hleaving := h.threads t (List.mem_of_getElem? hk)
    have hpc : t.pc ≠ .finishing := fun heq => by simp [heq, isLeaving] at hleaving
    obtain ⟨hawake, hev, n, m, he⟩ := h.workerSection hpc hr
    rw [he]
    exact ⟨⟨h.stopping, h.unblocked, h.destroyer, forall_setPc (q := isLeaving) hk h.threads rfl⟩, rfl, hev,
      .moved hk hawake (setPc_workers _ hk _)⟩
  | @run k t r hk hr =>
    have hleaving := h.threads t (List.mem_of_getElem? hk)
    obtain ⟨st, work, pc', hpc, -⟩ := wq.workerRun_cases hr
    simp [hpc, isLeaving] at hleaving
  | spuriousWorker k =>
    exact ⟨⟨h.stopping, h.unblocked, h.destroyer, forall_wake (fun pc hpc => isLeaving_wake pc (Or.inr hpc)) h.threads k⟩, rfl, rfl,
      .wake k rfl⟩
  | _ => cases ha

/-! ## The table filled up -/

/-- The table with the threads that are still to be created, from slot `i` to slot `n`. -/
def filled (i n : Nat) (workers : List (WorkerThread F A)) : List (WorkerThread F A) :=
  workers.mapIdx (fun j t => if i ≤ j ∧ j < n then ⟨true, .starting⟩ else t)

theorem filled_getElem? (i n : Nat) (workers : List (WorkerThread F A)) (j : Nat) :
    (filled i n workers)[j]? = workers[j]?.map (fun t => if i ≤ j ∧ j < n then ⟨true, .starting⟩ else t) := by
  rw [filled, List.getElem?_mapIdx]

theorem filled_self (n : Nat) (workers : List (WorkerThread F A)) : filled n n workers = workers := by
  refine List.ext_getElem? (fun j => ?_)
  rw [filled_getElem?]
  have hid : (fun t : WorkerThread F A => if n ≤ j ∧ j < n then (⟨true, .starting⟩ : WorkerThread F A) else t) = id := by
    funext t
    exact if_neg (by omega)
  rw [hid, Option.map_id, id]

/-- A thread that is created was counted in already. -/
theorem filled_succ {i n : Nat} (hi : i < n) (workers : List (WorkerThread F A)) :
    filled (i + 1) n (workers.set i ⟨true, .starting⟩) = filled i n workers := by
  refine List.ext_getElem? (fun j => ?_)
  rw [filled_getElem?, filled_getElem?, List.getElem?_set]
  by_cases hij : i = j
  · subst hij
    rw [if_pos rfl]
    by_cases hlen : i < workers.length
    · rw [if_pos hlen, List.getElem?_eq_getElem hlen, Option.map_some, Option.map_some, if_neg (by omega), if_pos (by omega)]
    · rw [if_neg hlen, List.getElem?_eq_none (by omega), Option.map_none, Option.map_none]
  · have hiff : (i + 1 ≤ j ∧ j < n) ↔ (i ≤ j ∧ j < n) := by omega
    simp only [if_neg hij, hiff]

/-- What moves a thread that was created moves it in the table filled up. -/
theorem filled_modify {i n k : Nat} (hk : k < i) (workers : List (WorkerThread F A)) (f : WorkerThread F A → WorkerThread F A) :
    filled i n (workers.modify k f) = (filled i n workers).modify k f := by
  refine List.ext_getElem? (fun j => ?_)
  rw [filled_getElem?, List.getElem?_modify, List.getElem?_modify, filled_getElem?]
  by_cases hkj : k = j
  · subst hkj
    cases workers[k]? with
    | none => rfl
    | some t => simp [show ¬(i ≤ k ∧ k < n) by omega]
  · simp only [if_neg hkj]
    cases workers[j]? with
    | none => rfl
    | some t => rfl

theorem filled_start {n max : Nat} (hn : n ≤ max) :
    filled 0 n (List.replicate max (⟨false, .noThread⟩ : WorkerThread F A)) =
      List.replicate n ⟨true, .starting⟩ ++ List.replicate (max - n) ⟨false, .noThread⟩ := by
  refine List.ext_getElem? (fun j => ?_)
  rw [filled_getElem?, List.getElem?_append, List.length_replicate, List.getElem?_replicate, List.getElem?_replicate,
    List.getElem?_replicate]
  by_cases hj : j < n
  · rw [if_pos (by omega), if_pos hj, if_pos hj, Option.map_some, if_pos ⟨Nat.zero_le j, hj⟩]
  · rw [if_neg hj]
    by_cases hmax : j < max
    · rw [if_pos hmax, if_pos (by omega), Option.map_some, if_neg (by omega)]
    · rw [if_neg hmax, if_neg (by omega), Option.map_none]

theorem modify_eq_self {β : Type} {l : List β} {k : Nat} {f : β → β} (h : ∀ x, l[k]? = some x → f x = x) : l.modify k f = l := by
  refine List.ext_getElem? (fun j => ?_)
  rw [List.getElem?_modify]
  split
  · rename_i hkj
    subst hkj
    cases hk : l[k]? with
    | none => rfl
    | some x => exact congrArg some (h x hk)
  · cases l[j]? <;> rfl

/-- A step of a thread that was created is one in the table filled up. -/
theorem Idle.step_filled (h : Idle wq) {i : Nat} (n : Nat) {a : Act F A} (ha : a.isThread = true)
    (hnone : ∀ j t, i ≤ j → wq.workers[j]? = some t → t.pc = .noThread) (hs : wq.step a = some (wq', ev)) :
    (wq' = wq ∧ ev = []) ∨
      { wq with workers := filled i n wq.workers }.step a = some ({ wq' with workers := filled i n wq'.workers }, ev) := by
  have hdone : wq.destroyer ≠ .done := by
    rw [h.destroyer]
    decide
  have hget : ∀ {k : Nat} {t : WorkerThread F A}, k < i → wq.workers[k]? = some t → (filled i n wq.workers)[k]? = some t := by
    intro k t hk ht
    rw [filled_getElem?, ht, Option.map_some, if_neg (by omega)]
  obtain ⟨r, hr₁, hr₂, hc⟩ := wq.step_result hs
  cases hc with
  | @worker k ks t r hk hr =>
    rcases Nat.lt_or_ge k i with hlt | hge
    · obtain ⟨pc', hworkers, hall⟩ := workerSection_table (show wq.workerSection k ks t.pc = some (wq', ev) by rw [hr, hr₁, hr₂])
      refine Or.inr ?_
      unfold WorkqueueStruct.step
      rw [if_neg hdone]
      simp only [hget hlt hk, hall, hworkers, filled_modify hlt]
    · rw [hnone k t hge hk] at hr
      cases hr
  | @run k t r hk hr =>
    obtain ⟨st, work, pc', hpc, -⟩ := wq.workerRun_cases hr
    have hidle := h.threads t (List.mem_of_getElem? hk)
    simp [hpc, isIdle] at hidle
  | spuriousWorker k =>
    subst hr₁ hr₂
    rcases Nat.lt_or_ge k i with hlt | hge
    · refine Or.inr ?_
      unfold WorkqueueStruct.step
      rw [if_neg hdone]
      simp only [filled_modify hlt]
    · refine Or.inl ⟨?_, rfl⟩
      have hsame : wq.workers.modify k Sleeper.wake = wq.workers := by
        refine modify_eq_self (fun t ht => Sleeper.wake_of_awake t ?_)
        show t.pc.asleep = false
        rw [hnone k t hge ht]
        rfl
      rw [hsame]
  | _ => cases ha

/-- Where a thread stands after the step, as against before. -/
theorem TableMove.getElem? {pc' : WorkerPc F A} {a : Act F A} (h : TableMove wq wq' pc' a) {j : Nat} {t' : WorkerThread F A}
    (hj : wq'.workers[j]? = some t') : ∃ t, wq.workers[j]? = some t ∧
      (t'.pc = t.pc ∨ t'.pc = t.pc.wake ∨ (t.pc = .starting ∨ t.pc = .sleeping true) ∧ t'.pc = pc') := by
  cases h with
  | @moved k ks t hk hawake hworkers =>
    rw [hworkers] at hj
    rcases getElem?_set_cases hj with ⟨rfl, rfl⟩ | hj
    · exact ⟨t, hk, Or.inr (Or.inr ⟨hawake, rfl⟩)⟩
    · exact ⟨t', hj.2, Or.inl rfl⟩
  | wake k he =>
    subst he
    obtain ⟨t, ht, heq | heq⟩ := (modify_woken wq.workers k).getElem? hj
    · exact ⟨t, ht, Or.inl (congrArg WorkerThread.pc heq)⟩
    · exact ⟨t, ht, Or.inr (Or.inl (congrArg WorkerThread.pc heq))⟩

theorem TableMove.length {pc' : WorkerPc F A} {a : Act F A} (h : TableMove wq wq' pc' a) : wq'.workers.length = wq.workers.length := by
  cases h with
  | moved _ _ hworkers => rw [hworkers, List.length_set]
  | wake k he =>
    subst he
    exact List.length_modify ..

end WorkqueueStruct

/-! ## The caller among the threads -/

/-- The slots that were joined. -/
def AllocEvent.join? : AllocEvent F A → Option Nat
  | .join i => some i
  | .wq _ => none

/-- What the threads have logged. -/
def AllocEvent.wq? : AllocEvent F A → Option (WqEvent F A)
  | .join _ => none
  | .wq e => some e

namespace AllocWorkers

open WorkqueueStruct

variable {attr : AcceptedAttr} {env : AllocEnv} {s s' : AllocWorkers F A} {wq wq' : WorkqueueStruct F A} {log ev : List (AllocEvent F A)} {i m : Nat} {ret : Int}

/-- The threads of the first `m` slots have been created, and no others, and they have done nothing. -/
structure Begun (attr : AcceptedAttr) (env : AllocEnv) (wq : WorkqueueStruct F A) (log : List (AllocEvent F A)) (m : Nat) : Prop where
  attr_eq : wq.attr = attr
  length : wq.workers.length = attr.maxThreads.toNat
  created : ∀ j < m, env.threadCreate j = 0
  noThread_iff : ∀ j t, wq.workers[j]? = some t → (t.pc = .noThread ↔ m ≤ j)
  quiet : log.filterMap AllocEvent.wq? = []

/-- The queue that `alloc_workers` makes when all threads are created. -/
def created (attr : AcceptedAttr) : WorkqueueStruct F A :=
  .ofTable attr (List.replicate attr.nrThreadToCreate.toNat ⟨true, .starting⟩ ++
    List.replicate (attr.maxThreads.toNat - attr.nrThreadToCreate.toNat) ⟨false, .noThread⟩)

/-- Slot `i` is next. -/
structure Creating (attr : AcceptedAttr) (env : AllocEnv) (wq : WorkqueueStruct F A) (log : List (AllocEvent F A)) (i : Nat) : Prop where
  begun : Begun attr env wq log i
  le : i ≤ attr.nrThreadToCreate.toNat
  idle : Idle wq
  joins : log.filterMap AllocEvent.join? = []
  run : (WorkqueueStruct.machine F A).Run (fun _ a => a.isThread = true) (created attr)
    { wq with workers := filled i attr.nrThreadToCreate.toNat wq.workers } []

/-- The thread of slot `m` could not be created. -/
structure Failed (attr : AcceptedAttr) (env : AllocEnv) (wq : WorkqueueStruct F A) (log : List (AllocEvent F A)) (m : Nat) (ret : Int) :
    Prop where
  begun : Begun attr env wq log m
  lt : m < attr.nrThreadToCreate.toNat
  fails : env.threadCreate m = ret
  ne : ret ≠ 0

/-- The threads are told to leave, and those from slot `i` on have been joined. -/
structure Joining (attr : AcceptedAttr) (env : AllocEnv) (wq : WorkqueueStruct F A) (log : List (AllocEvent F A)) (m i : Nat) (ret : Int) :
    Prop where
  failed : Failed attr env wq log m ret
  stopping : Stopping wq
  le : i ≤ m
  joins : log.filterMap AllocEvent.join? = ((List.range m).drop i).reverse
  gone : ∀ j t, i ≤ j → wq.workers[j]? = some t → t.pc = .noThread ∨ t.pc = .exited

/-- What holds wherever the caller stands. -/
inductive Inv (attr : AcceptedAttr) (env : AllocEnv) (s : AllocWorkers F A) (log : List (AllocEvent F A)) : Prop where
  | creating {i : Nat} : s.pc = .creating i → Creating attr env s.wq log i → Inv attr env s log
  | failed {m : Nat} {ret : Int} : s.pc = .failed m ret → Failed attr env s.wq log m ret → Idle s.wq →
      log.filterMap AllocEvent.join? = [] → Inv attr env s log
  | joining {m i : Nat} {ret : Int} : s.pc = .joining i ret → Joining attr env s.wq log m i ret → Inv attr env s log
  | ready : s.pc = .returned 0 → Creating attr env s.wq log attr.nrThreadToCreate.toNat → Inv attr env s log
  | gone {m : Nat} {ret : Int} : s.pc = .returned ret → Joining attr env s.wq log m 0 ret → Inv attr env s log

/-- The threads keep what has begun. -/
theorem Begun.thread (h : Begun attr env wq log m) {pc' : WorkerPc F A} {a : WorkqueueStruct.Act F A}
    (hattr : wq'.attr = wq.attr) (hmove : TableMove wq wq' pc' a) (hpc : pc' ≠ .noThread) :
    Begun attr env wq' log m where
  attr_eq := hattr.trans h.attr_eq
  length := hmove.length.trans h.length
  created := h.created
  noThread_iff := by
    intro j t' hj
    obtain ⟨t, ht, heq | heq | ⟨hawake, heq⟩⟩ := hmove.getElem? hj
    · rw [heq]
      exact h.noThread_iff j t ht
    · rw [heq, WorkerPc.wake_eq_iff (fun b => by simp)]
      exact h.noThread_iff j t ht
    · have hne : t.pc ≠ .noThread := by
        rcases hawake with hawake | hawake <;> simp [hawake]
      rw [heq]
      exact ⟨fun habs => absurd habs hpc, fun hle => absurd ((h.noThread_iff j t ht).2 hle) hne⟩
  quiet := h.quiet

theorem Creating.thread (h : Creating attr env wq log i) {a : WorkqueueStruct.Act F A}
    {e : List (WqEvent F A)} (ha : a.isThread = true) (hs : wq.step a = some (wq', e)) :
    e = [] ∧ Creating attr env wq' log i := by
  obtain ⟨hidle, hattr, rfl, hmove⟩ := h.idle.step ha hs
  refine ⟨rfl, h.begun.thread hattr hmove (by simp), h.le, hidle, h.joins, ?_⟩
  have hnone : ∀ j t, i ≤ j → wq.workers[j]? = some t → t.pc = .noThread := fun j t hj ht => (h.begun.noThread_iff j t ht).2 hj
  rcases h.idle.step_filled attr.nrThreadToCreate.toNat ha hnone hs with ⟨rfl, -⟩ | hfilled
  · exact h.run
  · exact h.run.step a ha hfilled

theorem Joining.thread (h : Joining attr env wq log m i ret) {a : WorkqueueStruct.Act F A}
    {e : List (WqEvent F A)} (ha : a.isThread = true) (hs : wq.step a = some (wq', e)) :
    e = [] ∧ Joining attr env wq' log m i ret := by
  obtain ⟨hstopping, hattr, rfl, hmove⟩ := h.stopping.step ha hs
  refine ⟨rfl, ⟨h.failed.begun.thread hattr hmove (by simp), h.failed.lt, h.failed.fails, h.failed.ne⟩, hstopping, h.le, h.joins, ?_⟩
  intro j t' hij hj
  obtain ⟨t, ht, heq | heq | ⟨-, heq⟩⟩ := hmove.getElem? hj
  · rw [heq]
    exact h.gone j t hij ht
  · rw [heq, WorkerPc.wake_eq_iff (fun b => by simp), WorkerPc.wake_eq_iff (fun b => by simp)]
    exact h.gone j t hij ht
  · exact Or.inr heq

/-- A `thread_create` that succeeds. -/
theorem Creating.create (h : Creating attr env wq log i) (hi : i < attr.nrThreadToCreate.toNat) (hret : env.threadCreate i = 0) :
    Creating attr env { wq with workers := wq.workers.set i ⟨true, .starting⟩ } log (i + 1) := by
  have hmax := attr.nrThreadToCreate_le
  refine ⟨⟨h.begun.attr_eq, List.length_set.trans h.begun.length, fun j hj => ?_, fun j t' hj => ?_, h.begun.quiet⟩, hi,
    h.idle.set rfl, h.joins, ?_⟩
  · rcases Nat.lt_succ_iff_lt_or_eq.1 hj with hj | rfl
    · exact h.begun.created j hj
    · exact hret
  · rcases getElem?_set_cases hj with ⟨rfl, rfl⟩ | ⟨hne, hj⟩
    · simp
    · rw [h.begun.noThread_iff j t' hj]
      omega
  · show (WorkqueueStruct.machine F A).Run _ _ { wq with workers := filled _ _ (wq.workers.set i ⟨true, .starting⟩) } []
    rw [filled_succ hi]
    exact h.run

/-- A `thread_create` that fails. -/
theorem Creating.fail (h : Creating attr env wq log i) (hi : i < attr.nrThreadToCreate.toNat) (hret : env.threadCreate i ≠ 0) :
    Failed attr env { wq with workers := wq.workers.set i ⟨true, .noThread⟩ } log i
      (env.threadCreate i) := by
  refine ⟨⟨h.begun.attr_eq, List.length_set.trans h.begun.length, h.begun.created, fun j t' hj => ?_, h.begun.quiet⟩, hi, rfl, hret⟩
  rcases getElem?_set_cases hj with ⟨rfl, rfl⟩ | ⟨hne, hj⟩
  · simp
  · exact h.begun.noThread_iff j t' hj

/-- The section behind a `thread_create` that has failed. -/
theorem Failed.stop (h : Failed attr env wq log m ret) (hidle : Idle wq)
    (hjoins : log.filterMap AllocEvent.join? = []) :
    Joining attr env { wq with shouldStop := true, workers := broadcast wq.workers } log m m ret := by
  have hget : ∀ (j : Nat) (t' : WorkerThread F A), (broadcast wq.workers)[j]? = some t' →
      ∃ t : WorkerThread F A, wq.workers[j]? = some t ∧ t'.pc = t.pc.wake := by
    intro j t' hj
    rw [broadcast, List.getElem?_map, Option.map_eq_some_iff] at hj
    obtain ⟨t, ht, rfl⟩ := hj
    exact ⟨t, ht, rfl⟩
  have hno : ∀ (j : Nat) (t' : WorkerThread F A), (broadcast wq.workers)[j]? = some t' → (t'.pc = .noThread ↔ m ≤ j) := by
    intro j t' hj
    obtain ⟨t, ht, heq⟩ := hget j t' hj
    rw [heq, WorkerPc.wake_eq_iff (fun b => by simp)]
    exact h.begun.noThread_iff j t ht
  refine ⟨⟨⟨h.begun.attr_eq, ?_, h.begun.created, hno, h.begun.quiet⟩, h.lt, h.fails, h.ne⟩,
    ⟨rfl, hidle.unblocked, hidle.destroyer, ?_⟩, Nat.le_refl m, ?_, fun j t' hj ht' => Or.inl ((hno j t' ht').2 hj)⟩
  · exact (List.length_map _).trans h.begun.length
  · intro t' ht'
    obtain ⟨j, hj⟩ := List.mem_iff_getElem?.1 ht'
    obtain ⟨t, ht, heq⟩ := hget j t' hj
    rw [heq]
    exact isLeaving_wake t.pc (Or.inl (hidle.threads t (List.mem_of_getElem? ht)))
  · rw [hjoins, List.drop_of_length_le (by rw [List.length_range]), List.reverse_nil]

/-- A `thread_join`. -/
theorem Joining.join (h : Joining attr env wq log m (i + 1) ret) {b : Bool} (hk : wq.workers[i]? = some ⟨b, .exited⟩) :
    Joining attr env wq (log ++ [.join i]) m i ret := by
  have hlt : i < m := h.le
  refine ⟨⟨⟨h.failed.begun.attr_eq, h.failed.begun.length, h.failed.begun.created, h.failed.begun.noThread_iff, ?_⟩, h.failed.lt,
    h.failed.fails, h.failed.ne⟩, h.stopping, Nat.le_of_lt hlt, ?_, fun j t hj ht => ?_⟩
  · rw [List.filterMap_append, h.failed.begun.quiet]
    rfl
  · have hdrop : (List.range m).drop i = i :: (List.range m).drop (i + 1) := by
      rw [List.drop_eq_getElem_cons (by rwa [List.length_range]), List.getElem_range]
    rw [List.filterMap_append, h.joins, hdrop, List.reverse_cons]
    rfl
  · rcases Nat.eq_or_lt_of_le hj with rfl | hj
    · rw [hk] at ht
      exact Or.inr (congrArg WorkerThread.pc (Option.some.inj ht)).symm
    · exact h.gone j t hj ht

theorem Inv.init (attr : AcceptedAttr) (env : AllocEnv) : Inv attr env (init attr : AllocWorkers F A) [] := by
  have hmem : ∀ t ∈ List.replicate attr.maxThreads.toNat (⟨false, .noThread⟩ : WorkerThread F A), t = ⟨false, .noThread⟩ :=
    fun t ht => List.eq_of_mem_replicate ht
  refine .creating rfl ⟨⟨rfl, List.length_replicate, fun j hj => absurd hj (Nat.not_lt_zero j), fun j t hj => ?_, rfl⟩,
    Nat.zero_le _, ⟨rfl, rfl, rfl, rfl, fun t ht => ?_⟩, rfl, ?_⟩
  · rw [hmem t (List.mem_of_getElem? hj)]
    simp
  · rw [hmem t ht]
    rfl
  · show (WorkqueueStruct.machine F A).Run _ _ (WorkqueueStruct.ofTable attr (filled 0 _ (List.replicate _ _))) []
    rw [filled_start attr.nrThreadToCreate_le]
    exact .init

/-- What holds is kept by each step. -/
theorem Inv.step (h : Inv attr env s log) {a : Act F A} (hs : s.step env a = some (s', ev)) : Inv attr env s' (log ++ ev) := by
  cases a with
  | thread a =>
    simp only [AllocWorkers.step] at hs
    split at hs
    · rename_i ha
      obtain ⟨⟨wq', e⟩, hstep, heq⟩ := Option.map_eq_some_iff.1 hs
      obtain ⟨rfl, rfl⟩ := Prod.mk.inj heq
      cases h with
      | creating hpc h =>
        obtain ⟨rfl, h'⟩ := h.thread ha hstep
        exact .creating hpc (by rwa [List.map_nil, List.append_nil])
      | failed hpc h hidle hjoins =>
        obtain ⟨hidle', hattr, rfl, hmove⟩ := hidle.step ha hstep
        rw [List.map_nil, List.append_nil]
        exact .failed hpc ⟨h.begun.thread hattr hmove (by simp), h.lt, h.fails, h.ne⟩ hidle' hjoins
      | joining hpc h =>
        obtain ⟨rfl, h'⟩ := h.thread ha hstep
        exact .joining hpc (by rwa [List.map_nil, List.append_nil])
      | ready hpc h =>
        obtain ⟨rfl, h'⟩ := h.thread ha hstep
        exact .ready hpc (by rwa [List.map_nil, List.append_nil])
      | gone hpc h =>
        obtain ⟨rfl, h'⟩ := h.thread ha hstep
        exact .gone hpc (by rwa [List.map_nil, List.append_nil])
    · cases hs
  | caller =>
    simp only [AllocWorkers.step, callerStep] at hs
    cases h with
    | @creating i hpc h =>
      rw [hpc] at hs
      dsimp only at hs
      split at hs
      · rename_i hi
        rw [h.begun.attr_eq] at hi
        split at hs
        · rename_i hret
          cases hs
          rw [List.append_nil]
          exact .creating rfl (h.create hi hret)
        · rename_i hret
          cases hs
          rw [List.append_nil]
          exact .failed rfl (h.fail hi hret) (h.idle.set rfl) h.joins
      · rename_i hi
        cases hs
        rw [h.begun.attr_eq] at hi
        obtain rfl : i = attr.nrThreadToCreate.toNat := Nat.le_antisymm h.le (Nat.le_of_not_lt hi)
        rw [List.append_nil]
        exact .ready rfl h
    | failed hpc h hidle hjoins =>
      rw [hpc] at hs
      cases hs
      rw [List.append_nil]
      exact .joining rfl (h.stop hidle hjoins)
    | @joining m i ret hpc h =>
      rw [hpc] at hs
      cases i with
      | zero =>
        cases hs
        rw [List.append_nil]
        exact .gone rfl h
      | succ i =>
        dsimp only at hs
        split at hs
        · rename_i hk
          cases hs
          exact .joining rfl (h.join hk)
        · cases hs
    | ready hpc h =>
      rw [hpc] at hs
      cases hs
    | gone hpc h =>
      rw [hpc] at hs
      cases hs

theorem Inv.of_run (h : (machine env).Reach (AllocWorkers.init attr) s log) : Inv attr env s log := by
  refine h.invariant (Inv.init attr env) ?_
  intro s log a s' ev _ hinv _ hs
  exact hinv.step hs

/-! ## The whole of `alloc_workqueue` -/

/-- Everything that `alloc_workqueue` does before it creates the threads succeeds. -/
structure GetsToThreads (env : AllocEnv) : Prop where
  callocWq : env.callocWq = true
  mutexInit : env.mutexInit = 0
  workerCondInit : env.workerCondInit = 0
  waitAllCondInit : env.waitAllCondInit = 0
  queueWorkCondInit : env.queueWorkCondInit = 0
  callocWorkers : env.callocWorkers = true

theorem allocWorkqueue_created {attrArg : WorkqueueAttr} (hattr : validateAndAdjustWorkqueueAttr attrArg = some (.ok attr))
    (henv : GetsToThreads env) (hcreated : ∀ j < attr.nrThreadToCreate.toNat, env.threadCreate j = 0) :
    allocWorkqueue attrArg env = some (.ok (created attr : WorkqueueStruct F A)) := by
  have hfind : (List.range attr.nrThreadToCreate.toNat).find? (fun i => env.threadCreate i ≠ 0) = none := by
    rw [List.find?_eq_none]
    intro j hj
    simp [hcreated j (List.mem_range.1 hj)]
  simp only [allocWorkqueue, hattr, henv.callocWq, henv.mutexInit, henv.workerCondInit, henv.waitAllCondInit, henv.queueWorkCondInit,
    allocWorkers, henv.callocWorkers, hfind]
  rfl

theorem allocWorkqueue_failed {attrArg : WorkqueueAttr} (hattr : validateAndAdjustWorkqueueAttr attrArg = some (.ok attr))
    (henv : GetsToThreads env) (h : Failed attr env wq log m ret) :
    allocWorkqueue attrArg env = some (.error ret : Except Int (WorkqueueStruct F A)) := by
  have hfind : (List.range attr.nrThreadToCreate.toNat).find? (fun i => env.threadCreate i ≠ 0) = some m := by
    rw [List.find?_range_eq_some]
    refine ⟨by simp [h.fails, h.ne], List.mem_range.2 h.lt, fun j hj => by simp [h.begun.created j hj]⟩
  simp only [allocWorkqueue, hattr, henv.callocWq, henv.mutexInit, henv.workerCondInit, henv.waitAllCondInit, henv.queueWorkCondInit,
    allocWorkers, henv.callocWorkers, hfind, h.fails]
  rfl

/-! ## Getting through -/

/-- The steps that a thread may still take. -/
def stepsLeft : WorkerPc F A → Nat
  | .starting | .sleeping true => 2
  | .sleeping false => 1
  | _ => 0

/-- The steps that are left, as long as nobody wakes without a notification. -/
def toGo (s : AllocWorkers F A) : Nat :=
  poolWeight (fun t => stepsLeft t.pc) s.wq.workers +
    match s.pc with
    | .creating i => 3 * (s.wq.attr.nrThreadToCreate.toNat - i) + s.wq.attr.nrThreadToCreate.toNat + s.wq.attr.maxThreads.toNat + 2
    | .failed i _ => i + s.wq.attr.maxThreads.toNat + 2
    | .joining i _ => i + 1
    | .returned _ => 0

/-- What a wake without a notification adds. -/
def Act.gain : Act F A → Nat
  | .thread (.spuriousWorker _) => 2
  | _ => 0

theorem stepsLeft_wake_le (pc : WorkerPc F A) : stepsLeft pc.wake ≤ stepsLeft pc + 1 := by
  cases pc with
  | sleeping b => cases b <;> simp [WorkerPc.wake, stepsLeft]
  | _ => exact Nat.le_succ _

/-- A thread that moves of its own accord has one step less. -/
theorem weight_move {pc' : WorkerPc F A} {a : WorkqueueStruct.Act F A} (h : TableMove wq wq' pc' a) (hpc : stepsLeft pc' ≤ 1) :
    poolWeight (fun t => stepsLeft t.pc) wq'.workers + 1 ≤ poolWeight (fun t => stepsLeft t.pc) wq.workers + (Act.thread a).gain := by
  cases h with
  | @moved k ks t hk hawake hworkers =>
    have hset := poolWeight_set (fun t : WorkerThread F A => stepsLeft t.pc) hk { t with pc := pc' }
    have ht : stepsLeft t.pc = 2 := by
      rcases hawake with heq | heq <;> rw [heq] <;> rfl
    rw [hworkers]
    simp only [ht] at hset
    show _ + 1 ≤ _ + 0
    omega
  | wake k he =>
    subst he
    show poolWeight _ (wq.workers.modify k Sleeper.wake) + 1 ≤ _ + 2
    cases hk : wq.workers[k]? with
    | none =>
      have hsame : wq.workers.modify k Sleeper.wake = wq.workers := modify_eq_self (fun x hx => by simp [hk] at hx)
      rw [hsame]
      omega
    | some t =>
      have hset := poolWeight_set (fun t : WorkerThread F A => stepsLeft t.pc) hk (Sleeper.wake t)
      have hwake := stepsLeft_wake_le t.pc
      rw [modify_eq_set Sleeper.wake hk]
      change _ + stepsLeft t.pc = _ + stepsLeft t.pc.wake at hset
      omega

/-- Each step takes something off, but for a wake without a notification. -/
theorem Inv.toGo_step (h : Inv attr env s log) {a : Act F A} (hs : s.step env a = some (s', ev)) : s'.toGo + 1 ≤ s.toGo + a.gain := by
  have hmax := attr.nrThreadToCreate_le
  cases a with
  | thread a =>
    simp only [AllocWorkers.step] at hs
    split at hs
    · rename_i ha
      obtain ⟨⟨wq', e⟩, hstep, heq⟩ := Option.map_eq_some_iff.1 hs
      obtain ⟨rfl, rfl⟩ := Prod.mk.inj heq
      obtain ⟨pc', hmove, hpc', hattr⟩ : ∃ pc', TableMove s.wq wq' pc' a ∧ stepsLeft pc' ≤ 1 ∧ wq'.attr = s.wq.attr := by
        cases h with
        | creating _ h | ready _ h =>
          obtain ⟨-, hattr, -, hmove⟩ := h.idle.step ha hstep
          exact ⟨_, hmove, Nat.le_refl 1, hattr⟩
        | failed _ _ hidle _ =>
          obtain ⟨-, hattr, -, hmove⟩ := hidle.step ha hstep
          exact ⟨_, hmove, Nat.le_refl 1, hattr⟩
        | joining _ h | gone _ h =>
          obtain ⟨-, hattr, -, hmove⟩ := h.stopping.step ha hstep
          exact ⟨_, hmove, Nat.zero_le 1, hattr⟩
      have hweight := weight_move hmove hpc'
      unfold toGo
      simp only [hattr]
      omega
    · cases hs
  | caller =>
    simp only [AllocWorkers.step, callerStep] at hs
    cases h with
    | @creating i hpc h =>
      rw [hpc] at hs
      dsimp only at hs
      split at hs
      · rename_i hi
        have hlt := hi
        rw [h.begun.attr_eq] at hlt
        have hget : ∃ t, s.wq.workers[i]? = some t := by
          refine ⟨_, List.getElem?_eq_getElem ?_⟩
          rw [h.begun.length]
          omega
        obtain ⟨t, ht⟩ := hget
        have hnone : stepsLeft t.pc = 0 := by
          rw [(h.begun.noThread_iff i t ht).2 (Nat.le_refl i)]
          rfl
        split at hs
        · cases hs
          have hset : poolWeight (fun t => stepsLeft t.pc) (s.wq.workers.set i ⟨true, .starting⟩) + stepsLeft t.pc =
            poolWeight (fun t => stepsLeft t.pc) s.wq.workers + 2 := poolWeight_set _ ht _
          rw [hnone] at hset
          unfold toGo
          simp only [hpc, Act.gain]
          omega
        · cases hs
          have hset : poolWeight (fun t => stepsLeft t.pc) (s.wq.workers.set i ⟨true, .noThread⟩) + stepsLeft t.pc =
            poolWeight (fun t => stepsLeft t.pc) s.wq.workers + 0 := poolWeight_set _ ht _
          rw [hnone] at hset
          unfold toGo
          simp only [hpc, Act.gain]
          omega
      · cases hs
        unfold toGo
        simp only [hpc, Act.gain]
        omega
    | failed hpc h _ _ =>
      rw [hpc] at hs
      cases hs
      have hweight := poolWeight_woken (w := fun t : WorkerThread F A => stepsLeft t.pc) (fun t => stepsLeft_wake_le t.pc)
        (broadcast_woken s.wq.workers)
      rw [h.begun.length, ← h.begun.attr_eq] at hweight
      unfold toGo
      simp only [hpc, Act.gain]
      omega
    | @joining m i ret hpc h =>
      rw [hpc] at hs
      cases i with
      | zero =>
        cases hs
        unfold toGo
        simp only [hpc, Act.gain]
        omega
      | succ i =>
        dsimp only at hs
        split at hs
        · cases hs
          unfold toGo
          simp only [hpc, Act.gain]
          omega
        · cases hs
    | ready hpc _ =>
      rw [hpc] at hs
      cases hs
    | gone hpc _ =>
      rw [hpc] at hs
      cases hs

/-- Until the caller returns, somebody has a step to take. -/
theorem Inv.progress (h : Inv attr env s log) (hpc : ∀ ret, s.pc ≠ .returned ret) : ∃ a : Act F A, a.gain = 0 ∧ s.step env a ≠ none := by
  cases h with
  | creating hcreating _ =>
    refine ⟨.caller, rfl, ?_⟩
    simp only [AllocWorkers.step, callerStep, hcreating]
    split
    · split <;> simp
    · simp
  | failed hfailed _ _ _ =>
    refine ⟨.caller, rfl, ?_⟩
    simp [AllocWorkers.step, callerStep, hfailed]
  | @joining m i ret hjoining h =>
    cases i with
    | zero =>
      refine ⟨.caller, rfl, ?_⟩
      simp [AllocWorkers.step, callerStep, hjoining]
    | succ i =>
      have hmax := attr.nrThreadToCreate_le
      have hlt := h.failed.lt
      have hle := h.le
      obtain ⟨⟨b, pc⟩, ht⟩ : ∃ t, s.wq.workers[i]? = some t := by
        refine ⟨_, List.getElem?_eq_getElem ?_⟩
        rw [h.failed.begun.length]
        omega
      have hleaving : isLeaving pc = true := h.stopping.threads ⟨b, pc⟩ (List.mem_of_getElem? ht)
      have hthread : pc ≠ .noThread := fun heq => by
        have := (h.failed.begun.noThread_iff i ⟨b, pc⟩ ht).1 heq
        omega
      have hdone : s.wq.destroyer ≠ .done := by
        rw [h.stopping.destroyer]
        decide
      have hworker : ∀ wq₁, s.wq.workerResume [] pc = some wq₁ → ∃ a : Act F A, a.gain = 0 ∧ s.step env a ≠ none := by
        intro wq₁ hres
        refine ⟨.thread (.worker i []), rfl, ?_⟩
        simp only [AllocWorkers.step, WorkqueueStruct.Act.isThread, if_true, WorkqueueStruct.step, if_neg hdone, ht, workerSection, hres,
          Option.map_some]
        simp
      cases pc with
      | exited =>
        refine ⟨.caller, rfl, ?_⟩
        simp [AllocWorkers.step, callerStep, hjoining, ht]
      | starting => exact hworker _ rfl
      | sleeping b =>
        cases b with
        | true => exact hworker _ rfl
        | false => simp [isLeaving] at hleaving
      | noThread => exact absurd rfl hthread
      | holding _ _ | finishing => simp [isLeaving] at hleaving
  | ready hret _ => exact absurd hret (hpc 0)
  | gone hret _ => exact absurd hret (hpc _)

/-- `alloc_workqueue` with its threads running beside it. Where it returns 0, the queue is in a state that its threads bring the queue of
`allocWorkqueue` to; where it returns an error, that is the one of `allocWorkqueue`, the threads that had been created have left and have
been joined, the youngest first, and there is none besides; no thread takes a work; and however the threads and the caller take their
steps, somebody has one until the caller returns, which it does after a bounded number of them. -/
theorem alloc_workqueue_creates_or_leaves {attrArg : WorkqueueAttr} (hattr : validateAndAdjustWorkqueueAttr attrArg = some (.ok attr))
    (henv : GetsToThreads env) (h : (machine env).Reach (AllocWorkers.init attr : AllocWorkers F A) s log) :
    (s.pc = .returned 0 → ∃ wq₀, allocWorkqueue attrArg env = some (.ok wq₀) ∧
      (WorkqueueStruct.machine F A).Run (fun _ a => a.isThread = true) wq₀ s.wq []) ∧
    (∀ ret, s.pc = .returned ret → ret ≠ 0 →
      allocWorkqueue attrArg env = some (.error ret : Except Int (WorkqueueStruct F A)) ∧
      (∀ t ∈ s.wq.workers, t.pc = .noThread ∨ t.pc = .exited) ∧
      ∃ m, (∀ j < m, env.threadCreate j = 0) ∧ env.threadCreate m = ret ∧
        log.filterMap AllocEvent.join? = (List.range m).reverse) ∧
    log.filterMap AllocEvent.wq? = [] ∧
    ((∀ ret, s.pc ≠ .returned ret) → ∃ a : Act F A, a.gain = 0 ∧ s.step env a ≠ none) ∧
    ∀ as s' log', (machine env).exec s as = some (s', log') → as.length ≤ s.toGo + (as.map Act.gain).sum := by
  have hinv := Inv.of_run h
  refine ⟨fun hret => ?_, fun ret hret hne => ?_, ?_, hinv.progress, fun as s' log' he => ?_⟩
  · cases hinv with
    | ready _ h =>
      refine ⟨created attr, allocWorkqueue_created hattr henv h.begun.created, ?_⟩
      have hrun := h.run
      rw [filled_self] at hrun
      exact hrun
    | gone hpc h =>
      rw [hret] at hpc
      exact absurd (AllocPc.returned.inj hpc).symm h.failed.ne
    | creating hpc _ | failed hpc _ _ _ | joining hpc _ => cases hret.symm.trans hpc
  · cases hinv with
    | ready hpc _ =>
      rw [hret] at hpc
      exact absurd (AllocPc.returned.inj hpc) hne
    | @gone m ret' hpc h =>
      obtain rfl : ret = ret' := AllocPc.returned.inj (hret.symm.trans hpc)
      refine ⟨allocWorkqueue_failed hattr henv h.failed, fun t ht => ?_, m, h.failed.begun.created, h.failed.fails, ?_⟩
      · obtain ⟨j, hj⟩ := List.mem_iff_getElem?.1 ht
        exact h.gone j t (Nat.zero_le j) hj
      · rw [h.joins, List.drop_zero]
    | creating hpc _ | failed hpc _ _ _ | joining hpc _ => cases hret.symm.trans hpc
  · cases hinv with
    | creating _ h | ready _ h => exact h.begun.quiet
    | failed _ h _ _ => exact h.begun.quiet
    | joining _ h | gone _ h => exact h.failed.begun.quiet
  · have hstep : ∀ (s : AllocWorkers F A) a s' ev, (∃ log, Inv attr env s log) → (machine env).step s a = some (s', ev) → True →
        (∃ log, Inv attr env s' log) ∧ s'.toGo + 1 ≤ s.toGo + a.gain := by
      rintro s a s' ev ⟨log, hinv⟩ hs -
      exact ⟨⟨log ++ ev, hinv.step hs⟩, hinv.toGo_step hs⟩
    have hle := (Machine.exec_length_le (Q := fun _ => True) (fun _ _ _ => ⟨trivial, trivial⟩) hstep ⟨log, hinv⟩ he trivial).1
    omega

/-- System calls that succeed up to the second `thread_create`. -/
def oneThread : AllocEnv := ⟨true, 0, 0, 0, 0, true, fun i => if i = 1 then 11 else 0⟩

/-- The first of two threads goes to sleep, the second cannot be created, and the first is told to leave and is joined. -/
theorem alloc_workqueue_creates_or_leaves_second : ∃ (attr : AcceptedAttr) (s : AllocWorkers Unit Unit) (log : List (AllocEvent Unit Unit)),
    validateAndAdjustWorkqueueAttr ⟨0, 2, 2, 2⟩ = some (.ok attr) ∧ (machine oneThread).Reach (AllocWorkers.init attr) s log ∧
    s.pc = .returned 11 ∧ log.filterMap AllocEvent.join? = [0] ∧
    allocWorkqueue ⟨0, 2, 2, 2⟩ oneThread = some (.error 11 : Except Int (WorkqueueStruct Unit Unit)) := by
  have hrun : ∃ attr : AcceptedAttr, validateAndAdjustWorkqueueAttr ⟨0, 2, 2, 2⟩ = some (.ok attr) ∧
      ((machine oneThread).exec (AllocWorkers.init attr : AllocWorkers Unit Unit)
        [.caller, .thread (.worker 0 []), .caller, .caller, .thread (.worker 0 []), .caller, .caller]).map
          (fun r => (r.1.pc, r.2.filterMap AllocEvent.join?)) = some (.returned 11, [0]) := by
    refine ⟨_, rfl, ?_⟩
    decide
  obtain ⟨attr, hattr, he⟩ := hrun
  obtain ⟨s, log, h, hval⟩ := Machine.exists_of_exec
    (fun (s : AllocWorkers Unit Unit) (log : List (AllocEvent Unit Unit)) => (s.pc, log.filterMap AllocEvent.join?)) he
  obtain ⟨hpc, hjoins⟩ := Prod.mk.inj hval
  have hfailed := (alloc_workqueue_creates_or_leaves hattr ⟨rfl, rfl, rfl, rfl, rfl, rfl⟩ h).2.1 11 hpc (by decide)
  exact ⟨attr, s, log, hattr, h, hpc, hjoins, hfailed.1⟩

end AllocWorkers

end GwBot

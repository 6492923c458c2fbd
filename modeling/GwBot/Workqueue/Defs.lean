import GwBot.Lib.JobQueue
import GwBot.Workqueue.Attr

/-!
# The workqueue, as the code has it

`core/workqueue.c`: the state of a `workqueue_struct` with the threads that use it, and each of its functions as the code
computes it. A thread is where it stands between two critical sections; a critical section (from `mutex_lock` or the
return of `cond_wait` to the next `cond_wait` or `mutex_unlock`) is one step, since the lock excludes every other. What the
scheduler or the system decides is an argument of the step: which sleepers a signal notifies (`ks`) and what `thread_create`
returns.
-/

namespace GwBot

open Lib

/-! ## Works, threads and the queue -/

/-- `struct work_struct`, of function pointers `F` and arguments `A`, where `none` is `NULL`. `call` is not in the code: it is
the number of the `queue_work` call that submitted the work, and tells two works with the same pointers apart. -/
structure WorkStruct (F A : Type) where
  func : Option F
  arg : Option A
  deleter : Option F
  call : Nat
  deriving DecidableEq, Repr

/-- A slot of the work list as `calloc` leaves it. -/
instance {F A : Type} : Inhabited (WorkStruct F A) := ⟨⟨none, none, none, 0⟩⟩

/-- Where a worker thread stands. -/
inductive WorkerPc (F A : Type) where
  /-- There is no thread. -/
  | noThread
  /-- Created, before the first `mutex_lock` of `worker_func`. -/
  | starting
  /-- In `cond_wait(&wq->worker_cond)`; `notified` when it is only waiting for the lock. -/
  | sleeping (notified : Bool)
  /-- Outside of the lock with a work in its local copy. -/
  | holding (st : Stage) (work : WorkStruct F A)
  /-- The deleter has returned; before the `mutex_lock` that follows it. -/
  | finishing
  /-- `worker_func` has returned. -/
  | exited
  deriving DecidableEq, Repr

/-- `struct worker_thread`: whether `wq` is set (`id` is the place in the table), and where its thread stands. -/
structure WorkerThread (F A : Type) where
  wq : Bool
  pc : WorkerPc F A
  deriving DecidableEq, Repr

/-- Where a call of `queue_work` or of `wait_all_work_done` stands: before its `mutex_lock`, in `cond_wait`, or returned. -/
inductive CallPc where
  | entering
  | sleeping (notified : Bool)
  | returned (ret : Int)
  deriving DecidableEq, Repr

/-- A call of `queue_work`. -/
structure QueueCall (F A : Type) where
  work : WorkStruct F A
  pc : CallPc
  deriving DecidableEq, Repr

/-- Where `destroy_workqueue` stands: not called, in `join_all_workers` at slot `i`, past it, returned, or at slot `i` with a
`thread_join` of a thread that was never created behind it. That call is undefined, and nothing is said about what comes of it: the
destroyer does not go on. -/
inductive DestroyPc where
  | idle
  | joining (i : Nat)
  | joined
  | done
  | undefined (i : Nat)
  deriving DecidableEq, Repr

/-- A notification of a thread in `cond_wait`. -/
def CallPc.wake : CallPc → CallPc
  | .sleeping _ => .sleeping true
  | pc => pc

/-- In `cond_wait` with no notification pending. -/
def CallPc.asleep : CallPc → Bool
  | .sleeping false => true
  | _ => false

theorem CallPc.wake_of_awake (pc : CallPc) (h : pc.asleep = false) : pc.wake = pc := by
  cases pc with
  | entering => rfl
  | sleeping b => cases b <;> first | rfl | nomatch h
  | returned r => rfl

theorem CallPc.asleep_wake (pc : CallPc) : pc.wake.asleep = false := by
  cases pc <;> rfl

/-- A notification of a worker. -/
def WorkerPc.wake {F A : Type} : WorkerPc F A → WorkerPc F A
  | .sleeping _ => .sleeping true
  | pc => pc

/-- A worker in `cond_wait` with no notification pending. -/
def WorkerPc.asleep {F A : Type} : WorkerPc F A → Bool
  | .sleeping false => true
  | _ => false

theorem WorkerPc.wake_of_awake {F A : Type} (pc : WorkerPc F A) (h : pc.asleep = false) : pc.wake = pc := by
  cases pc with
  | sleeping b => cases b <;> first | rfl | nomatch h
  | _ => rfl

theorem WorkerPc.asleep_wake {F A : Type} (pc : WorkerPc F A) : pc.wake.asleep = false := by
  cases pc <;> rfl

instance {F A : Type} : Sleeper (WorkerThread F A) where
  asleep t := t.pc.asleep
  wake t := { t with pc := t.pc.wake }
  wake_of_awake t h := by rw [t.pc.wake_of_awake h]
  asleep_wake t := t.pc.asleep_wake

instance : Sleeper CallPc where
  asleep := CallPc.asleep
  wake := CallPc.wake
  wake_of_awake := CallPc.wake_of_awake
  asleep_wake := CallPc.asleep_wake

instance {F A : Type} : Sleeper (QueueCall F A) where
  asleep c := c.pc.asleep
  wake c := { c with pc := c.pc.wake }
  wake_of_awake c h := by rw [c.pc.wake_of_awake h]
  asleep_wake c := c.pc.asleep_wake

/-- `struct workqueue_struct` and the threads that use it. The mask is `attr.mask`; `callers` and `waiters` are the calls of
`queue_work` and `wait_all_work_done` made so far. -/
structure WorkqueueStruct (F A : Type) where
  shouldStop : Bool
  queueIsBlocked : Bool
  waitAllIsWaiting : Bool
  nrSleepingWorkers : UInt32
  nrSleepingQueuers : UInt32
  nrOnlineWorkers : UInt32
  nrRunningWorkers : UInt32
  attr : AcceptedAttr
  workers : List (WorkerThread F A)
  head : UInt32
  tail : UInt32
  workList : Nat → WorkStruct F A
  callers : List (QueueCall F A)
  waiters : List CallPc
  destroyer : DestroyPc

/-- What a step of the workqueue logs: what happened to a work, the join of a worker slot, a `wait_all_work_done` call taking
the lock for the first time, and its return. -/
inductive WqEvent (F A : Type) where
  | job (e : JobEvent (WorkStruct F A))
  | join (i : Nat)
  | waitEnter (i : Nat)
  | waitReturn (i : Nat)
  deriving DecidableEq, Repr

namespace WorkqueueStruct

variable {F A : Type} (wq : WorkqueueStruct F A)

/-! ## Allocation -/

/-- What the system calls made by `alloc_workqueue` return. -/
structure AllocEnv where
  callocWq : Bool
  mutexInit : Int
  workerCondInit : Int
  waitAllCondInit : Int
  queueWorkCondInit : Int
  callocWorkers : Bool
  threadCreate : Nat → Int

/-- `alloc_workers`: the table, of which the first `nr_thread_to_create` slots have a thread. A thread that fails to start makes
the whole call fail with its error. -/
def allocWorkers (attr : AcceptedAttr) (env : AllocEnv) : Except Int (List (WorkerThread F A)) :=
  if env.callocWorkers = false then .error (-ENOMEM)
  else
    let n := attr.nrThreadToCreate.toNat
    match (List.range n).find? (fun i => env.threadCreate i ≠ 0) with
    | some i => .error (env.threadCreate i)
    | none => .ok (List.replicate n ⟨true, .starting⟩ ++ List.replicate (attr.maxThreads.toNat - n) ⟨false, .noThread⟩)

/-- `alloc_workqueue`; `none` when the rounding loop does not end. The workers may run before it returns, but they find no work and
nobody else uses the queue yet, so what they do then they may as well do after. -/
def allocWorkqueue (attrArg : WorkqueueAttr) (env : AllocEnv) : Option (Except Int (WorkqueueStruct F A)) :=
  match validateAndAdjustWorkqueueAttr attrArg with
  | none => none
  | some (.error ret) => some (.error ret)
  | some (.ok attr) =>
    if env.callocWq = false then some (.error (-ENOMEM))
    else if env.mutexInit ≠ 0 then some (.error env.mutexInit)
    else if env.workerCondInit ≠ 0 then some (.error env.workerCondInit)
    else if env.waitAllCondInit ≠ 0 then some (.error env.waitAllCondInit)
    else if env.queueWorkCondInit ≠ 0 then some (.error env.queueWorkCondInit)
    else
      match allocWorkers attr env with
      | .error ret => some (.error ret)
      | .ok workers =>
        some (.ok
          { shouldStop := false, queueIsBlocked := false, waitAllIsWaiting := false
            nrSleepingWorkers := 0, nrSleepingQueuers := 0, nrOnlineWorkers := 0, nrRunningWorkers := 0
            attr := attr, workers := workers, head := 0, tail := 0, workList := fun _ => default
            callers := [], waiters := [], destroyer := .idle })

/-! ## The functions of the workqueue -/

/-- `count_pending_works`. -/
def countPendingWorks : Nat := absDiff wq.tail wq.head

/-- `get_free_worker_slot`: the first slot whose `wq` is not set. -/
def getFreeWorkerSlot : Option Nat := wq.workers.findIdx? (fun worker => !worker.wq)

/-- `arm_spawn_worker`: the slot is claimed before the thread is created, and stays claimed when it is not. -/
def armSpawnWorker (threadCreate : Int) : WorkqueueStruct F A × Int :=
  match wq.getFreeWorkerSlot with
  | none => (wq, -EAGAIN)
  | some k =>
    ({ wq with workers := wq.workers.set k ⟨true, if threadCreate = 0 then .starting else .noThread⟩ }, threadCreate)

/-- `arm_worker`. -/
def armWorker (ks : List Nat) (threadCreate : Int) : WorkqueueStruct F A × Int :=
  if wq.nrSleepingWorkers = 0 then wq.armSpawnWorker threadCreate
  else ({ wq with workers := signal ks wq.workers }, 0)

/-- `try_queue_work_locked`: what `arm_worker` returns is not looked at. -/
def tryQueueWorkLocked (work : WorkStruct F A) (ks : List Nat) (threadCreate : Int) : WorkqueueStruct F A × Int :=
  if wq.shouldStop then (wq, -EOWNERDEAD)
  else if wq.queueIsBlocked then (wq, -EAGAIN)
  else if wq.countPendingWorks ≥ wq.attr.maxPendingWorks.toNat then (wq, -EAGAIN)
  else
    let wq' := { wq with
      workList := writeSlot wq.workList (slotOf wq.attr.mask wq.tail) work
      tail := wq.tail + 1 }
    ((wq'.armWorker ks threadCreate).1, 0)

/-- One round of the loop of `queue_work`, by call `i`: it returns, or goes to sleep on `queue_work_cond`. -/
def queueWorkRound (i : Nat) (work : WorkStruct F A) (ks : List Nat) (threadCreate : Int) :
    WorkqueueStruct F A × List (WqEvent F A) :=
  let (wq', ret) := wq.tryQueueWorkLocked work ks threadCreate
  if ret ≤ 0 ∧ ret ≠ -EAGAIN then
    ({ wq' with callers := wq'.callers.set i ⟨work, .returned ret⟩ }, if ret = 0 then [.job ⟨.accept, work⟩] else [])
  else
    ({ wq' with
        nrSleepingQueuers := wq'.nrSleepingQueuers + 1
        callers := wq'.callers.set i ⟨work, .sleeping false⟩ }, [])

/-- The loop of `clear_pending_works`, for as many rounds as there is fuel: the final head and the works dropped. -/
def clearLoop : Nat → UInt32 → UInt32 × List (WorkStruct F A)
  | 0, head => (head, [])
  | n + 1, head =>
    if head ≠ wq.tail then
      let (head', works) := clearLoop n (head + 1)
      (head', wq.workList (slotOf wq.attr.mask head) :: works)
    else (head, [])

/-- `clear_pending_works`: every pending work is dropped and its deleter, if it has one, is called. The loop takes as many rounds as
`head` is increments away from `tail`. -/
def clearPendingWorks : WorkqueueStruct F A × List (WqEvent F A) :=
  let (head, works) := wq.clearLoop (occupancy wq.head wq.tail) wq.head
  ({ wq with head := head },
    (works.flatMap (JobQueue.dropEvents (fun work => work.deleter.isSome))).map .job)

/-- `wake_up_all_workers`. -/
def wakeUpAllWorkers (ks : List Nat) : WorkqueueStruct F A :=
  { wq with
    workers :=
      if wq.nrSleepingWorkers = 1 then signal ks wq.workers
      else if wq.nrSleepingWorkers > 1 then broadcast wq.workers
      else wq.workers
    waiters := if wq.waitAllIsWaiting then broadcast wq.waiters else wq.waiters }

/-- The first critical section of `destroy_workqueue`. -/
def destroySection (ks : List Nat) : WorkqueueStruct F A × List (WqEvent F A) :=
  let (wq', ev) := { wq with shouldStop := true }.clearPendingWorks
  ({ wq'.wakeUpAllWorkers ks with destroyer := .joining 0 }, ev)

/-- One round of the loop of `join_all_workers`, at slot `i`; `none` while the thread to join has not exited. A claimed slot without a
thread is joined like any other: its `thread` was never set. -/
def joinRound (i : Nat) : Option (WorkqueueStruct F A × List (WqEvent F A)) :=
  match wq.workers[i]? with
  | none => some ({ wq with destroyer := .joined }, [])
  | some worker =>
    if worker.wq = false then some ({ wq with destroyer := .joining (i + 1) }, [])
    else
      match worker.pc with
      | .exited => some ({ wq with destroyer := .joining (i + 1) }, [.join i])
      | .noThread => some ({ wq with destroyer := .undefined i }, [.join i])
      | _ => none

/-- One round of the loop of `wait_all_work_done`, by call `i`: it returns, or goes to sleep on `wait_all_cond`. -/
def waitAllRound (i : Nat) : WorkqueueStruct F A × List (WqEvent F A) :=
  if (wq.countPendingWorks > 0 ∨ wq.nrRunningWorkers ≠ 0) ∧ wq.shouldStop = false then
    ({ wq with waitAllIsWaiting := true, waiters := wq.waiters.set i (.sleeping false) }, [])
  else ({ wq with queueIsBlocked := false, waiters := wq.waiters.set i (.returned 0) }, [.waitReturn i])

/-- What a round of the loop of `wait_for_event` ends in. -/
inductive WaitOutcome where
  | returnFalse
  | returnTrue
  | sleep
  deriving DecidableEq, Repr

/-- One round of the loop of `wait_for_event`. -/
def waitForEvent : WorkqueueStruct F A × WaitOutcome :=
  if wq.shouldStop && !wq.queueIsBlocked then (wq, .returnFalse)
  else if wq.head ≠ wq.tail then (wq, .returnTrue)
  else
    ({ wq with
        waiters := if wq.waitAllIsWaiting then broadcast wq.waiters else wq.waiters
        nrSleepingWorkers := wq.nrSleepingWorkers + 1 }, .sleep)

/-- `wake_up_all_queue_work_callers`. -/
def wakeUpAllQueueWorkCallers (ks : List Nat) : WorkqueueStruct F A :=
  if wq.nrRunningWorkers = 0 then wq
  else
    { wq with
      callers :=
        if wq.nrSleepingQueuers = 1 then signal ks wq.callers
        else if wq.nrSleepingQueuers > 1 then broadcast wq.callers
        else wq.callers }

/-- Worker `k` moves to `pc`. -/
def setPc (k : Nat) (pc : WorkerPc F A) : WorkqueueStruct F A :=
  { wq with workers := wq.workers.modify k (fun worker => { worker with pc := pc }) }

/-- `worker_func` from the test of its loop to where it gives up the lock. -/
def workerLoop (k : Nat) : WorkqueueStruct F A × List (WqEvent F A) :=
  match wq.waitForEvent with
  | (wq', .returnTrue) =>
    let work := wq'.workList (slotOf wq'.attr.mask wq'.head)
    ({ wq' with head := wq'.head + 1, nrRunningWorkers := wq'.nrRunningWorkers + 1 }.setPc k (.holding .taken work),
      [.job ⟨.take, work⟩])
  | (wq', .returnFalse) => ({ wq' with nrOnlineWorkers := wq'.nrOnlineWorkers - 1 }.setPc k .exited, [])
  | (wq', .sleep) => (wq'.setPc k (.sleeping false), [])

/-- What a worker does when it gets the lock, before it comes to the test of its loop. -/
def workerResume (ks : List Nat) : WorkerPc F A → Option (WorkqueueStruct F A)
  | .starting => some { wq with nrOnlineWorkers := wq.nrOnlineWorkers + 1 }
  | .sleeping true => some { wq with nrSleepingWorkers := wq.nrSleepingWorkers - 1 }
  | .finishing => some ({ wq with nrRunningWorkers := wq.nrRunningWorkers - 1 }.wakeUpAllQueueWorkCallers ks)
  | _ => none

/-- A critical section of worker `k`, from where its thread stands. -/
def workerSection (k : Nat) (ks : List Nat) (pc : WorkerPc F A) : Option (WorkqueueStruct F A × List (WqEvent F A)) :=
  (wq.workerResume ks pc).map (fun wq' => wq'.workerLoop k)

/-- What worker `k` does outside of the lock with the work it took: call the function if there is one, return from it, call the
deleter if there is one, return from it. -/
def workerRun (k : Nat) : WorkerPc F A → Option (WorkqueueStruct F A × List (WqEvent F A))
  | .holding .taken work =>
    if work.func.isSome then some (wq.setPc k (.holding .running work), [.job ⟨.call, work⟩])
    else some (wq.setPc k (.holding .ran work), [])
  | .holding .running work => some (wq.setPc k (.holding .ran work), [.job ⟨.ret, work⟩])
  | .holding .ran work =>
    if work.deleter.isSome then some (wq.setPc k (.holding .deleting work), [.job ⟨.del, work⟩])
    else some (wq.setPc k .finishing, [.job ⟨.fin, work⟩])
  | .holding .deleting work => some (wq.setPc k .finishing, [.job ⟨.fin, work⟩])
  | _ => none

/-- A critical section of call `i` of `queue_work`, from where it stands. -/
def queuerSection (i : Nat) (ks : List Nat) (threadCreate : Int) (call : QueueCall F A) :
    Option (WorkqueueStruct F A × List (WqEvent F A)) :=
  match call.pc with
  | .entering => some (wq.queueWorkRound i call.work ks threadCreate)
  | .sleeping true =>
    some ({ wq with nrSleepingQueuers := wq.nrSleepingQueuers - 1 }.queueWorkRound i call.work ks threadCreate)
  | _ => none

/-- A critical section of call `i` of `wait_all_work_done`, from where it stands. -/
def waiterSection (i : Nat) : CallPc → Option (WorkqueueStruct F A × List (WqEvent F A))
  | .entering =>
    let (wq', ev) := { wq with queueIsBlocked := true }.waitAllRound i
    some (wq', .waitEnter i :: ev)
  | .sleeping true => some ({ wq with waitAllIsWaiting := false }.waitAllRound i)
  | _ => none

/-! ## The machine -/

/-- The steps of a workqueue. -/
inductive Act (F A : Type) where
  /-- A thread calls `queue_work(wq, func, arg, deleter)`. -/
  | queueWork (func : Option F) (arg : Option A) (deleter : Option F)
  /-- Call `i` of `queue_work` runs a critical section. -/
  | queuer (i : Nat) (ks : List Nat) (threadCreate : Int)
  /-- A thread calls `wait_all_work_done(wq)`. -/
  | waitAll
  /-- Call `i` of `wait_all_work_done` runs a critical section. -/
  | waiter (i : Nat)
  /-- Worker `k` runs a critical section. -/
  | worker (k : Nat) (ks : List Nat)
  /-- Worker `k` goes on with the work it holds. -/
  | run (k : Nat)
  /-- The first critical section of `destroy_workqueue`. -/
  | destroy (ks : List Nat)
  /-- The destroyer goes on with `join_all_workers`. -/
  | join
  /-- The destroyer locks and unlocks for the last time and frees the queue. -/
  | destroyEnd
  /-- A sleeper is woken without a notification. -/
  | spuriousWorker (k : Nat)
  | spuriousQueuer (i : Nat)
  | spuriousWaiter (i : Nat)
  deriving DecidableEq, Repr

/-- A step of the workqueue. Once it is freed there is none. -/
def step (wq : WorkqueueStruct F A) (a : Act F A) : Option (WorkqueueStruct F A × List (WqEvent F A)) :=
  if wq.destroyer = .done then none
  else
    match a with
    | .queueWork func arg deleter =>
      some ({ wq with callers := wq.callers ++ [⟨⟨func, arg, deleter, wq.callers.length⟩, .entering⟩] }, [])
    | .queuer i ks threadCreate =>
      match wq.callers[i]? with
      | some call => wq.queuerSection i ks threadCreate call
      | none => none
    | .waitAll => some ({ wq with waiters := wq.waiters ++ [.entering] }, [])
    | .waiter i =>
      match wq.waiters[i]? with
      | some pc => wq.waiterSection i pc
      | none => none
    | .worker k ks =>
      match wq.workers[k]? with
      | some worker => wq.workerSection k ks worker.pc
      | none => none
    | .run k =>
      match wq.workers[k]? with
      | some worker => wq.workerRun k worker.pc
      | none => none
    | .destroy ks => if wq.destroyer = .idle then some (wq.destroySection ks) else none
    | .join =>
      match wq.destroyer with
      | .joining i => wq.joinRound i
      | _ => none
    | .destroyEnd => if wq.destroyer = .joined then some ({ wq with destroyer := .done }, []) else none
    | .spuriousWorker k => some ({ wq with workers := wq.workers.modify k Sleeper.wake }, [])
    | .spuriousQueuer i => some ({ wq with callers := wq.callers.modify i Sleeper.wake }, [])
    | .spuriousWaiter i => some ({ wq with waiters := wq.waiters.modify i Sleeper.wake }, [])

/-- The workqueue as a machine. -/
def machine (F A : Type) : Machine (WorkqueueStruct F A) (Act F A) (WqEvent F A) := ⟨step⟩

end WorkqueueStruct

end GwBot

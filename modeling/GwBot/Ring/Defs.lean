import GwBot.Ring.Cq
import GwBot.Workqueue.Defs

/-!
# The ring, as the code has it

`core/ring.c`: the submission queue, `gw_ring_submit` and what it does with each entry, and what the workers of the ring's workqueue
do in `gw_ring_wq_sqe_exec` and `gw_ring_wq_sqe_delete`, around the completion queue of `Cq` and the workqueue of
`WorkqueueStruct`. What the world decides is an argument of the step: whether `malloc` succeeds, and what
`tgapi_call_get_updates` and `gw_module_handle` return.
-/

namespace GwBot

open Lib

/-! ## State -/

/-- `struct wq_sqe_data`; the ring it points to is the one it is used with. `inst` is not in the code: it is the number of the
`submit_sqe` call, and tells two submissions of equal entries apart. -/
structure WqSqeData where
  inst : Nat
  sqe : GwRingSqe
  deriving DecidableEq, Repr

/-- The functions that the ring hands to `queue_work`. -/
inductive SqeFn where
  | exec
  | delete
  deriving DecidableEq, Repr

/-- Where `gw_ring_submit` stands: at the test of its loop; before and in `post_cqe` for a `GW_RING_OP_NOP`; or in the call of
`queue_work` that `punt_to_io_wq` makes. -/
inductive SubmitPc where
  | loop
  | posting (data : WqSqeData)
  | inPost (data : WqSqeData)
  | queueing (data : WqSqeData) (call : Nat)
  deriving DecidableEq, Repr

/-- A thread in `gw_ring_submit` that holds `sq_lock`, with its local variables. -/
structure Submit where
  sqHead : UInt32
  sqTail : UInt32
  ret : Int
  pc : SubmitPc
  deriving DecidableEq, Repr

/-- Where `gw_ring_wq_sqe_exec` stands: at its start; in `tgapi_call_get_updates` or `gw_module_handle`; before and in `post_cqe`; or
at its end. -/
inductive ExecPc where
  | start
  | handling
  | posting (res : Int)
  | inPost (res : Int)
  | done
  deriving DecidableEq, Repr

/-- A call of `gw_ring_wq_sqe_exec`. -/
structure Exec where
  data : WqSqeData
  pc : ExecPc
  deriving DecidableEq, Repr

/-- The threads that call `post_cqe`. -/
inductive Poster where
  | submitter
  | worker (k : Nat)
  deriving DecidableEq, Repr

/-- `struct gw_ring` and the threads that use it. `execs` has the call of `gw_ring_wq_sqe_exec` that each worker is in;
`destroying` is set from the start of `gw_ring_destroy`. -/
structure GwRing where
  sqHead : UInt32
  sqTail : UInt32
  sqMask : UInt32
  sqes : Nat → GwRingSqe
  cq : Cq Poster
  wq : WorkqueueStruct SqeFn WqSqeData
  submit : Option Submit
  submitRet : Int
  execs : List (Option Exec)
  nrSubmitted : Nat
  destroying : Bool

/-- What happens to a submission. `refused` is a `post_cqe` of the submitter that returned false, `dropped` one of a worker. -/
inductive SqeKind where
  | submitted
  | alloc
  | queueRefused
  | counted
  | uncounted
  | posted
  | refused
  | dropped
  | handlerCall
  | handlerRet
  | freeUpdate
  | freeData
  deriving DecidableEq, Repr

/-- An event of a submission, with the completion if one was posted. -/
structure SqeEvent where
  kind : SqeKind
  data : WqSqeData
  cqe : Option GwRingCqe
  deriving DecidableEq, Repr

/-- What a step of the ring logs. -/
inductive RingEvent where
  | sqe (e : SqeEvent)
  | wq (e : WqEvent SqeFn WqSqeData)
  | cq (e : CqEvent Poster)
  | submitReturned (ret : Int)
  deriving DecidableEq, Repr

/-- An event of a submission that posts nothing. -/
def sqeEvent (kind : SqeKind) (data : WqSqeData) : RingEvent := .sqe ⟨kind, data, none⟩

namespace GwRing

/-! ## Initialisation -/

/-- What the system calls made by `gw_ring_init` return. -/
structure InitEnv where
  callocSqes : Bool
  callocCqes : Bool
  sqLockInit : Int
  cqLockInit : Int
  waitCqeCondInit : Int
  wq : WorkqueueStruct.AllocEnv

/-- The attributes of the ring's workqueue. -/
def wqAttr : WorkqueueAttr :=
  { flags := WQ_F_LAZY_THREAD_CREATION, maxThreads := 1024, minThreads := 32, maxPendingWorks := 4096 }

/-- `gw_ring_init`; `none` when the rounding loop does not end. -/
def gwRingInit (size : UInt32) (env : InitEnv) : Option (Except Int GwRing) :=
  match roundUpPow2 size with
  | none => none
  | some max =>
    if env.callocSqes = false then some (.error (-ENOMEM))
    else if env.callocCqes = false then some (.error (-ENOMEM))
    else if env.sqLockInit ≠ 0 then some (.error env.sqLockInit)
    else if env.cqLockInit ≠ 0 then some (.error env.cqLockInit)
    else if env.waitCqeCondInit ≠ 0 then some (.error env.waitCqeCondInit)
    else
      match WorkqueueStruct.allocWorkqueue wqAttr env.wq with
      | none => none
      | some (.error ret) => some (.error ret)
      | some (.ok wq) =>
        some (.ok
          { sqHead := 0, sqTail := 0, sqMask := max - 1, sqes := fun _ => default, cq := Cq.init (max * 2 - 1), wq := wq
            submit := none, submitRet := 0, execs := List.replicate wqAttr.maxThreads.toNat none, nrSubmitted := 0
            destroying := false })

variable (ring : GwRing)

/-! ## The submission queue -/

/-- `gw_ring_get_sqe`: the slot of the entry it returns. -/
def gwRingGetSqe : GwRing × Option Nat :=
  if u32Diff ring.sqHead ring.sqTail ≥ ring.sqMask + 1 then (ring, none)
  else ({ ring with sqTail := ring.sqTail + 1 }, some (slotOf ring.sqMask ring.sqTail))

/-- The caller of `gw_ring_get_sqe` fills the entry. -/
def fillSqe (slot : Nat) (sqe : GwRingSqe) : GwRing := { ring with sqes := writeSlot ring.sqes slot sqe }

/-- `gw_ring_submit` from `mutex_lock` to the test of its loop. -/
def submitStart : GwRing × List RingEvent :=
  if ring.cq.shouldStop then ({ ring with submitRet := -EOWNERDEAD }, [.submitReturned (-EOWNERDEAD)])
  else ({ ring with submit := some ⟨ring.sqHead, ring.sqTail, 0, .loop⟩ }, [])

/-- `gw_ring_submit` from the end of its loop to its return. -/
def submitEnd (s : Submit) : GwRing × List RingEvent :=
  ({ ring with sqHead := s.sqHead, submit := none, submitRet := s.ret }, [.submitReturned s.ret])

/-- `submit_sqe` has returned: true is counted. -/
def submitSqeReturned (s : Submit) (data : WqSqeData) (counted : Bool) : GwRing × List RingEvent :=
  if counted then ({ ring with submit := some { s with ret := s.ret + 1, pc := .loop } }, [sqeEvent .counted data])
  else ({ ring with submit := some { s with pc := .loop } }, [sqeEvent .uncounted data])

/-- `punt_to_io_wq` has returned: on failure `issue_op_module_handle` drops the update, and `issue_op_tg_api_call` does nothing. -/
def puntReturned (s : Submit) (data : WqSqeData) (punted : Bool) : GwRing × List RingEvent :=
  let (ring', ev) := ring.submitSqeReturned s data punted
  if data.sqe.op = GW_RING_OP_MODULE_HANDLE ∧ punted = false then (ring', sqeEvent .freeUpdate data :: ev) else (ring', ev)

/-- `punt_to_io_wq` up to its call of `queue_work`, or to its return when `malloc` fails. -/
def puntToIoWq (s : Submit) (data : WqSqeData) (malloc : Bool) : Option (GwRing × List RingEvent) :=
  if malloc = false then some (ring.puntReturned s data false)
  else
    match ring.wq.step (.queueWork (some .exec) (some data) (some .delete)) with
    | none => none
    | some (wq, ev) =>
      some ({ ring with wq := wq, submit := some { s with pc := .queueing data ring.wq.callers.length } },
        sqeEvent .alloc data :: ev.map .wq)

/-- `punt_to_io_wq` from the return of `queue_work`. -/
def queueWorkReturned (s : Submit) (data : WqSqeData) (ret : Int) : GwRing × List RingEvent :=
  if ret < 0 then
    let (ring', ev) := ring.puntReturned s data false
    (ring', sqeEvent .queueRefused data :: sqeEvent .freeData data :: ev)
  else ring.puntReturned s data true

/-- `submit_sqe` for the entry of `s.sqHead`. -/
def submitSqe (s : Submit) (malloc : Bool) : Option (GwRing × List RingEvent) :=
  let data : WqSqeData := ⟨ring.nrSubmitted, ring.sqes (slotOf ring.sqMask s.sqHead)⟩
  let s' := { s with sqHead := s.sqHead + 1 }
  let ring' := { ring with nrSubmitted := ring.nrSubmitted + 1 }
  let r :=
    if data.sqe.op = GW_RING_OP_NOP then some ({ ring' with submit := some { s' with pc := .posting data } }, [])
    else if data.sqe.op = GW_RING_OP_TG_API_CALL ∨ data.sqe.op = GW_RING_OP_MODULE_HANDLE then ring'.puntToIoWq s' data malloc
    else some (ring'.submitSqeReturned s' data false)
  r.map (fun r => (r.1, sqeEvent .submitted data :: r.2))

/-- What `gw_ring_submit` does next, outside of `post_cqe` and of the critical sections of `queue_work`. -/
def submitNext (malloc : Bool) : Option (GwRing × List RingEvent) :=
  match ring.submit with
  | none => none
  | some s =>
    match s.pc with
    | .loop => if s.sqHead ≠ s.sqTail then ring.submitSqe s malloc else some (ring.submitEnd s)
    | .queueing data call =>
      match ring.wq.callers[call]? with
      | some ⟨_, .returned ret⟩ => some (ring.queueWorkReturned s data ret)
      | _ => none
    | _ => none

/-! ## The workers -/

/-- What `gw_ring_wq_sqe_delete` does with its data. -/
def deleteEvents (data : WqSqeData) : List RingEvent :=
  if data.sqe.op = GW_RING_OP_MODULE_HANDLE then [sqeEvent .freeUpdate data, sqeEvent .freeData data]
  else [sqeEvent .freeData data]

/-- An event of the workqueue, as the ring logs it: a call of the deleter is a run of `gw_ring_wq_sqe_delete`. -/
def wqEvents (e : WqEvent SqeFn WqSqeData) : List RingEvent :=
  match e with
  | .job ⟨.del, ⟨_, some data, _, _⟩⟩ => .wq e :: deleteEvents data
  | _ => [.wq e]

/-- A step of the workqueue that leaves the rest of the ring as it is. -/
def wqStep (a : WorkqueueStruct.Act SqeFn WqSqeData) : Option (GwRing × List RingEvent) :=
  (ring.wq.step a).map (fun r => ({ ring with wq := r.1 }, r.2.flatMap wqEvents))

/-- Worker `k` is now in call `e` of `gw_ring_wq_sqe_exec`. -/
def setExec (k : Nat) (e : Option Exec) : GwRing := { ring with execs := ring.execs.set k e }

/-- Worker `k` goes on with the work it holds: it calls `gw_ring_wq_sqe_exec`, or returns from it when that is at its end, or does
something else. -/
def workerRun (k : Nat) : Option (GwRing × List RingEvent) :=
  match ring.wq.workers[k]? with
  | some ⟨_, .holding .taken work⟩ =>
    match work.arg with
    | some data => (ring.wqStep (.run k)).map (fun r => (r.1.setExec k (some ⟨data, .start⟩), r.2))
    | none => none
  | some ⟨_, .holding .running _⟩ =>
    match ring.execs[k]? with
    | some (some ⟨_, .done⟩) => (ring.wqStep (.run k)).map (fun r => (r.1.setExec k none, r.2))
    | _ => none
  | _ => ring.wqStep (.run k)

/-- `gw_ring_wq_sqe_exec` by worker `k`, outside of `post_cqe`: to the handler, or past it. `res` is what the handler returns. -/
def execNext (k : Nat) (res : Int) : Option (GwRing × List RingEvent) :=
  match ring.execs[k]? with
  | some (some ⟨data, .start⟩) =>
    if data.sqe.op = GW_RING_OP_NOP then some (ring.setExec k (some ⟨data, .posting 0⟩), [])
    else if data.sqe.op = GW_RING_OP_TG_API_CALL then
      if data.sqe.tgApiCall.op = TG_API_GET_UPDATES then
        some (ring.setExec k (some ⟨data, .handling⟩), [sqeEvent .handlerCall data])
      else some (ring.setExec k (some ⟨data, .posting (-EOPNOTSUPP)⟩), [])
    else if data.sqe.op = GW_RING_OP_MODULE_HANDLE then
      some (ring.setExec k (some ⟨data, .handling⟩), [sqeEvent .handlerCall data])
    else some (ring.setExec k (some ⟨data, .done⟩), [])
  | some (some ⟨data, .handling⟩) => some (ring.setExec k (some ⟨data, .posting res⟩), [sqeEvent .handlerRet data])
  | _ => none

/-! ## `post_cqe` -/

/-- `post_cqe` up to its fullness test, by the submitter for a `GW_RING_OP_NOP` or by a worker: what a refusal means to each. -/
def postStart (p : Poster) : Option (GwRing × List RingEvent) :=
  match p with
  | .submitter =>
    match ring.submit with
    | some ⟨sqHead, sqTail, ret, .posting data⟩ =>
      (ring.cq.postCqe p (data.sqe.cqe 0)).map (fun r =>
        if ring.cq.isFull then
          let (ring', ev) := { ring with cq := r.1 }.submitSqeReturned ⟨sqHead, sqTail, ret, .posting data⟩ data false
          (ring', r.2.map .cq ++ sqeEvent .refused data :: ev)
        else ({ ring with cq := r.1, submit := some ⟨sqHead, sqTail, ret, .inPost data⟩ }, r.2.map .cq))
    | _ => none
  | .worker k =>
    match ring.execs[k]? with
    | some (some ⟨data, .posting res⟩) =>
      (ring.cq.postCqe p (data.sqe.cqe res)).map (fun r =>
        if ring.cq.isFull then
          ({ ring with cq := r.1 }.setExec k (some ⟨data, .done⟩), r.2.map .cq ++ [sqeEvent .dropped data])
        else ({ ring with cq := r.1 }.setExec k (some ⟨data, .inPost res⟩), r.2.map .cq))
    | _ => none

/-- The stores of `post_cqe` to the entry. -/
def postStore : Option (GwRing × List RingEvent) :=
  ring.cq.storeCqe.map (fun r => ({ ring with cq := r.1 }, r.2.map .cq))

/-- `post_cqe` from the store of `cq_tail` to its return. -/
def postPublish : Option (GwRing × List RingEvent) :=
  match ring.cq.posting, ring.submit with
  | some ⟨.submitter, cqe, _, _⟩, some ⟨sqHead, sqTail, ret, .inPost data⟩ =>
    ring.cq.publishCqe.map (fun r =>
      let (ring', ev) := { ring with cq := r.1 }.submitSqeReturned ⟨sqHead, sqTail, ret, .inPost data⟩ data true
      (ring', r.2.map .cq ++ .sqe ⟨.posted, data, some cqe⟩ :: ev))
  | some ⟨.worker k, cqe, _, _⟩, _ =>
    match ring.execs[k]? with
    | some (some ⟨data, .inPost _⟩) =>
      ring.cq.publishCqe.map (fun r =>
        ({ ring with cq := r.1 }.setExec k (some ⟨data, .done⟩), r.2.map .cq ++ [.sqe ⟨.posted, data, some cqe⟩]))
    | _ => none
  | _, _ => none

/-! ## The machine -/

/-- The steps of the ring. -/
inductive Act where
  /-- The caller takes an entry of the submission queue, or finds it full. -/
  | getSqe
  /-- The caller fills an entry. -/
  | fill (slot : Nat) (sqe : GwRingSqe)
  /-- A thread calls `gw_ring_submit` and gets `sq_lock`. -/
  | submit
  /-- `gw_ring_submit` goes on. -/
  | submitNext (malloc : Bool)
  /-- A critical section of the call of `queue_work` that `gw_ring_submit` is in. -/
  | queuer (ks : List Nat) (threadCreate : Int)
  | postStart (p : Poster)
  | postStore
  | postPublish
  /-- A critical section of worker `k`. -/
  | worker (k : Nat) (ks : List Nat)
  /-- Worker `k` goes on with the work it holds. -/
  | run (k : Nat)
  /-- Worker `k` goes on in `gw_ring_wq_sqe_exec`. -/
  | exec (k : Nat) (res : Int)
  /-- A step of the consumer. -/
  | reader (a : Cq.Act Poster)
  /-- The consumer calls `gw_ring_cq_advance` without a walk. -/
  | cqAdvance (n : UInt32)
  /-- `gw_ring_destroy` up to its call of `destroy_workqueue`. -/
  | destroy
  | destroyWq (ks : List Nat)
  | join
  | destroyEnd
  /-- A sleeper of the workqueue is woken without a notification. -/
  | spuriousWorker (k : Nat)
  | spuriousQueuer (i : Nat)
  deriving DecidableEq, Repr

/-- A step of the ring. Once its workqueue is freed there is none. -/
def step (ring : GwRing) (a : Act) : Option (GwRing × List RingEvent) :=
  if ring.wq.destroyer = .done then none
  else
    match a with
    | .getSqe => if ring.submit.isSome then none else some (ring.gwRingGetSqe.1, [])
    | .fill slot sqe => if ring.submit.isSome then none else some (ring.fillSqe slot sqe, [])
    | .submit => if ring.submit.isSome then none else some ring.submitStart
    | .submitNext malloc => ring.submitNext malloc
    | .queuer ks threadCreate =>
      match ring.submit with
      | some ⟨_, _, _, .queueing _ call⟩ => ring.wqStep (.queuer call ks threadCreate)
      | _ => none
    | .postStart p => ring.postStart p
    | .postStore => ring.postStore
    | .postPublish => ring.postPublish
    | .worker k ks => ring.wqStep (.worker k ks)
    | .run k => ring.workerRun k
    | .exec k res => ring.execNext k res
    | .reader a => if a.isReader then (ring.cq.step a).map (fun r => ({ ring with cq := r.1 }, r.2.map .cq)) else none
    | .cqAdvance n =>
      match ring.cq.reader with
      | .idle | .returned _ _ => some ({ ring with cq := ring.cq.cqAdvance n }, [])
      | _ => none
    | .destroy =>
      if ring.submit.isSome ∨ ring.cq.posting.isSome ∨ ring.destroying then none
      else some ({ ring with cq := ring.cq.stop, destroying := true }, [])
    | .destroyWq ks => if ring.destroying then ring.wqStep (.destroy ks) else none
    | .join => ring.wqStep .join
    | .destroyEnd => ring.wqStep .destroyEnd
    | .spuriousWorker k => ring.wqStep (.spuriousWorker k)
    | .spuriousQueuer i => ring.wqStep (.spuriousQueuer i)

/-- The ring as a machine. -/
def machine : Machine GwRing Act RingEvent := ⟨step⟩

end GwRing

end GwBot

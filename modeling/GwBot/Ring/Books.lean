import GwBot.Ring.Invariant

/-!
# The books of the submissions

What has happened to the submissions that satisfy any predicate `p` is counted in the log, and each count is tied to where such
submissions are now: with the submitter, in a call of `queue_work`, in the workqueue, or inside `gw_ring_wq_sqe_exec`. The books are
kept by every step of the ring whatever the refusals, so what the ring promises of one submission is read off them.
-/

namespace GwBot

open Lib

/-! ## Counting -/

/-- How many events of kind `kind` there are for submissions that satisfy `p`. -/
def sqeCount (kind : SqeKind) (p : WqSqeData → Bool) (log : List RingEvent) : Nat :=
  (sqeLog log).countP (fun e => e.kind == kind && p e.data)

/-- The work carries a submission that satisfies `p`. -/
def isWorkOf (p : WqSqeData → Bool) (work : WorkStruct SqeFn WqSqeData) : Bool := work.arg.any p

/-- How many events of kind `kind` the workqueue logged for works that carry such a submission. -/
def workCount (kind : JobKind) (p : WqSqeData → Bool) (log : List RingEvent) : Nat :=
  JobQueue.countOf kind (isWorkOf p) (jobLog (wqLog log))

/-- 1 for a submission that satisfies `p`, else 0. -/
def one (p : WqSqeData → Bool) (data : WqSqeData) : Nat := if p data = true then 1 else 0

/-- The submission that `submit_sqe` is at. -/
def SubmitPc.data? : SubmitPc → Option WqSqeData
  | .loop => none
  | .posting data | .inPost data | .queueing data _ => some data

/-- Not past `post_cqe`. -/
def ExecPc.isUnposted : ExecPc → Bool
  | .done => false
  | _ => true

/-- In `tgapi_call_get_updates` or `gw_module_handle`. -/
def ExecPc.isHandling : ExecPc → Bool
  | .handling => true
  | _ => false

/-- Not past `tgapi_call_get_updates` or `gw_module_handle`. -/
def ExecPc.isUnhandled : ExecPc → Bool
  | .start | .handling => true
  | _ => false

/-- The submissions with `p` that `submit_sqe` is at. -/
def handCount (p : WqSqeData → Bool) : Option Submit → Nat
  | none => 0
  | some s => (s.pc.data?.map (one p)).getD 0

/-- The call of `queue_work` has returned 0. -/
def isAccepted (callers : List (QueueCall SqeFn WqSqeData)) (call : Nat) : Bool :=
  callers[call]?.any (fun c => c.pc.isAccepted)

/-- The submissions with `p` in the call of `queue_work` that `gw_ring_submit` is in, if that has, or has not, accepted the work. -/
def queueCount (callers : List (QueueCall SqeFn WqSqeData)) (accepted : Bool) (p : WqSqeData → Bool) : Option Submit → Nat
  | none => 0
  | some s =>
    match s.pc with
    | .queueing data call => if isAccepted callers call = accepted then one p data else 0
    | _ => 0

/-- The submissions with `p` for which a worker is in `gw_ring_wq_sqe_exec`, at a place with `q`. -/
def execCount (q : ExecPc → Bool) (p : WqSqeData → Bool) (execs : List (Option Exec)) : Nat :=
  execs.countP (fun e => e.any (fun e => q e.pc && p e.data))

variable {p : WqSqeData → Bool} {kind : SqeKind}

@[simp] theorem sqeCount_nil : sqeCount kind p [] = 0 := rfl

/-- The counts of two logs are added up. -/
@[simp] theorem sqeCount_append (l l' : List RingEvent) : sqeCount kind p (l ++ l') = sqeCount kind p l + sqeCount kind p l' := by
  rw [sqeCount, sqeLog_append, List.countP_append]
  rfl

/-- An event of an entry counts if it is of the kind. -/
@[simp] theorem sqeCount_cons_sqe (e : SqeEvent) (l : List RingEvent) :
    sqeCount kind p (.sqe e :: l) = sqeCount kind p l + if e.kind = kind then one p e.data else 0 := by
  rw [sqeCount, sqeLog_cons_sqe, List.countP_cons]
  by_cases h : e.kind = kind <;> simp [h, one, sqeCount]

@[simp] theorem sqeCount_cons_event (k : SqeKind) (data : WqSqeData) (l : List RingEvent) :
    sqeCount kind p (sqeEvent k data :: l) = sqeCount kind p l + if k = kind then one p data else 0 :=
  sqeCount_cons_sqe _ _

@[simp] theorem sqeCount_cons_cq (e : CqEvent Poster) (l : List RingEvent) : sqeCount kind p (.cq e :: l) = sqeCount kind p l := rfl

@[simp] theorem sqeCount_cons_returned (ret : Int) (l : List RingEvent) :
    sqeCount kind p (.submitReturned ret :: l) = sqeCount kind p l := rfl

/-- What the completion queue logs is not in the books of the entries. -/
@[simp] theorem sqeCount_map_cq (l : List (CqEvent Poster)) : sqeCount kind p (l.map .cq) = 0 := by
  induction l with
  | nil => rfl
  | cons e es ih => exact ih

@[simp] theorem workCount_nil (k : JobKind) : workCount k p [] = 0 := rfl

/-- So are those of the works. -/
@[simp] theorem workCount_append (k : JobKind) (l l' : List RingEvent) :
    workCount k p (l ++ l') = workCount k p l + workCount k p l' := by
  rw [workCount, wqLog_append, jobLog_append, JobQueue.countOf_append]
  rfl

/-- What is logged of an entry is not in the books of the works, nor is a completion or the return of `gw_ring_submit`. -/
@[simp] theorem workCount_cons_sqe (k : JobKind) (e : SqeEvent) (l : List RingEvent) :
    workCount k p (.sqe e :: l) = workCount k p l := rfl

@[simp] theorem workCount_cons_event (k : JobKind) (kind : SqeKind) (data : WqSqeData) (l : List RingEvent) :
    workCount k p (sqeEvent kind data :: l) = workCount k p l := rfl

@[simp] theorem workCount_cons_cq (k : JobKind) (e : CqEvent Poster) (l : List RingEvent) :
    workCount k p (.cq e :: l) = workCount k p l := rfl

@[simp] theorem workCount_cons_returned (k : JobKind) (ret : Int) (l : List RingEvent) :
    workCount k p (.submitReturned ret :: l) = workCount k p l := rfl

/-- What the workqueue logs is not in the books of the entries. -/
@[simp] theorem sqeCount_cons_wq (e : WqEvent SqeFn WqSqeData) (l : List RingEvent) :
    sqeCount kind p (.wq e :: l) = sqeCount kind p l := rfl

/-- An event of a work counts if it is of the kind and the work is that of an entry with `p`. -/
@[simp] theorem workCount_cons_job (k k' : JobKind) (work : WorkStruct SqeFn WqSqeData) (l : List RingEvent) :
    workCount k p (.wq (.job ⟨k', work⟩) :: l) = workCount k p l + if k' = k ∧ isWorkOf p work = true then 1 else 0 :=
  JobQueue.countOf_cons _ _ _ _ _

/-- What the completion queue logs is not in the books of the works. -/
@[simp] theorem workCount_map_cq (k : JobKind) (l : List (CqEvent Poster)) : workCount k p (l.map .cq) = 0 := by
  rw [workCount, GwRing.wqLog_map_cq]
  rfl

namespace GwRing

/-- The works that the ring logs are those that its workqueue has logged. -/
@[simp] theorem workCount_wqEvents (k : JobKind) (ev : List (WqEvent SqeFn WqSqeData)) :
    workCount k p (ev.flatMap wqEvents) = JobQueue.countOf k (isWorkOf p) (jobLog ev) := by
  rw [workCount, wqLog_wqEvents]

/-- A punt that fails logs no work. -/
@[simp] theorem workCount_unpuntedEvents (k : JobKind) (data : WqSqeData) : workCount k p (unpuntedEvents data) = 0 := by
  rw [workCount, (wqLog_unpuntedEvents data).1]
  rfl

/-- The workqueue's events are those of submissions only in the runs of `gw_ring_wq_sqe_delete`. -/
theorem sqeCount_wqEvents (h1 : kind ≠ .freeUpdate) (h2 : kind ≠ .freeData) (ev : List (WqEvent SqeFn WqSqeData)) :
    sqeCount kind p (ev.flatMap wqEvents) = 0 := by
  induction ev with
  | nil => rfl
  | cons e es ih =>
    rw [List.flatMap_cons, sqeCount_append, ih]
    unfold wqEvents
    split
    · rename_i func data deleter call
      show sqeCount kind p (deleteEvents data) + 0 = 0
      unfold deleteEvents
      split <;> simp only [sqeCount_cons_event, sqeCount_nil, if_neg h1.symm, if_neg h2.symm]
    · rfl

/-- The submissions with `p` are all of a `GW_RING_OP_MODULE_HANDLE`. -/
def AreHandles (p : WqSqeData → Bool) : Prop := ∀ data, p data = true → data.sqe.op = GW_RING_OP_MODULE_HANDLE

/-- An entry that is no module handle does not count where only those do. -/
theorem AreHandles.one_eq_zero (hp : AreHandles p) {data : WqSqeData} (h : data.sqe.op ≠ GW_RING_OP_MODULE_HANDLE) :
    one p data = 0 :=
  if_neg (fun h' => h (hp data h'))

/-- What the workqueue logs of a deleter's call is all that the log has of the run of `gw_ring_wq_sqe_delete`. -/
theorem sqeCount_wqEvents_eq (hdel : ∀ data, sqeCount kind p (deleteEvents data) = one p data)
    (ev : List (WqEvent SqeFn WqSqeData)) :
    sqeCount kind p (ev.flatMap wqEvents) = JobQueue.countOf .del (isWorkOf p) (jobLog ev) := by
  induction ev with
  | nil => rfl
  | cons e es ih =>
    have hone : sqeCount kind p (wqEvents e) = JobQueue.countOf .del (isWorkOf p) (jobLog [e]) := by
      unfold wqEvents
      split
      · rename_i func data deleter call
        refine (hdel data).trans (Eq.symm ((JobQueue.countOf_singleton _ _ _ _).trans ?_))
        simp [isWorkOf, one]
      · rename_i hne
        cases e with
        | job e =>
          obtain ⟨kind, func, arg, deleter, call⟩ := e
          refine Eq.symm ((JobQueue.countOf_singleton _ _ _ _).trans (if_neg ?_))
          rintro ⟨rfl, hp⟩
          cases arg with
          | none => nomatch hp
          | some data => exact hne func data deleter call rfl
        | _ => rfl
    rw [List.flatMap_cons, sqeCount_append, hone, ih, show e :: es = [e] ++ es from rfl, jobLog_append, JobQueue.countOf_append]

/-- Each run of `gw_ring_wq_sqe_delete` frees its data. -/
theorem sqeCount_freeData (ev : List (WqEvent SqeFn WqSqeData)) :
    sqeCount .freeData p (ev.flatMap wqEvents) = JobQueue.countOf .del (isWorkOf p) (jobLog ev) := by
  refine sqeCount_wqEvents_eq (fun data => ?_) ev
  unfold deleteEvents
  split <;> simp

/-- Each run of it for a `GW_RING_OP_MODULE_HANDLE` drops the update. -/
theorem sqeCount_freeUpdate (hp : AreHandles p) (ev : List (WqEvent SqeFn WqSqeData)) :
    sqeCount .freeUpdate p (ev.flatMap wqEvents) = JobQueue.countOf .del (isWorkOf p) (jobLog ev) := by
  refine sqeCount_wqEvents_eq (fun data => ?_) ev
  unfold deleteEvents
  split
  · simp
  · rename_i hop
    simp [hp.one_eq_zero hop]

/-- A submission that `submit_sqe` returns false for without a `post_cqe` is not counted. -/
theorem sqeCount_unpuntedEvents (hk : kind ≠ .freeUpdate) (data : WqSqeData) :
    sqeCount kind p (unpuntedEvents data) = if kind = .uncounted then one p data else 0 := by
  unfold unpuntedEvents
  split <;> cases kind <;> simp at hk ⊢

/-- And the update of a `GW_RING_OP_MODULE_HANDLE` is dropped there. -/
theorem sqeCount_unpuntedEvents_freeUpdate (hp : AreHandles p) (data : WqSqeData) :
    sqeCount .freeUpdate p (unpuntedEvents data) = one p data := by
  unfold unpuntedEvents
  split
  · simp
  · rename_i hop
    simp [hp.one_eq_zero hop]

/-! ## The books -/

/-- The books of the submissions with `p`. Each goes through `submit_sqe` and is counted or not; a copy of it is made for a call of
`queue_work` that accepts the work or not; a counted one whose copy the workqueue has accepted is posted or dropped by the worker that
runs it; the copies are freed by the deleter or where the call fails; and the handlers return. -/
structure Books (p : WqSqeData → Bool) (ring : GwRing) (log : List RingEvent) : Prop where
  submitted : sqeCount .submitted p log = sqeCount .counted p log + sqeCount .uncounted p log + handCount p ring.submit
  alloc : sqeCount .alloc p log = sqeCount .queueRefused p log + workCount .accept p log +
    queueCount ring.wq.callers false p ring.submit
  counted : sqeCount .counted p log + queueCount ring.wq.callers true p ring.submit + workCount .call p log =
    workCount .accept p log + sqeCount .posted p log + sqeCount .dropped p log + execCount ExecPc.isUnposted p ring.execs
  freeData : sqeCount .freeData p log = sqeCount .queueRefused p log + workCount .del p log
  handled : sqeCount .handlerCall p log = sqeCount .handlerRet p log + execCount ExecPc.isHandling p ring.execs

/-- The further books of submissions that are all of a `GW_RING_OP_MODULE_HANDLE`: the counted ones are those that the workqueue has
accepted, the updates are freed by the deleter or where the submission is not counted, a work's function calls the handler, and a refused
submission is not counted. -/
structure Releases (p : WqSqeData → Bool) (ring : GwRing) (log : List RingEvent) : Prop where
  queued : sqeCount .counted p log + queueCount ring.wq.callers true p ring.submit = workCount .accept p log
  freeUpdate : sqeCount .freeUpdate p log = workCount .del p log + sqeCount .uncounted p log
  called : workCount .call p log = sqeCount .handlerRet p log + execCount ExecPc.isUnhandled p ring.execs
  refused : sqeCount .queueRefused p log ≤ sqeCount .uncounted p log

/-- The count of the workers when one moves. -/
theorem execCount_set {q : ExecPc → Bool} {execs : List (Option Exec)} {k : Nat} {x : Option Exec} (y : Option Exec)
    (h : execs[k]? = some x) :
    execCount q p (execs.set k y) + (if x.any (fun e => q e.pc && p e.data) then 1 else 0) =
      execCount q p execs + (if y.any (fun e => q e.pc && p e.data) then 1 else 0) :=
  countP_set _ h

/-- Whether a call of `queue_work` has been accepted is where it stands. -/
theorem isAccepted_eq {callers : List (QueueCall SqeFn WqSqeData)} {call : Nat} {c : QueueCall SqeFn WqSqeData}
    (hc : callers[call]? = some c) : isAccepted callers call = c.pc.isAccepted := by
  rw [isAccepted, hc]
  rfl

variable {ring ring' : GwRing} {a : Act} {log ev : List RingEvent}

/-- What the workqueue does as worker `k` calls `gw_ring_wq_sqe_exec`, or returns from it. -/
theorem execCall_jobs {k : Nat} {work : WorkStruct SqeFn WqSqeData} {wq' : WorkqueueStruct SqeFn WqSqeData}
    {e : List (WqEvent SqeFn WqSqeData)} (hk : ring.wq.view.held[k]? = some (some (.taken, work))) (hwork : IsSqeWork work)
    (hs : ring.wq.step (.run k) = some (wq', e)) : e = [.job ⟨.call, work⟩] ∧ wq'.callers = ring.wq.callers := by
  obtain ⟨st, work', hk', hcs, he, -⟩ := WorkqueueStruct.run_jobs hs
  cases hk.symm.trans hk'
  obtain ⟨data, hfunc, -⟩ := hwork
  rw [WorkqueueStruct.runEffect, hfunc] at he
  exact ⟨he, hcs⟩

/-- The return of a function is all that is logged where it returns, and no call of `queue_work` moves. -/
theorem execRet_jobs {k : Nat} {work : WorkStruct SqeFn WqSqeData} {wq' : WorkqueueStruct SqeFn WqSqeData}
    {e : List (WqEvent SqeFn WqSqeData)} (hk : ring.wq.view.held[k]? = some (some (.running, work)))
    (hs : ring.wq.step (.run k) = some (wq', e)) : e = [.job ⟨.ret, work⟩] ∧ wq'.callers = ring.wq.callers := by
  obtain ⟨st, work', hk', hcs, he, -⟩ := WorkqueueStruct.run_jobs hs
  cases hk.symm.trans hk'
  exact ⟨he, hcs⟩

/-- A worker is in `gw_ring_wq_sqe_exec` only for the operations that are punted. -/
theorem Inv.exec_op (h : Inv ring) (hheld : ∀ st work, some (st, work) ∈ ring.wq.view.held → IsSqeWork work) {k : Nat} {e : Exec}
    (hk : ring.execs[k]? = some (some e)) :
    e.data.sqe.op = GW_RING_OP_TG_API_CALL ∨ e.data.sqe.op = GW_RING_OP_MODULE_HANDLE := by
  obtain ⟨x, hx, hd⟩ := h.held_eq hk
  unfold runningData at hd
  split at hd
  · obtain ⟨data, -, harg, -, hop⟩ := hheld _ _ (List.mem_of_getElem? hx)
    rw [harg] at hd
    cases hd
    exact hop
  · nomatch hd

/-- What the workqueue's other steps do to the call that the submitter is in, and to the works of its submission. -/
theorem queueCount_wq (h : Inv ring) {wq' : WorkqueueStruct SqeFn WqSqeData} {e : List (WqEvent SqeFn WqSqeData)}
    (heff : PlainEffect ring wq' e) :
    queueCount wq'.callers true p ring.submit =
      queueCount ring.wq.callers true p ring.submit + JobQueue.countOf .accept (isWorkOf p) (jobLog e) ∧
    queueCount wq'.callers false p ring.submit + JobQueue.countOf .accept (isWorkOf p) (jobLog e) =
      queueCount ring.wq.callers false p ring.submit := by
  rcases heff.accepted with ⟨hinfo, hacc⟩ | ⟨s, data, call, c, hsub, hpc, hc, hno, hcs, hacc⟩
  · have hsame : ∀ call, isAccepted wq'.callers call = isAccepted ring.wq.callers call := by
      intro call
      have hg := congrArg (fun l => (l[call]?).any Prod.snd) hinfo
      simp only [List.getElem?_map, Option.any_map] at hg
      exact hg
    unfold queueCount
    simp only [hsame, hacc, Nat.add_zero, and_self]
  · have hnew : isAccepted wq'.callers call = true := by
      rw [isAccepted, hcs, List.getElem?_set_self (List.getElem?_eq_some_iff.1 hc).1]
      rfl
    have hold := (isAccepted_eq hc).trans hno
    have hone : JobQueue.countOf .accept (isWorkOf p) (jobLog e) = one p data := by
      obtain ⟨pc, hc'⟩ := h.queueing s data call hsub hpc
      cases hc.symm.trans hc'
      exact hacc _
    rw [hone, hsub]
    simp [queueCount, hpc, hnew, hold]

/-- A call of `queue_work` that has returned without an error has accepted its work. -/
theorem isAccepted_of_returned (hret : ring.wq.ReturnsOk) {call : Nat} {work : WorkStruct SqeFn WqSqeData} {ret : Int}
    (hc : ring.wq.callers[call]? = some ⟨work, .returned ret⟩) : isAccepted ring.wq.callers call = decide (0 ≤ ret) := by
  rw [isAccepted_eq hc]
  rcases hret _ (List.mem_of_getElem? hc) ret rfl with rfl | ⟨rfl, -⟩ <;> rfl

/-- Every step keeps the books. -/
theorem Books.step (hb : Books p ring log) (h : Inv ring) (hw : ring.wq.Inv) (hret : ring.wq.ReturnsOk)
    (hheld : ∀ st work, some (st, work) ∈ ring.wq.view.held → IsSqeWork work) (hs : StepCase ring a ring' ev) :
    Books p ring' (log ++ ev) := by
  obtain ⟨h1, h2, h3, h4, h5⟩ := hb
  cases hs with
  | getSqe _ =>
    rw [List.append_nil]
    unfold gwRingGetSqe
    split <;> exact ⟨h1, h2, h3, h4, h5⟩
  | fill _ _ _ | cqAdvance _ | destroy _ _ _ | store _ =>
    rw [List.append_nil]
    exact ⟨h1, h2, h3, h4, h5⟩
  | submitStopped hsub _ | reader _ _ => refine ⟨?_, ?_, ?_, ?_, ?_⟩ <;> simpa
  | submitStart hsub _ =>
    rw [hsub] at h1 h2 h3
    rw [List.append_nil]
    exact ⟨h1, h2, h3, h4, h5⟩
  | submitEnd malloc hsub hpc _ =>
    simp only [handCount, queueCount, hsub, hpc, SubmitPc.data?] at h1 h2 h3
    refine ⟨?_, ?_, ?_, ?_, ?_⟩ <;> simpa [handCount, queueCount]
  | nop malloc hsub hpc _ _ | nopRefused hsub hpc _ _ | nopPost hsub hpc _ _ | nopPosted hsub hpc _ _ =>
    simp only [handCount, queueCount, hsub, hpc, SubmitPc.data?] at h1 h2 h3
    refine ⟨?_, ?_, ?_, ?_, ?_⟩ <;> simp [handCount, queueCount, SubmitPc.data?] at h1 ⊢ <;> omega
  | @punt s wq' hsub hpc _ _ hq =>
    obtain ⟨-, -, hcs⟩ := WorkqueueStruct.queueWork_jobs hq
    have hnew : isAccepted wq'.callers ring.wq.callers.length = false := by
      rw [isAccepted, hcs, List.getElem?_concat_length]
      rfl
    simp only [handCount, queueCount, hsub, hpc, SubmitPc.data?] at h1 h2 h3
    refine ⟨?_, ?_, ?_, ?_, ?_⟩ <;> simp [handCount, queueCount, SubmitPc.data?, hnew] at h1 ⊢ <;> omega
  | unpunted hsub hpc _ _ _ =>
    simp only [handCount, queueCount, hsub, hpc, SubmitPc.data?] at h1 h2 h3
    refine ⟨?_, ?_, ?_, ?_, ?_⟩ <;>
      simp [handCount, queueCount, SubmitPc.data?, sqeCount_unpuntedEvents] at h1 ⊢ <;> omega
  | queued malloc hsub hpc hc hpos =>
    have hacc := isAccepted_of_returned hret hc
    rw [decide_eq_true hpos] at hacc
    simp only [handCount, queueCount, hsub, hpc, SubmitPc.data?, hacc] at h1 h2 h3
    refine ⟨?_, ?_, ?_, ?_, ?_⟩ <;> simp [handCount, queueCount, SubmitPc.data?] at h1 h2 h3 ⊢ <;> omega
  | queueRefused malloc hsub hpc hc hneg =>
    have hacc := isAccepted_of_returned hret hc
    rw [decide_eq_false (Int.not_le.2 hneg)] at hacc
    simp only [handCount, queueCount, hsub, hpc, SubmitPc.data?, hacc] at h1 h2 h3
    refine ⟨?_, ?_, ?_, ?_, ?_⟩ <;>
      simp [handCount, queueCount, SubmitPc.data?, sqeCount_unpuntedEvents] at h1 h2 h3 ⊢ <;> omega
  | wq hb hs =>
    have heff := plainEffect hw hb hs
    obtain ⟨hq1, hq2⟩ := queueCount_wq h heff (p := p)
    refine ⟨?_, ?_, ?_, ?_, ?_⟩ <;> simp [hq1, heff.called, sqeCount_wqEvents, sqeCount_freeData] <;> omega
  | @execCall k work data wq' e hk harg hs =>
    obtain ⟨rfl, hcs⟩ := execCall_jobs hk (hheld _ _ (List.mem_of_getElem? hk)) hs
    obtain ⟨x, hx, hxd⟩ := h.exec_eq hk
    obtain rfl : x = none := by simpa [runningData] using hxd
    have e1 := execCount_set (p := p) (q := ExecPc.isUnposted) (some ⟨data, .start⟩) hx
    have e2 := execCount_set (p := p) (q := ExecPc.isHandling) (some ⟨data, .start⟩) hx
    simp [ExecPc.isUnposted, ExecPc.isHandling] at e1 e2
    show Books p _ (log ++ [.wq (.job ⟨.call, work⟩)])
    refine ⟨?_, ?_, ?_, ?_, ?_⟩ <;> simp [hcs, isWorkOf, harg] <;> omega
  | @execRet k work data wq' e hk he hs =>
    obtain ⟨rfl, hcs⟩ := execRet_jobs hk hs
    have e1 := execCount_set (p := p) (q := ExecPc.isUnposted) none he
    have e2 := execCount_set (p := p) (q := ExecPc.isHandling) none he
    simp [ExecPc.isUnposted, ExecPc.isHandling] at e1 e2
    show Books p _ (log ++ [.wq (.job ⟨.ret, work⟩)])
    refine ⟨?_, ?_, ?_, ?_, ?_⟩ <;> simp [hcs] <;> omega
  | @exec k data res pc pc' ev hk he =>
    have e1 := execCount_set (p := p) (q := ExecPc.isUnposted) (some ⟨data, pc'⟩) hk
    have e2 := execCount_set (p := p) (q := ExecPc.isHandling) (some ⟨data, pc'⟩) hk
    cases he with
    | unknown _ h1 h2 =>
      rcases h.exec_op hheld hk with hop | hop
      · exact absurd hop h1
      · exact absurd hop h2
    | _ =>
      simp [ExecPc.isUnposted, ExecPc.isHandling] at e1 e2
      refine ⟨?_, ?_, ?_, ?_, ?_⟩ <;> simp [one] <;> omega
  | @execRefused k data res hk _ _ | @execPosted k data res _ _ _ hk _ _ =>
    have e1 := execCount_set (p := p) (q := ExecPc.isUnposted) (some ⟨data, .done⟩) hk
    have e2 := execCount_set (p := p) (q := ExecPc.isHandling) (some ⟨data, .done⟩) hk
    simp [ExecPc.isUnposted, ExecPc.isHandling] at e1 e2
    refine ⟨?_, ?_, ?_, ?_, ?_⟩ <;> simp [one] <;> omega
  | @execPost k data res hk _ _ =>
    have e1 := execCount_set (p := p) (q := ExecPc.isUnposted) (some ⟨data, .inPost res⟩) hk
    have e2 := execCount_set (p := p) (q := ExecPc.isHandling) (some ⟨data, .inPost res⟩) hk
    simp [ExecPc.isUnposted, ExecPc.isHandling] at e1 e2
    refine ⟨?_, ?_, ?_, ?_, ?_⟩ <;> simp <;> omega

/-- And those of the references that are released. -/
theorem Releases.step (hp : AreHandles p) (hb : Releases p ring log) (h : Inv ring) (hw : ring.wq.Inv) (hret : ring.wq.ReturnsOk)
    (hheld : ∀ st work, some (st, work) ∈ ring.wq.view.held → IsSqeWork work) (hs : StepCase ring a ring' ev) :
    Releases p ring' (log ++ ev) := by
  have hnop : ∀ data : WqSqeData, data.sqe.op = GW_RING_OP_NOP → one p data = 0 := by
    intro data hop
    refine hp.one_eq_zero ?_
    rw [hop]
    decide
  obtain ⟨h1, h2, h3, h4⟩ := hb
  cases hs with
  | getSqe _ =>
    rw [List.append_nil]
    unfold gwRingGetSqe
    split <;> exact ⟨h1, h2, h3, h4⟩
  | fill _ _ _ | cqAdvance _ | destroy _ _ _ | store _ =>
    rw [List.append_nil]
    exact ⟨h1, h2, h3, h4⟩
  | submitStopped hsub _ | reader _ _ => refine ⟨?_, ?_, ?_, ?_⟩ <;> simpa
  | submitStart hsub _ =>
    rw [hsub] at h1
    rw [List.append_nil]
    exact ⟨h1, h2, h3, h4⟩
  | submitEnd malloc hsub hpc _ =>
    simp only [queueCount, hsub, hpc] at h1
    refine ⟨?_, ?_, ?_, ?_⟩ <;> simpa [queueCount]
  | nop _ hsub hpc _ _ | nopPost hsub hpc _ _ =>
    simp only [queueCount, hsub, hpc] at h1
    refine ⟨?_, ?_, ?_, ?_⟩ <;> simpa [queueCount]
  | nopRefused hsub hpc _ _ =>
    have hz := hnop _ (h.nop _ _ hsub (Or.inl hpc))
    simp only [queueCount, hsub, hpc] at h1
    refine ⟨?_, ?_, ?_, ?_⟩ <;> simpa [queueCount, hz]
  | nopPosted hsub hpc _ _ =>
    have hz := hnop _ (h.nop _ _ hsub (Or.inr hpc))
    simp only [queueCount, hsub, hpc] at h1
    refine ⟨?_, ?_, ?_, ?_⟩ <;> simpa [queueCount, hz]
  | @punt s wq' hsub hpc _ _ hq =>
    obtain ⟨-, -, hcs⟩ := WorkqueueStruct.queueWork_jobs hq
    have hnew : isAccepted wq'.callers ring.wq.callers.length = false := by
      rw [isAccepted, hcs, List.getElem?_concat_length]
      rfl
    simp only [queueCount, hsub, hpc] at h1
    refine ⟨?_, ?_, ?_, ?_⟩ <;> simpa [queueCount, hnew]
  | unpunted hsub hpc _ _ _ =>
    simp only [queueCount, hsub, hpc] at h1
    refine ⟨?_, ?_, ?_, ?_⟩ <;>
      simp [queueCount, sqeCount_unpuntedEvents, sqeCount_unpuntedEvents_freeUpdate hp] <;> omega
  | queued malloc hsub hpc hc hpos =>
    have hacc := isAccepted_of_returned hret hc
    rw [decide_eq_true hpos] at hacc
    simp only [queueCount, hsub, hpc, hacc] at h1
    refine ⟨?_, ?_, ?_, ?_⟩ <;> simp [queueCount] at h1 ⊢ <;> omega
  | queueRefused malloc hsub hpc hc hneg =>
    have hacc := isAccepted_of_returned hret hc
    rw [decide_eq_false (Int.not_le.2 hneg)] at hacc
    simp only [queueCount, hsub, hpc, hacc] at h1
    refine ⟨?_, ?_, ?_, ?_⟩ <;>
      simp [queueCount, sqeCount_unpuntedEvents, sqeCount_unpuntedEvents_freeUpdate hp] at h1 ⊢ <;> omega
  | wq hb hs =>
    have heff := plainEffect hw hb hs
    obtain ⟨hq1, -⟩ := queueCount_wq h heff (p := p)
    refine ⟨?_, ?_, ?_, ?_⟩ <;> simp [hq1, heff.called, sqeCount_wqEvents, sqeCount_freeUpdate hp] <;> omega
  | @execCall k work data wq' e hk harg hs =>
    obtain ⟨rfl, hcs⟩ := execCall_jobs hk (hheld _ _ (List.mem_of_getElem? hk)) hs
    obtain ⟨x, hx, hxd⟩ := h.exec_eq hk
    obtain rfl : x = none := by simpa [runningData] using hxd
    have e1 := execCount_set (p := p) (q := ExecPc.isUnhandled) (some ⟨data, .start⟩) hx
    simp [ExecPc.isUnhandled] at e1
    show Releases p _ (log ++ [.wq (.job ⟨.call, work⟩)])
    refine ⟨?_, ?_, ?_, ?_⟩ <;> simp [hcs, isWorkOf, harg] <;> omega
  | @execRet k work data wq' e hk he hs =>
    obtain ⟨rfl, hcs⟩ := execRet_jobs hk hs
    have e1 := execCount_set (p := p) (q := ExecPc.isUnhandled) none he
    simp [ExecPc.isUnhandled] at e1
    show Releases p _ (log ++ [.wq (.job ⟨.ret, work⟩)])
    refine ⟨?_, ?_, ?_, ?_⟩ <;> simp [hcs] <;> omega
  | @exec k data res pc pc' ev hk he =>
    have e1 := execCount_set (p := p) (q := ExecPc.isUnhandled) (some ⟨data, pc'⟩) hk
    -- the cases of other operations count for nothing
    have hother : data.sqe.op ≠ GW_RING_OP_MODULE_HANDLE → p data = false := by
      intro hop
      rw [← Bool.not_eq_true]
      exact fun hpd => hop (hp data hpd)
    cases he with
    | unknown _ _ h3 =>
      simp [ExecPc.isUnhandled, hother h3] at e1
      refine ⟨?_, ?_, ?_, ?_⟩ <;> simp <;> omega
    | nop hop | unsupported hop _ =>
      simp [ExecPc.isUnhandled, hother (by rw [hop]; decide)] at e1
      refine ⟨?_, ?_, ?_, ?_⟩ <;> simp <;> omega
    | call _ _ | ret =>
      simp [ExecPc.isUnhandled] at e1
      refine ⟨?_, ?_, ?_, ?_⟩ <;> simp [one] <;> omega
  | @execRefused k data res hk _ _ | @execPosted k data res _ _ _ hk _ _ =>
    have e1 := execCount_set (p := p) (q := ExecPc.isUnhandled) (some ⟨data, .done⟩) hk
    simp [ExecPc.isUnhandled] at e1
    refine ⟨?_, ?_, ?_, ?_⟩ <;> simp <;> omega
  | @execPost k data res hk _ _ =>
    have e1 := execCount_set (p := p) (q := ExecPc.isUnhandled) (some ⟨data, .inPost res⟩) hk
    simp [ExecPc.isUnhandled] at e1
    refine ⟨?_, ?_, ?_, ?_⟩ <;> simp <;> omega

/-! ## In every reachable state -/

/-- What is known of a ring and its workqueue wherever a run has come to. -/
structure Known (ring : GwRing) (log : List RingEvent) : Prop where
  inv : Inv ring
  wq : ring.wq.Inv
  returns : ring.wq.ReturnsOk
  pending : ∀ work ∈ ring.wq.view.pending, IsSqeWork work
  held : ∀ st work, some (st, work) ∈ ring.wq.view.held → IsSqeWork work
  logged : ∀ e ∈ jobLog (wqLog log), IsSqeWork e.job
  balance : ∀ p, JobQueue.Balance WorkStruct.hasFunc WorkStruct.hasDeleter p ring.wq.view (jobLog (wqLog log))

/-- What is known of a ring holds wherever it runs to. -/
theorem Known.of_run {C : GwRing → Act → Prop} {ring₀ : GwRing} {max : UInt32} (h0 : Fresh ring₀ max)
    (h : machine.Run C ring₀ ring log) : Known ring log := by
  have hwq := wq_run h
  have hinv := Inv.of_run h0 h
  obtain ⟨hpending, hheld, hlogged⟩ := works_of_callers h0.wq hwq hinv.callers
  exact ⟨hinv, WorkqueueStruct.Inv.of_run h0.wq hwq, WorkqueueStruct.ReturnsOk.of_run h0.wq hwq, hpending, hheld, hlogged,
    WorkqueueStruct.balance h0.wq hwq⟩

/-- Where the works with `p` that the workqueue has accepted are: every one has a function and a deleter. -/
structure Works (p : WqSqeData → Bool) (ring : GwRing) (log : List RingEvent) : Prop where
  accepted : workCount .accept p log =
    JobQueue.pendingCount (isWorkOf p) ring.wq.view + workCount .take p log + workCount .drop p log
  taken : workCount .take p log = JobQueue.heldCount (isWorkOf p) ring.wq.view + workCount .fin p log
  called : workCount .call p log + JobQueue.heldAt .taken (isWorkOf p) ring.wq.view.held = workCount .take p log
  returned : workCount .call p log = JobQueue.heldAt .running (isWorkOf p) ring.wq.view.held + workCount .ret p log
  deleted : workCount .del p log =
    JobQueue.heldAt .deleting (isWorkOf p) ring.wq.view.held + workCount .fin p log + workCount .drop p log

/-- The works are those of the entries. -/
theorem Known.works (h : Known ring log) (p : WqSqeData → Bool) : Works p ring log := by
  obtain ⟨h1, h2, h3, h4, h5, -⟩ := h.balance (isWorkOf p)
  have hlog : ∀ (kind : JobKind) (g : WorkStruct SqeFn WqSqeData → Bool), (∀ work, IsSqeWork work → g work = true) →
      JobQueue.countOf kind (fun work => isWorkOf p work && g work) (jobLog (wqLog log)) = workCount kind p log := by
    intro kind g hg
    refine List.countP_congr (fun e he => ?_)
    simp only [hg _ (h.logged e he), Bool.and_true]
  have hheld : JobQueue.heldAt .taken (fun work => isWorkOf p work && work.hasFunc) ring.wq.view.held =
      JobQueue.heldAt .taken (isWorkOf p) ring.wq.view.held := by
    refine List.countP_congr (fun x hx => ?_)
    cases x with
    | none => rfl
    | some x =>
      obtain ⟨data, hfunc, -⟩ := h.held _ _ hx
      simp only [WorkStruct.hasFunc, hfunc, Option.isSome_some, Bool.and_true]
  have hfunc : ∀ work, IsSqeWork work → work.hasFunc = true := by
    rintro work ⟨data, h1, -⟩
    rw [WorkStruct.hasFunc, h1]
    rfl
  have hdel : ∀ work, IsSqeWork work → work.hasDeleter = true := by
    rintro work ⟨data, -, -, h1, -⟩
    rw [WorkStruct.hasDeleter, h1]
    rfl
  rw [hheld, hlog .take _ hfunc] at h3
  rw [hlog .fin _ hdel, hlog .drop _ hdel] at h5
  exact ⟨h1, h2, h3, h4, h5⟩

/-- A worker that is in `gw_ring_wq_sqe_exec` runs the function of a work. -/
theorem execCount_le_running (h : Inv ring) (q : ExecPc → Bool) :
    execCount q p ring.execs ≤ JobQueue.heldAt .running (isWorkOf p) ring.wq.view.held := by
  calc execCount q p ring.execs
      ≤ ring.execs.countP ((fun d => d.any p) ∘ Option.map Exec.data) := by
        refine List.countP_mono_left (fun e _ he => ?_)
        cases e with
        | none => nomatch he
        | some e => exact (Bool.and_eq_true_iff.1 he).2
    _ = (ring.execs.map (Option.map Exec.data)).countP (fun d => d.any p) := List.countP_map.symm
    _ = (ring.wq.view.held.map runningData).countP (fun d => d.any p) := by rw [h.link]
    _ = ring.wq.view.held.countP ((fun d => d.any p) ∘ runningData) := List.countP_map
    _ ≤ JobQueue.heldAt .running (isWorkOf p) ring.wq.view.held := by
        refine List.countP_mono_left (fun x _ hx => ?_)
        simp only [Function.comp_apply] at hx
        unfold runningData at hx
        split at hx
        · exact hx
        · nomatch hx

/-- What `submit_sqe` has in a call of `queue_work` it has in hand. -/
theorem queueCount_le (callers : List (QueueCall SqeFn WqSqeData)) (s : Option Submit) :
    queueCount callers true p s + queueCount callers false p s ≤ handCount p s := by
  cases s with
  | none => exact Nat.le_refl _
  | some s =>
    cases hpc : s.pc with
    | queueing data call =>
      simp only [queueCount, handCount, hpc, SubmitPc.data?, Option.map_some, Option.getD_some]
      cases isAccepted callers call <;> simp
    | _ =>
      simp only [queueCount, hpc]
      exact Nat.zero_le _

/-- In a fresh ring no worker is in `gw_ring_wq_sqe_exec`. -/
theorem Fresh.execCount_eq_zero {max : UInt32} (h : Fresh ring max) (q : ExecPc → Bool) : execCount q p ring.execs = 0 := by
  refine List.countP_eq_zero.2 (fun e he => ?_)
  rw [h.execs] at he
  rw [List.eq_of_mem_replicate he]
  nofun

/-- The books are kept in every run. -/
theorem Books.of_run {C : GwRing → Act → Prop} {ring₀ : GwRing} {max : UInt32} (h0 : Fresh ring₀ max)
    (h : machine.Run C ring₀ ring log) (p : WqSqeData → Bool) : Books p ring log := by
  refine h.invariant (I := Books p) ?_ ?_
  · refine ⟨?_, ?_, ?_, rfl, ?_⟩ <;> simp [handCount, queueCount, h0.submit, h0.execCount_eq_zero]
  · intro s log a s' ev hr hb _ hs
    have hk := Known.of_run h0 hr
    exact hb.step hk.inv hk.wq hk.returns hk.held (step_cases hs).2

/-- So are those of the references. -/
theorem Releases.of_run {C : GwRing → Act → Prop} {ring₀ : GwRing} {max : UInt32} (h0 : Fresh ring₀ max)
    (h : machine.Run C ring₀ ring log) (hp : AreHandles p) : Releases p ring log := by
  refine h.invariant (I := Releases p) ?_ ?_
  · refine ⟨?_, rfl, ?_, Nat.le_refl 0⟩ <;> simp [queueCount, h0.submit, h0.execCount_eq_zero]
  · intro s log a s' ev hr hb _ hs
    have hk := Known.of_run h0 hr
    exact hb.step hp hk.inv hk.wq hk.returns hk.held (step_cases hs).2

end GwRing

end GwBot

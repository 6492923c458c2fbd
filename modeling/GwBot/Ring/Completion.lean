import GwBot.Ring.Books
import GwBot.Workqueue.NoStrand

/-!
# Every counted submission completes once

`gw_ring_submit` counts a punted submission when the workqueue has accepted its work. The completion comes from the worker, whose
`post_cqe` may find the queue full; then `gw_ring_wq_sqe_exec` drops it without a word. While no worker's `post_cqe` is refused, every
counted submission is posted once, or its work is still queued or running.
-/

namespace GwBot

open Lib

/-- What `gw_ring_submit` has returned so far without an error. -/
def returnedSum (log : List RingEvent) : Int :=
  (log.map (fun e => match e with
    | .submitReturned ret => max ret 0
    | _ => 0)).sum

/-- The completion that an event of a submission posts. -/
def SqeEvent.postedCqe? (e : SqeEvent) : Option GwRingCqe := if e.kind = .posted then e.cqe else none

/-- The completions posted for submissions, in order. -/
def postedCqes (log : List RingEvent) : List GwRingCqe := (sqeLog log).filterMap SqeEvent.postedCqe?

@[simp] theorem returnedSum_nil : returnedSum [] = 0 := rfl

@[simp] theorem returnedSum_cons_sqe (e : SqeEvent) (l : List RingEvent) : returnedSum (.sqe e :: l) = returnedSum l := Int.zero_add _

@[simp] theorem returnedSum_cons_event (k : SqeKind) (data : WqSqeData) (l : List RingEvent) :
    returnedSum (sqeEvent k data :: l) = returnedSum l := returnedSum_cons_sqe _ _

@[simp] theorem returnedSum_cons_cq (e : CqEvent Poster) (l : List RingEvent) : returnedSum (.cq e :: l) = returnedSum l :=
  Int.zero_add _

@[simp] theorem returnedSum_cons_returned (ret : Int) (l : List RingEvent) :
    returnedSum (.submitReturned ret :: l) = max ret 0 + returnedSum l := rfl

/-- The sums of two logs are added up. -/
theorem returnedSum_append (l l' : List RingEvent) : returnedSum (l ++ l') = returnedSum l + returnedSum l' := by
  simp [returnedSum]

theorem postedCqes_append (l l' : List RingEvent) : postedCqes (l ++ l') = postedCqes l ++ postedCqes l' := by
  rw [postedCqes, sqeLog_append, List.filterMap_append]
  rfl

namespace GwRing

/-- The punted submissions with `p` that are queued or running, before their `post_cqe`. -/
def outstanding (ring : GwRing) (p : WqSqeData → Bool) : Nat :=
  JobQueue.pendingCount (isWorkOf p) ring.wq.view + JobQueue.heldAt .taken (isWorkOf p) ring.wq.view.held +
    execCount ExecPc.isUnposted p ring.execs

variable {ring ring' : GwRing} {a : Act} {log ev : List RingEvent}

/-- What the events of a step come to, apart from the books. -/
structure Tally (ring : GwRing) (log : List RingEvent) : Prop where
  insts : ∀ n, sqeCount .submitted (fun data => data.inst == n) log = if n < ring.nrSubmitted then 1 else 0
  own : ∀ data cqe, .sqe ⟨.posted, data, cqe⟩ ∈ log → ∃ res, cqe = some (data.sqe.cqe res)
  posted : postedOf (cqLog log) = postedCqes log
  returned : returnedSum log + (ring.submit.map Submit.ret).getD 0 = sqeCount .counted (fun _ => true) log
  ret_nonneg : ∀ s, ring.submit = some s → 0 ≤ s.ret

/-! ## The steps keep the tally -/

/-- The event neither submits, counts nor posts, and no `gw_ring_submit` returns. -/
def RingEvent.isSilent : RingEvent → Bool
  | .sqe e => e.kind != .submitted && e.kind != .counted && e.kind != .posted
  | .cq (.posted _ _) => false
  | .cq _ => true
  | .wq _ => true
  | .submitReturned _ => false

/-- Silent events count for nothing. -/
structure Silent (ev : List RingEvent) : Prop where
  submitted : ∀ p, sqeCount .submitted p ev = 0
  counted : ∀ p, sqeCount .counted p ev = 0
  own : ∀ data cqe, .sqe ⟨.posted, data, cqe⟩ ∉ ev
  posted : postedOf (cqLog ev) = [] ∧ postedCqes ev = []
  returned : returnedSum ev = 0

theorem silent_nil : Silent [] := ⟨fun _ => rfl, fun _ => rfl, fun _ _ => List.not_mem_nil, ⟨rfl, rfl⟩, rfl⟩

/-- A log of silent events is silent. -/
theorem silent_of_forall (h : ∀ e ∈ ev, RingEvent.isSilent e = true) : Silent ev := by
  induction ev with
  | nil => exact silent_nil
  | cons e es ih =>
    obtain ⟨h1, h2, h3, ⟨h4, h5⟩, h6⟩ := ih (fun x hx => h x (List.mem_cons_of_mem _ hx))
    have he := h e List.mem_cons_self
    have hsum : returnedSum (e :: es) = returnedSum [e] + returnedSum es := returnedSum_append [e] es
    cases e with
    | sqe e =>
      simp only [RingEvent.isSilent, Bool.and_eq_true, bne_iff_ne, ne_eq] at he
      obtain ⟨⟨k1, k2⟩, k3⟩ := he
      refine ⟨?_, ?_, ?_, ⟨h4, ?_⟩, ?_⟩
      · intro p
        rw [sqeCount_cons_sqe, h1, if_neg k1]
      · intro p
        rw [sqeCount_cons_sqe, h2, if_neg k2]
      · intro data cqe hm
        rcases List.mem_cons.1 hm with heq | hm
        · cases heq
          exact k3 rfl
        · exact h3 data cqe hm
      · refine (List.filterMap_cons_none ?_).trans h5
        exact if_neg k3
      · rw [hsum, h6]
        rfl
    | cq e =>
      refine ⟨h1, h2, fun data cqe hm => ?_, ⟨?_, h5⟩, ?_⟩
      · rcases List.mem_cons.1 hm with heq | hm
        · nomatch heq
        · exact h3 data cqe hm
      · cases e with
        | posted thread cqe => nomatch he
        | _ => exact h4
      · rw [hsum, h6]
        rfl
    | wq e =>
      refine ⟨h1, h2, fun data cqe hm => ?_, ⟨h4, h5⟩, ?_⟩
      · rcases List.mem_cons.1 hm with heq | hm
        · nomatch heq
        · exact h3 data cqe hm
      · rw [hsum, h6]
        rfl
    | submitReturned ret => nomatch he

theorem Silent.append {l l' : List RingEvent} (h : Silent l) (h' : Silent l') : Silent (l ++ l') where
  submitted p := by rw [sqeCount_append, h.submitted, h'.submitted]
  counted p := by rw [sqeCount_append, h.counted, h'.counted]
  own data cqe hm := (List.mem_append.1 hm).elim (h.own data cqe) (h'.own data cqe)
  posted := by
    rw [cqLog_append, postedOf_append, postedCqes_append, h.posted.1, h'.posted.1, h.posted.2, h'.posted.2]
    exact ⟨rfl, rfl⟩
  returned := by
    rw [returnedSum_append, h.returned, h'.returned]
    rfl

/-- What the workqueue does is silent. -/
theorem silent_wqEvents (e : List (WqEvent SqeFn WqSqeData)) : Silent (e.flatMap wqEvents) := by
  refine silent_of_forall (fun x hx => ?_)
  obtain ⟨y, -, hy⟩ := List.mem_flatMap.1 hx
  unfold wqEvents at hy
  split at hy
  · rename_i func data deleter call
    unfold deleteEvents at hy
    split at hy <;> simp only [List.mem_cons, List.not_mem_nil, or_false] at hy
    · rcases hy with rfl | rfl | rfl <;> rfl
    · rcases hy with rfl | rfl <;> rfl
  · cases List.mem_singleton.1 hy
    rfl

theorem silent_unpuntedEvents (data : WqSqeData) : Silent (unpuntedEvents data) := by
  refine silent_of_forall (fun x hx => ?_)
  unfold unpuntedEvents at hx
  split at hx <;> simp only [List.mem_cons, List.not_mem_nil, or_false] at hx
  · rcases hx with rfl | rfl <;> rfl
  · cases hx
    rfl

/-- So is what a call of `gw_ring_wq_sqe_exec` does before it posts. -/
theorem silent_execStep {data : WqSqeData} {res : Int} {pc pc' : ExecPc} (h : ExecStep data res pc pc' ev) : Silent ev := by
  refine silent_of_forall (fun x hx => ?_)
  cases h <;> simp only [List.mem_cons, List.not_mem_nil, or_false] at hx <;> cases hx <;> rfl

/-- And what the completion queue does, as long as nothing is posted. -/
theorem silent_map_cq {e : List (CqEvent Poster)} (h : postedOf e = []) : Silent (e.map .cq) := by
  refine silent_of_forall (fun x hx => ?_)
  obtain ⟨y, hy, rfl⟩ := List.mem_map.1 hx
  cases y with
  | posted thread cqe =>
    have hm : cqe ∈ postedOf e := List.mem_filterMap.2 ⟨_, hy, rfl⟩
    rw [h] at hm
    nomatch hm
  | _ => rfl

namespace Tally

theorem silent (h : Tally ring log) (hev : Silent ev) (hn : ring'.nrSubmitted = ring.nrSubmitted)
    (hret : (ring'.submit.map Submit.ret).getD 0 = (ring.submit.map Submit.ret).getD 0)
    (hnn : ∀ s, ring'.submit = some s → 0 ≤ s.ret) : Tally ring' (log ++ ev) where
  insts n := by rw [sqeCount_append, hev.submitted, h.insts, hn, Nat.add_zero]
  own data cqe hm := by
    rcases List.mem_append.1 hm with hm | hm
    · exact h.own data cqe hm
    · exact absurd hm (hev.own data cqe)
  posted := by rw [cqLog_append, postedOf_append, postedCqes_append, h.posted, hev.posted.1, hev.posted.2]
  returned := by
    rw [returnedSum_append, sqeCount_append, hev.returned, hev.counted, hret, Int.add_zero, Nat.add_zero]
    exact h.returned
  ret_nonneg := hnn

/-- The start of `submit_sqe`. -/
theorem submitted (h : Tally ring log) {s s' : Submit} (hsub : ring.submit = some s) (hev : Silent ev)
    (hn : ring'.nrSubmitted = ring.nrSubmitted + 1) (hs : ring'.submit = some s') (hret : s'.ret = s.ret) :
    Tally ring' (log ++ sqeEvent .submitted (ring.nextData s) :: ev) := by
  have hlog : Tally { ring with nrSubmitted := ring.nrSubmitted + 1 } (log ++ [sqeEvent .submitted (ring.nextData s)]) := by
    refine ⟨?_, ?_, ?_, ?_, h.ret_nonneg⟩
    · intro n
      rw [sqeCount_append, h.insts, sqeCount_cons_event, sqeCount_nil, if_pos rfl, one]
      simp only [nextData, beq_iff_eq]
      split <;> split <;> split <;> omega
    · intro data cqe hm
      rcases List.mem_append.1 hm with hm | hm
      · exact h.own data cqe hm
      · cases List.mem_singleton.1 hm
    · rw [cqLog_append, postedOf_append, postedCqes_append, h.posted]
      rfl
    · rw [returnedSum_append, sqeCount_append, returnedSum_cons_event, returnedSum_nil, Int.add_zero]
      exact h.returned
  have heq : log ++ sqeEvent .submitted (ring.nextData s) :: ev = (log ++ [sqeEvent .submitted (ring.nextData s)]) ++ ev := by
    rw [List.append_assoc]
    rfl
  rw [heq]
  refine hlog.silent hev hn ?_ ?_
  · rw [hs]
    show s'.ret = (ring.submit.map Submit.ret).getD 0
    rw [hsub, hret]
    rfl
  · intro t ht
    cases hs.symm.trans ht
    exact hret ▸ h.ret_nonneg s hsub

/-- `submit_sqe` returns true. -/
theorem counted (h : Tally ring log) {s s' : Submit} (hsub : ring.submit = some s) (data : WqSqeData)
    (hn : ring'.nrSubmitted = ring.nrSubmitted) (hs : ring'.submit = some s') (hret : s'.ret = s.ret + 1) :
    Tally ring' (log ++ [sqeEvent .counted data]) := by
  have hnn := h.ret_nonneg s hsub
  refine ⟨?_, ?_, ?_, ?_, ?_⟩
  · intro n
    rw [sqeCount_append, h.insts, hn]
    rfl
  · intro data' cqe hm
    rcases List.mem_append.1 hm with hm | hm
    · exact h.own data' cqe hm
    · cases List.mem_singleton.1 hm
  · rw [cqLog_append, postedOf_append, postedCqes_append, h.posted]
    rfl
  · have hr := h.returned
    rw [hsub] at hr
    rw [returnedSum_append, sqeCount_append, hs]
    simp only [Option.map_some, Option.getD_some, sqeCount_cons_event, sqeCount_nil, one, if_true] at hr ⊢
    rw [returnedSum_cons_event, returnedSum_nil, hret]
    omega
  · intro t ht
    cases hs.symm.trans ht
    omega

/-- `post_cqe` posts the completion of the submission it is called for. -/
theorem post (h : Tally ring log) (thread : Poster) {data : WqSqeData} {cqe : GwRingCqe} {res : Int} (hc : cqe = data.sqe.cqe res) :
    Tally ring (log ++ [.cq (.posted thread cqe), .sqe ⟨.posted, data, some cqe⟩]) := by
  refine ⟨?_, ?_, ?_, ?_, h.ret_nonneg⟩
  · intro n
    rw [sqeCount_append, h.insts]
    rfl
  · intro data' cqe' hm
    rcases List.mem_append.1 hm with hm | hm
    · exact h.own data' cqe' hm
    · simp only [List.mem_cons, List.not_mem_nil, or_false, RingEvent.sqe.injEq, SqeEvent.mk.injEq, true_and, reduceCtorEq,
        false_or] at hm
      obtain ⟨rfl, rfl⟩ := hm
      exact ⟨res, by rw [hc]⟩
  · rw [cqLog_append, postedOf_append, postedCqes_append, h.posted]
    rfl
  · rw [returnedSum_append, sqeCount_append, returnedSum_cons_cq, returnedSum_cons_sqe, returnedSum_nil, Int.add_zero]
    exact h.returned

/-- `gw_ring_submit` returns what it has counted, or an error. -/
theorem submitReturned (h : Tally ring log) {ret : Int} (hret : max ret 0 = (ring.submit.map Submit.ret).getD 0)
    (hn : ring'.nrSubmitted = ring.nrSubmitted) (hs : ring'.submit = none) : Tally ring' (log ++ [.submitReturned ret]) := by
  refine ⟨?_, ?_, ?_, ?_, ?_⟩
  · intro n
    rw [sqeCount_append, h.insts, hn]
    rfl
  · intro data' cqe hm
    rcases List.mem_append.1 hm with hm | hm
    · exact h.own data' cqe hm
    · cases List.mem_singleton.1 hm
  · rw [cqLog_append, postedOf_append, postedCqes_append, h.posted]
    rfl
  · rw [returnedSum_append, sqeCount_append, hs, returnedSum_cons_returned, returnedSum_nil, hret]
    have hr := h.returned
    simp only [sqeCount_cons_returned, sqeCount_nil, Option.map_none, Option.getD_none]
    omega
  · intro t ht
    cases hs.symm.trans ht

theorem step (h : Tally ring log) (hi : Inv ring) (hs : StepCase ring a ring' ev) : Tally ring' (log ++ ev) := by
  cases hs with
  | getSqe _ =>
    refine h.silent silent_nil ?_ ?_ ?_ <;> unfold gwRingGetSqe <;> split <;> first | rfl | exact h.ret_nonneg
  | fill _ _ _ | store _ | cqAdvance _ | destroy _ _ _ | execPost _ _ _ =>
    exact h.silent silent_nil rfl rfl h.ret_nonneg
  | submitStopped hsub _ =>
    refine h.submitReturned ?_ rfl hsub
    rw [hsub]
    decide
  | submitStart hsub _ =>
    refine h.silent silent_nil rfl (by rw [hsub]; rfl) ?_
    intro s hs
    cases hs
    exact Int.le_refl 0
  | submitEnd malloc hsub _ _ =>
    refine h.submitReturned ?_ rfl rfl
    rw [hsub]
    exact Int.max_eq_left (h.ret_nonneg _ hsub)
  | nop malloc hsub _ _ _ => exact h.submitted hsub silent_nil rfl rfl rfl
  | punt hsub _ _ _ _ =>
    refine h.submitted hsub (silent_of_forall ?_) rfl rfl rfl
    intro e he
    cases List.mem_singleton.1 he
    rfl
  | unpunted hsub _ _ _ _ => exact h.submitted hsub (silent_unpuntedEvents _) rfl rfl rfl
  | queued malloc hsub _ _ _ => exact h.counted hsub _ rfl rfl rfl
  | @queueRefused s data call work ret malloc hsub _ _ _ =>
    have hev : Silent (sqeEvent .queueRefused data :: sqeEvent .freeData data :: unpuntedEvents data) := by
      refine Silent.append (l := [sqeEvent .queueRefused data, sqeEvent .freeData data]) ?_ (silent_unpuntedEvents data)
      refine silent_of_forall (fun e he => ?_)
      simp only [List.mem_cons, List.not_mem_nil, or_false] at he
      rcases he with rfl | rfl <;> rfl
    refine h.silent hev rfl (by rw [hsub]; rfl) ?_
    intro t ht
    cases ht
    exact h.ret_nonneg s hsub
  | wq _ _ | execCall _ _ _ | execRet _ _ _ => exact h.silent (silent_wqEvents _) rfl rfl h.ret_nonneg
  | exec _ he => exact h.silent (silent_execStep he) rfl rfl h.ret_nonneg
  | @nopRefused s data hsub _ _ _ =>
    refine h.silent (silent_of_forall ?_) rfl (by rw [hsub]; rfl) ?_
    · intro e he
      simp only [List.mem_cons, List.not_mem_nil, or_false] at he
      rcases he with rfl | rfl | rfl <;> rfl
    · intro t ht
      cases ht
      exact h.ret_nonneg s hsub
  | @nopPost s data hsub _ _ _ =>
    refine h.silent silent_nil rfl (by rw [hsub]; rfl) ?_
    intro t ht
    cases ht
    exact h.ret_nonneg s hsub
  | execRefused _ _ _ =>
    refine h.silent (silent_of_forall ?_) rfl rfl h.ret_nonneg
    intro e he
    simp only [List.mem_cons, List.not_mem_nil, or_false] at he
    rcases he with rfl | rfl <;> rfl
  | @nopPosted s data cqe cqTail cq' hsub hpc hp _ =>
    obtain ⟨s', data', hsub', hpc', hc⟩ : ring.PostingOk ⟨.submitter, cqe, cqTail, true⟩ := hi.posting _ hp
    cases hsub.symm.trans hsub'
    cases hpc.symm.trans hpc'
    rw [show log ++ [.cq (.posted .submitter cqe), .sqe ⟨.posted, data, some cqe⟩, sqeEvent .counted data] =
      log ++ [.cq (.posted .submitter cqe), .sqe ⟨.posted, data, some cqe⟩] ++ [sqeEvent .counted data] by simp]
    exact (h.post .submitter hc).counted hsub data rfl rfl rfl
  | @execPosted k data res cqe cqTail cq' hk hp _ =>
    obtain ⟨data', res', hk', hc⟩ : ring.PostingOk ⟨.worker k, cqe, cqTail, true⟩ := hi.posting _ hp
    cases hk.symm.trans hk'
    exact { h.post (.worker k) hc with }
  | reader hr hs => exact h.silent (silent_map_cq (reader_frame hr hs).2.2.2.2) rfl rfl h.ret_nonneg

end Tally

/-! ## Before the ring is destroyed -/

/-- In a run without `gw_ring_destroy` the workqueue is not stopped. -/
theorem idle_of_run {C : GwRing → Act → Prop} (hC : ∀ s a, C s a → a ≠ .destroy) {ring₀ : GwRing} {max : UInt32} (h0 : Fresh ring₀ max)
    (h : machine.Run C ring₀ ring log) : ring.wq.destroyer = .idle ∧ ring.wq.shouldStop = false := by
  have hnot : ring.destroying = false := by
    refine h.stateInv (I := fun ring => ring.destroying = false) h0.destroying ?_
    intro s log a s' ev _ hi hc hs
    cases (step_cases hs).2 with
    | getSqe _ =>
      unfold gwRingGetSqe
      split <;> exact hi
    | destroy _ _ _ => exact absurd rfl (hC _ _ hc)
    | _ => exact hi
  have hidle : ring.wq.destroyer = .idle := by
    by_contra hne
    exact absurd (hnot.symm.trans ((Inv.of_run h0 h).destroyer hne)) nofun
  exact ⟨hidle, (WorkqueueStruct.idle_of_run h0.wq (wq_run h) hidle).1⟩

/-- And a counted submission (the one whose `queue_work` has returned 0 and that is about to be counted with them) is posted, dropped by
the worker, or outstanding. -/
theorem counted_of_run {C : GwRing → Act → Prop} (hC : ∀ s a, C s a → a ≠ .destroy) {ring₀ : GwRing} {max : UInt32}
    (h0 : Fresh ring₀ max) (h : machine.Run C ring₀ ring log) (p : WqSqeData → Bool) :
    sqeCount .counted p log + queueCount ring.wq.callers true p ring.submit =
      sqeCount .posted p log + sqeCount .dropped p log + ring.outstanding p := by
  have hb := (Books.of_run h0 h p).counted
  have hd : workCount .drop p log = 0 := (WorkqueueStruct.idle_of_run h0.wq (wq_run h) (idle_of_run hC h0 h).1).2 _
  obtain ⟨h1, -, h3, -, -⟩ := (Known.of_run h0 h).works p
  unfold outstanding
  omega

/-! ## Where a completion is lost -/

/-- System calls that all succeed. -/
def InitEnv.ok : InitEnv := ⟨true, true, 0, 0, 0, WorkqueueStruct.AllocEnv.ok⟩

/-- An entry of the operation `op`. -/
def sqeOf (op : UInt8) : GwRingSqe := { (default : GwRingSqe) with op := op }

/-- The caller submits two `GW_RING_OP_NOP`. -/
def twoNops : List Act :=
  [.getSqe, .fill 0 (sqeOf GW_RING_OP_NOP), .getSqe, .fill 1 (sqeOf GW_RING_OP_NOP), .submit,
    .submitNext true, .postStart .submitter, .postStore, .postPublish,
    .submitNext true, .postStart .submitter, .postStore, .postPublish, .submitNext true]

/-- Four completions fill the queue of a ring of size 2, and the worker of a fifth submission, which `gw_ring_submit` has counted, finds no
room: in the end five are counted, four are posted, and nothing is outstanding. -/
theorem counted_sqe_dropped : ∃ (ring₀ ring : GwRing) (log : List RingEvent), gwRingInit 2 InitEnv.ok = some (.ok ring₀) ∧
    machine.Run (fun _ a => a ≠ .destroy) ring₀ ring log ∧
    (ring.submit.isNone, sqeCount .counted (fun _ => true) log, (postedOf (cqLog log)).length,
      ring.outstanding (fun _ => true)) = (true, 5, 4, 0) := by
  have hrun : ∃ ring₀ : GwRing, gwRingInit 2 InitEnv.ok = some (.ok ring₀) ∧
      (machine.execIf (fun _ a => a ≠ .destroy) ring₀
        (twoNops ++ twoNops ++ [.getSqe, .fill 0 (sqeOf GW_RING_OP_MODULE_HANDLE), .submit, .submitNext true, .queuer [] 0,
          .submitNext true, .submitNext true, .worker 0 [], .run 0, .exec 0 0, .exec 0 0, .postStart (.worker 0)])).map
        (fun r => (r.1.submit.isNone, sqeCount .counted (fun _ => true) r.2, (postedOf (cqLog r.2)).length,
          r.1.outstanding (fun _ => true))) = some (true, 5, 4, 0) := by
    refine ⟨_, rfl, ?_⟩
    set_option maxRecDepth 20000 in decide
  obtain ⟨ring₀, h0, he⟩ := hrun
  obtain ⟨ring, log, h, hval⟩ := Machine.exists_of_exec (fun (ring : GwRing) log => (ring.submit.isNone,
    sqeCount .counted (fun _ => true) log, (postedOf (cqLog log)).length, ring.outstanding (fun _ => true))) he
  exact ⟨ring₀, ring, log, h0, h, hval⟩

/-! ## When none is -/

/-- The ring is not destroyed, and whenever a worker comes to the test of `post_cqe` it passes. -/
def WorkersFindRoom (ring : GwRing) : Act → Prop
  | .destroy => False
  | .postStart (.worker _) => ring.cq.isFull = false
  | _ => True

instance (ring : GwRing) (a : Act) : Decidable (WorkersFindRoom ring a) := by
  unfold WorkersFindRoom
  split <;> infer_instance

theorem WorkersFindRoom.ne_destroy (ring : GwRing) (a : Act) (h : WorkersFindRoom ring a) : a ≠ .destroy := by
  rintro rfl
  exact h

/-- No worker drops a completion. -/
theorem dropped_of_run {ring₀ : GwRing} (h : machine.Run WorkersFindRoom ring₀ ring log) (p : WqSqeData → Bool) :
    sqeCount .dropped p log = 0 := by
  refine h.invariant (I := fun _ log => sqeCount .dropped p log = 0) rfl ?_
  intro s log a s' ev _ hi hc hs
  have hstep : sqeCount .dropped p ev = 0 := by
    cases (step_cases hs).2 with
    | unpunted _ _ _ _ _ => simp [sqeCount_unpuntedEvents]
    | queueRefused _ _ _ _ _ => simp [sqeCount_unpuntedEvents]
    | wq _ _ | execCall _ _ _ | execRet _ _ _ => simp [sqeCount_wqEvents]
    | exec _ he => cases he <;> rfl
    | execRefused _ _ hfull => exact absurd (hfull.symm.trans hc) nofun
    | reader _ _ => exact sqeCount_map_cq _
    | _ => rfl
  rw [sqeCount_append, hi, hstep]

/-- The ring keeps the contract of its submissions: as many are counted (the one whose `queue_work` has returned 0 and that is about to
be counted with them) as completions are posted or still to come from a queued or running work; each counted one is posted once, or
will be, each uncounted one never; what is posted is the submission's own `op` and `user_data`; what `gw_ring_submit` returns is the
number of those it counted; and while a work is queued a worker is awake. -/
structure Completes (ring : GwRing) (log : List RingEvent) : Prop where
  books : sqeCount .counted (fun _ => true) log + queueCount ring.wq.callers true (fun _ => true) ring.submit =
    (postedOf (cqLog log)).length + ring.outstanding (fun _ => true)
  counted : ∀ data, 0 < sqeCount .counted (· == data) log →
    sqeCount .counted (· == data) log = 1 ∧ sqeCount .posted (· == data) log + ring.outstanding (· == data) = 1
  uncounted : ∀ data, 0 < sqeCount .uncounted (· == data) log →
    sqeCount .posted (· == data) log = 0 ∧ ring.outstanding (· == data) = 0
  own : ∀ data cqe, .sqe ⟨.posted, data, cqe⟩ ∈ log →
    sqeCount .submitted (· == data) log = 1 ∧ ∃ res, cqe = some (data.sqe.cqe res)
  posted : postedOf (cqLog log) = postedCqes log
  returned : returnedSum log + (ring.submit.map Submit.ret).getD 0 = sqeCount .counted (fun _ => true) log
  awake : ring.wq.head ≠ ring.wq.tail → ∃ t ∈ ring.wq.workers, t.pc.isAwake = true

theorem mem_sqeLog {e : SqeEvent} : e ∈ sqeLog log ↔ .sqe e ∈ log := by
  constructor
  · intro h
    obtain ⟨x, hx, hxe⟩ := List.mem_filterMap.1 h
    cases x with
    | sqe e' =>
      cases hxe
      exact hx
    | _ => nomatch hxe
  · intro h
    exact List.mem_filterMap.2 ⟨_, h, rfl⟩

/-- What is in the log is counted. -/
theorem sqeCount_pos_of_mem {kind : SqeKind} {data : WqSqeData} {cqe : Option GwRingCqe} (h : .sqe ⟨kind, data, cqe⟩ ∈ log) :
    0 < sqeCount kind (· == data) log :=
  List.countP_pos_iff.2 ⟨_, mem_sqeLog.2 h, by simp⟩

/-- A submission is passed to `submit_sqe` once. -/
theorem Tally.submitted_le (h : Tally ring log) (data : WqSqeData) : sqeCount .submitted (· == data) log ≤ 1 := by
  have hle : sqeCount .submitted (· == data) log ≤ sqeCount .submitted (fun d => d.inst == data.inst) log := by
    refine List.countP_mono_left (fun e _ he => ?_)
    simp only [Bool.and_eq_true, beq_iff_eq] at he ⊢
    exact ⟨he.1, congrArg WqSqeData.inst he.2⟩
  rw [h.insts] at hle
  split at hle <;> omega

/-- As many completions are posted as the submissions' events say, of any kind that `op` and `user_data` tell. -/
theorem Tally.posted_countP (h : Tally ring log) {q : GwRingCqe → Bool} {p : WqSqeData → Bool}
    (hq : ∀ data res, q (data.sqe.cqe res) = p data) : (postedOf (cqLog log)).countP q = sqeCount .posted p log := by
  rw [h.posted, postedCqes, List.countP_filterMap]
  refine List.countP_congr (fun e he => ?_)
  obtain ⟨kind, data, cqe⟩ := e
  by_cases hk : kind = .posted
  · subst hk
    obtain ⟨res, rfl⟩ := h.own data cqe (mem_sqeLog.1 he)
    simp [SqeEvent.postedCqe?, hq]
  · simp [SqeEvent.postedCqe?, hk]

theorem Tally.of_run {C : GwRing → Act → Prop} {ring₀ : GwRing} {max : UInt32} (h0 : Fresh ring₀ max)
    (h : machine.Run C ring₀ ring log) : Tally ring log := by
  refine h.invariant (I := Tally) ?_ ?_
  · refine ⟨?_, nofun, rfl, by rw [h0.submit]; rfl, ?_⟩
    · intro n
      rw [h0.nrSubmitted, if_neg (Nat.not_lt_zero n)]
      rfl
    · intro s hs
      exact absurd (h0.submit.symm.trans hs) nofun
  · intro s log a s' ev hr ht _ hs
    exact ht.step (Inv.of_run h0 hr) (step_cases hs).2

/-- In a ring that is not destroyed, while each worker that comes to the test of `post_cqe` passes it, every counted submission
completes once, and carries its own `op` and `user_data`. -/
theorem counted_sqes_complete_once {size : UInt32} {env : InitEnv} {ring₀ : GwRing} (h0 : gwRingInit size env = some (.ok ring₀))
    (h : machine.Run WorkersFindRoom ring₀ ring log) : Completes ring log := by
  obtain ⟨max, -, hfresh⟩ := gwRingInit_fresh h0
  have htally := Tally.of_run hfresh h
  have hpost : ∀ p, sqeCount .counted p log + queueCount ring.wq.callers true p ring.submit =
      sqeCount .posted p log + ring.outstanding p := by
    intro p
    have hcounted := counted_of_run WorkersFindRoom.ne_destroy hfresh h p
    rwa [dropped_of_run h, Nat.add_zero] at hcounted
  have hle : ∀ data, sqeCount .counted (· == data) log + sqeCount .uncounted (· == data) log +
      handCount (· == data) ring.submit ≤ 1 := by
    intro data
    rw [← (Books.of_run hfresh h _).submitted]
    exact htally.submitted_le data
  have hq : ∀ data, queueCount ring.wq.callers true (· == data) ring.submit +
      queueCount ring.wq.callers false (· == data) ring.submit ≤ handCount (· == data) ring.submit :=
    fun data => queueCount_le _ _
  refine ⟨?_, ?_, ?_, ?_, htally.posted, htally.returned, ?_⟩
  · rw [← List.countP_true, htally.posted_countP (fun _ _ => rfl)]
    exact hpost _
  · intro data hpos
    have h1 := hpost (· == data)
    have h2 := hle data
    have h3 := hq data
    omega
  · intro data hpos
    have h1 := hpost (· == data)
    have h2 := hle data
    have h3 := hq data
    omega
  · intro data cqe hm
    refine ⟨?_, htally.own data cqe hm⟩
    have hpos := sqeCount_pos_of_mem hm
    have h1 := hpost (· == data)
    have h2 := htally.submitted_le data
    have h3 := hq data
    have h4 := (Books.of_run hfresh h (· == data)).submitted
    omega
  · intro hne
    have hwq := wq_run h
    refine WorkqueueStruct.Alive.of_run hfresh.wq hwq (idle_of_run WorkersFindRoom.ne_destroy hfresh h).2 ?_ hne
    refine WorkqueueStruct.HasThread.of_run hfresh.wq ?_ hwq
    rw [hfresh.attr.2.1]
    decide

/-- A `GW_RING_OP_NOP` and a `GW_RING_OP_MODULE_HANDLE` complete, the second by a worker. -/
theorem counted_sqes_complete_once_small : ∃ (ring₀ ring : GwRing) (log : List RingEvent),
    gwRingInit 2 InitEnv.ok = some (.ok ring₀) ∧ machine.Run WorkersFindRoom ring₀ ring log ∧
    (sqeCount .counted (fun _ => true) log, (postedOf (cqLog log)).length, ring.outstanding (fun _ => true)) = (2, 2, 0) ∧
    Completes ring log := by
  have hrun : ∃ ring₀ : GwRing, gwRingInit 2 InitEnv.ok = some (.ok ring₀) ∧
      (machine.execIf WorkersFindRoom ring₀
        [.getSqe, .fill 0 (sqeOf GW_RING_OP_NOP), .getSqe, .fill 1 (sqeOf GW_RING_OP_MODULE_HANDLE), .submit,
          .submitNext true, .postStart .submitter, .postStore, .postPublish, .submitNext true, .queuer [] 0, .submitNext true,
          .submitNext true, .worker 0 [], .run 0, .exec 0 0, .exec 0 0, .postStart (.worker 0), .postStore, .postPublish]).map
        (fun r => (sqeCount .counted (fun _ => true) r.2, (postedOf (cqLog r.2)).length, r.1.outstanding (fun _ => true))) =
        some (2, 2, 0) := by
    refine ⟨_, rfl, ?_⟩
    set_option maxRecDepth 20000 in decide
  obtain ⟨ring₀, h0, he⟩ := hrun
  obtain ⟨ring, log, h, hval⟩ := Machine.exists_of_exec (fun (ring : GwRing) log =>
    (sqeCount .counted (fun _ => true) log, (postedOf (cqLog log)).length, ring.outstanding (fun _ => true))) he
  exact ⟨ring₀, ring, log, h0, h, hval, counted_sqes_complete_once h0 h⟩

end GwRing

end GwBot

import GwBot.Ring.Due

/-!
# The submissions that are not done

The handlers that have not given their update back, from `submit_sqe` to `gw_ring_wq_sqe_delete`, with the steps that give one back; and
the submissions that have not come back from their handler.
-/

namespace GwBot

open Lib

/-- Past `tgapi_call_get_updates` or `gw_module_handle`, and not past `post_cqe`. -/
def ExecPc.isAnswered : ExecPc → Bool
  | .posting _ | .inPost _ => true
  | _ => false

namespace GwRing

variable {ring ring' : GwRing} {a : Act} {log ev : List RingEvent} {p : WqSqeData → Bool} {C : GwRing → Act → Prop} {ring₀ : GwRing}
  {max : UInt32}

/-! ## Updates that are given back -/

/-- The submissions with `p` in `submit_sqe`, queued, or with a worker that has not called `gw_ring_wq_sqe_delete`. -/
def undeleted (ring : GwRing) (p : WqSqeData → Bool) : Nat :=
  ring.inHand p + JobQueue.pendingCount (isWorkOf p) ring.wq.view + JobQueue.heldAt .taken (isWorkOf p) ring.wq.view.held +
    JobQueue.heldAt .running (isWorkOf p) ring.wq.view.held + JobQueue.heldAt .ran (isWorkOf p) ring.wq.view.held

/-- A `GW_RING_OP_MODULE_HANDLE` has given its update back, or is on the way. -/
theorem undeleted_of_run (h0 : Fresh ring₀ max) (h : machine.Run C ring₀ ring log) (hp : AreHandles p) :
    sqeCount .submitted p log = sqeCount .freeUpdate p log + ring.undeleted p := by
  have b1 := (Books.of_run h0 h p).submitted
  obtain ⟨r1, r2, -, -⟩ := Releases.of_run h0 h hp
  obtain ⟨w1, w2, -, -, w5⟩ := (Known.of_run h0 h).works p
  have hq := queueCount_le (p := p) ring.wq.callers ring.submit
  rw [JobQueue.heldCount] at w2
  unfold undeleted inHand
  omega

/-- The submission that the step has done with: `punt_to_io_wq` fails for it, or `gw_ring_wq_sqe_delete` is called. -/
def givenBack (ring : GwRing) : Act → Option WqSqeData
  | .submitNext malloc =>
    match ring.submit with
    | none => none
    | some s =>
      match s.pc with
      | .loop => if s.sqHead ≠ s.sqTail ∧ malloc = false then some (ring.nextData s) else none
      | .queueing data call =>
        match ring.wq.callers[call]? with
        | some ⟨_, .returned ret⟩ => if ret < 0 then some data else none
        | _ => none
      | _ => none
  | .run k =>
    match ring.wq.view.held[k]? with
    | some (some (.ran, work)) => if work.deleter.isSome then work.arg else none
    | _ => none
  | _ => none

/-- How many of these submissions are with `p`. -/
def givenBackCount (ring : GwRing) (a : Act) (p : WqSqeData → Bool) : Nat := ((ring.givenBack a).map (one p)).getD 0

theorem givenBackCount_le (ring : GwRing) (a : Act) (p : WqSqeData → Bool) : ring.givenBackCount a p ≤ 1 := by
  unfold givenBackCount
  cases ring.givenBack a with
  | none => exact Nat.zero_le 1
  | some data =>
    show one p data ≤ 1
    unfold one
    split <;> omega

/-- A worker calls the deleter of the work that it has run, and of no other. -/
theorem del_of_run {k : Nat} {wq' : WorkqueueStruct SqeFn WqSqeData} {e : List (WqEvent SqeFn WqSqeData)}
    (hs : ring.wq.step (.run k) = some (wq', e)) :
    JobQueue.countOf .del (isWorkOf p) (jobLog e) = ring.givenBackCount (.run k) p := by
  obtain ⟨st, work, hk, -, rfl, -⟩ := WorkqueueStruct.run_jobs hs
  simp only [givenBackCount, givenBack, hk]
  cases st with
  | taken => by_cases hf : work.func.isSome = true <;> simp only [WorkqueueStruct.runEffect, hf] <;> rfl
  | running | deleting => rfl
  | ran =>
    by_cases hd : work.deleter.isSome = true
    · simp only [WorkqueueStruct.runEffect, if_pos hd]
      have hone : JobQueue.countOf .del (isWorkOf p) [⟨.del, work⟩] = if isWorkOf p work = true then 1 else 0 := by
        rw [JobQueue.countOf_singleton]
        simp
      refine hone.trans ?_
      unfold isWorkOf one
      cases work.arg <;> rfl
    · simp only [WorkqueueStruct.runEffect, if_neg hd]
      rfl

/-- The workqueue's other steps call no deleter. -/
theorem del_of_plain (hw : ring.wq.Inv) (ha : ∀ ks, a ≠ .destroyWq ks) {b : WorkqueueStruct.Act SqeFn WqSqeData}
    {wq' : WorkqueueStruct SqeFn WqSqeData} {e : List (WqEvent SqeFn WqSqeData)} (hb : ring.PlainWq a b)
    (hs : ring.wq.step b = some (wq', e)) : JobQueue.countOf .del (isWorkOf p) (jobLog e) = ring.givenBackCount a p := by
  cases hb with
  | queuer ks threadCreate _ _ =>
    obtain ⟨c, -, -, ⟨rfl, -⟩ | ⟨rfl, -⟩⟩ := WorkqueueStruct.queuer_jobs hw hs
    · rfl
    · rfl
  | worker k ks =>
    obtain ⟨-, -, ⟨rfl, -⟩ | ⟨work, rest, rfl, -⟩⟩ := WorkqueueStruct.worker_jobs hs
    · rfl
    · rfl
  | run _ _ _ => exact del_of_run hs
  | destroyWq ks _ => exact absurd rfl (ha ks)
  | join | destroyEnd | spuriousWorker _ | spuriousQueuer _ =>
    rw [(WorkqueueStruct.quiet_jobs hs rfl).1]
    rfl

/-- Outside of `gw_ring_destroy`, the update of a submission is given back where that has done with it. -/
theorem StepCase.freeUpdate (hs : StepCase ring a ring' ev) (hw : ring.wq.Inv) (ha : ∀ ks, a ≠ .destroyWq ks) (hp : AreHandles p) :
    sqeCount .freeUpdate p ev = ring.givenBackCount a p := by
  cases hs with
  | @unpunted s malloc hsub hpc hne _ hop =>
    rw [sqeCount_cons_event, sqeCount_unpuntedEvents_freeUpdate hp]
    simp only [givenBackCount, givenBack, hsub, hpc, reduceCtorEq, if_false, Nat.add_zero]
    split
    · rfl
    · rename_i hm
      refine hp.one_eq_zero (fun h => hm ⟨hne, hop (Or.inr h)⟩)
  | queueRefused malloc hsub hpc hc hneg =>
    simp only [givenBackCount, givenBack, hsub, hpc, hc, if_pos hneg, sqeCount_cons_event, sqeCount_unpuntedEvents_freeUpdate hp,
      reduceCtorEq, if_false, Nat.add_zero]
    rfl
  | submitEnd malloc hsub hpc heq =>
    simp only [givenBackCount, givenBack, hsub, hpc, ne_eq, heq, not_true_eq_false, false_and, if_false]
    rfl
  | @nop s malloc hsub hpc hne hop =>
    simp only [givenBackCount, givenBack, hsub, hpc]
    split
    · exact (hp.one_eq_zero (by rw [hop]; decide)).symm
    · rfl
  | punt hsub hpc _ _ _ => simp [givenBackCount, givenBack, hsub, hpc]
  | queued malloc hsub hpc hc hpos => simp [givenBackCount, givenBack, hsub, hpc, hc, Int.not_lt.2 hpos]
  | wq hb hstep => exact (sqeCount_freeUpdate hp _).trans (del_of_plain hw ha hb hstep)
  | execCall _ _ hstep => exact (sqeCount_freeUpdate hp _).trans (del_of_run hstep)
  | execRet _ _ hstep => exact (sqeCount_freeUpdate hp _).trans (del_of_run hstep)
  | exec _ he => cases he <;> rfl
  | reader _ _ => exact sqeCount_map_cq _
  | _ => rfl

/-! ## Submissions without an answer -/

/-- The submissions with `p` in `submit_sqe`, queued, or with a worker that has not come back from its handler. -/
def unanswered (ring : GwRing) (p : WqSqeData → Bool) : Nat :=
  ring.inHand p + JobQueue.pendingCount (isWorkOf p) ring.wq.view + JobQueue.heldAt .taken (isWorkOf p) ring.wq.view.held +
    execCount ExecPc.isUnhandled p ring.execs

/-- The submissions with `p` that have an answer: a worker is about to post it, has posted it, or has dropped it. -/
def answeredCount (ring : GwRing) (log : List RingEvent) (p : WqSqeData → Bool) : Nat :=
  sqeCount .posted p log + sqeCount .dropped p log + execCount ExecPc.isAnswered p ring.execs

/-- Before `post_cqe` has ended a worker has an answer or not. -/
theorem execCount_unposted (execs : List (Option Exec)) :
    execCount ExecPc.isUnposted p execs = execCount ExecPc.isUnhandled p execs + execCount ExecPc.isAnswered p execs := by
  induction execs with
  | nil => rfl
  | cons e execs ih =>
    unfold execCount at *
    rw [List.countP_cons, List.countP_cons, List.countP_cons, ih]
    cases e with
    | none => rfl
    | some e =>
      obtain ⟨data, pc⟩ := e
      cases pc <;> simp only [Option.any_some, ExecPc.isUnposted, ExecPc.isUnhandled, ExecPc.isAnswered, Bool.true_and,
        Bool.false_and, Bool.false_eq_true, if_false, Nat.add_zero] <;> omega

/-- A submission has failed, has an answer, or is without one. -/
theorem unanswered_of_run (hC : ∀ s a, C s a → a ≠ .destroy) (h0 : Fresh ring₀ max) (h : machine.Run C ring₀ ring log)
    (p : WqSqeData → Bool) :
    sqeCount .submitted p log = sqeCount .uncounted p log + ring.answeredCount log p + ring.unanswered p := by
  have h1 := submitted_of_run hC h0 h p
  have h2 := execCount_unposted (p := p) ring.execs
  unfold outstanding at h1
  unfold answeredCount unanswered
  omega

/-- No step takes an answer back. -/
theorem StepCase.answered (hs : StepCase ring a ring' ev) (h : Inv ring) (log : List RingEvent) :
    ring.answeredCount log p ≤ ring'.answeredCount (log ++ ev) p := by
  have hsame : ring'.execs = ring.execs → ring.answeredCount log p ≤ ring'.answeredCount (log ++ ev) p := by
    intro he
    unfold answeredCount
    rw [sqeCount_append, sqeCount_append, he]
    omega
  have hmove : ∀ {k : Nat} {x : Option Exec} (y : Option Exec), ring.execs[k]? = some x → ring'.execs = ring.execs.set k y →
      (if x.any (fun e => e.pc.isAnswered && p e.data) then 1 else 0) ≤
        (if y.any (fun e => e.pc.isAnswered && p e.data) then 1 else 0) + sqeCount .posted p ev + sqeCount .dropped p ev →
      ring.answeredCount log p ≤ ring'.answeredCount (log ++ ev) p := by
    intro k x y hk he hle
    have hset := execCount_set (p := p) (q := ExecPc.isAnswered) y hk
    unfold answeredCount
    rw [sqeCount_append, sqeCount_append, he]
    omega
  cases hs with
  | getSqe _ =>
    refine hsame ?_
    unfold gwRingGetSqe
    split <;> rfl
  | @execCall k work data wq' e hk harg hstep =>
    obtain ⟨x, hx, hxd⟩ := h.exec_eq hk
    obtain rfl : x = none := by simpa [runningData] using hxd
    exact hmove _ hx rfl (Nat.zero_le _)
  | execRet _ he _ => exact hmove _ he rfl (Nat.zero_le _)
  | exec hk he =>
    refine hmove _ hk rfl ?_
    cases he <;> exact Nat.zero_le _
  | execRefused hk _ _ =>
    refine hmove _ hk rfl ?_
    simp [ExecPc.isAnswered, one]
  | execPost hk _ _ =>
    refine hmove _ hk rfl ?_
    simp [ExecPc.isAnswered]
  | execPosted hk _ _ =>
    refine hmove _ hk rfl ?_
    simp [ExecPc.isAnswered, one]
  | _ => exact hsame rfl

/-- A handler that returns is an answer. -/
theorem answered_of_ret {k : Nat} {res : Int} {data : WqSqeData} (hk : ring.execs[k]? = some (some ⟨data, .handling⟩)) (hp : p data = true)
    (hs : ring.step (.exec k res) = some (ring', ev)) (log : List RingEvent) :
    ring'.answeredCount (log ++ ev) p = ring.answeredCount log p + 1 := by
  cases (step_cases hs).2 with
  | exec hk' he =>
    cases hk.symm.trans hk'
    cases he with
    | ret =>
      have hset := execCount_set (p := p) (q := ExecPc.isAnswered) (some ⟨data, .posting res⟩) hk
      simp [ExecPc.isAnswered, hp] at hset
      unfold answeredCount
      simp
      omega
  | wq hb _ => nomatch hb

/-! ### Of a part of the submissions -/

theorem inHand_mono {p' : WqSqeData → Bool} (h : ∀ data, p data = true → p' data = true) (ring : GwRing) :
    ring.inHand p ≤ ring.inHand p' := by
  have hone : ∀ data, one p data ≤ one p' data := by
    intro data
    unfold one
    by_cases hp : p data = true
    · rw [if_pos hp, if_pos (h data hp)]
    · rw [if_neg hp]
      exact Nat.zero_le _
  unfold inHand
  cases ring.submit with
  | none => exact Nat.le_refl _
  | some s =>
    obtain ⟨sqHead, sqTail, ret, pc⟩ := s
    cases pc with
    | loop => exact Nat.le_refl _
    | posting data | inPost data => exact Nat.sub_le_sub_right (hone data) _
    | queueing data call =>
      simp only [handCount, queueCount, SubmitPc.data?, Option.map_some, Option.getD_some]
      have := hone data
      split <;> omega

theorem unanswered_mono {p' : WqSqeData → Bool} (h : ∀ data, p data = true → p' data = true) (ring : GwRing) :
    ring.unanswered p ≤ ring.unanswered p' := by
  have hwork : ∀ work : WorkStruct SqeFn WqSqeData, isWorkOf p work = true → isWorkOf p' work = true := by
    intro work hw
    obtain ⟨data, harg, hp⟩ := (Option.any_eq_true _ _).1 hw
    exact (Option.any_eq_true _ _).2 ⟨data, harg, h data hp⟩
  have hhand := inHand_mono h ring
  have hpending : JobQueue.pendingCount (isWorkOf p) ring.wq.view ≤ JobQueue.pendingCount (isWorkOf p') ring.wq.view :=
    List.countP_mono_left (fun work _ hw => hwork work hw)
  have hheld : JobQueue.heldAt .taken (isWorkOf p) ring.wq.view.held ≤ JobQueue.heldAt .taken (isWorkOf p') ring.wq.view.held := by
    refine List.countP_mono_left (fun x _ hx => ?_)
    cases x with
    | none => exact hx
    | some x =>
      obtain ⟨hst, hw⟩ := Bool.and_eq_true_iff.1 hx
      exact Bool.and_eq_true_iff.2 ⟨hst, hwork x.2 hw⟩
  have hexec : execCount ExecPc.isUnhandled p ring.execs ≤ execCount ExecPc.isUnhandled p' ring.execs := by
    refine List.countP_mono_left (fun x _ hx => ?_)
    obtain ⟨e, rfl, he⟩ := (Option.any_eq_true _ _).1 hx
    obtain ⟨hpc, hp⟩ := Bool.and_eq_true_iff.1 he
    exact (Option.any_eq_true _ _).2 ⟨e, rfl, Bool.and_eq_true_iff.2 ⟨hpc, h e.data hp⟩⟩
  unfold unanswered
  omega

/-! ## Handlers that have returned -/

/-- A submission of a `GW_RING_OP_MODULE_HANDLE` was not counted, its handler has returned, or it is without an answer. -/
theorem handled_of_run (hC : ∀ s a, C s a → a ≠ .destroy) (h0 : Fresh ring₀ max) (h : machine.Run C ring₀ ring log) (hp : AreHandles p) :
    sqeCount .submitted p log = sqeCount .uncounted p log + sqeCount .handlerRet p log + ring.unanswered p := by
  have h1 := submitted_of_run hC h0 h p
  have h2 := counted_of_run hC h0 h p
  obtain ⟨b1, -, b3, -, -⟩ := Books.of_run h0 h p
  obtain ⟨r1, -, r3, -⟩ := Releases.of_run h0 h hp
  obtain ⟨w1, -, w3, -, -⟩ := (Known.of_run h0 h).works p
  have hq := queueCount_le (p := p) ring.wq.callers ring.submit
  unfold unanswered inHand at *
  unfold outstanding at *
  omega

/-- How many submissions with `p` the handler returns for in the step. -/
def returnedCount (ring : GwRing) (a : Act) (p : WqSqeData → Bool) : Nat :=
  match a with
  | .exec k _ =>
    match ring.execs[k]? with
    | some (some ⟨data, .handling⟩) => one p data
    | _ => 0
  | _ => 0

theorem StepCase.handlerRet (hs : StepCase ring a ring' ev) : sqeCount .handlerRet p ev = ring.returnedCount a p := by
  cases hs with
  | wq hb hstep =>
    rw [sqeCount_wqEvents (by decide) (by decide)]
    cases hb <;> rfl
  | execCall _ _ _ | execRet _ _ _ => exact sqeCount_wqEvents (by decide) (by decide) _
  | @exec k data pc pc' res e hk he =>
    cases he <;> simp [returnedCount, hk]
  | reader _ _ => exact sqeCount_map_cq _
  | _ => simp [returnedCount, sqeCount_unpuntedEvents]

end GwRing

end GwBot

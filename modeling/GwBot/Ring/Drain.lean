import GwBot.Ring.Due
import GwBot.Ring.Release
import GwBot.Workqueue.Drain

/-!
# Submissions get done

Between two calls of `gw_ring_submit`, whatever the order of the workers' steps and as long as the handlers return, the workers come to
rest. Then every counted submission has had its completion posted, or dropped because `post_cqe` refused it, the copy of every submission
has been freed, and every update has been given back.
-/

namespace GwBot

open Lib

/-- The steps that a call of `gw_ring_wq_sqe_exec` may still take, or less, when the completion that it posts is worth `n` steps. -/
def ExecPc.stepsLeft (n : Nat) : ExecPc → Nat
  | .start => n + 6
  | .handling => n + 5
  | .posting _ => n + 4
  | .inPost _ => n + 1
  | .done => 0

/-- And those of the `post_cqe` that holds the lock. -/
def postStepsLeft : Option (Posting Poster) → Nat
  | none => 0
  | some p => if p.stored then 1 else 2

namespace GwRing

/-- A step of a worker: of the workqueue's, of `gw_ring_wq_sqe_exec`, or of the `post_cqe` in it. -/
def Act.isWorker : Act → Bool
  | .worker _ _ | .run _ | .exec _ _ | .postStart (.worker _) | .postStore | .postPublish => true
  | _ => false

variable {ring ring' ring₀ : GwRing} {a : Act} {log ev : List RingEvent} {max : UInt32} {p : WqSqeData → Bool}

/-- What a call of `gw_ring_wq_sqe_exec`, if there is one, has left. -/
def execStepsLeft (n : Nat) (e : Option Exec) : Nat := (e.map (fun e => e.pc.stepsLeft n)).getD 0

/-- What is left for the workers to do, when a completion posted is worth `n` steps. A work that has just been taken has the call of
`gw_ring_wq_sqe_exec` before it. -/
def stepsLeft (n : Nat) (ring : GwRing) : Nat :=
  ring.wq.stepsLeft (n + 11) + poolWeight (execStepsLeft n) ring.execs + postStepsLeft ring.cq.posting

/-- The completions posted in a step. -/
def nrPosted (ev : List RingEvent) : Nat := (postedOf (cqLog ev)).length

@[simp] theorem nrPosted_nil : nrPosted [] = 0 := rfl

theorem nrPosted_wqEvents (ev : List (WqEvent SqeFn WqSqeData)) : nrPosted (ev.flatMap wqEvents) = 0 := by
  rw [nrPosted, cqLog_wqEvents]
  rfl

theorem execStepsLeft_le (n : Nat) (e : Option Exec) : execStepsLeft n e ≤ n + 6 := by
  cases e with
  | none => exact Nat.zero_le (n + 6)
  | some e =>
    obtain ⟨data, pc⟩ := e
    cases pc <;> simp only [execStepsLeft, Option.map_some, Option.getD_some, ExecPc.stepsLeft] <;> omega

theorem stepsLeft_le (n : Nat) (ring : GwRing) :
    ring.stepsLeft n ≤ (n + 11) * (ring.wq.pendingWorks.length + ring.wq.workers.length) + (n + 6) * ring.execs.length + 2 := by
  have hwq := WorkqueueStruct.stepsLeft_le (w := n + 11) (by omega) ring.wq
  have hexec := poolWeight_le ring.execs (execStepsLeft_le n)
  have hpost : postStepsLeft ring.cq.posting ≤ 2 := by
    unfold postStepsLeft
    split
    · omega
    · split <;> omega
  unfold stepsLeft
  omega

/-- A call of `gw_ring_wq_sqe_exec` that moves takes from what is left what it takes from its own part. -/
theorem poolWeight_setExec (n : Nat) {k : Nat} {e : Option Exec} (hk : ring.execs[k]? = some e) (e' : Option Exec) :
    poolWeight (execStepsLeft n) (ring.execs.set k e') + execStepsLeft n e =
      poolWeight (execStepsLeft n) ring.execs + execStepsLeft n e' :=
  poolWeight_set (execStepsLeft n) hk e'

theorem ExecStep.less (n : Nat) {data : WqSqeData} {res : Int} {pc pc' : ExecPc} (h : ExecStep data res pc pc' ev) :
    pc'.stepsLeft n < pc.stepsLeft n := by
  cases h <;> simp only [ExecPc.stepsLeft] <;> omega

/-- The worker of a work that is held, as its table has it. -/
theorem worker_of_held {wq : WorkqueueStruct SqeFn WqSqeData} {k : Nat} {st : Stage} {work : WorkStruct SqeFn WqSqeData}
    (h : wq.view.held[k]? = some (some (st, work))) : ∃ t, wq.workers[k]? = some t ∧ t.pc = .holding st work := by
  rw [WorkqueueStruct.view_held_eq, List.getElem?_map] at h
  obtain ⟨t, hk, hp⟩ := Option.map_eq_some_iff.1 h
  refine ⟨t, hk, ?_⟩
  cases hpc : t.pc <;> rw [hpc] at hp <;> cases hp
  rfl

/-- A worker that goes on with the work that it has just taken leaves room for the call that it makes. -/
theorem stepsLeft_execCall (n : Nat) {k : Nat} {work : WorkStruct SqeFn WqSqeData} {wq wq' : WorkqueueStruct SqeFn WqSqeData}
    {e : List (WqEvent SqeFn WqSqeData)} (hheld : wq.view.held[k]? = some (some (.taken, work)))
    (hs : wq.step (.run k) = some (wq', e)) : wq'.stepsLeft (n + 11) + (n + 7) ≤ wq.stepsLeft (n + 11) := by
  obtain ⟨t, hk, hp⟩ := worker_of_held hheld
  obtain ⟨r, rfl, rfl, hc⟩ := wq.step_result hs
  cases hc with
  | run hk' hr =>
    cases hk.symm.trans hk'
    have := WorkqueueStruct.stepsLeft_workerRun_taken (n + 11) hk hp hr
    omega

/-- Every step of a worker leaves less to do, and a completion that it posts takes `n` with it. -/
theorem StepCase.stepsLeft_lt (n : Nat) (hs : StepCase ring a ring' ev) (ha : a.isWorker = true) (hi : Inv ring)
    (hnop : a = .postPublish → ∀ p, ring.cq.posting = some p → p.thread ≠ .submitter) :
    ring'.stepsLeft n + n * nrPosted ev < ring.stepsLeft n := by
  have hwq : ∀ {b : WorkqueueStruct.Act SqeFn WqSqeData} {wq' : WorkqueueStruct SqeFn WqSqeData} {e : List (WqEvent SqeFn WqSqeData)},
      b.isWorker = true → ring.wq.step b = some (wq', e) → wq'.stepsLeft (n + 11) < ring.wq.stepsLeft (n + 11) :=
    fun hb hstep => WorkqueueStruct.stepsLeft_step (by omega) hb hstep
  cases hs with
  | @wq _ b wq' _ hb hstep =>
    have hless : wq'.stepsLeft (n + 11) < ring.wq.stepsLeft (n + 11) := by
      cases hb with
      | worker k ks => exact hwq rfl hstep
      | run _ _ _ => exact hwq rfl hstep
      | _ => nomatch ha
    rw [nrPosted_wqEvents]
    unfold stepsLeft
    exact Nat.add_lt_add_right (Nat.add_lt_add_right hless _) _
  | @execCall k work data wq' _ hheld harg hstep =>
    obtain ⟨e, hk, he⟩ := hi.exec_eq hheld
    have hnone : e = none := Option.map_eq_none_iff.1 he
    have hset := poolWeight_setExec n hk (some ⟨data, .start⟩)
    have hless := stepsLeft_execCall n hheld hstep
    rw [hnone] at hset
    have h1 : execStepsLeft n (none : Option Exec) = 0 := rfl
    have h2 : execStepsLeft n (some ⟨data, .start⟩) = n + 6 := rfl
    rw [nrPosted_wqEvents]
    show wq'.stepsLeft (n + 11) + poolWeight (execStepsLeft n) (ring.execs.set k (some ⟨data, .start⟩)) +
      postStepsLeft ring.cq.posting + n * 0 <
      ring.wq.stepsLeft (n + 11) + poolWeight (execStepsLeft n) ring.execs + postStepsLeft ring.cq.posting
    omega
  | @execRet k work data wq' _ hheld hk hstep =>
    have hset := poolWeight_setExec n hk none
    have hless := hwq rfl hstep
    have h1 : execStepsLeft n (some ⟨data, .done⟩) = 0 := rfl
    have h2 : execStepsLeft n (none : Option Exec) = 0 := rfl
    rw [nrPosted_wqEvents]
    show wq'.stepsLeft (n + 11) + poolWeight (execStepsLeft n) (ring.execs.set k none) + postStepsLeft ring.cq.posting + n * 0 <
      ring.wq.stepsLeft (n + 11) + poolWeight (execStepsLeft n) ring.execs + postStepsLeft ring.cq.posting
    omega
  | @exec k data res pc pc' _ hk he =>
    have hset := poolWeight_setExec n hk (some ⟨data, pc'⟩)
    have hless := he.less n
    have h1 : execStepsLeft n (some ⟨data, pc⟩) = pc.stepsLeft n := rfl
    have h2 : execStepsLeft n (some ⟨data, pc'⟩) = pc'.stepsLeft n := rfl
    have hposted : nrPosted ev = 0 := by rw [nrPosted, (wqLog_execStep he).2]; rfl
    rw [hposted]
    show ring.wq.stepsLeft (n + 11) + poolWeight (execStepsLeft n) (ring.execs.set k (some ⟨data, pc'⟩)) +
      postStepsLeft ring.cq.posting + n * 0 <
      ring.wq.stepsLeft (n + 11) + poolWeight (execStepsLeft n) ring.execs + postStepsLeft ring.cq.posting
    omega
  | @execRefused k data res hk hp hfull =>
    have hset := poolWeight_setExec n hk (some ⟨data, .done⟩)
    have h1 : execStepsLeft n (some ⟨data, .posting res⟩) = n + 4 := rfl
    have h2 : execStepsLeft n (some ⟨data, .done⟩) = 0 := rfl
    show ring.wq.stepsLeft (n + 11) + poolWeight (execStepsLeft n) (ring.execs.set k (some ⟨data, .done⟩)) +
      postStepsLeft ring.cq.posting + n * 0 <
      ring.wq.stepsLeft (n + 11) + poolWeight (execStepsLeft n) ring.execs + postStepsLeft ring.cq.posting
    omega
  | @execPost k data res hk hp hfull =>
    have hset := poolWeight_setExec n hk (some ⟨data, .inPost res⟩)
    have h1 : execStepsLeft n (some ⟨data, .posting res⟩) = n + 4 := rfl
    have h2 : execStepsLeft n (some ⟨data, .inPost res⟩) = n + 1 := rfl
    show ring.wq.stepsLeft (n + 11) + poolWeight (execStepsLeft n) (ring.execs.set k (some ⟨data, .inPost res⟩)) + 2 + n * 0 <
      ring.wq.stepsLeft (n + 11) + poolWeight (execStepsLeft n) ring.execs + postStepsLeft ring.cq.posting
    omega
  | @store cq' hstore =>
    cases Cq.storeCqe_cases hstore with
    | @store thread cqe cqTail hp =>
      show ring.wq.stepsLeft (n + 11) + poolWeight (execStepsLeft n) ring.execs + 1 + n * 0 <
        ring.wq.stepsLeft (n + 11) + poolWeight (execStepsLeft n) ring.execs + postStepsLeft ring.cq.posting
      rw [hp]
      exact Nat.lt_succ_self _
  | @execPosted k data res cqe cqTail cq' hk hp hpub =>
    have hset := poolWeight_setExec n hk (some ⟨data, .done⟩)
    have h1 : execStepsLeft n (some ⟨data, .inPost res⟩) = n + 1 := rfl
    have h2 : execStepsLeft n (some ⟨data, .done⟩) = 0 := rfl
    have hfree := (publishCqe_frame hpub).1
    show ring.wq.stepsLeft (n + 11) + poolWeight (execStepsLeft n) (ring.execs.set k (some ⟨data, .done⟩)) +
      postStepsLeft cq'.posting + n * 1 <
      ring.wq.stepsLeft (n + 11) + poolWeight (execStepsLeft n) ring.execs + postStepsLeft ring.cq.posting
    rw [hfree, hp]
    show _ + 0 + n * 1 < _ + 1
    omega
  | nopPosted _ _ hp _ => exact absurd rfl (hnop rfl _ hp)
  | _ => nomatch ha

/-- Nobody but a worker is in `post_cqe` while nobody is in `gw_ring_submit`. -/
theorem thread_ne_submitter (hi : Inv ring) (hsub : ring.submit = none) {p : Posting Poster} (hp : ring.cq.posting = some p) :
    p.thread ≠ .submitter := by
  intro ht
  have hok := hi.posting p hp
  rw [PostingOk, ht] at hok
  obtain ⟨s, data, hs, -⟩ := hok
  exact absurd (hsub.symm.trans hs) nofun

/-- The workers come to rest, in the states that a run reaches between two calls of `gw_ring_submit`. -/
theorem workers_descend (h0 : Fresh ring₀ max) :
    machine.Descends (fun ring => ring.submit = none ∧ ∃ log, machine.Reach ring₀ ring log) (fun a => a.isWorker = true)
      (stepsLeft 0) where
  kept := by
    rintro ring a ring' ev ⟨hsub, log, hrun⟩ ha hs
    refine ⟨(step_cases hs).2.submit_none ?_ hsub, _, Machine.Run.step a hrun trivial hs⟩
    rintro rfl
    nomatch ha
  less := by
    rintro ring a ring' ev ⟨hsub, log, hrun⟩ ha hs
    have hi := Inv.of_run h0 hrun
    exact Nat.lt_of_le_of_lt (Nat.le_add_right _ _)
      ((step_cases hs).2.stepsLeft_lt 0 ha hi (fun _ _ hp => thread_ne_submitter hi hsub hp))

/-! ## Workers at rest -/

/-- A worker in the middle of `post_cqe` holds `cq_lock`. -/
def PostersHoldLock (ring : GwRing) : Prop :=
  ∀ k data res, ring.execs[k]? = some (some ⟨data, .inPost res⟩) → ∃ p, ring.cq.posting = some p ∧ p.thread = .worker k

/-- A call that moves to elsewhere than into `post_cqe`. -/
theorem PostersHoldLock.setExec (h : PostersHoldLock ring) {k : Nat} {e : Option Exec} (he : ∀ data res, e ≠ some ⟨data, .inPost res⟩) :
    ∀ j data res, (ring.execs.set k e)[j]? = some (some ⟨data, .inPost res⟩) →
      ∃ p, ring.cq.posting = some p ∧ p.thread = .worker j := by
  intro j data res hj
  rcases getElem?_set_cases hj with ⟨-, h1⟩ | ⟨-, h1⟩
  · exact absurd h1.symm (he data res)
  · exact h j data res h1

theorem PostersHoldLock.step (h : PostersHoldLock ring) (hs : StepCase ring a ring' ev) : PostersHoldLock ring' := by
  cases hs with
  | getSqe _ =>
    unfold gwRingGetSqe
    split <;> exact h
  | execCall _ _ _ => exact h.setExec (by simp)
  | execRet _ _ _ => exact h.setExec (by simp)
  | exec _ he => exact h.setExec (by cases he <;> simp)
  | execRefused _ _ _ => exact h.setExec (by simp)
  | nopPost _ _ hp _ =>
    intro k data res hk
    obtain ⟨p, hp', -⟩ := h k data res hk
    exact absurd (hp.symm.trans hp') nofun
  | @execPost k data res hk hp _ =>
    intro j data' res' hj
    rcases getElem?_set_cases hj with ⟨rfl, -⟩ | ⟨-, h1⟩
    · exact ⟨_, rfl, rfl⟩
    · obtain ⟨p, hp', -⟩ := h j data' res' h1
      exact absurd (hp.symm.trans hp') nofun
  | store hs =>
    obtain ⟨p, hp, hp', -⟩ := storeCqe_frame hs
    intro k data res hk
    obtain ⟨q, hq, hqt⟩ := h k data res hk
    cases hp.symm.trans hq
    exact ⟨_, hp', hqt⟩
  | nopPosted _ _ hp _ =>
    intro k data res hk
    obtain ⟨q, hq, hqt⟩ := h k data res hk
    cases hp.symm.trans hq
    nomatch hqt
  | @execPosted k data res cqe cqTail cq' hk hp hpub =>
    intro j data' res' hj
    rcases getElem?_set_cases hj with ⟨-, h1⟩ | ⟨hne, h1⟩
    · nomatch h1
    · obtain ⟨q, hq, hqt⟩ := h j data' res' h1
      cases hp.symm.trans hq
      exact absurd (Poster.worker.inj hqt).symm hne
  | reader hb hs =>
    obtain ⟨hp, -⟩ := reader_frame hb hs
    intro k data res hk
    obtain ⟨p, hp', ht⟩ := h k data res hk
    exact ⟨p, hp.trans hp', ht⟩
  | _ => exact h

theorem PostersHoldLock.of_run {C : GwRing → Act → Prop} (h0 : Fresh ring₀ max) (h : machine.Run C ring₀ ring log) :
    PostersHoldLock ring := by
  refine h.stateInv ?_ (fun _ _ _ _ _ _ hi _ hs => hi.step (step_cases hs).2)
  intro k data res hk
  rw [h0.execs] at hk
  have := List.eq_of_mem_replicate (List.mem_of_getElem? hk)
  nomatch this

/-- The `post_cqe` that holds `cq_lock` has a step to take. -/
theorem exists_post_step (hd : ring.wq.destroyer ≠ .done) (hi : Inv ring) {q : Posting Poster} (hq : ring.cq.posting = some q) :
    ring.step .postStore ≠ none ∨ ring.step .postPublish ≠ none := by
  have hok := hi.posting q hq
  obtain ⟨thread, cqe, cqTail, stored⟩ := q
  cases stored with
  | false =>
    left
    simp only [step, if_neg hd, postStore, Cq.storeCqe, hq]
    simp
  | true =>
    right
    cases thread with
    | submitter =>
      obtain ⟨⟨sqHead, sqTail, ret, pc⟩, data, hsub, rfl, -⟩ := hok
      simp only [step, if_neg hd, postPublish, hq, hsub, Cq.publishCqe]
      simp
    | worker k =>
      obtain ⟨data, res, hk, -⟩ := hok
      simp only [step, if_neg hd, postPublish, hq, hk, Cq.publishCqe]
      simp

/-- A worker that is awake has a step to take, or another that holds `cq_lock` has. -/
theorem exists_step_of_awake (hd : ring.wq.destroyer ≠ .done) (hi : Inv ring) (hlock : PostersHoldLock ring)
    (hheld : ∀ st work, some (st, work) ∈ ring.wq.view.held → IsSqeWork work) {k : Nat}
    {t : WorkerThread SqeFn WqSqeData} (hk : ring.wq.workers[k]? = some t) (ht : t.pc.isAwake = true) :
    ∃ a : Act, a.isWorker = true ∧ ring.step a ≠ none := by
  have hnext := WorkqueueStruct.step_nextAct_ne_none hd hk ht
  have hrun : ∀ b, ring.wq.step b ≠ none → ring.wqStep b ≠ none := by
    intro b hb
    simp only [wqStep, ne_eq, Option.map_eq_none_iff]
    exact hb
  obtain ⟨claimed, pc⟩ := t
  cases hp : pc with
  | holding st work =>
    rw [hp] at hnext hk
    have hview : ring.wq.view.held[k]? = some (some (st, work)) := WorkqueueStruct.view_getElem? hk
    obtain ⟨e, hek, hdata⟩ := hi.exec_eq hview
    cases st with
    | taken =>
      obtain ⟨data, -, harg, -⟩ := hheld _ _ (List.mem_of_getElem? hview)
      refine ⟨.run k, rfl, ?_⟩
      simp only [step, if_neg hd, workerRun, hk, harg, ne_eq, Option.map_eq_none_iff]
      exact hrun _ hnext
    | running =>
      obtain ⟨data, -, harg, -⟩ := hheld _ _ (List.mem_of_getElem? hview)
      rw [runningData, harg] at hdata
      obtain ⟨⟨data', epc⟩, rfl, rfl⟩ := Option.map_eq_some_iff.1 hdata
      cases epc with
      | start =>
        refine ⟨.exec k 0, rfl, ?_⟩
        simp only [step, if_neg hd, execNext, hek]
        repeat' split
        all_goals simp
      | handling =>
        refine ⟨.exec k 0, rfl, ?_⟩
        simp only [step, if_neg hd, execNext, hek]
        simp
      | posting res =>
        cases hq : ring.cq.posting with
        | none =>
          refine ⟨.postStart (.worker k), rfl, ?_⟩
          simp only [step, if_neg hd, postStart, hek, ne_eq, Option.map_eq_none_iff, Cq.postCqe, hq]
          split <;> simp
        | some q =>
          rcases exists_post_step hd hi hq with h | h
          · exact ⟨_, rfl, h⟩
          · exact ⟨_, rfl, h⟩
      | inPost res =>
        obtain ⟨q, hq, -⟩ := hlock k _ res hek
        rcases exists_post_step hd hi hq with h | h
        · exact ⟨_, rfl, h⟩
        · exact ⟨_, rfl, h⟩
      | done =>
        refine ⟨.run k, rfl, ?_⟩
        simp only [step, if_neg hd, workerRun, hk, hek, ne_eq, Option.map_eq_none_iff]
        exact hrun _ hnext
    | ran | deleting =>
      refine ⟨.run k, rfl, ?_⟩
      simp only [step, if_neg hd, workerRun, hk]
      exact hrun _ hnext
  | starting | finishing | sleeping b =>
    rw [hp] at hnext
    refine ⟨.worker k [], rfl, ?_⟩
    simp only [step, if_neg hd]
    exact hrun _ hnext
  | _ =>
    rw [hp] at ht
    cases ht

/-- When no worker is awake the workqueue is an empty queue of jobs. -/
theorem view_of_not_awake {C : GwRing → Act → Prop} (h0 : Fresh ring₀ max) (h : machine.Run C ring₀ ring log)
    (hawake : ∀ t ∈ ring.wq.workers, t.pc.isAwake = false) :
    JobQueue.pendingCount (isWorkOf p) ring.wq.view = 0 ∧ JobQueue.heldCount (isWorkOf p) ring.wq.view = 0 := by
  have hinv := (Known.of_run h0 h).wq
  have hwq := wq_run h
  have hthread : WorkqueueStruct.HasThread ring.wq.workers := by
    refine WorkqueueStruct.HasThread.of_run h0.wq ?_ hwq
    rw [h0.attr.2.1]
    decide
  obtain ⟨hpending, hheld⟩ := WorkqueueStruct.view_of_quiet hinv
    (WorkqueueStruct.quiet_of_not_awake hinv (WorkqueueStruct.Alive.of_run h0.wq hwq) hthread hawake)
  refine ⟨?_, JobQueue.heldCount_eq_zero _ hheld⟩
  rw [JobQueue.pendingCount, hpending]
  rfl

/-- And when the workers are at rest. -/
theorem view_of_settled (h0 : Fresh ring₀ max) (h : machine.Reach ring₀ ring log)
    (hset : machine.Settled (fun a => a.isWorker = true) ring) :
    JobQueue.pendingCount (isWorkOf p) ring.wq.view = 0 ∧ JobQueue.heldCount (isWorkOf p) ring.wq.view = 0 := by
  by_cases hd : ring.wq.destroyer = .done
  · exact (places_of_done h0 h hd).2
  · have hk := Known.of_run h0 h
    refine view_of_not_awake h0 h (fun t ht => ?_)
    obtain ⟨k, hkt⟩ := List.mem_iff_getElem?.1 ht
    rw [← Bool.not_eq_true]
    intro hta
    obtain ⟨a, ha, hstep⟩ := exists_step_of_awake hd hk.inv (PostersHoldLock.of_run h0 h) hk.held hkt hta
    exact hstep (hset a ha)

/-! ## Main result -/

/-- What has become of the submission: it was counted or not; when it was, its completion was posted, or `post_cqe` refused it, or the
workqueue dropped its work as it stopped; its handler has returned; the copy of it is freed; and its update is given back. -/
structure Finished (log : List RingEvent) (data : WqSqeData) : Prop where
  judged : sqeCount .counted (· == data) log + sqeCount .uncounted (· == data) log = 1
  completed : sqeCount .counted (· == data) log =
    sqeCount .posted (· == data) log + sqeCount .dropped (· == data) log + workCount .drop (· == data) log
  handled : sqeCount .handlerCall (· == data) log = sqeCount .handlerRet (· == data) log
  copy : sqeCount .alloc (· == data) log = sqeCount .freeData (· == data) log
  update : data.sqe.op = GW_RING_OP_MODULE_HANDLE → sqeCount .freeUpdate (· == data) log = 1

/-- From any state that a ring reaches between two calls of `gw_ring_submit`, `gw_ring_destroy` or not: its workers, left to themselves,
take a bounded number of steps; they can be carried on until none has a step left; and wherever they come to rest every submission is
finished. -/
theorem submissions_get_done {size : UInt32} {env : InitEnv} (h0 : gwRingInit size env = some (.ok ring₀))
    (h : machine.Reach ring₀ ring log) (hsub : ring.submit = none) :
    (∀ as ring' log', (∀ a ∈ as, a.isWorker = true) → machine.exec ring as = some (ring', log') →
      as.length ≤ 11 * (ring.wq.pendingWorks.length + ring.wq.workers.length) + 6 * ring.execs.length + 2) ∧
    (∃ as ring' log', machine.exec ring as = some (ring', log') ∧ (∀ a ∈ as, a.isWorker = true) ∧
      machine.Settled (fun a => a.isWorker = true) ring') ∧
    ∀ ring' log', machine.Run (fun _ a => a.isWorker = true) ring ring' log' →
      machine.Settled (fun a => a.isWorker = true) ring' →
      ∀ data, 0 < sqeCount .submitted (· == data) (log ++ log') → Finished (log ++ log') data := by
  obtain ⟨max, -, hfresh⟩ := gwRingInit_fresh h0
  have hdesc := workers_descend hfresh
  refine ⟨fun as ring' log' hworker he => ?_, hdesc.exists_settled ⟨hsub, log, h⟩, fun ring' log' hrest hset data hpos => ?_⟩
  · have hlen := (hdesc.length_le ⟨hsub, log, h⟩ hworker he).1
    have hle := stepsLeft_le 0 ring
    omega
  · have hrun := h.trans hrest.reach
    have hsub' : ring'.submit = none := by
      refine hrest.stateInv (I := fun ring => ring.submit = none) hsub ?_
      intro s _ a s' _ _ hi hc hs
      refine (step_cases hs).2.submit_none ?_ hi
      rintro rfl
      nomatch hc
    obtain ⟨hpending, hheld⟩ := view_of_settled (p := (· == data)) hfresh hrun hset
    obtain ⟨b1, b2, b3, b4, b5⟩ := Books.of_run hfresh hrun (· == data)
    obtain ⟨w1, w2, w3, w4, w5⟩ := (Known.of_run hfresh hrun).works (· == data)
    have hone := (Tally.of_run hfresh hrun).submitted_le data
    have hexec := execCount_le_running (p := (· == data)) (Inv.of_run hfresh hrun)
    have hunposted := hexec ExecPc.isUnposted
    have hhandling := hexec ExecPc.isHandling
    rw [JobQueue.heldCount] at w2 hheld
    rw [hsub'] at b1 b2 b3
    simp only [handCount, queueCount] at b1 b2 b3
    refine ⟨by omega, by omega, by omega, by omega, fun hop => ?_⟩
    have hp : AreHandles (· == data) := by
      intro d hd
      rw [beq_iff_eq.1 hd]
      exact hop
    obtain ⟨r1, r2, -, -⟩ := Releases.of_run hfresh hrun hp
    rw [hsub'] at r1
    simp only [queueCount] at r1
    omega

/-- One submission, which the worker that `queue_work` has made has not taken yet. -/
theorem submissions_get_done_small : ∃ (ring₀ ring ring' : GwRing) (log log' : List RingEvent) (data : WqSqeData),
    gwRingInit 2 InitEnv.ok = some (.ok ring₀) ∧ machine.Reach ring₀ ring log ∧ ring.submit = none ∧
    data.sqe.op = GW_RING_OP_MODULE_HANDLE ∧ sqeCount .freeUpdate (· == data) log = 0 ∧ machine.Reach ring₀ ring' (log ++ log') ∧
    sqeCount .freeUpdate (· == data) (log ++ log') = 1 := by
  have hrun : ∃ ring₀ : GwRing, gwRingInit 2 InitEnv.ok = some (.ok ring₀) ∧
      (machine.exec ring₀
        [.getSqe, .fill 0 (sqeOf GW_RING_OP_MODULE_HANDLE), .submit, .submitNext true, .queuer [] 0, .submitNext true,
          .submitNext true]).map
        (fun r => (r.1.submit, sqeCount .freeUpdate (· == ⟨0, sqeOf GW_RING_OP_MODULE_HANDLE⟩) r.2,
          decide (0 < sqeCount .submitted (· == ⟨0, sqeOf GW_RING_OP_MODULE_HANDLE⟩) r.2))) = some (none, 0, true) := by
    refine ⟨_, rfl, ?_⟩
    set_option maxRecDepth 20000 in decide
  obtain ⟨ring₀, h0, he⟩ := hrun
  obtain ⟨ring, log, h, hval⟩ := Machine.exists_of_exec (fun (ring : GwRing) log => (ring.submit,
    sqeCount .freeUpdate (· == ⟨0, sqeOf GW_RING_OP_MODULE_HANDLE⟩) log,
    decide (0 < sqeCount .submitted (· == ⟨0, sqeOf GW_RING_OP_MODULE_HANDLE⟩) log))) he
  simp only [Prod.mk.injEq, decide_eq_true_eq] at hval
  obtain ⟨hsub, hzero, hpos⟩ := hval
  obtain ⟨-, ⟨as, ring', log', hexec, hworker, hset⟩, hdone⟩ := submissions_get_done h0 h hsub
  have hrest := Machine.run_of_exec hexec hworker
  have hpos' : 0 < sqeCount .submitted (· == ⟨0, sqeOf GW_RING_OP_MODULE_HANDLE⟩) (log ++ log') := by
    rw [sqeCount_append]
    exact Nat.lt_add_right _ hpos
  exact ⟨ring₀, ring, ring', log, log', ⟨0, sqeOf GW_RING_OP_MODULE_HANDLE⟩, h0, h, hsub, rfl, hzero, h.trans hrest.reach,
    (hdone ring' log' hrest hset _ hpos').update rfl⟩

end GwRing

end GwBot

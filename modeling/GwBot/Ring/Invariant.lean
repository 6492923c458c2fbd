import GwBot.Ring.CqFifo

/-!
# What holds between the ring and its workqueue

The ring's own view of what its workers do agrees with the workqueue's: a worker is in `gw_ring_wq_sqe_exec` exactly while the
workqueue has it inside a work's function, and every work is one that `punt_to_io_wq` made. Every run of the ring is a run of its
workqueue, so all that is known of the one is known of the other.
-/

namespace GwBot

open Lib

/-- The event of the workqueue that an event of the ring is. -/
def RingEvent.wq? : RingEvent → Option (WqEvent SqeFn WqSqeData)
  | .wq e => some e
  | _ => none

/-- The event of the completion queue that an event of the ring is. -/
def RingEvent.cq? : RingEvent → Option (CqEvent Poster)
  | .cq e => some e
  | _ => none

/-- The event of a submission that an event of the ring is. -/
def RingEvent.sqe? : RingEvent → Option SqeEvent
  | .sqe e => some e
  | _ => none

/-- What the workqueue logged. -/
def wqLog (log : List RingEvent) : List (WqEvent SqeFn WqSqeData) := log.filterMap RingEvent.wq?

/-- What the completion queue logged. -/
def cqLog (log : List RingEvent) : List (CqEvent Poster) := log.filterMap RingEvent.cq?

/-- What happened to the submissions. -/
def sqeLog (log : List RingEvent) : List SqeEvent := log.filterMap RingEvent.sqe?

@[simp] theorem sqeLog_cons_sqe (e : SqeEvent) (l : List RingEvent) : sqeLog (.sqe e :: l) = e :: sqeLog l := rfl

theorem wqLog_append (l l' : List RingEvent) : wqLog (l ++ l') = wqLog l ++ wqLog l' := List.filterMap_append

theorem cqLog_append (l l' : List RingEvent) : cqLog (l ++ l') = cqLog l ++ cqLog l' := List.filterMap_append

theorem sqeLog_append (l l' : List RingEvent) : sqeLog (l ++ l') = sqeLog l ++ sqeLog l' := List.filterMap_append

/-- Setting an entry to one that looks the same changes nothing that is seen. -/
theorem map_set_same {β γ : Type} {l : List β} {k : Nat} {x y : β} {f : β → γ} (h : l[k]? = some x) (hf : f y = f x) :
    (l.set k y).map f = l.map f := by
  rw [List.map_set, hf]
  refine set_eq_self ?_
  rw [List.getElem?_map, h]
  rfl

namespace GwRing

/-- An event of the workqueue is one of the ring, and no completion is posted with it. -/
theorem log_wqEvents (e : WqEvent SqeFn WqSqeData) : wqLog (wqEvents e) = [e] ∧ cqLog (wqEvents e) = [] := by
  unfold wqEvents
  split
  · rename_i func data deleter call
    unfold deleteEvents
    split <;> exact ⟨rfl, rfl⟩
  · exact ⟨rfl, rfl⟩

theorem wqLog_wqEvents (ev : List (WqEvent SqeFn WqSqeData)) : wqLog (ev.flatMap wqEvents) = ev := by
  induction ev with
  | nil => rfl
  | cons e es ih => rw [List.flatMap_cons, wqLog_append, (log_wqEvents e).1, ih, List.singleton_append]

/-- The workqueue logs no completion. -/
theorem cqLog_wqEvents (ev : List (WqEvent SqeFn WqSqeData)) : cqLog (ev.flatMap wqEvents) = [] := by
  induction ev with
  | nil => rfl
  | cons e es ih => rw [List.flatMap_cons, cqLog_append, (log_wqEvents e).2, ih, List.nil_append]

theorem wqLog_unpuntedEvents (data : WqSqeData) : wqLog (unpuntedEvents data) = [] ∧ cqLog (unpuntedEvents data) = [] := by
  unfold unpuntedEvents
  split <;> exact ⟨rfl, rfl⟩

theorem wqLog_execStep {data : WqSqeData} {res : Int} {pc pc' : ExecPc} {ev : List RingEvent} (h : ExecStep data res pc pc' ev) :
    wqLog ev = [] ∧ cqLog ev = [] := by
  cases h <;> exact ⟨rfl, rfl⟩

theorem wqLog_map_cq (ev : List (CqEvent Poster)) : wqLog (ev.map .cq) = [] := by
  induction ev with
  | nil => rfl
  | cons e es ih => exact ih

theorem cqLog_map_cq (ev : List (CqEvent Poster)) : cqLog (ev.map .cq) = ev := by
  induction ev with
  | nil => rfl
  | cons e es ih => exact congrArg (e :: ·) ih

variable {ring ring' : GwRing} {a : Act} {log ev : List RingEvent}

/-- A step of the ring is a step of its workqueue, or none of its business. -/
theorem StepCase.wq_step (h : StepCase ring a ring' ev) :
    (∃ b, ring.wq.step b = some (ring'.wq, wqLog ev)) ∨ (ring'.wq = ring.wq ∧ wqLog ev = []) := by
  cases h with
  | getSqe _ =>
    right
    unfold gwRingGetSqe
    split <;> exact ⟨rfl, rfl⟩
  | punt _ _ _ _ hs => exact Or.inl ⟨_, hs⟩
  | unpunted _ _ _ _ _ => exact Or.inr ⟨rfl, (wqLog_unpuntedEvents _).1⟩
  | queueRefused _ _ _ _ _ => exact Or.inr ⟨rfl, (wqLog_unpuntedEvents _).1⟩
  | wq _ hs | execCall _ _ hs | execRet _ _ hs =>
    left
    rw [wqLog_wqEvents]
    exact ⟨_, hs⟩
  | exec _ he => exact Or.inr ⟨rfl, (wqLog_execStep he).1⟩
  | reader _ _ => exact Or.inr ⟨rfl, wqLog_map_cq _⟩
  | _ => exact Or.inr ⟨rfl, rfl⟩

/-- Every run of the ring is a run of its workqueue. -/
theorem wq_run {C : GwRing → Act → Prop} {ring₀ : GwRing} (h : machine.Run C ring₀ ring log) :
    (WorkqueueStruct.machine SqeFn WqSqeData).Reach ring₀.wq ring.wq (wqLog log) :=
  h.project (fun ring => ring.wq) RingEvent.wq? (fun _ _ _ _ _ hs => (step_cases hs).2.wq_step)

/-! ## The works of the ring -/

/-- The work is one that `punt_to_io_wq` makes. -/
def IsSqeWork (work : WorkStruct SqeFn WqSqeData) : Prop :=
  ∃ data, work.func = some .exec ∧ work.arg = some data ∧ work.deleter = some .delete ∧
    (data.sqe.op = GW_RING_OP_TG_API_CALL ∨ data.sqe.op = GW_RING_OP_MODULE_HANDLE)

/-- The submission whose `gw_ring_wq_sqe_exec` a worker is in, as the workqueue has it. -/
def runningData : Option (Stage × WorkStruct SqeFn WqSqeData) → Option WqSqeData
  | some (.running, work) => work.arg
  | _ => none

/-- The thread in `post_cqe` is where it should be, and posts the completion of its own submission. -/
def PostingOk (ring : GwRing) (p : Posting Poster) : Prop :=
  match p.thread with
  | .submitter => ∃ s data, ring.submit = some s ∧ s.pc = .inPost data ∧ p.cqe = data.sqe.cqe 0
  | .worker k => ∃ data res, ring.execs[k]? = some (some ⟨data, .inPost res⟩) ∧ p.cqe = data.sqe.cqe res

/-- What holds of a ring beside what holds of its two queues. -/
structure Inv (ring : GwRing) : Prop where
  link : ring.execs.map (Option.map Exec.data) = ring.wq.view.held.map runningData
  callers : ∀ c ∈ ring.wq.callers, IsSqeWork c.work
  queueing : ∀ s data call, ring.submit = some s → s.pc = .queueing data call →
    ∃ pc, ring.wq.callers[call]? = some ⟨⟨some .exec, some data, some .delete, call⟩, pc⟩
  nop : ∀ s data, ring.submit = some s → s.pc = .posting data ∨ s.pc = .inPost data → data.sqe.op = GW_RING_OP_NOP
  posting : ∀ p, ring.cq.posting = some p → ring.PostingOk p
  stopped : ring.destroying = true → ring.cq.shouldStop = true ∧ ring.submit = none
  destroyer : ring.wq.destroyer ≠ .idle → ring.destroying = true

/-- A worker is in `gw_ring_wq_sqe_exec` for the submission of the work whose function it runs, and else it is not. -/
theorem Inv.exec_eq (h : Inv ring) {k : Nat} {x : Option (Stage × WorkStruct SqeFn WqSqeData)} (hk : ring.wq.view.held[k]? = some x) :
    ∃ e, ring.execs[k]? = some e ∧ e.map Exec.data = runningData x := by
  have hl := congrArg (·[k]?) h.link
  simp only [List.getElem?_map, hk, Option.map_some] at hl
  exact Option.map_eq_some_iff.1 hl

theorem Inv.held_eq (h : Inv ring) {k : Nat} {e : Option Exec} (hk : ring.execs[k]? = some e) :
    ∃ x, ring.wq.view.held[k]? = some x ∧ runningData x = e.map Exec.data := by
  have hl := congrArg (·[k]?) h.link
  simp only [List.getElem?_map, hk, Option.map_some] at hl
  exact Option.map_eq_some_iff.1 hl.symm

/-! ## What the workqueue does under the ring -/

/-- What a call of `queue_work` comes to, as far as its work goes. -/
def callInfo (c : QueueCall SqeFn WqSqeData) : WorkStruct SqeFn WqSqeData × Bool := (c.work, c.pc.isAccepted)

theorem callInfo_woken {l l' : List (QueueCall SqeFn WqSqeData)} (h : Woken l l') : l'.map callInfo = l.map callInfo :=
  h.map_eq callInfo (fun c => congrArg (Prod.mk c.work) c.pc.isAccepted_wake)

/-- What a step of the workqueue that leaves the rest of the ring as it is does to the works: no function is called or returns, and no
work is accepted but that of the submitter. -/
structure PlainEffect (ring : GwRing) (wq' : WorkqueueStruct SqeFn WqSqeData) (ev : List (WqEvent SqeFn WqSqeData)) : Prop where
  running : wq'.view.held.map runningData = ring.wq.view.held.map runningData
  called : ∀ p, JobQueue.countOf .call p (jobLog ev) = 0
  works : wq'.callers.map (·.work) = ring.wq.callers.map (·.work)
  accepted : (wq'.callers.map callInfo = ring.wq.callers.map callInfo ∧
      ∀ p, JobQueue.countOf .accept p (jobLog ev) = 0) ∨
    ∃ s data call c, ring.submit = some s ∧ s.pc = .queueing data call ∧ ring.wq.callers[call]? = some c ∧
      c.pc.isAccepted = false ∧ wq'.callers = ring.wq.callers.set call ⟨c.work, .returned 0⟩ ∧
      ∀ p, JobQueue.countOf .accept p (jobLog ev) = if p c.work = true then 1 else 0

theorem plainEffect (hw : ring.wq.Inv) {b : WorkqueueStruct.Act SqeFn WqSqeData} (hb : PlainWq ring a b)
    {wq' : WorkqueueStruct SqeFn WqSqeData} {e : List (WqEvent SqeFn WqSqeData)} (hs : ring.wq.step b = some (wq', e)) :
    PlainEffect ring wq' e := by
  have hquiet : b.isQuiet = true → PlainEffect ring wq' e := by
    intro hq
    obtain ⟨h1, h2, h3⟩ := WorkqueueStruct.quiet_jobs hs hq
    exact ⟨by rw [h2], fun p => by rw [h1]; rfl, h3.map_eq _ (fun _ => rfl),
      Or.inl ⟨callInfo_woken h3, fun p => by rw [h1]; rfl⟩⟩
  cases hb with
  | queuer ks threadCreate hsub hpc =>
    obtain ⟨c, hc, hacc, ⟨rfl, hv, hcs⟩ | ⟨rfl, hv, pc, hpc', hcs⟩⟩ := WorkqueueStruct.queuer_jobs hw hs
    · refine ⟨by rw [hv], fun p => ?_, by rw [hcs, map_set_same hc (by rfl)], Or.inr ⟨_, _, _, c, hsub, hpc, hc, hacc, hcs, ?_⟩⟩
      · exact (JobQueue.countOf_singleton _ _ _ _).trans (if_neg nofun)
      · intro p
        rw [jobLog_singleton, JobQueue.countOf_singleton]
        simp only [true_and]
    · refine ⟨by rw [hv], fun p => rfl, by rw [hcs, map_set_same hc (by rfl)], Or.inl ⟨?_, fun p => rfl⟩⟩
      rw [hcs, map_set_same hc (by rcases hpc' with ⟨rfl, -⟩ | rfl <;> rw [callInfo, callInfo, hacc] <;> rfl)]
  | worker k ks =>
    obtain ⟨h1, h2, ⟨rfl, hv⟩ | ⟨work, rest, rfl, -, hv⟩⟩ := WorkqueueStruct.worker_jobs hs
    · exact ⟨by rw [hv], fun p => rfl, h1.map_eq _ (fun _ => rfl), Or.inl ⟨callInfo_woken h1, fun p => rfl⟩⟩
    · refine ⟨by rw [hv, map_set_same h2 (by rfl)], fun p => ?_, h1.map_eq _ (fun _ => rfl), Or.inl ⟨callInfo_woken h1, fun p => ?_⟩⟩
      · exact (JobQueue.countOf_singleton _ _ _ _).trans (if_neg nofun)
      · exact (JobQueue.countOf_singleton _ _ _ _).trans (if_neg nofun)
  | @run k st work hk hnt hnr =>
    obtain ⟨st', work', hk', hcs, rfl, hv⟩ := WorkqueueStruct.run_jobs hs
    obtain ⟨rfl, rfl⟩ : st = st' ∧ work = work' := by
      have := hk.symm.trans hk'
      simp only [Option.some.injEq, Prod.mk.injEq] at this
      exact this
    have hrun : runningData (some (st, work)) = none := by
      cases st <;> first | rfl | exact absurd rfl hnr
    rcases WorkqueueStruct.runEffect_past work hnt hnr with he | he <;> rw [he] at hv ⊢
    · refine ⟨by rw [hv, map_set_same hk (by rw [hrun]; rfl)], fun p => ?_, by rw [hcs], Or.inl ⟨by rw [hcs], fun p => ?_⟩⟩
      · exact (JobQueue.countOf_singleton _ _ _ _).trans (if_neg nofun)
      · exact (JobQueue.countOf_singleton _ _ _ _).trans (if_neg nofun)
    · refine ⟨by rw [hv, map_set_same hk (by rw [hrun]; rfl)], fun p => ?_, by rw [hcs], Or.inl ⟨by rw [hcs], fun p => ?_⟩⟩
      · exact (JobQueue.countOf_singleton _ _ _ _).trans (if_neg nofun)
      · exact (JobQueue.countOf_singleton _ _ _ _).trans (if_neg nofun)
  | destroyWq ks _ =>
    obtain ⟨rfl, hv, hcs⟩ := WorkqueueStruct.destroy_jobs hs
    refine ⟨by rw [hv], fun p => ?_, by rw [hcs], Or.inl ⟨by rw [hcs], fun p => ?_⟩⟩ <;>
      rw [jobLog_map_job, JobQueue.countOf_drops] <;> rfl
  | join => exact hquiet rfl
  | destroyEnd => exact hquiet rfl
  | spuriousWorker k => exact hquiet rfl
  | spuriousQueuer i => exact hquiet rfl

/-! ## The steps keep the invariant -/

/-- A step of the consumer leaves the poster, the flag of the destruction and what is posted as they are, and posts nothing. -/
theorem reader_frame {cq cq' : Cq Poster} {b : Cq.Act Poster} {e : List (CqEvent Poster)} (hb : b.isReader = true)
    (hs : cq.step b = some (cq', e)) : cq'.posting = cq.posting ∧ cq'.shouldStop = cq.shouldStop ∧ cq'.cqTail = cq.cqTail ∧
      cq'.cqMask = cq.cqMask ∧ postedOf e = [] := by
  cases Cq.step_cases hs with
  | refused _ _ | post _ _ | store _ | publish _ | stop _ => cases hb
  | wait _ _ _ hev => rcases hev with rfl | ⟨ret, rfl⟩ <;> exact ⟨rfl, rfl, rfl, rfl, rfl⟩
  | _ => exact ⟨rfl, rfl, rfl, rfl, rfl⟩

/-- The stores of `post_cqe` leave its holder where it is. -/
theorem storeCqe_frame {cq cq' : Cq Poster} {e : List (CqEvent Poster)} (hs : cq.storeCqe = some (cq', e)) :
    ∃ p, cq.posting = some p ∧ cq'.posting = some { p with stored := true } ∧ cq'.shouldStop = cq.shouldStop ∧
      cq'.cqTail = cq.cqTail ∧ cq'.cqMask = cq.cqMask := by
  cases Cq.storeCqe_cases hs with
  | store hp => exact ⟨_, hp, rfl, rfl, rfl, rfl⟩

/-- At the end of `post_cqe` the lock is free. -/
theorem publishCqe_frame {cq cq' : Cq Poster} {e : List (CqEvent Poster)} (hs : cq.publishCqe = some (cq', e)) :
    cq'.posting = none ∧ cq'.shouldStop = cq.shouldStop := by
  cases Cq.publishCqe_cases hs
  exact ⟨rfl, rfl⟩

/-- The submitter moves, from elsewhere than inside `post_cqe`. -/
theorem PostingOk.of_submit {p : Posting Poster} (h : ring.PostingOk p) (hn : ∀ s data, ring.submit = some s → s.pc ≠ .inPost data)
    (he : ring'.execs = ring.execs) : ring'.PostingOk p := by
  unfold PostingOk at *
  rw [he]
  split at h
  · obtain ⟨s, data, hs, hpc, -⟩ := h
    exact absurd hpc (hn s data hs)
  · exact h

/-- A worker moves, from elsewhere than inside `post_cqe`. -/
theorem PostingOk.of_exec {p : Posting Poster} (h : ring.PostingOk p) {k : Nat} {x y : Option Exec}
    (hk : ring.execs[k]? = some x) (hn : ∀ data res, x ≠ some ⟨data, .inPost res⟩) (hs : ring'.submit = ring.submit)
    (he : ring'.execs = ring.execs.set k y) : ring'.PostingOk p := by
  unfold PostingOk at *
  rw [he, hs]
  split at h
  · exact h
  · rename_i j hj
    obtain ⟨data, res, hd, hc⟩ := h
    have hne : k ≠ j := by
      rintro rfl
      exact hn data res (Option.some.inj (hk.symm.trans hd))
    exact ⟨data, res, (List.getElem?_set_ne hne).trans hd, hc⟩

namespace Inv

/-- What a new place of the submitter, which is not in `queue_work` there, has to keep. -/
theorem setSubmit (h : Inv ring) (hs : ring'.submit ≠ none → ring.submit = none → ring.cq.shouldStop = false)
    (hq : ∀ s data, ring'.submit = some s → (∀ call, s.pc ≠ .queueing data call) ∧
      (s.pc = .posting data ∨ s.pc = .inPost data → data.sqe.op = GW_RING_OP_NOP))
    (hn : ∀ s data, ring.submit = some s → s.pc ≠ .inPost data)
    (hwq : ring'.wq = ring.wq) (hcq : ring'.cq = ring.cq) (hex : ring'.execs = ring.execs)
    (hd : ring'.destroying = ring.destroying) : Inv ring' where
  link := by rw [hwq, hex, h.link]
  callers := by
    rw [hwq]
    exact h.callers
  queueing s data call h1 h2 := absurd h2 ((hq s data h1).1 call)
  nop s data h1 h2 := (hq s data h1).2 h2
  posting p hp := (h.posting p (hcq ▸ hp)).of_submit hn hex
  stopped hd' := by
    obtain ⟨h1, h2⟩ := h.stopped (hd ▸ hd')
    refine ⟨hcq ▸ h1, ?_⟩
    by_contra hne
    exact absurd (h1.symm.trans (hs hne h2)) nofun
  destroyer := by
    rw [hwq, hd]
    exact h.destroyer

/-- What a worker that moves inside `gw_ring_wq_sqe_exec` has to keep. -/
theorem setExec (h : Inv ring) {k : Nat} {data : WqSqeData} {pc pc' : ExecPc} (hk : ring.execs[k]? = some (some ⟨data, pc⟩))
    (hwq : ring'.wq = ring.wq) (hex : ring'.execs = ring.execs.set k (some ⟨data, pc'⟩)) (hs : ring'.submit = ring.submit)
    (hstop : ring'.cq.shouldStop = ring.cq.shouldStop) (hd : ring'.destroying = ring.destroying)
    (hp : ∀ p, ring'.cq.posting = some p → ring'.PostingOk p) : Inv ring' where
  link := by
    rw [hwq, hex, map_set_same hk (by rfl), h.link]
  callers := by
    rw [hwq]
    exact h.callers
  queueing := by
    rw [hwq, hs]
    exact h.queueing
  nop := by
    rw [hs]
    exact h.nop
  posting := hp
  stopped := by
    rw [hd, hs, hstop]
    exact h.stopped
  destroyer := by
    rw [hwq, hd]
    exact h.destroyer

/-- Works that stay with their calls stay works of `punt_to_io_wq`. -/
theorem callers_of_works (h : Inv ring) {wq' : WorkqueueStruct SqeFn WqSqeData}
    (he : wq'.callers.map (·.work) = ring.wq.callers.map (·.work)) : ∀ c ∈ wq'.callers, IsSqeWork c.work := by
  intro c hc
  have hm : c.work ∈ ring.wq.callers.map (·.work) := he ▸ List.mem_map_of_mem hc
  obtain ⟨d, hd, hdc⟩ := List.mem_map.1 hm
  exact hdc ▸ h.callers d hd

/-- The call that the submitter is in stays where it is. -/
theorem queueing_of_works (h : Inv ring) {wq' : WorkqueueStruct SqeFn WqSqeData}
    (he : wq'.callers.map (·.work) = ring.wq.callers.map (·.work)) : ∀ s data call, ring.submit = some s →
      s.pc = .queueing data call → ∃ pc, wq'.callers[call]? = some ⟨⟨some .exec, some data, some .delete, call⟩, pc⟩ := by
  intro s data call hs hpc
  obtain ⟨pc, hc⟩ := h.queueing s data call hs hpc
  have hg := congrArg (·[call]?) he
  simp only [List.getElem?_map, hc, Option.map_some, Option.map_eq_some_iff] at hg
  obtain ⟨⟨work, pc'⟩, h1, h2⟩ := hg
  exact ⟨pc', by rw [h1, ← h2]⟩

/-- A step of the workqueue that moves a worker into the function of its work or out of it, and the worker of the ring with it. -/
theorem runExec (h : Inv ring) {k : Nat} {x : Option (Stage × WorkStruct SqeFn WqSqeData)} {st : Stage}
    {work : WorkStruct SqeFn WqSqeData} {e e' : Option Exec} {wq' : WorkqueueStruct SqeFn WqSqeData}
    {ev : List (WqEvent SqeFn WqSqeData)} (hs : ring.wq.step (.run k) = some (wq', ev)) (hk : ring.execs[k]? = some e)
    (hn : ∀ data res, e ≠ some ⟨data, .inPost res⟩)
    (hheld : ring.wq.view.held[k]? = some (some (st, work)))
    (hx : (WorkqueueStruct.runEffect work st).2.map (fun st' => (st', work)) = x) (he : e'.map Exec.data = runningData x) :
    Inv { ring with wq := wq', execs := ring.execs.set k e' } := by
  obtain ⟨st', work', hk', hcs, -, hv⟩ := WorkqueueStruct.run_jobs hs
  cases hheld.symm.trans hk'
  refine ⟨?_, ?_, ?_, h.nop, ?_, h.stopped, ?_⟩
  · show (ring.execs.set k e').map _ = wq'.view.held.map runningData
    rw [hv, hx, List.map_set, List.map_set, h.link, he]
  · show ∀ c ∈ wq'.callers, IsSqeWork c.work
    rw [hcs]
    exact h.callers
  · show ∀ s data call, ring.submit = some s → s.pc = .queueing data call → ∃ pc, wq'.callers[call]? = _
    rw [hcs]
    exact h.queueing
  · intro p hp
    exact (h.posting p hp).of_exec hk hn rfl rfl
  · intro hd
    rcases WorkqueueStruct.step_destroyer hs hd with h1 | ⟨ks, h1⟩
    · exact h.destroyer h1
    · nomatch h1

/-- The submitter, not inside `post_cqe`, moves on inside `gw_ring_submit`, to a place that is not in `queue_work`. -/
theorem moveSubmit (h : Inv ring) {s s' : Submit} (hsub : ring.submit = some s) (hpc : ∀ data, s.pc ≠ .inPost data)
    (hq : ∀ data, (∀ call, s'.pc ≠ .queueing data call) ∧
      (s'.pc = .posting data ∨ s'.pc = .inPost data → data.sqe.op = GW_RING_OP_NOP)) (hsub' : ring'.submit = some s')
    (hwq : ring'.wq = ring.wq) (hcq : ring'.cq = ring.cq) (hex : ring'.execs = ring.execs)
    (hd : ring'.destroying = ring.destroying) : Inv ring' := by
  refine h.setSubmit (fun _ hn => by cases hn.symm.trans hsub) ?_ ?_ hwq hcq hex hd
  · intro t data ht
    cases hsub'.symm.trans ht
    exact hq data
  · intro t data ht
    cases hsub.symm.trans ht
    exact hpc data

/-- The submitter calls `queue_work`. -/
theorem punt (h : Inv ring) {s : Submit} {wq' : WorkqueueStruct SqeFn WqSqeData} (hsub : ring.submit = some s) (hpc : s.pc = .loop)
    (hop : (ring.nextData s).sqe.op = GW_RING_OP_TG_API_CALL ∨ (ring.nextData s).sqe.op = GW_RING_OP_MODULE_HANDLE)
    (hq : ring.wq.step (.queueWork (some .exec) (some (ring.nextData s)) (some .delete)) = some (wq', [])) :
    Inv { ring with
      nrSubmitted := ring.nrSubmitted + 1
      wq := wq'
      submit := some { s with sqHead := s.sqHead + 1, pc := .queueing (ring.nextData s) ring.wq.callers.length } } := by
  obtain ⟨-, hv, hcs⟩ := WorkqueueStruct.queueWork_jobs hq
  refine ⟨?_, ?_, ?_, ?_, ?_, ?_, ?_⟩
  · show ring.execs.map _ = _
    rw [hv]
    exact h.link
  · intro c hc
    simp only [hcs, List.mem_append, List.mem_singleton] at hc
    rcases hc with hc | rfl
    · exact h.callers c hc
    · exact ⟨_, rfl, rfl, rfl, hop⟩
  · intro s data call hs hpc'
    cases hs
    simp only [SubmitPc.queueing.injEq] at hpc'
    obtain ⟨rfl, rfl⟩ := hpc'
    exact ⟨.entering, by rw [hcs, List.getElem?_concat_length]⟩
  · intro s data hs hpc'
    cases hs
    rcases hpc' with hpc' | hpc' <;> cases hpc'
  · intro p hp
    refine (h.posting p hp).of_submit ?_ rfl
    intro t data ht
    cases hsub.symm.trans ht
    simp [hpc]
  · intro hd
    cases (h.stopped hd).2.symm.trans hsub
  · intro hd
    rcases WorkqueueStruct.step_destroyer hq hd with h1 | ⟨ks, h1⟩
    · exact h.destroyer h1
    · cases h1

/-- A step of the workqueue that moves no worker into the function of its work or out of it. -/
theorem plainWq (h : Inv ring) (hw : ring.wq.Inv) {b : WorkqueueStruct.Act SqeFn WqSqeData} {wq' : WorkqueueStruct SqeFn WqSqeData}
    {ev : List (WqEvent SqeFn WqSqeData)} (hb : ring.PlainWq a b) (hs : ring.wq.step b = some (wq', ev)) :
    Inv { ring with wq := wq' } := by
  have heff := plainEffect hw hb hs
  refine ⟨h.link.trans heff.running.symm, h.callers_of_works heff.works, h.queueing_of_works heff.works, h.nop,
    h.posting, h.stopped, ?_⟩
  intro hd
  rcases WorkqueueStruct.step_destroyer hs hd with h1 | ⟨ks, rfl⟩
  · exact h.destroyer h1
  · cases hb with
    | destroyWq ks hd => exact hd

/-- The submitter enters `post_cqe`. -/
theorem nopPost (h : Inv ring) {s : Submit} {data : WqSqeData} (hsub : ring.submit = some s) (hpc : s.pc = .posting data) :
    Inv { ring with
      cq := { ring.cq with posting := some ⟨.submitter, data.sqe.cqe 0, ring.cq.cqTail, false⟩ }
      submit := some { s with pc := .inPost data } } := by
  refine ⟨h.link, h.callers, ?_, ?_, ?_, ?_, h.destroyer⟩
  · intro t data' call ht
    cases ht
    simp
  · intro t data' ht hpc'
    cases ht
    rcases hpc' with hpc' | hpc' <;> cases hpc'
    exact h.nop _ _ hsub (Or.inl hpc)
  · intro p hp
    cases hp
    exact ⟨_, data, rfl, rfl, rfl⟩
  · intro hd
    cases (h.stopped hd).2.symm.trans hsub

/-- The submitter leaves `post_cqe`. -/
theorem nopPosted (h : Inv ring) {s : Submit} {cq' : Cq Poster} (hsub : ring.submit = some s) (hp : cq'.posting = none) :
    Inv { ring with cq := cq', submit := some { s with ret := s.ret + 1, pc := .loop } } := by
  refine ⟨h.link, h.callers, ?_, ?_, ?_, ?_, h.destroyer⟩
  · intro t data call ht
    cases ht
    simp
  · intro t data ht hpc'
    cases ht
    rcases hpc' with hpc' | hpc' <;> cases hpc'
  · intro p hp'
    cases hp.symm.trans hp'
  · intro hd
    cases (h.stopped hd).2.symm.trans hsub

/-- The completion queue moves by itself. -/
theorem setCq (h : Inv ring) {cq' : Cq Poster} (hstop : cq'.shouldStop = ring.cq.shouldStop)
    (hp : ∀ p, cq'.posting = some p → ring.PostingOk p) : Inv { ring with cq := cq' } := by
  refine ⟨h.link, h.callers, h.queueing, h.nop, hp, ?_, h.destroyer⟩
  intro hd
  exact ⟨hstop.trans (h.stopped hd).1, (h.stopped hd).2⟩

/-- Every step keeps the invariant. -/
theorem step (h : Inv ring) (hw : ring.wq.Inv) (hheld : ∀ st work, some (st, work) ∈ ring.wq.view.held → IsSqeWork work)
    (hs : StepCase ring a ring' ev) : Inv ring' := by
  cases hs with
  | getSqe hsub =>
    unfold gwRingGetSqe
    split
    · exact h
    · exact { h with }
  | fill slot sqe hsub => exact { h with }
  | submitStopped hsub _ => exact { h with }
  | submitStart hsub hstop =>
    refine h.setSubmit (fun _ _ => hstop) ?_ ?_ rfl rfl rfl rfl
    · intro s data hs
      cases hs
      exact ⟨by simp, by simp⟩
    · intro s data hs
      cases hsub.symm.trans hs
  | submitEnd malloc hsub hpc _ =>
    refine h.setSubmit (fun hne => absurd rfl hne) (by simp) ?_ rfl rfl rfl rfl
    intro s data hs
    cases hsub.symm.trans hs
    simp [hpc]
  | nop malloc hsub hpc _ hop =>
    refine h.moveSubmit hsub (by simp [hpc]) (fun data => ⟨by simp, ?_⟩) rfl rfl rfl rfl rfl
    rintro (e | e) <;> cases e
    exact hop
  | punt hsub hpc _ hop hq => exact h.punt hsub hpc hop hq
  | unpunted hsub hpc _ _ _ | queued _ hsub hpc _ _ | queueRefused _ hsub hpc _ _ | nopRefused hsub hpc _ _ =>
    exact h.moveSubmit hsub (by simp [hpc]) (by simp) rfl rfl rfl rfl rfl
  | wq hb hs => exact h.plainWq hw hb hs
  | @execCall k work data wq' ev hk harg hs =>
    obtain ⟨e, he, hed⟩ := h.exec_eq hk
    obtain rfl : e = none := by simpa [runningData] using hed
    obtain ⟨d, hfunc, -⟩ := hheld _ _ (List.mem_of_getElem? hk)
    refine h.runExec hs he (by simp) hk rfl ?_
    rw [WorkqueueStruct.runEffect, hfunc]
    exact harg.symm
  | execRet hk he hs =>
    exact h.runExec hs he (by simp) hk rfl rfl
  | exec hk he =>
    refine h.setExec hk rfl rfl rfl rfl rfl ?_
    intro p hp
    refine (h.posting p hp).of_exec hk ?_ rfl rfl
    intro data res heq
    cases heq
    cases he
  | nopPost hsub hpc _ _ => exact h.nopPost hsub hpc
  | execRefused hk hp _ =>
    refine h.setExec hk rfl rfl rfl rfl rfl ?_
    intro p hp'
    cases hp.symm.trans hp'
  | @execPost k data res hk hp _ =>
    refine h.setExec hk rfl rfl rfl rfl rfl ?_
    intro p hp'
    cases hp'
    exact ⟨data, res, List.getElem?_set_self (List.getElem?_eq_some_iff.1 hk).1, rfl⟩
  | store hs =>
    obtain ⟨p, hp, hp', hstop, -⟩ := storeCqe_frame hs
    refine h.setCq hstop (fun q hq => ?_)
    cases hp'.symm.trans hq
    exact h.posting p hp
  | nopPosted hsub _ _ hs => exact h.nopPosted hsub (publishCqe_frame hs).1
  | execPosted hk hp hs =>
    obtain ⟨hp', hstop⟩ := publishCqe_frame hs
    refine h.setExec hk rfl rfl rfl hstop rfl ?_
    intro p hq
    cases hp'.symm.trans hq
  | reader hr hs =>
    obtain ⟨hp, hstop, -⟩ := reader_frame hr hs
    exact h.setCq hstop (fun p hp' => h.posting p (hp ▸ hp'))
  | cqAdvance n => exact { h with }
  | destroy hsub hp _ =>
    refine ⟨h.link, h.callers, h.queueing, h.nop, ?_, fun _ => ⟨rfl, hsub⟩, fun _ => rfl⟩
    intro p hp'
    cases hp.symm.trans hp'

end Inv

/-! ## In every reachable state -/

theorem Fresh.inv {max : UInt32} (h : Fresh ring max) : Inv ring where
  link := by
    have hlen : ring.wq.view.held.length = 1024 := by
      rw [WorkqueueStruct.view_held_eq, List.length_map, h.wq.inv.length, h.attr.1]
      rfl
    have hheld : ring.wq.view.held = List.replicate 1024 none :=
      List.eq_replicate_iff.2 ⟨hlen, h.wq.view_held⟩
    rw [hheld, h.execs, List.map_replicate, List.map_replicate]
    rfl
  callers c hc := by
    rw [h.wq.callers] at hc
    nomatch hc
  queueing s data call hs := by
    rw [h.submit] at hs
    nomatch hs
  nop s data hs := by
    rw [h.submit] at hs
    nomatch hs
  posting p hp := by
    rw [h.cq] at hp
    nomatch hp
  stopped hd := by
    rw [h.destroying] at hd
    nomatch hd
  destroyer hd := absurd h.wq.destroyer hd

/-- All works of a workqueue whose calls of `queue_work` are those of `punt_to_io_wq`: pending, held and past. -/
theorem works_of_callers {wq₀ wq : WorkqueueStruct SqeFn WqSqeData} {log : List (WqEvent SqeFn WqSqeData)} (h0 : wq₀.Fresh)
    (h : (WorkqueueStruct.machine SqeFn WqSqeData).Reach wq₀ wq log) (hc : ∀ c ∈ wq.callers, IsSqeWork c.work) :
    (∀ work ∈ wq.view.pending, IsSqeWork work) ∧ (∀ st work, some (st, work) ∈ wq.view.held → IsSqeWork work) ∧
      ∀ e ∈ jobLog log, IsSqeWork e.job := by
  have hsqe : ∀ work, (∃ c, wq.callers[work.call]? = some c ∧ c.work = work) → IsSqeWork work := by
    rintro work ⟨c, h1, rfl⟩
    exact hc c (List.mem_of_getElem? h1)
  obtain ⟨hlog, hpending, hheld⟩ := WorkqueueStruct.works_of_calls h0 h
  exact ⟨fun work hw => hsqe work (hpending work hw), fun st work hw => hsqe work (hheld st work hw),
    fun e he => hsqe e.job (hlog e he)⟩

theorem Inv.of_run {C : GwRing → Act → Prop} {ring₀ : GwRing} {max : UInt32} (h0 : Fresh ring₀ max)
    (h : machine.Run C ring₀ ring log) : Inv ring := by
  refine h.stateInv h0.inv ?_
  intro s log a s' ev hr hi _ hs
  have hwq := wq_run hr
  exact hi.step (WorkqueueStruct.Inv.of_run h0.wq hwq) (works_of_callers h0.wq hwq hi.callers).2.1 (step_cases hs).2

end GwRing

end GwBot

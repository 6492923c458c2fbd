import GwBot.Ring.CqSections
import GwBot.Ring.Defs
import GwBot.Workqueue.Jobs
import GwBot.Workqueue.Wakeup

/-!
# What each step of the ring does

What `gw_ring_init` leaves, and the case lemmas of the ring's functions.
-/

namespace GwBot

open Lib

namespace GwRing

/-- What `gw_ring_init` returns when it succeeds: everything empty, the masks of a power of two and of its double, and a workqueue. -/
structure Fresh (ring : GwRing) (max : UInt32) : Prop where
  max_pow : ∃ k, 1 ≤ k ∧ k ≤ 31 ∧ max.toNat = 2 ^ k
  sqHead : ring.sqHead = 0
  sqTail : ring.sqTail = 0
  sqMask : ring.sqMask = max - 1
  cq : ring.cq = Cq.init (max * 2 - 1)
  wq : ring.wq.Fresh
  attr : ring.wq.attr.maxThreads = 1024 ∧ ring.wq.attr.nrThreadToCreate = 32 ∧ ring.wq.attr.maxPendingWorks = 4096
  submit : ring.submit = none
  submitRet : ring.submitRet = 0
  execs : ring.execs = List.replicate 1024 none
  nrSubmitted : ring.nrSubmitted = 0
  destroying : ring.destroying = false

/-- The attributes of the ring's workqueue pass as they are. -/
theorem wqAttr_accepted {env : WorkqueueStruct.AllocEnv} {wq : WorkqueueStruct SqeFn WqSqeData}
    (h : WorkqueueStruct.allocWorkqueue wqAttr env = some (.ok wq)) :
    wq.attr.maxThreads = 1024 ∧ wq.attr.nrThreadToCreate = 32 ∧ wq.attr.maxPendingWorks = 4096 := by
  have hpass : ∃ attr, validateAndAdjustWorkqueueAttr wqAttr = some (.ok attr) ∧
      attr.maxThreads = 1024 ∧ attr.nrThreadToCreate = 32 ∧ attr.maxPendingWorks = 4096 := ⟨_, rfl, rfl, rfl, rfl⟩
  obtain ⟨attr, hattr, hvalues⟩ := hpass
  cases hattr.symm.trans (WorkqueueStruct.allocWorkqueue_attr h)
  exact hvalues

/-- `gw_ring_init` leaves a fresh ring, of the size asked for rounded up. -/
theorem gwRingInit_fresh {size : UInt32} {env : InitEnv} {ring : GwRing} (h : gwRingInit size env = some (.ok ring)) :
    ∃ max, roundUpPow2 size = some max ∧ Fresh ring max := by
  unfold gwRingInit at h
  split at h
  · nomatch h
  · rename_i max hmax
    refine ⟨max, hmax, ?_⟩
    repeat' split at h
    all_goals simp only [Option.some.injEq, Except.ok.injEq, reduceCtorEq] at h
    rename_i wq hwq
    subst h
    exact ⟨roundUpPow2_pow hmax, rfl, rfl, rfl, rfl, WorkqueueStruct.allocWorkqueue_fresh hwq, wqAttr_accepted hwq, rfl, rfl,
      rfl, rfl, rfl⟩

/-! ## The cases of a step -/

variable (ring : GwRing)

/-- What `submit_sqe` is called with for the entry of `s.sqHead`. -/
def nextData (s : Submit) : WqSqeData := ⟨ring.nrSubmitted, ring.sqes (slotOf ring.sqMask s.sqHead)⟩

/-- What happens to a submission that `submit_sqe` returns false for without a `post_cqe`. -/
def unpuntedEvents (data : WqSqeData) : List RingEvent :=
  if data.sqe.op = GW_RING_OP_MODULE_HANDLE then [sqeEvent .freeUpdate data, sqeEvent .uncounted data]
  else [sqeEvent .uncounted data]

/-- A punt that has succeeded is counted. -/
theorem puntReturned_true (s : Submit) (data : WqSqeData) :
    ring.puntReturned s data true =
      ({ ring with submit := some { s with ret := s.ret + 1, pc := .loop } }, [sqeEvent .counted data]) := by
  exact if_neg (fun h => nomatch h.2)

/-- One that has failed is not, and its entry is lost. -/
theorem puntReturned_false (s : Submit) (data : WqSqeData) :
    ring.puntReturned s data false = ({ ring with submit := some { s with pc := .loop } }, unpuntedEvents data) := by
  unfold unpuntedEvents
  by_cases h : data.sqe.op = GW_RING_OP_MODULE_HANDLE
  · rw [if_pos h]
    exact if_pos ⟨h, rfl⟩
  · rw [if_neg h]
    exact if_neg (fun h' => h h'.1)

/-- The steps of the workqueue that leave the rest of the ring as it is, by the action of the ring. -/
inductive PlainWq : Act → WorkqueueStruct.Act SqeFn WqSqeData → Prop where
  | queuer {s : Submit} {data : WqSqeData} {call : Nat} (ks : List Nat) (threadCreate : Int) :
      ring.submit = some s → s.pc = .queueing data call → PlainWq (.queuer ks threadCreate) (.queuer call ks threadCreate)
  | worker (k : Nat) (ks : List Nat) : PlainWq (.worker k ks) (.worker k ks)
  | run {k : Nat} {st : Stage} {work : WorkStruct SqeFn WqSqeData} : ring.wq.view.held[k]? = some (some (st, work)) →
      st ≠ .taken → st ≠ .running → PlainWq (.run k) (.run k)
  | destroyWq (ks : List Nat) : ring.destroying = true → PlainWq (.destroyWq ks) (.destroy ks)
  | join : PlainWq .join .join
  | destroyEnd : PlainWq .destroyEnd .destroyEnd
  | spuriousWorker (k : Nat) : PlainWq (.spuriousWorker k) (.spuriousWorker k)
  | spuriousQueuer (i : Nat) : PlainWq (.spuriousQueuer i) (.spuriousQueuer i)

/-- What `gw_ring_wq_sqe_exec` does from `pc` outside of `post_cqe`: where it comes to, and what happens to the submission. -/
inductive ExecStep (data : WqSqeData) (res : Int) : ExecPc → ExecPc → List RingEvent → Prop where
  | nop : data.sqe.op = GW_RING_OP_NOP → ExecStep data res .start (.posting 0) []
  | call : data.sqe.op = GW_RING_OP_TG_API_CALL ∨ data.sqe.op = GW_RING_OP_MODULE_HANDLE →
      (data.sqe.op = GW_RING_OP_TG_API_CALL → data.sqe.tgApiCall.op = TG_API_GET_UPDATES) →
      ExecStep data res .start .handling [sqeEvent .handlerCall data]
  | unsupported : data.sqe.op = GW_RING_OP_TG_API_CALL → data.sqe.tgApiCall.op ≠ TG_API_GET_UPDATES →
      ExecStep data res .start (.posting (-EOPNOTSUPP)) []
  | unknown : data.sqe.op ≠ GW_RING_OP_NOP → data.sqe.op ≠ GW_RING_OP_TG_API_CALL → data.sqe.op ≠ GW_RING_OP_MODULE_HANDLE →
      ExecStep data res .start .done []
  | ret : ExecStep data res .handling (.posting res) [sqeEvent .handlerRet data]

/-- What a step of the ring can be, by its action. -/
inductive StepCase : Act → GwRing → List RingEvent → Prop where
  | getSqe : ring.submit = none → StepCase .getSqe ring.gwRingGetSqe.1 []
  | fill (slot : Nat) (sqe : GwRingSqe) : ring.submit = none → StepCase (.fill slot sqe) (ring.fillSqe slot sqe) []
  | submitStopped : ring.submit = none → ring.cq.shouldStop = true →
      StepCase .submit { ring with submitRet := -EOWNERDEAD } [.submitReturned (-EOWNERDEAD)]
  | submitStart : ring.submit = none → ring.cq.shouldStop = false →
      StepCase .submit { ring with submit := some ⟨ring.sqHead, ring.sqTail, 0, .loop⟩ } []
  | submitEnd {s : Submit} (malloc : Bool) : ring.submit = some s → s.pc = .loop → s.sqHead = s.sqTail →
      StepCase (.submitNext malloc) { ring with sqHead := s.sqHead, submit := none, submitRet := s.ret } [.submitReturned s.ret]
  | nop {s : Submit} (malloc : Bool) : ring.submit = some s → s.pc = .loop → s.sqHead ≠ s.sqTail →
      (ring.nextData s).sqe.op = GW_RING_OP_NOP →
      StepCase (.submitNext malloc)
        { ring with
          nrSubmitted := ring.nrSubmitted + 1
          submit := some { s with sqHead := s.sqHead + 1, pc := .posting (ring.nextData s) } }
        [sqeEvent .submitted (ring.nextData s)]
  | punt {s : Submit} {wq' : WorkqueueStruct SqeFn WqSqeData} : ring.submit = some s → s.pc = .loop → s.sqHead ≠ s.sqTail →
      (ring.nextData s).sqe.op = GW_RING_OP_TG_API_CALL ∨ (ring.nextData s).sqe.op = GW_RING_OP_MODULE_HANDLE →
      ring.wq.step (.queueWork (some .exec) (some (ring.nextData s)) (some .delete)) = some (wq', []) →
      StepCase (.submitNext true)
        { ring with
          nrSubmitted := ring.nrSubmitted + 1
          wq := wq'
          submit := some { s with sqHead := s.sqHead + 1, pc := .queueing (ring.nextData s) ring.wq.callers.length } }
        [sqeEvent .submitted (ring.nextData s), sqeEvent .alloc (ring.nextData s)]
  | unpunted {s : Submit} {malloc : Bool} : ring.submit = some s → s.pc = .loop → s.sqHead ≠ s.sqTail →
      (ring.nextData s).sqe.op ≠ GW_RING_OP_NOP →
      ((ring.nextData s).sqe.op = GW_RING_OP_TG_API_CALL ∨ (ring.nextData s).sqe.op = GW_RING_OP_MODULE_HANDLE →
        malloc = false) →
      StepCase (.submitNext malloc)
        { ring with
          nrSubmitted := ring.nrSubmitted + 1
          submit := some { s with sqHead := s.sqHead + 1, pc := .loop } }
        (sqeEvent .submitted (ring.nextData s) :: unpuntedEvents (ring.nextData s))
  | queued {s : Submit} {data : WqSqeData} {call : Nat} {work : WorkStruct SqeFn WqSqeData} {ret : Int} (malloc : Bool) :
      ring.submit = some s → s.pc = .queueing data call → ring.wq.callers[call]? = some ⟨work, .returned ret⟩ → 0 ≤ ret →
      StepCase (.submitNext malloc) { ring with submit := some { s with ret := s.ret + 1, pc := .loop } } [sqeEvent .counted data]
  | queueRefused {s : Submit} {data : WqSqeData} {call : Nat} {work : WorkStruct SqeFn WqSqeData} {ret : Int} (malloc : Bool) :
      ring.submit = some s → s.pc = .queueing data call → ring.wq.callers[call]? = some ⟨work, .returned ret⟩ → ret < 0 →
      StepCase (.submitNext malloc) { ring with submit := some { s with pc := .loop } }
        (sqeEvent .queueRefused data :: sqeEvent .freeData data :: unpuntedEvents data)
  | wq {a : Act} {b : WorkqueueStruct.Act SqeFn WqSqeData} {wq' : WorkqueueStruct SqeFn WqSqeData}
      {ev : List (WqEvent SqeFn WqSqeData)} : ring.PlainWq a b → ring.wq.step b = some (wq', ev) →
      StepCase a { ring with wq := wq' } (ev.flatMap wqEvents)
  | execCall {k : Nat} {work : WorkStruct SqeFn WqSqeData} {data : WqSqeData} {wq' : WorkqueueStruct SqeFn WqSqeData}
      {ev : List (WqEvent SqeFn WqSqeData)} : ring.wq.view.held[k]? = some (some (.taken, work)) → work.arg = some data →
      ring.wq.step (.run k) = some (wq', ev) →
      StepCase (.run k) { ring with wq := wq', execs := ring.execs.set k (some ⟨data, .start⟩) } (ev.flatMap wqEvents)
  | execRet {k : Nat} {work : WorkStruct SqeFn WqSqeData} {data : WqSqeData} {wq' : WorkqueueStruct SqeFn WqSqeData}
      {ev : List (WqEvent SqeFn WqSqeData)} : ring.wq.view.held[k]? = some (some (.running, work)) →
      ring.execs[k]? = some (some ⟨data, .done⟩) → ring.wq.step (.run k) = some (wq', ev) →
      StepCase (.run k) { ring with wq := wq', execs := ring.execs.set k none } (ev.flatMap wqEvents)
  | exec {k : Nat} {data : WqSqeData} {res : Int} {pc pc' : ExecPc} {ev : List RingEvent} :
      ring.execs[k]? = some (some ⟨data, pc⟩) → ExecStep data res pc pc' ev →
      StepCase (.exec k res) { ring with execs := ring.execs.set k (some ⟨data, pc'⟩) } ev
  | nopRefused {s : Submit} {data : WqSqeData} : ring.submit = some s → s.pc = .posting data → ring.cq.posting = none →
      ring.cq.isFull = true →
      StepCase (.postStart .submitter) { ring with submit := some { s with pc := .loop } }
        [.cq (.refused .submitter (data.sqe.cqe 0)), sqeEvent .refused data, sqeEvent .uncounted data]
  | nopPost {s : Submit} {data : WqSqeData} : ring.submit = some s → s.pc = .posting data → ring.cq.posting = none →
      ring.cq.isFull = false →
      StepCase (.postStart .submitter)
        { ring with
          cq := { ring.cq with posting := some ⟨.submitter, data.sqe.cqe 0, ring.cq.cqTail, false⟩ }
          submit := some { s with pc := .inPost data } } []
  | execRefused {k : Nat} {data : WqSqeData} {res : Int} : ring.execs[k]? = some (some ⟨data, .posting res⟩) →
      ring.cq.posting = none → ring.cq.isFull = true →
      StepCase (.postStart (.worker k)) { ring with execs := ring.execs.set k (some ⟨data, .done⟩) }
        [.cq (.refused (.worker k) (data.sqe.cqe res)), sqeEvent .dropped data]
  | execPost {k : Nat} {data : WqSqeData} {res : Int} : ring.execs[k]? = some (some ⟨data, .posting res⟩) →
      ring.cq.posting = none → ring.cq.isFull = false →
      StepCase (.postStart (.worker k))
        { ring with
          cq := { ring.cq with posting := some ⟨.worker k, data.sqe.cqe res, ring.cq.cqTail, false⟩ }
          execs := ring.execs.set k (some ⟨data, .inPost res⟩) } []
  | store {cq' : Cq Poster} : ring.cq.storeCqe = some (cq', []) → StepCase .postStore { ring with cq := cq' } []
  | nopPosted {s : Submit} {data : WqSqeData} {cqe : GwRingCqe} {cqTail : UInt32} {cq' : Cq Poster} : ring.submit = some s →
      s.pc = .inPost data → ring.cq.posting = some ⟨.submitter, cqe, cqTail, true⟩ →
      ring.cq.publishCqe = some (cq', [.posted .submitter cqe]) →
      StepCase .postPublish { ring with cq := cq', submit := some { s with ret := s.ret + 1, pc := .loop } }
        [.cq (.posted .submitter cqe), .sqe ⟨.posted, data, some cqe⟩, sqeEvent .counted data]
  | execPosted {k : Nat} {data : WqSqeData} {res : Int} {cqe : GwRingCqe} {cqTail : UInt32} {cq' : Cq Poster} :
      ring.execs[k]? = some (some ⟨data, .inPost res⟩) → ring.cq.posting = some ⟨.worker k, cqe, cqTail, true⟩ →
      ring.cq.publishCqe = some (cq', [.posted (.worker k) cqe]) →
      StepCase .postPublish { ring with cq := cq', execs := ring.execs.set k (some ⟨data, .done⟩) }
        [.cq (.posted (.worker k) cqe), .sqe ⟨.posted, data, some cqe⟩]
  | reader {a : Cq.Act Poster} {cq' : Cq Poster} {ev : List (CqEvent Poster)} : a.isReader = true →
      ring.cq.step a = some (cq', ev) → StepCase (.reader a) { ring with cq := cq' } (ev.map .cq)
  | cqAdvance (n : UInt32) : StepCase (.cqAdvance n) { ring with cq := ring.cq.cqAdvance n } []
  | destroy : ring.submit = none → ring.cq.posting = none → ring.destroying = false →
      StepCase .destroy { ring with cq := ring.cq.stop, destroying := true } []

variable {ring : GwRing} {ring' : GwRing} {ev : List RingEvent}

/-- A step of the workqueue that is a step of the ring. -/
theorem wqStep_eq_some {b : WorkqueueStruct.Act SqeFn WqSqeData} (h : ring.wqStep b = some (ring', ev)) :
    ∃ wq' e, ring.wq.step b = some (wq', e) ∧ ring' = { ring with wq := wq' } ∧ ev = e.flatMap wqEvents := by
  obtain ⟨⟨wq', e⟩, h1, h2⟩ := Option.map_eq_some_iff.1 h
  cases h2
  exact ⟨wq', e, h1, rfl, rfl⟩

/-- An entry is passed to `submit_sqe`: a nop, an entry that is punted, or one for which there is no memory. -/
theorem submitSqe_cases {s : Submit} {malloc : Bool} (hsub : ring.submit = some s) (hpc : s.pc = .loop) (hne : s.sqHead ≠ s.sqTail)
    (h : ring.submitSqe s malloc = some (ring', ev)) : StepCase ring (.submitNext malloc) ring' ev := by
  obtain ⟨⟨ring₁, ev₁⟩, h1, h2⟩ := Option.map_eq_some_iff.1 h
  cases h2
  split at h1
  · rename_i hop
    cases h1
    exact StepCase.nop malloc hsub hpc hne hop
  · rename_i hnop
    split at h1
    · rename_i hop
      unfold puntToIoWq at h1
      split at h1
      · rename_i hm
        rw [puntReturned_false] at h1
        cases h1
        exact StepCase.unpunted hsub hpc hne hnop (fun _ => hm)
      · rename_i hm
        obtain rfl : malloc = true := Bool.of_not_eq_false hm
        split at h1
        · nomatch h1
        · rename_i wq' e hq
          cases h1
          obtain ⟨rfl, -, -⟩ := WorkqueueStruct.queueWork_jobs hq
          exact StepCase.punt hsub hpc hne hop hq
    · rename_i hop
      cases h1
      have hun : unpuntedEvents (ring.nextData s) = [sqeEvent .uncounted (ring.nextData s)] :=
        if_neg (fun e => hop (Or.inr e))
      have hcase := @StepCase.unpunted ring s malloc hsub hpc hne hnop (fun e => absurd e hop)
      rw [hun] at hcase
      exact hcase

/-- `gw_ring_submit` goes on with the next entry, or it returns. -/
theorem submitNext_cases {malloc : Bool} (h : ring.submitNext malloc = some (ring', ev)) :
    StepCase ring (.submitNext malloc) ring' ev := by
  unfold submitNext at h
  split at h
  · nomatch h
  · rename_i s hsub
    split at h
    · rename_i hpc
      split at h
      · rename_i hne
        exact submitSqe_cases hsub hpc hne h
      · rename_i heq
        cases h
        exact StepCase.submitEnd malloc hsub hpc (Decidable.not_not.1 heq)
    · rename_i data call hpc
      split at h
      · rename_i work ret hc
        unfold queueWorkReturned at h
        split at h
        · rename_i hneg
          rw [puntReturned_false] at h
          cases h
          exact StepCase.queueRefused malloc hsub hpc hc hneg
        · rename_i hpos
          rw [puntReturned_true] at h
          cases h
          exact StepCase.queued malloc hsub hpc hc (Int.not_lt.1 hpos)
      · nomatch h
    · nomatch h

/-- A worker outside of the lock calls its function, returns from it, or deletes its work; the calls of the ring go through `execs`. -/
theorem workerRun_cases {k : Nat} (h : ring.workerRun k = some (ring', ev)) : StepCase ring (.run k) ring' ev := by
  unfold workerRun at h
  split at h
  · rename_i b work hk
    split at h
    · rename_i data harg
      obtain ⟨⟨ring₁, ev₁⟩, h1, h2⟩ := Option.map_eq_some_iff.1 h
      cases h2
      obtain ⟨wq', e, hs, rfl, rfl⟩ := wqStep_eq_some h1
      exact StepCase.execCall (WorkqueueStruct.view_getElem? hk) harg hs
    · nomatch h
  · rename_i b work hk
    split at h
    · rename_i data he
      obtain ⟨⟨ring₁, ev₁⟩, h1, h2⟩ := Option.map_eq_some_iff.1 h
      cases h2
      obtain ⟨wq', e, hs, rfl, rfl⟩ := wqStep_eq_some h1
      exact StepCase.execRet (WorkqueueStruct.view_getElem? hk) he hs
    · nomatch h
  · rename_i hnt hnr
    obtain ⟨wq', e, hs, rfl, rfl⟩ := wqStep_eq_some h
    obtain ⟨st, work, hheld, -⟩ := WorkqueueStruct.run_jobs hs
    have hw : ∃ t, ring.wq.workers[k]? = some t ∧ t.pc.held = some (st, work) := by
      rw [WorkqueueStruct.view_held_eq, List.getElem?_map, Option.map_eq_some_iff] at hheld
      exact hheld
    obtain ⟨⟨b, pc⟩, hk, hp⟩ := hw
    refine StepCase.wq (PlainWq.run hheld ?_ ?_) hs
    · rintro rfl
      cases pc <;> cases hp
      exact hnt b work hk
    · rintro rfl
      cases pc <;> cases hp
      exact hnr b work hk

/-- A call of `gw_ring_wq_sqe_exec` goes on: it starts its operation, or has its result. -/
theorem execNext_cases {k : Nat} {res : Int} (h : ring.execNext k res = some (ring', ev)) :
    StepCase ring (.exec k res) ring' ev := by
  unfold execNext at h
  split at h
  · rename_i data he
    split at h
    · rename_i hop
      cases h
      exact StepCase.exec he (ExecStep.nop hop)
    · rename_i hnop
      split at h
      · rename_i hop
        split at h
        · rename_i hcall
          cases h
          exact StepCase.exec he (ExecStep.call (Or.inl hop) (fun _ => hcall))
        · rename_i hcall
          cases h
          exact StepCase.exec he (ExecStep.unsupported hop hcall)
      · rename_i htg
        split at h
        · rename_i hop
          cases h
          exact StepCase.exec he (ExecStep.call (Or.inr hop) (fun e => absurd e htg))
        · rename_i hmod
          cases h
          exact StepCase.exec he (ExecStep.unknown hnop htg hmod)
  · rename_i data he
    cases h
    exact StepCase.exec he ExecStep.ret
  · nomatch h

/-- A thread comes to `post_cqe` and gets the lock: the completion is refused, or a slot is taken. -/
theorem postStart_cases {p : Poster} (h : ring.postStart p = some (ring', ev)) : StepCase ring (.postStart p) ring' ev := by
  unfold postStart at h
  split at h
  · split at h
    · rename_i sqHead sqTail ret data hsub
      obtain ⟨⟨cq', e⟩, h1, h2⟩ := Option.map_eq_some_iff.1 h
      cases Cq.postCqe_cases h1 with
      | refused hp hf =>
        rw [if_pos hf] at h2
        cases h2
        exact StepCase.nopRefused hsub rfl hp hf
      | post hp hf =>
        rw [if_neg (by rw [hf]; nofun)] at h2
        cases h2
        exact StepCase.nopPost hsub rfl hp hf
    · nomatch h
  · split at h
    · rename_i k data res he
      obtain ⟨⟨cq', e⟩, h1, h2⟩ := Option.map_eq_some_iff.1 h
      cases Cq.postCqe_cases h1 with
      | refused hp hf =>
        rw [if_pos hf] at h2
        cases h2
        exact StepCase.execRefused he hp hf
      | post hp hf =>
        rw [if_neg (by rw [hf]; nofun)] at h2
        cases h2
        exact StepCase.execPost he hp hf
    · nomatch h

theorem postStore_cases (h : ring.postStore = some (ring', ev)) : StepCase ring .postStore ring' ev := by
  obtain ⟨⟨cq', e⟩, h1, h2⟩ := Option.map_eq_some_iff.1 h
  cases h2
  have he : e = [] := by
    cases Cq.storeCqe_cases h1
    rfl
  subst he
  exact StepCase.store h1

/-- What `post_cqe` publishes is what its holder posts. -/
theorem publishCqe_event {cq cq' : Cq Poster} {p : Posting Poster} {e : List (CqEvent Poster)} (hp : cq.posting = some p)
    (h : cq.publishCqe = some (cq', e)) : p.stored = true ∧ e = [.posted p.thread p.cqe] := by
  cases Cq.publishCqe_cases h with
  | publish hp' =>
    cases hp.symm.trans hp'
    exact ⟨rfl, rfl⟩

theorem postPublish_cases (h : ring.postPublish = some (ring', ev)) : StepCase ring .postPublish ring' ev := by
  unfold postPublish at h
  split at h
  · rename_i cqe cqTail stored sqHead sqTail ret data hp hsub
    obtain ⟨⟨cq', e⟩, h1, h2⟩ := Option.map_eq_some_iff.1 h
    cases h2
    obtain ⟨rfl, rfl⟩ : stored = true ∧ e = [.posted .submitter cqe] := publishCqe_event hp h1
    exact StepCase.nopPosted hsub rfl hp h1
  · rename_i k cqe cqTail stored hp
    split at h
    · rename_i data res he
      obtain ⟨⟨cq', e⟩, h1, h2⟩ := Option.map_eq_some_iff.1 h
      cases h2
      obtain ⟨rfl, rfl⟩ : stored = true ∧ e = [.posted (.worker k) cqe] := publishCqe_event hp h1
      exact StepCase.execPosted he hp h1
    · nomatch h
  · nomatch h

/-- A step of the ring is one of the cases, and only taken while its workqueue is not freed. -/
theorem step_cases {a : Act} (h : ring.step a = some (ring', ev)) :
    ring.wq.destroyer ≠ .done ∧ StepCase ring a ring' ev := by
  unfold step at h
  split at h
  · nomatch h
  · rename_i hdone
    refine ⟨hdone, ?_⟩
    cases a with
    | getSqe =>
      simp only at h
      split at h <;> cases h
      rename_i hsub
      exact StepCase.getSqe (Option.not_isSome_iff_eq_none.1 hsub)
    | fill slot sqe =>
      simp only at h
      split at h <;> cases h
      rename_i hsub
      exact StepCase.fill slot sqe (Option.not_isSome_iff_eq_none.1 hsub)
    | submit =>
      simp only [submitStart] at h
      split at h
      · nomatch h
      · rename_i hsub
        split at h <;> cases h
        · rename_i hstop
          exact StepCase.submitStopped (Option.not_isSome_iff_eq_none.1 hsub) hstop
        · rename_i hstop
          exact StepCase.submitStart (Option.not_isSome_iff_eq_none.1 hsub) (Bool.not_eq_true _ ▸ hstop)
    | submitNext malloc => exact submitNext_cases h
    | queuer ks threadCreate =>
      simp only at h
      split at h
      · rename_i hsub
        obtain ⟨wq', e, hs, rfl, rfl⟩ := wqStep_eq_some h
        exact StepCase.wq (PlainWq.queuer ks threadCreate hsub rfl) hs
      · nomatch h
    | postStart p => exact postStart_cases h
    | postStore => exact postStore_cases h
    | postPublish => exact postPublish_cases h
    | worker k ks =>
      obtain ⟨wq', e, hs, rfl, rfl⟩ := wqStep_eq_some h
      exact StepCase.wq (PlainWq.worker k ks) hs
    | run k => exact workerRun_cases h
    | exec k res => exact execNext_cases h
    | reader a =>
      simp only at h
      split at h
      · rename_i hr
        obtain ⟨⟨cq', e⟩, h1, h2⟩ := Option.map_eq_some_iff.1 h
        cases h2
        exact StepCase.reader hr h1
      · nomatch h
    | cqAdvance n =>
      simp only at h
      split at h <;> cases h <;> exact StepCase.cqAdvance n
    | destroy =>
      simp only at h
      split at h <;> cases h
      rename_i hfree
      simp only [not_or, Bool.not_eq_true, Option.isSome_eq_false_iff, Option.isNone_iff_eq_none] at hfree
      exact StepCase.destroy hfree.1 hfree.2.1 hfree.2.2
    | destroyWq ks =>
      simp only at h
      split at h
      · rename_i hd
        obtain ⟨wq', e, hs, rfl, rfl⟩ := wqStep_eq_some h
        exact StepCase.wq (PlainWq.destroyWq ks hd) hs
      · nomatch h
    | join =>
      obtain ⟨wq', e, hs, rfl, rfl⟩ := wqStep_eq_some h
      exact StepCase.wq PlainWq.join hs
    | destroyEnd =>
      obtain ⟨wq', e, hs, rfl, rfl⟩ := wqStep_eq_some h
      exact StepCase.wq PlainWq.destroyEnd hs
    | spuriousWorker k =>
      obtain ⟨wq', e, hs, rfl, rfl⟩ := wqStep_eq_some h
      exact StepCase.wq (PlainWq.spuriousWorker k) hs
    | spuriousQueuer i =>
      obtain ⟨wq', e, hs, rfl, rfl⟩ := wqStep_eq_some h
      exact StepCase.wq (PlainWq.spuriousQueuer i) hs

end GwRing

end GwBot

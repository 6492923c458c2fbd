import GwBot.Ring.Completion

/-!
# A module-handle submission gives its update back once

The update of a `GW_RING_OP_MODULE_HANDLE` is dropped in one of two places: where `submit_sqe` fails, because `malloc` does or because
`queue_work` refuses the work, and in `gw_ring_wq_sqe_delete`, which the worker that ran the work calls, or `gw_ring_destroy` for a work
that is still pending. The books leave each submission one of these, and when `gw_ring_destroy` returns none is left over.
-/

namespace GwBot

open Lib

namespace GwRing

variable {ring : GwRing} {log : List RingEvent} {p : WqSqeData → Bool}

/-- What becomes of the update and of the copy of a `GW_RING_OP_MODULE_HANDLE`: each is freed at most once, the update while no call of
`gw_module_handle` is on it, and both are freed when `gw_ring_destroy` has returned. -/
structure GivesBack (ring : GwRing) (log : List RingEvent) (p : WqSqeData → Bool) : Prop where
  once : sqeCount .freeUpdate p log ≤ 1 ∧ sqeCount .freeData p log ≤ sqeCount .alloc p log ∧ sqeCount .alloc p log ≤ 1 ∧
    sqeCount .handlerCall p log ≤ 1
  ordered : sqeCount .freeUpdate p log = 1 → sqeCount .handlerCall p log = sqeCount .handlerRet p log
  settled : ring.wq.destroyer = .done → sqeCount .freeUpdate p log = 1 ∧ sqeCount .freeData p log = sqeCount .alloc p log

/-- The handlers that have been called and have not returned are among the calls that have not returned from the handler. -/
theorem handling_le (execs : List (Option Exec)) :
    execCount ExecPc.isHandling p execs ≤ execCount ExecPc.isUnhandled p execs := by
  refine List.countP_mono_left (fun e _ he => ?_)
  cases e with
  | none => nomatch he
  | some e =>
    simp only [Option.any_some, Bool.and_eq_true] at he ⊢
    refine ⟨?_, he.2⟩
    cases hpc : e.pc <;> rw [hpc] at he <;> first | rfl | nomatch he.1

/-- When `gw_ring_destroy` has returned, no submission is anywhere. -/
theorem places_of_done {ring₀ : GwRing} {max : UInt32} (h0 : Fresh ring₀ max) (h : machine.Reach ring₀ ring log)
    (hd : ring.wq.destroyer = .done) : ring.submit = none ∧ JobQueue.pendingCount (isWorkOf p) ring.wq.view = 0 ∧
      JobQueue.heldCount (isWorkOf p) ring.wq.view = 0 := by
  have hinv := Inv.of_run h0 h
  have hwq := wq_run h
  obtain ⟨hpending, hheld⟩ := WorkqueueStruct.view_of_joined (WorkqueueStruct.Inv.of_run h0.wq hwq)
    (WorkqueueStruct.Joined.of_run h0.wq hwq) (Or.inr hd)
  have hz : ∀ st, JobQueue.heldAt st (isWorkOf p) ring.wq.view.held = 0 := by
    intro st
    refine List.countP_eq_zero.2 (fun x hx => ?_)
    rw [hheld x hx]
    nofun
  refine ⟨(hinv.stopped (hinv.destroyer (by rw [hd]; nofun))).2, ?_, ?_⟩
  · rw [JobQueue.pendingCount, hpending]
    rfl
  · simp only [JobQueue.heldCount, hz]

/-- A `GW_RING_OP_MODULE_HANDLE` that `gw_ring_submit` passes to `submit_sqe` gives its update and its copy back once, whichever way it
goes, and by the time `gw_ring_destroy` returns. -/
theorem module_handle_updates_freed_once {size : UInt32} {env : InitEnv} {ring₀ : GwRing}
    (h0 : gwRingInit size env = some (.ok ring₀)) (h : machine.Reach ring₀ ring log) {data : WqSqeData}
    (hsub : 0 < sqeCount .submitted (· == data) log) (hop : data.sqe.op = GW_RING_OP_MODULE_HANDLE) :
    GivesBack ring log (· == data) := by
  obtain ⟨max, -, hfresh⟩ := gwRingInit_fresh h0
  have hp : AreHandles (· == data) := by
    intro d hd
    rw [beq_iff_eq.1 hd]
    exact hop
  obtain ⟨b1, b2, -, b4, b5⟩ := Books.of_run hfresh h (· == data)
  obtain ⟨r1, r2, r3, r4⟩ := Releases.of_run hfresh h hp
  obtain ⟨w1, w2, w3, w4, w5⟩ := (Known.of_run hfresh h).works (· == data)
  have hone := (Tally.of_run hfresh h).submitted_le data
  have hq := queueCount_le (p := (· == data)) ring.wq.callers ring.submit
  have hh := handling_le (p := (· == data)) ring.execs
  have hr := execCount_le_running (p := (· == data)) (Inv.of_run hfresh h) ExecPc.isUnhandled
  rw [JobQueue.heldCount] at w2
  refine ⟨⟨?_, ?_, ?_, ?_⟩, ?_, ?_⟩
  · omega
  · omega
  · omega
  · omega
  · intro hfree
    omega
  · intro hd
    obtain ⟨hs, hpend, hz⟩ := places_of_done (p := (· == data)) hfresh h hd
    rw [JobQueue.heldCount] at hz
    rw [hs] at b1 b2 r1
    simp only [handCount, queueCount] at b1 b2 r1
    omega

/-- Of two updates one is handled by a worker, and the other, still pending, is dropped by `gw_ring_destroy`. -/
theorem module_handle_updates_freed_once_small : ∃ (ring₀ ring : GwRing) (log : List RingEvent) (data : WqSqeData),
    gwRingInit 2 InitEnv.ok = some (.ok ring₀) ∧ machine.Reach ring₀ ring log ∧ 0 < sqeCount .submitted (· == data) log ∧
    data.sqe.op = GW_RING_OP_MODULE_HANDLE ∧ GivesBack ring log (· == data) ∧
    (ring.wq.destroyer, sqeCount .handlerRet (fun _ => true) log, sqeCount .freeUpdate (fun _ => true) log) =
      (.joining 0, 1, 2) := by
  have hrun : ∃ ring₀ : GwRing, gwRingInit 2 InitEnv.ok = some (.ok ring₀) ∧
      (machine.exec ring₀
        [.getSqe, .fill 0 (sqeOf GW_RING_OP_MODULE_HANDLE), .getSqe, .fill 1 (sqeOf GW_RING_OP_MODULE_HANDLE), .submit,
          .submitNext true, .queuer [] 0, .submitNext true, .submitNext true, .queuer [] 0, .submitNext true, .submitNext true,
          .worker 0 [], .run 0, .exec 0 0, .destroy, .destroyWq [], .exec 0 0, .postStart (.worker 0), .postStore, .postPublish,
          .run 0, .run 0, .run 0]).map
        (fun r => (r.1.wq.destroyer, sqeCount .handlerRet (fun _ => true) r.2, sqeCount .freeUpdate (fun _ => true) r.2,
          decide (0 < sqeCount .submitted (· == ⟨1, sqeOf GW_RING_OP_MODULE_HANDLE⟩) r.2))) =
        some (.joining 0, 1, 2, true) := by
    refine ⟨_, rfl, ?_⟩
    set_option maxRecDepth 20000 in decide
  obtain ⟨ring₀, h0, he⟩ := hrun
  obtain ⟨ring, log, h, hval⟩ := Machine.exists_of_exec (fun (ring : GwRing) log => (ring.wq.destroyer,
    sqeCount .handlerRet (fun _ => true) log, sqeCount .freeUpdate (fun _ => true) log,
    decide (0 < sqeCount .submitted (· == ⟨1, sqeOf GW_RING_OP_MODULE_HANDLE⟩) log))) he
  simp only [Prod.mk.injEq, decide_eq_true_eq] at hval
  obtain ⟨h1, h2, h3, h4⟩ := hval
  refine ⟨ring₀, ring, log, ⟨1, sqeOf GW_RING_OP_MODULE_HANDLE⟩, h0, h, h4, rfl, ?_, by rw [h1, h2, h3]⟩
  exact module_handle_updates_freed_once h0 h h4 rfl

end GwRing

end GwBot

import GwBot.Bot.Invariant
import GwBot.Ring.Client

/-!
# The entries that the main thread fills

`arm_update_sqe` and `prep_update_handle` call `gw_ring_get_sqe`, and once more after a `gw_ring_submit` when it returned `NULL`, without a
second test. That `gw_ring_submit` returns with the submission queue empty, so the second call gives an entry.
-/

namespace GwBot

open Lib

/-- After a `gw_ring_get_sqe` that returned `NULL`, in the `gw_ring_submit` that follows or past it. -/
def MainPc.isRetrying : MainPc → Bool
  | .inSubmitFull _ | .getSqe _ true => true
  | _ => false

namespace TgBotCtx

variable {bot bot' : TgBotCtx} {a : Act} {log ev : List BotEvent} {C : TgBotCtx → Act → Prop} {max : UInt32} {bot₀ : TgBotCtx}

/-- The ring does not stop, and past the `gw_ring_submit` of a retry the submission queue is empty. -/
structure Retries (bot : TgBotCtx) : Prop where
  running : bot.ring.cq.shouldStop = false
  empty : bot.pc.isRetrying = true → bot.ring.submit = none → bot.ring.sqWindow = []
  crashed : bot.pc ≠ .crashed

/-- The main thread goes back to no retry. -/
theorem isRetrying_prepNext (prep : Prep) : (prepNext prep).isRetrying = false ∧ prepNext prep ≠ .crashed := by
  cases prep with
  | poll ret => cases ret <;> exact ⟨rfl, nofun⟩
  | handle up rest res => exact ⟨rfl, nofun⟩

theorem isRetrying_processCqe (bot : TgBotCtx) (cqe : GwRingCqe) :
    (bot.processCqe cqe).isRetrying = false ∧ bot.processCqe cqe ≠ .crashed := by
  unfold processCqe processTgApiUpdates
  repeat' split
  all_goals exact ⟨rfl, nofun⟩

namespace Retries

/-- A step of the ring that takes no entry keeps an empty submission queue empty, and empties it when it ends a `gw_ring_submit`. -/
theorem empty_of_step (h : Retries bot) (hsq : bot.ring.SqInv) (hpc : bot.pc.isRetrying = true) {b : GwRing.Act} {ring' : GwRing}
    {e : List RingEvent} (hs : bot.ring.step b = some (ring', e)) (hget : b ≠ .getSqe) (hfill : ∀ slot sqe, b ≠ .fill slot sqe)
    (hend : ring'.submit = none) : ring'.sqWindow = [] := by
  have hcase := (GwRing.step_cases hs).2
  cases hsub : bot.ring.submit with
  | none =>
    have hwindow := (hcase.sq hsq hget hfill).2
    rw [h.empty hpc hsub] at hwindow
    exact (List.append_eq_nil_iff.1 hwindow.symm).2
  | some s => exact hcase.sqWindow_of_end hsq (by rw [hsub]; rfl) hend

/-- Where the main thread does not retry there is only the ring to look at. -/
theorem of_calm (hrunning : bot.ring.cq.shouldStop = false) (h : bot.pc.isRetrying = false ∧ bot.pc ≠ .crashed) : Retries bot :=
  ⟨hrunning, fun hpc => absurd (h.1.symm.trans hpc) nofun, h.2⟩

/-- Every step keeps it. -/
theorem step (hi : Inv bot log) (h : Retries bot) (hs : StepCase bot a bot' ev) : Retries bot' := by
  cases hs with
  | @full prep again hat hnone =>
    cases again with
    | false => exact of_calm h.running ⟨rfl, nofun⟩
    | true =>
      have hsub := hi.submit (by rw [hat]; rfl)
      obtain ⟨slot, hslot⟩ := hi.sq.get_of_empty hsub (h.empty (by rw [hat]; rfl) hsub)
      exact absurd (hnone.symm.trans hslot) nofun
  | @prepare prep again slot sqe _ hsub _ _ _ _ =>
    exact of_calm ((GwRing.StepCase.shouldStop (GwRing.StepCase.getSqe hsub) nofun).trans h.running) (isRetrying_prepNext prep)
  | own ho =>
    cases ho with
    | submittedFull hat hsub =>
      exact ⟨h.running, fun _ => h.empty (by rw [hat]; rfl), nofun⟩
    | submitted _ _ =>
      refine of_calm h.running ?_
      show MainPc.isRetrying (if _ then _ else _) = false ∧ (if _ then _ else _) ≠ MainPc.crashed
      split <;> exact ⟨rfl, nofun⟩
    | updatesEnd _ | update _ => exact of_calm h.running ⟨rfl, nofun⟩
  | @call b ring' pc e hcall hstep =>
    have hrunning := ((GwRing.step_cases hstep).2.shouldStop hcall.serving.1.1).trans h.running
    cases hcall with
    | submitFull _ _ =>
      refine ⟨hrunning, fun _ hsub => ?_, nofun⟩
      cases (GwRing.step_cases hstep).2 with
      | submitStopped _ hstop => exact absurd (h.running.symm.trans hstop) nofun
      | submitStart _ _ => nomatch hsub
      | wq hb _ => nomatch hb
    | visit cqe _ => exact of_calm hrunning (isRetrying_processCqe bot cqe)
    | submit _ _ | sleeps _ _ | forEach _ _ | loadHead _ _ | loadEnd _ _ _ => exact of_calm hrunning ⟨rfl, nofun⟩
    | waited _ _ _ | next _ _ | advance _ _ =>
      refine of_calm hrunning ?_
      show MainPc.isRetrying (if _ then _ else _) = false ∧ (if _ then _ else _) ≠ MainPc.crashed
      split <;> exact ⟨rfl, nofun⟩
  | inner hin hstep =>
    obtain ⟨hserv, hget, hfill⟩ := serving_of_isInner bot.ring hin
    exact ⟨((GwRing.step_cases hstep).2.shouldStop hserv.1).trans h.running,
      fun hpc => h.empty_of_step hi.sq hpc hstep hget hfill, h.crashed⟩
  | exec hstep =>
    exact ⟨((GwRing.step_cases hstep).2.shouldStop nofun).trans h.running,
      fun hpc => h.empty_of_step hi.sq hpc hstep nofun nofun, h.crashed⟩

theorem of_run (h0 : Started bot₀ max) (h : machine.Run C bot₀ bot log) : Retries bot := by
  refine h.stateInv (of_calm ?_ ?_) (fun _ _ _ _ _ hr hi _ hs => hi.step (Inv.of_run h0 hr) (step_cases hs))
  · rw [h0.ring.cq]
    rfl
  · rw [h0.pc]
    exact ⟨rfl, nofun⟩

end Retries

end TgBotCtx

/-- The submission queue of a ring of any size that `gw_ring_init` has set up. In every state that one caller reaches, the outstanding
entries are in different slots and no more than the queue has; a `gw_ring_submit` called there passes exactly them to `submit_sqe`, as
they were filled and in the order in which they were taken, and the `gw_ring_get_sqe` after it gives an entry. And the main thread of the
bot fills none through a null pointer. -/
theorem submission_queue_hands_over {size : UInt32} {env : GwRing.InitEnv} {ring₀ : GwRing}
    (h0 : GwRing.gwRingInit size env = some (.ok ring₀)) :
    (∀ c log, SqCaller.machine.Reach (SqCaller.init ring₀) c log →
      c.slots.Nodup ∧ c.slots.length ≤ c.ring.sqMask.toNat + 1 ∧
      ∀ c₁ c₂ ev seg, c.step .submit = some (c₁, ev) →
        SqCaller.machine.Run (fun c _ => c.ring.submit.isSome = true) c₁ c₂ seg → c₂.ring.submit = none →
        submittedSqes (ev ++ seg) = c.entries.map (·.sqe) ∧ c₂.ring.gwRingGetSqe.2 ≠ none) ∧
    (∀ addr tctxP updatesP bot log, TgBotCtx.machine.Reach (TgBotCtx.init addr tctxP updatesP ring₀) bot log →
      bot.pc ≠ .crashed) := by
  obtain ⟨max, -, hfresh⟩ := GwRing.gwRingInit_fresh h0
  refine ⟨fun c log h => ?_, fun addr tctxP updatesP bot log h => ?_⟩
  · have hinv := SqCaller.Inv.of_run hfresh h
    refine ⟨hinv.distinct, hinv.length, fun c₁ c₂ ev seg hs hrun hend => ?_⟩
    obtain ⟨h1, slot, h2⟩ := hinv.submitted hs hrun hend
    exact ⟨h1, fun hnone => absurd (hnone.symm.trans h2) nofun⟩
  · have hstart : TgBotCtx.Started (TgBotCtx.init addr tctxP updatesP ring₀) max := ⟨hfresh, rfl⟩
    exact (TgBotCtx.Retries.of_run hstart h).crashed

/-- What `gw_ring_submit` does with an entry of `GW_RING_OP_NOP`. -/
def nopSteps : List SqCaller.Act :=
  [.ring (.submitNext true), .ring (.postStart .submitter), .ring .postStore, .ring .postPublish]

/-- Two entries fill the queue of a ring of two; both are handed over, and the queue has an entry to give again. -/
theorem submission_queue_hands_over_small : ∃ (ring₀ : GwRing) (c c₁ c₂ : SqCaller) (log ev seg : List RingEvent),
    GwRing.gwRingInit 2 GwRing.InitEnv.ok = some (.ok ring₀) ∧ SqCaller.machine.Reach (SqCaller.init ring₀) c log ∧
    c.ring.gwRingGetSqe.2 = none ∧ c.step .submit = some (c₁, ev) ∧
    SqCaller.machine.Run (fun c _ => c.ring.submit.isSome = true) c₁ c₂ seg ∧
    (submittedSqes (ev ++ seg)).map (·.userData) = [1, 2] ∧ c₂.ring.gwRingGetSqe.2 ≠ none ∧
    (TgBotCtx.init 1 2 3 ring₀).pc ≠ .crashed := by
  have hrun : ∃ ring₀ : GwRing, GwRing.gwRingInit 2 GwRing.InitEnv.ok = some (.ok ring₀) ∧
      (SqCaller.machine.exec (SqCaller.init ring₀)
        [.getSqe, .fill { (default : GwRingSqe) with userData := 1 }, .getSqe,
          .fill { (default : GwRingSqe) with userData := 2 }]).map (fun r => (r.1.ring.gwRingGetSqe.2,
            r.1.entries.map (·.sqe.userData), (r.1.step .submit).bind (fun r₁ =>
              (SqCaller.machine.execIf (fun c _ => c.ring.submit.isSome = true) r₁.1
                (nopSteps ++ nopSteps ++ [.ring (.submitNext true)])).map (fun r₂ => r₂.1.ring.submit)))) =
        some (none, [1, 2], some none) := by
    refine ⟨_, rfl, ?_⟩
    decide
  obtain ⟨ring₀, h0, he⟩ := hrun
  obtain ⟨c, log, h, hval⟩ := Machine.exists_of_exec (fun (c : SqCaller) _ => (c.ring.gwRingGetSqe.2,
    c.entries.map (·.sqe.userData), (c.step .submit).bind (fun r₁ =>
      (SqCaller.machine.execIf (fun c _ => c.ring.submit.isSome = true) r₁.1
        (nopSteps ++ nopSteps ++ [.ring (.submitNext true)])).map (fun r₂ => r₂.1.ring.submit)))) he
  simp only [Prod.mk.injEq] at hval
  obtain ⟨hfull, hentries, hsubmit⟩ := hval
  obtain ⟨⟨c₁, ev⟩, hs, hexec⟩ := Option.bind_eq_some_iff.1 hsubmit
  obtain ⟨c₂, seg, hseg, hend⟩ := Machine.exists_of_exec (fun (c : SqCaller) _ => c.ring.submit) hexec
  obtain ⟨hcaller, hbot⟩ := submission_queue_hands_over h0
  obtain ⟨h1, h2⟩ := (hcaller c log h).2.2 c₁ c₂ ev seg hs hseg hend
  refine ⟨ring₀, c, c₁, c₂, log, ev, seg, h0, h, hfull, hs, hseg, ?_, h2, hbot 1 2 3 _ [] Machine.Run.init⟩
  rw [h1, List.map_map]
  exact hentries

end GwBot

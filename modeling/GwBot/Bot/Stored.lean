import GwBot.Bot.Room
import GwBot.Ring.Handlers

/-!
# The batch that is stored

`ctx->updates` is empty whenever a `tgapi_call_get_updates` returns, so a worker never stores a batch over another one. The updates of a
batch are out, from when the main thread prepares their handlers until they are given to `tgapi_free_update`.
-/

namespace GwBot

open Lib

namespace TgBotCtx

variable {bot bot' : TgBotCtx} {a : Act} {log ev : List BotEvent} {C : TgBotCtx → Act → Prop} {max : UInt32} {bot₀ : TgBotCtx}

/-! ## Polls without an answer -/

/-- The polls that were prepared and have no answer yet. -/
def nrUnanswered (bot : TgBotCtx) : Nat :=
  bot.ring.sqWindow.countP (fun sqe => isPoll sqe.op) + bot.ring.unanswered (GwRing.dataOf isPoll)

theorem unanswered_eq (h0 : Started bot₀ max) (h : machine.Run C bot₀ bot log) :
    (preparedOf log).countP (fun sqe => isPoll sqe.op) = sqeCount .uncounted (GwRing.dataOf isPoll) (ringLog log) +
      bot.ring.answeredCount (ringLog log) (GwRing.dataOf isPoll) + bot.nrUnanswered := by
  have hring := GwRing.unanswered_of_run (fun _ _ hc => hc.1) h0.ring (ring_run h) (GwRing.dataOf isPoll)
  rw [(Inv.of_run h0 h).prepared, List.countP_append, countP_submittedSqes (fun sqe => isPoll sqe.op)]
  unfold nrUnanswered
  change sqeCount .submitted (GwRing.dataOf isPoll) _ + _ = _
  omega

theorem nrUnanswered_le (h0 : Started bot₀ max) (h : machine.Run C bot₀ bot log) : bot.nrUnanswered ≤ 1 := by
  have hpolls := polls_eq h0 h
  have hsplit := GwRing.execCount_unposted (p := GwRing.dataOf isPoll) bot.ring.execs
  unfold GwRing.due GwRing.outstanding at hpolls
  unfold nrUnanswered GwRing.unanswered
  omega

/-- A worker in `tgapi_call_get_updates` has a poll without an answer. -/
theorem nrUnanswered_pos {k : Nat} {data : WqSqeData} (hk : bot.ring.execs[k]? = some (some ⟨data, .handling⟩))
    (hop : data.sqe.op = GW_RING_OP_TG_API_CALL) : 0 < bot.nrUnanswered := by
  have hexec : 0 < execCount ExecPc.isUnhandled (GwRing.dataOf isPoll) bot.ring.execs :=
    List.countP_pos_iff.2 ⟨_, List.mem_of_getElem? hk, Bool.and_eq_true_iff.2 ⟨rfl, beq_iff_eq.2 hop⟩⟩
  unfold nrUnanswered GwRing.unanswered
  omega

/-- No step of the bot takes an answer back. -/
theorem answered_step (h0 : Started bot₀ max) (h : machine.Run C bot₀ bot log) (hs : StepCase bot a bot' ev) (p : WqSqeData → Bool) :
    bot.ring.answeredCount (ringLog log) p ≤ bot'.ring.answeredCount (ringLog (log ++ ev)) p := by
  have hinv := GwRing.Inv.of_run h0.ring (ring_run h)
  have hmove := hs.ring_move
  rw [ringLog_append]
  generalize bot'.ring = ring' at hmove ⊢
  cases hmove with
  | none hlog _ =>
    rw [hlog, List.append_nil]
  | @prepare slot sqe _ _ hget _ =>
    have hone := (GwRing.step_cases hget).2.answered (p := p) hinv (ringLog log)
    have hev : ringLog [BotEvent.prepared sqe] = [] := rfl
    rw [hev, List.append_nil]
    rw [List.append_nil] at hone
    exact hone
  | step hstep _ _ _ =>
    rw [ringLog_map_ring]
    exact (GwRing.step_cases hstep).2.answered hinv (ringLog log)

/-- While a batch is stored, no poll is without an answer. -/
theorem answered_of_updates (h0 : Started bot₀ max) (hempty : bot₀.updates = none) (h : machine.Run C bot₀ bot log)
    (hstored : bot.updates ≠ none) : bot.nrUnanswered = 0 := by
  revert hstored
  refine h.stateInv (I := fun bot => bot.updates ≠ none → bot.nrUnanswered = 0) (fun hstored => absurd hempty hstored) ?_
  intro bot log a bot' ev hr hi hc hs hstored
  have hbefore := unanswered_eq h0 hr
  have hafter := unanswered_eq h0 (hr.step a hc hs)
  have hmono := answered_step h0 hr (step_cases hs) (GwRing.dataOf isPoll)
  rw [preparedOf_append, List.countP_append, ringLog_append, sqeCount_append, ← ringLog_append] at hafter
  have hsame : bot.updates ≠ none → (preparedOf ev).countP (fun sqe => isPoll sqe.op) = 0 → bot'.nrUnanswered = 0 := by
    intro hsome hzero
    have hz := hi hsome
    omega
  cases step_cases hs with
  | full _ _ => exact hsame hstored rfl
  | own ho => cases ho <;> exact hsame hstored rfl
  | call _ _ | inner _ _ => exact hsame hstored (by rw [preparedOf_map_ring]; rfl)
  | @prepare prep again slot sqe _ _ _ _ _ hsqe =>
    cases prep with
    | poll ret => exact absurd rfl hstored
    | handle up rest res =>
      refine hsame hstored ?_
      rw [hsqe]
      rfl
  | @exec k res batch ring' e hstep =>
    have hprep : (preparedOf (e.map .ring)).countP (fun sqe => isPoll sqe.op) = 0 := by rw [preparedOf_map_ring]; rfl
    have hstored : bot.updatesAfter k res batch ≠ none := hstored
    unfold updatesAfter at hstored
    split at hstored
    · rename_i data hk
      split at hstored
      · rename_i hst
        -- the poll that is answered is the only one
        have hone := nrUnanswered_le h0 hr
        have hret := GwRing.answered_of_ret (p := GwRing.dataOf isPoll) hk (beq_iff_eq.2 hst.1) hstep (ringLog log)
        rw [hprep, ringLog_append, ringLog_map_ring] at hafter
        change _ = _ + ring'.answeredCount (ringLog log ++ e) _ + _ at hafter
        omega
      · exact hsame hstored hprep
    · exact hsame hstored hprep

/-- When a `tgapi_call_get_updates` returns, `ctx->updates` is empty. -/
theorem updates_empty (h0 : Started bot₀ max) (hempty : bot₀.updates = none) (h : machine.Run C bot₀ bot log) {k : Nat} {data : WqSqeData}
    (hk : bot.ring.execs[k]? = some (some ⟨data, .handling⟩)) (hop : data.sqe.op = GW_RING_OP_TG_API_CALL) : bot.updates = none := by
  by_contra hstored
  have hzero := answered_of_updates h0 hempty h hstored
  have hpos := nrUnanswered_pos hk hop
  omega

/-! ## Updates that are out -/

/-- The entries with `q` of a `GW_RING_OP_MODULE_HANDLE` that were prepared and have not given their update back. -/
def undeleted (bot : TgBotCtx) (q : GwRingSqe → Bool) : Nat :=
  bot.ring.sqWindow.countP q + bot.ring.undeleted (fun data => q data.sqe)

/-- How many of the entries with `q` give their update back in the step. -/
def givenBackCount (bot : TgBotCtx) (a : Act) (q : GwRingSqe → Bool) : Nat :=
  match a with
  | .ring b => bot.ring.givenBackCount b (fun data => q data.sqe)
  | _ => 0

variable {q : GwRingSqe → Bool}

theorem undeleted_eq (h0 : Started bot₀ max) (h : machine.Run C bot₀ bot log)
    (hq : ∀ sqe, q sqe = true → sqe.op = GW_RING_OP_MODULE_HANDLE) :
    (preparedOf log).countP q = sqeCount .freeUpdate (fun data => q data.sqe) (ringLog log) + bot.undeleted q := by
  have hring := GwRing.undeleted_of_run h0.ring (ring_run h) (p := fun data => q data.sqe) (fun data => hq data.sqe)
  rw [(Inv.of_run h0 h).prepared, List.countP_append, countP_submittedSqes q]
  unfold undeleted
  omega

/-- The update of an entry is given back in the steps of the ring that have done with it. -/
theorem freeUpdate_of_step (h0 : Started bot₀ max) (h : machine.Run C bot₀ bot log) (hs : StepCase bot a bot' ev)
    (hq : ∀ sqe, q sqe = true → sqe.op = GW_RING_OP_MODULE_HANDLE) :
    sqeCount .freeUpdate (fun data => q data.sqe) (ringLog ev) = bot.givenBackCount a q := by
  have hw := (GwRing.Known.of_run h0.ring (ring_run h)).wq
  have hp : GwRing.AreHandles (fun data => q data.sqe) := fun data => hq data.sqe
  cases hs with
  | full _ _ | prepare _ _ _ _ _ _ => rfl
  | own ho => cases ho <;> rfl
  | call hcall hstep =>
    rw [ringLog_map_ring, (GwRing.step_cases hstep).2.freeUpdate hw ?_ hp]
    · cases hcall <;> rfl
    · rintro ks rfl
      nomatch hcall
  | inner hin hstep =>
    rw [ringLog_map_ring, (GwRing.step_cases hstep).2.freeUpdate hw ?_ hp]
    · rfl
    · rintro ks rfl
      nomatch hin
  | exec hstep =>
    rw [ringLog_map_ring, (GwRing.step_cases hstep).2.freeUpdate hw nofun hp]
    rfl

/-- The updates that are out, in a step: those that are prepared come, and those that are given back go. -/
theorem undeleted_step (h0 : Started bot₀ max) (h : machine.Run C bot₀ bot log) (hc : C bot a) (hs : bot.step a = some (bot', ev))
    (hq : ∀ sqe, q sqe = true → sqe.op = GW_RING_OP_MODULE_HANDLE) :
    bot'.undeleted q + bot.givenBackCount a q = bot.undeleted q + (preparedOf ev).countP q := by
  have hbefore := undeleted_eq h0 h hq
  have hafter := undeleted_eq h0 (h.step a hc hs) hq
  have hfree := freeUpdate_of_step h0 h (step_cases hs) hq
  rw [preparedOf_append, List.countP_append, ringLog_append, sqeCount_append] at hafter
  omega

end TgBotCtx

end GwBot

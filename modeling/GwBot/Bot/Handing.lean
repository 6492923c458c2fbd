import GwBot.Bot.Entries
import GwBot.Bot.Offsets

/-!
# Handing updates over

`process_tg_api_updates` hands the updates of a batch over one after the other, and a batch is gone through once: while it is at hand
nothing is visited, and what comes after it is the `arm_update_sqe` that resets `ctx->updates`. So what holds of the updates that were handed
over, with those of a batch when it is stored, holds as they are handed over.
-/

namespace GwBot

open Lib

/-- The update that an event hands over. -/
def BotEvent.handed? : BotEvent → Option BatchUpdate
  | .incRef up => some up
  | _ => none

/-- The updates that have been handed over, in order. -/
def handedOver (log : List BotEvent) : List BatchUpdate := log.filterMap BotEvent.handed?

theorem handedOver_append (l l' : List BotEvent) : handedOver (l ++ l') = handedOver l ++ handedOver l' := List.filterMap_append

/-- The ring hands nothing over. -/
theorem handedOver_map_ring (ev : List RingEvent) : handedOver (ev.map .ring) = [] := by
  rw [handedOver, List.filterMap_map]
  exact List.filterMap_eq_nil_iff.2 (fun _ _ => rfl)

/-- The update that the main thread prepares the handler of. -/
def MainPc.current : MainPc → Option BatchUpdate
  | .getSqe (.handle up _ _) _ | .submitFull (.handle up _ _) | .inSubmitFull (.handle up _ _) => some up
  | _ => none

/-- The updates whose handlers were prepared, in order. -/
def handlersOf (log : List BotEvent) : List Nat :=
  ((preparedOf log).filter (fun sqe => sqe.op == GW_RING_OP_MODULE_HANDLE)).map (fun sqe => sqe.tgModuleHandle.update)

theorem handlersOf_append (l l' : List BotEvent) : handlersOf (l ++ l') = handlersOf l ++ handlersOf l' := by
  rw [handlersOf, preparedOf_append, List.filter_append, List.map_append]
  rfl

theorem batchIds_append (batch batch' : List BatchUpdate) : batchIds (batch ++ batch') = batchIds batch ++ batchIds batch' := by
  rw [batchIds, List.map_append, List.map_append, batchIds, batchIds]

theorem maxOver_singleton (prev : Int) (up : BatchUpdate) : maxOver prev (batchIds [up]) = Max.max prev (int64OfU64 up.updateId) := by
  have hids : ∀ n : Int, maxOver prev [n] = Max.max prev n := fun n => rfl
  exact hids _

/-- The greatest id of two batches, one after the other. -/
theorem maxOver_append (prev : Int) (ids ids' : List Int) : maxOver prev (ids ++ ids') = maxOver (maxOver prev ids) ids' :=
  List.foldl_append

namespace TgBotCtx

variable {bot bot' : TgBotCtx} {a : Act} {log ev : List BotEvent} {C : TgBotCtx → Act → Prop} {max : UInt32} {bot₀ : TgBotCtx}

/-- The thread that owes no poll has no batch to go on with. -/
theorem rest_of_nrOwed {pc : MainPc} (h : pc.nrOwed = 0) : pc.rest = [] := by
  cases pc with
  | getSqe _ _ | submitFull _ | inSubmitFull _ | updates _ _ => nomatch h
  | _ => rfl

/-- What the main thread does with the batch at hand in a step: it hands an update over; it comes to a batch that is stored; or it goes on
with what it has, or with nothing. -/
inductive HandMove (bot bot' : TgBotCtx) (ev : List BotEvent) : Prop where
  | hand (up : BatchUpdate) : bot.pc.rest = up :: bot'.pc.rest → handedOver ev = [up] →
      bot'.maxUpdateId = Max.max bot.maxUpdateId (int64OfU64 up.updateId) → bot'.pc.nrOwed ≠ 0 → HandMove bot bot' ev
  | visit (batch : List BatchUpdate) : bot.pc.nrOwed = 0 → bot.updates = some batch → bot'.pc.rest = batch → handedOver ev = [] →
      bot'.maxUpdateId = bot.maxUpdateId → bot'.pc.nrOwed ≠ 0 → HandMove bot bot' ev
  | goOn : (bot'.pc.nrOwed = 0 → bot.pc.nrOwed = 0 ∨ bot'.updates = none) → bot'.pc.rest = bot.pc.rest ∨ bot'.pc.rest = [] →
      handedOver ev = [] → bot'.maxUpdateId = bot.maxUpdateId → HandMove bot bot' ev

/-- `process_tg_api_update` leaves the greater of the two ids. -/
theorem maxUpdateId_update (bot : TgBotCtx) (up : BatchUpdate) :
    (if int64OfU64 up.updateId > bot.maxUpdateId then int64OfU64 up.updateId else bot.maxUpdateId) =
      Max.max bot.maxUpdateId (int64OfU64 up.updateId) := by
  split <;> omega

/-- Every step is one of these moves. -/
theorem StepCase.hand_move (hs : StepCase bot a bot' ev) : HandMove bot bot' ev := by
  cases hs with
  | @full prep again hat _ =>
    refine HandMove.goOn ?_ ?_ rfl rfl
    · cases again <;> nofun
    · rw [hat]
      cases again with
      | true => exact Or.inr rfl
      | false => cases prep <;> exact Or.inl rfl
  | @prepare prep again slot sqe hat _ _ _ _ _ =>
    cases prep with
    | poll ret =>
      refine HandMove.goOn (fun _ => Or.inr rfl) (Or.inr ?_) rfl rfl
      cases ret <;> rfl
    | handle up rest res => exact HandMove.goOn nofun (Or.inl (by rw [hat]; rfl)) rfl rfl
  | own ho =>
    cases ho with
    | @submittedFull prep hat _ =>
      refine HandMove.goOn nofun (Or.inl ?_) rfl rfl
      rw [hat]
      cases prep <;> rfl
    | submitted hat _ =>
      refine HandMove.goOn (fun _ => Or.inl (by rw [hat]; rfl)) (Or.inr ?_) rfl rfl
      show MainPc.rest (if _ then _ else _) = []
      split <;> rfl
    | updatesEnd hat => exact HandMove.goOn nofun (Or.inr rfl) rfl rfl
    | @update up rest res hat =>
      have hset := maxUpdateId_update bot up
      generalize (if int64OfU64 up.updateId > bot.maxUpdateId then int64OfU64 up.updateId else bot.maxUpdateId) = maxUpdateId at hset ⊢
      exact HandMove.hand up (by rw [hat]; rfl) rfl hset nofun
  | @call b ring' pc e hcall _ =>
    have hnone := handedOver_map_ring e
    cases hcall with
    | @submitFull prep _ hat =>
      refine HandMove.goOn nofun (Or.inl ?_) hnone rfl
      rw [hat]
      cases prep <;> rfl
    | visit cqe hat =>
      have howed : bot.pc.nrOwed = 0 := by rw [hat]; rfl
      rcases processCqe_cases bot cqe with ⟨ret, hpc⟩ | ⟨batch, res, hpc, hb⟩ | hpc
      · exact HandMove.goOn (fun _ => Or.inl howed) (Or.inr (by rw [hpc]; rfl)) hnone rfl
      · exact HandMove.visit batch howed hb (by rw [hpc]; rfl) hnone rfl (by rw [hpc]; nofun)
      · exact HandMove.goOn (fun _ => Or.inl howed) (Or.inr (by rw [hpc]; rfl)) hnone rfl
    | submit _ hat | sleeps _ hat | forEach _ hat | loadHead _ hat | loadEnd _ hat _ =>
      exact HandMove.goOn (fun _ => Or.inl (by rw [hat]; rfl)) (Or.inr rfl) hnone rfl
    | waited _ hat _ | next _ hat | advance _ hat =>
      refine HandMove.goOn (fun _ => Or.inl (by rw [hat]; rfl)) (Or.inr ?_) hnone rfl
      show MainPc.rest (if _ then _ else _) = []
      split <;> rfl
  | @inner b ring' e _ _ => exact HandMove.goOn Or.inl (Or.inl rfl) (handedOver_map_ring e) rfl
  | @exec k res batch ring' e _ => exact HandMove.goOn Or.inl (Or.inl rfl) (handedOver_map_ring e) rfl

/-- Only a worker stores a batch. -/
theorem StepCase.updates_eq (hs : StepCase bot a bot' ev) : bot'.updates = bot.updates ∨ bot'.updates = none ∨
    ∃ k res batch, a = .exec k res batch ∧ bot'.updates = bot.updatesAfter k res batch := by
  cases hs with
  | full _ _ | own _ | call _ _ | inner _ _ => exact Or.inl rfl
  | @prepare prep again slot sqe _ _ _ _ _ _ =>
    cases prep with
    | poll ret => exact Or.inr (Or.inl rfl)
    | handle up rest res => exact Or.inl rfl
  | exec _ => exact Or.inr (Or.inr ⟨_, _, _, rfl, rfl⟩)

/-! ## What holds of the updates -/

/-- `P` relates the updates that were handed over to those that are yet to be: of the batch that is stored, and of the one at hand. -/
structure Handing (P : List BatchUpdate → List BatchUpdate → Prop) (bot : TgBotCtx) (log : List BotEvent) : Prop where
  stored : bot.pc.nrOwed = 0 → ∀ batch, bot.updates = some batch → P (handedOver log) batch
  rest : P (handedOver log) bot.pc.rest

namespace Handing

variable {P P' : List BatchUpdate → List BatchUpdate → Prop}

theorem mono (h : Handing P bot log) (hp : ∀ handed left, P handed left → P' handed left) : Handing P' bot log :=
  ⟨fun howed batch hb => hp _ _ (h.stored howed batch hb), hp _ _ h.rest⟩

/-- `P` is kept by a step when it goes on from one update to the next and holds of a batch that a worker stores. -/
theorem step (hnil : ∀ handed left, P handed left → P handed [])
    (hnext : ∀ handed up left, P handed (up :: left) → P (handed ++ [up]) left) (h : Handing P bot log) (hs : StepCase bot a bot' ev)
    (hexec : ∀ k res batch stored, a = .exec k res batch → bot.updatesAfter k res batch = some stored →
      bot.updates = some stored ∨ P (handedOver log) stored) : Handing P bot' (log ++ ev) := by
  have hstored : handedOver ev = [] → (bot'.pc.nrOwed = 0 → bot.pc.nrOwed = 0 ∨ bot'.updates = none) → bot'.pc.nrOwed = 0 →
      ∀ batch, bot'.updates = some batch → P (handedOver (log ++ ev)) batch := by
    intro hev howed howed' batch hb
    rw [handedOver_append, hev, List.append_nil]
    obtain hz | hnone := howed howed'
    · obtain hup | hup | ⟨k, res, batch', rfl, hup⟩ := hs.updates_eq
      · exact h.stored hz batch (hup.symm.trans hb)
      · nomatch hup.symm.trans hb
      · rcases hexec k res batch' batch rfl (hup.symm.trans hb) with hsame | hnew
        · exact h.stored hz batch hsame
        · exact hnew
    · nomatch hnone.symm.trans hb
  cases hs.hand_move with
  | hand up hrest hev _ howed' =>
    have hp := h.rest
    rw [hrest] at hp
    refine ⟨fun hz => absurd hz howed', ?_⟩
    rw [handedOver_append, hev]
    exact hnext _ up _ hp
  | visit batch howed hb hrest hev _ howed' =>
    refine ⟨fun hz => absurd hz howed', ?_⟩
    rw [handedOver_append, hev, List.append_nil, hrest]
    exact h.stored howed batch hb
  | goOn howed hrest hev _ =>
    refine ⟨hstored hev howed, ?_⟩
    rw [handedOver_append, hev, List.append_nil]
    rcases hrest with hrest | hrest
    · rw [hrest]
      exact h.rest
    · rw [hrest]
      exact hnil _ _ h.rest

end Handing

/-- `max_update_id` is the greatest id of the updates that were handed over. -/
theorem maxUpdateId_eq (h0 : bot₀.maxUpdateId = 0) (h : machine.Run C bot₀ bot log) :
    bot.maxUpdateId = maxOver 0 (batchIds (handedOver log)) := by
  refine h.invariant (I := fun bot log => bot.maxUpdateId = maxOver 0 (batchIds (handedOver log))) h0 ?_
  intro bot log a bot' ev _ hi _ hs
  rw [handedOver_append]
  cases (step_cases hs).hand_move with
  | hand up _ hev hmax _ =>
    rw [hev, batchIds_append, maxOver_append, ← hi, maxOver_singleton]
    exact hmax
  | visit _ _ _ _ hev hmax _ | goOn _ _ hev hmax =>
    rw [hev, List.append_nil, hmax, hi]

/-- The handlers of the updates that were handed over have been prepared, in order, but for the one that is at hand. -/
theorem handlersOf_eq (h0 : Started bot₀ max) (h : machine.Run C bot₀ bot log) :
    (handedOver log).map BatchUpdate.addr = handlersOf log ++ (bot.pc.current.map BatchUpdate.addr).toList := by
  refine h.invariant (I := fun bot log => (handedOver log).map BatchUpdate.addr =
    handlersOf log ++ (bot.pc.current.map BatchUpdate.addr).toList) ?_ ?_
  · rw [h0.pc]
    rfl
  · intro bot log a bot' ev hr hi hc hs
    have hcrash := (Retries.of_run h0 (hr.step a hc hs)).crashed
    -- where the thread goes on with the same update, or has none
    have hsame : handedOver ev = [] → preparedOf ev = [] → bot'.pc.current = bot.pc.current →
        (handedOver (log ++ ev)).map BatchUpdate.addr = handlersOf (log ++ ev) ++ (bot'.pc.current.map BatchUpdate.addr).toList := by
      intro h1 h2 h3
      have h4 : handlersOf ev = [] := by rw [handlersOf, h2]; rfl
      rw [handedOver_append, handlersOf_append, h1, h4, h3, List.append_nil, List.append_nil]
      exact hi
    cases step_cases hs with
    | @full prep again hat _ =>
      cases again with
      | true => exact absurd rfl hcrash
      | false =>
        refine hsame rfl rfl ?_
        rw [hat]
        cases prep <;> rfl
    | @prepare prep again slot sqe hat _ _ _ _ hsqe =>
      rw [hat] at hi
      rw [handedOver_append, handlersOf_append, List.map_append, hi]
      subst hsqe
      cases prep with
      | poll ret => cases ret <;> simp [handedOver, handlersOf, BotEvent.handed?, MainPc.current, prepNext, preparedOf,
          BotEvent.prepared?, prepSqe, gwRingPrepTgGetUpdates, GW_RING_OP_TG_API_CALL, GW_RING_OP_MODULE_HANDLE]
      | handle up rest res => simp [handedOver, handlersOf, BotEvent.handed?, MainPc.current, prepNext, preparedOf,
          BotEvent.prepared?, prepSqe, gwRingPrepTgModuleHandle]
    | own ho =>
      cases ho with
      | @submittedFull prep hat _ =>
        refine hsame rfl rfl ?_
        rw [hat]
        cases prep <;> rfl
      | submitted hat _ =>
        refine hsame rfl rfl ?_
        rw [hat]
        show MainPc.current (if _ then _ else _) = none
        split <;> rfl
      | updatesEnd hat => exact hsame rfl rfl (by rw [hat]; rfl)
      | @update up rest res hat =>
        rw [hat] at hi
        rw [handedOver_append, handlersOf_append, List.map_append, hi]
        simp [handedOver, handlersOf, BotEvent.handed?, MainPc.current, preparedOf, BotEvent.prepared?]
    | @call b ring' pc e hcall _ =>
      refine hsame (handedOver_map_ring e) (preparedOf_map_ring e) ?_
      cases hcall with
      | @submitFull prep _ hat =>
        rw [hat]
        cases prep <;> rfl
      | visit cqe hat =>
        rw [hat]
        show (bot.processCqe cqe).current = none
        rcases processCqe_cases bot cqe with ⟨ret, hpc⟩ | ⟨batch, res, hpc, hb⟩ | hpc <;> rw [hpc] <;> rfl
      | submit _ hat | sleeps _ hat | forEach _ hat | loadHead _ hat | loadEnd _ hat _ =>
        exact (congrArg MainPc.current hat).symm
      | waited _ hat _ | next _ hat | advance _ hat =>
        rw [hat]
        show MainPc.current (if _ then _ else _) = none
        split <;> rfl
    | inner _ _ => exact hsame (handedOver_map_ring _) (preparedOf_map_ring _) rfl
    | exec _ => exact hsame (handedOver_map_ring _) (preparedOf_map_ring _) rfl

end TgBotCtx

end GwBot

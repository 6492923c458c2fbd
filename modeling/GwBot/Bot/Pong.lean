import GwBot.Bot.Containers
import GwBot.Bot.Deliver
import GwBot.Modules.Ping

/-!
# Each ping gets one answer

The bot with its memory and with the modules that its workers call: `gw_module_handle` is computed here from the entry of the update, and
what is sent is logged. Each update is handed over once, its handler is prepared once, and returns at most once, so a ping gets no second
answer; and it gets the one unless its handler is on its way or was lost.
-/

namespace GwBot

open Lib

/-- An entry that makes a worker call the handler of the update at an address. -/
def isHandlerOf (up : Nat) (sqe : GwRingSqe) : Bool := sqe.op == GW_RING_OP_MODULE_HANDLE && sqe.tgModuleHandle.update == up

theorem isHandlerOf_op {up : Nat} (sqe : GwRingSqe) (h : isHandlerOf up sqe = true) : sqe.op = GW_RING_OP_MODULE_HANDLE :=
  beq_iff_eq.1 (Bool.and_eq_true_iff.1 h).1

/-- The handlers that were prepared for an address. -/
theorem countP_isHandlerOf (up : Nat) (log : List BotEvent) : (preparedOf log).countP (isHandlerOf up) = (handlersOf log).count up := by
  rw [handlersOf, List.count, List.countP_map, List.countP_filter]
  refine List.countP_congr (fun sqe _ => ?_)
  rw [Function.comp_apply, isHandlerOf, Bool.and_comm]

namespace TgBotCtx

variable {bot bot' : TgBotCtx} {a : Act} {log ev : List BotEvent} {C : TgBotCtx → Act → Prop} {max : UInt32} {bot₀ : TgBotCtx}
  {q : GwRingSqe → Bool}

/-- The handlers that were prepared were lost, have returned, or are without an answer. -/
theorem handlers_eq (h0 : Started bot₀ max) (h : machine.Run C bot₀ bot log)
    (hq : ∀ sqe, q sqe = true → sqe.op = GW_RING_OP_MODULE_HANDLE) :
    (preparedOf log).countP q = sqeCount .uncounted (fun data => q data.sqe) (ringLog log) +
      sqeCount .handlerRet (fun data => q data.sqe) (ringLog log) + bot.unanswered q := by
  have hring := GwRing.handled_of_run (fun _ _ hc => hc.1) h0.ring (ring_run h) (p := fun data => q data.sqe) (fun data => hq data.sqe)
  rw [(Inv.of_run h0 h).prepared, List.countP_append, countP_submittedSqes q]
  unfold unanswered
  omega

/-- How many handlers of entries with `q` return in the step. -/
def returnedCount (bot : TgBotCtx) (a : Act) (q : GwRingSqe → Bool) : Nat :=
  match a with
  | .exec k res _ => bot.ring.returnedCount (.exec k res) (fun data => q data.sqe)
  | _ => 0

/-- What a step logs of returned handlers is `returnedCount`. -/
theorem StepCase.handlerRet (hs : StepCase bot a bot' ev) (q : GwRingSqe → Bool) :
    sqeCount .handlerRet (fun data => q data.sqe) (ringLog ev) = bot.returnedCount a q := by
  cases hs with
  | full _ _ | prepare _ _ _ _ _ _ => rfl
  | own ho => cases ho <;> rfl
  | call hcall hstep =>
    rw [ringLog_map_ring, (GwRing.step_cases hstep).2.handlerRet]
    cases hcall <;> rfl
  | @inner b ring' e hin hstep =>
    rw [ringLog_map_ring, (GwRing.step_cases hstep).2.handlerRet]
    cases b with
    | exec k res => nomatch hin
    | _ => rfl
  | exec hstep =>
    rw [ringLog_map_ring, (GwRing.step_cases hstep).2.handlerRet]
    rfl

end TgBotCtx

/-! ## The bot with its modules -/

/-- What a step of the bot with its modules logs: an event of the bot, or a call of `tgapi_call_send_message` by the handler of the update
at an address. -/
inductive ServeEvent where
  | bot (e : BotEvent)
  | sendMessage (up : Nat) (call : TgaCallSendMessage)

/-- The event of the bot. -/
def ServeEvent.bot? : ServeEvent → Option BotEvent
  | .bot e => some e
  | .sendMessage _ _ => none

/-- The bot's part of a log. -/
def botLog (log : List ServeEvent) : List BotEvent := log.filterMap ServeEvent.bot?

/-- The call, if it is for the update at the address. -/
def ServeEvent.sentFor? (up : Nat) : ServeEvent → Option TgaCallSendMessage
  | .bot _ => none
  | .sendMessage up' call => if up' = up then some call else none

/-- What was sent for the update at an address. -/
def sentFor (up : Nat) (log : List ServeEvent) : List TgaCallSendMessage := log.filterMap (ServeEvent.sentFor? up)

theorem botLog_append (l l' : List ServeEvent) : botLog (l ++ l') = botLog l ++ botLog l' := List.filterMap_append

theorem botLog_map_bot (ev : List BotEvent) : botLog (ev.map .bot) = ev := by
  rw [botLog, List.filterMap_map]
  exact List.filterMap_some

/-- What is sent is not in the log of the bot. -/
theorem botLog_map_sendMessage (up : Nat) (calls : List TgaCallSendMessage) : botLog (calls.map (.sendMessage up)) = [] := by
  rw [botLog, List.filterMap_map]
  exact List.filterMap_eq_nil_iff.2 (fun _ _ => rfl)

theorem sentFor_append (up : Nat) (l l' : List ServeEvent) : sentFor up (l ++ l') = sentFor up l ++ sentFor up l' :=
  List.filterMap_append

/-- And the bot by itself sends nothing. -/
theorem sentFor_map_bot (up : Nat) (ev : List BotEvent) : sentFor up (ev.map .bot) = [] := by
  rw [sentFor, List.filterMap_map]
  exact List.filterMap_eq_nil_iff.2 (fun _ _ => rfl)

/-- What the handler of an update sends is sent for that update. -/
theorem sentFor_map_sendMessage (up up' : Nat) (calls : List TgaCallSendMessage) :
    sentFor up (calls.map (.sendMessage up')) = if up' = up then calls else [] := by
  rw [sentFor, List.filterMap_map]
  split
  · rename_i heq
    have hsome : ServeEvent.sentFor? up ∘ ServeEvent.sendMessage up' = some := by
      funext call
      rw [Function.comp_apply, ServeEvent.sentFor?, if_pos heq]
    rw [hsome]
    exact List.filterMap_some
  · rename_i hne
    exact List.filterMap_eq_nil_iff.2 (fun call _ => if_neg hne)

namespace TgBotMem

/-- The update that worker `k` is in `gw_module_handle` for. -/
def handlingUpdate (s : TgBotMem) (k : Nat) : Option Nat :=
  match s.bot.ring.execs[k]? with
  | some (some ⟨data, .handling⟩) => if data.sqe.op = GW_RING_OP_MODULE_HANDLE then some data.sqe.tgModuleHandle.update else none
  | _ => none

/-- The steps: one in which no `gw_module_handle` returns, or its return to worker `k`, where `tgapi_call_send_message` returns
`sendRet`. -/
inductive ServeAct (ι : Type) where
  | mem (a : Act ι)
  | handle (k : Nat) (sendRet : Int)

variable {ι : Type} (J : JsonC) (toks : ι → JsonTokener)

/-- A step of the bot with its modules; there is none where a handler does not come back. -/
def serve (s : TgBotMem) : ServeAct ι → Option (TgBotMem × List ServeEvent)
  | .mem (.bot (.exec k res batch)) =>
    if (s.handlingUpdate k).isSome then none else (s.step J toks (.bot (.exec k res batch))).map (fun r => (r.1, r.2.map .bot))
  | .mem a => (s.step J toks a).map (fun r => (r.1, r.2.map .bot))
  | .handle k sendRet =>
    match s.handlingUpdate k with
    | none => none
    | some up =>
      match handleUpdate (s.entries up) sendRet with
      | none => none
      | some (calls, ret) => (s.botStep (.exec k ret [])).map (fun r => (r.1, calls.map (.sendMessage up) ++ r.2.map .bot))

/-- The bot with its modules as a machine. -/
def serveMachine : Machine TgBotMem (ServeAct ι) ServeEvent := ⟨serve J toks⟩

variable {J toks} {s s' s₀ : TgBotMem} {log ev : List ServeEvent} {C : TgBotMem → ServeAct ι → Prop} {max : UInt32}

/-- What a step does: the bot goes on; `tgapi_call_get_updates` fails in a worker, or stores a container; or a handler returns. -/
inductive ServeCase (J : JsonC) (toks : ι → JsonTokener) (s : TgBotMem) : ServeAct ι → TgBotMem → List ServeEvent → Prop where
  | bot {b : TgBotCtx.Act} {bot' : TgBotCtx} {ev : List BotEvent} : s.bot.step b = some (bot', ev) →
      (∀ k res batch, b = .exec k res batch → s.isPolling k = false ∧ s.handlingUpdate k = none) →
      ServeCase J toks s (.mem (.bot b)) { s with bot := bot' } (ev.map .bot)
  | failed {k : Nat} {i : ι} {env : ParseEnv} {curl : CurlHttpGet} {mem : Mem} {ret : Int} {bot' : TgBotCtx} {ev : List BotEvent} :
      s.isPolling k = true → ret < 0 → mem.next = s.mem.next → mem.freed = s.mem.freed → s.bot.step (.exec k ret []) = some (bot', ev) →
      ServeCase J toks s (.mem (.getUpdates k i env curl)) { s with mem := mem, bot := bot' } (ev.map .bot)
  | stored {k : Nat} {i : ι} {env : ParseEnv} {curl : CurlHttpGet} {mem : Mem} {updates : TgUpdates} {bot' : TgBotCtx}
      {ev : List BotEvent} : s.isPolling k = true → HandedOut s.mem mem updates →
      tgapiCallGetUpdates J (toks i) env s.mem curl = some (mem, some updates, 0) →
      s.bot.step (.exec k 0 (batchOf s.nextEntry updates)) = some (bot', ev) →
      ServeCase J toks s (.mem (.getUpdates k i env curl)) { s.store updates with mem := mem, bot := bot' } (ev.map .bot)
  | handle {k up : Nat} {sendRet ret : Int} {bot' : TgBotCtx} {ev : List BotEvent} : s.handlingUpdate k = some up →
      s.bot.step (.exec k ret []) = some (bot', ev) →
      ServeCase J toks s (.handle k sendRet) { s with bot := bot' }
        ((pongOf (s.entries up)).toList.map (.sendMessage up) ++ ev.map .bot)

/-- Every step is one of these. -/
theorem serve_cases (hno : s.EntriesNoJson) (hfreed : ∀ b ∈ s.mem.freed, b < s.mem.next) {a : ServeAct ι}
    (hs : s.serve J toks a = some (s', ev)) : ServeCase J toks s a s' ev := by
  unfold serve at hs
  split at hs
  · rename_i k res batch
    split at hs
    · cases hs
    · rename_i hhandling
      obtain ⟨⟨s₁, e⟩, hstep, heq⟩ := Option.map_eq_some_iff.1 hs
      obtain ⟨rfl, rfl⟩ := Prod.mk.inj heq
      cases step_move hno hfreed hstep with
      | bot hbot hpoll =>
        refine ServeCase.bot hbot (fun k' res' batch' he => ⟨hpoll k' res' batch' he, ?_⟩)
        cases he
        exact Option.not_isSome_iff_eq_none.1 hhandling
  · rename_i a hne
    obtain ⟨⟨s₁, e⟩, hstep, heq⟩ := Option.map_eq_some_iff.1 hs
    obtain ⟨rfl, rfl⟩ := Prod.mk.inj heq
    cases step_move hno hfreed hstep with
    | bot hbot _ => exact ServeCase.bot hbot (fun k res batch he => absurd (congrArg Act.bot he) (hne k res batch))
    | failed hpoll hneg hnext hfreed' hbot => exact ServeCase.failed hpoll hneg hnext hfreed' hbot
    | stored hpoll hout hcall hbot => exact ServeCase.stored hpoll hout hcall hbot
  · rename_i k sendRet
    split at hs
    · cases hs
    · rename_i up hup
      split at hs
      · cases hs
      · rename_i calls ret hcalls
        obtain ⟨⟨s₁, e⟩, hstep, heq⟩ := Option.map_eq_some_iff.1 hs
        obtain ⟨rfl, rfl⟩ := Prod.mk.inj heq
        obtain ⟨bot', hbot, rfl⟩ := botStep_eq_some hno hstep
        rw [handleUpdate_calls hcalls]
        exact ServeCase.handle hup hbot

/-- A worker in `gw_module_handle` has an entry for it. -/
theorem handler_of_handling {k up : Nat} (h : s.handlingUpdate k = some up) :
    ∃ data, s.bot.ring.execs[k]? = some (some ⟨data, .handling⟩) ∧ data.sqe.op = GW_RING_OP_MODULE_HANDLE ∧
      data.sqe.tgModuleHandle.update = up := by
  unfold handlingUpdate at h
  split at h
  · rename_i data hk
    split at h
    · rename_i hop
      exact ⟨data, hk, hop, Option.some.inj h⟩
    · cases h
  · cases h

/-- It is not in `tgapi_call_get_updates`. -/
theorem isPolling_of_handling {k up : Nat} (h : s.handlingUpdate k = some up) : s.isPolling k = false := by
  obtain ⟨data, hk, hop, -⟩ := handler_of_handling h
  unfold isPolling
  rw [hk]
  show (data.sqe.op == GW_RING_OP_TG_API_CALL) = false
  rw [hop]
  decide

/-- A run with the modules is a run of the bot with its memory. -/
theorem mem_run (h : (serveMachine J toks).Run C s₀ s log) : (machine J toks).Reach s₀ s (botLog log) := by
  refine h.project id ServeEvent.bot? ?_
  intro s a s' ev _ hs
  change s.serve J toks a = some (s', ev) at hs
  refine Or.inl ?_
  show ∃ b, s.step J toks b = some (s', botLog ev)
  have hmem : ∀ b, (s.step J toks b).map (fun r => (r.1, r.2.map ServeEvent.bot)) = some (s', ev) →
      s.step J toks b = some (s', botLog ev) := by
    intro b hb
    obtain ⟨⟨s₁, e⟩, hstep, heq⟩ := Option.map_eq_some_iff.1 hb
    obtain ⟨rfl, rfl⟩ := Prod.mk.inj heq
    rw [botLog_map_bot]
    exact hstep
  unfold serve at hs
  split at hs
  · split at hs
    · cases hs
    · exact ⟨_, hmem _ hs⟩
  · exact ⟨_, hmem _ hs⟩
  · rename_i k sendRet _
    split at hs
    · cases hs
    · rename_i up hup
      split at hs
      · cases hs
      · rename_i calls ret _
        obtain ⟨⟨s₁, e⟩, hstep, heq⟩ := Option.map_eq_some_iff.1 hs
        obtain ⟨rfl, rfl⟩ := Prod.mk.inj heq
        refine ⟨.bot (.exec k ret []), ?_⟩
        rw [botLog_append, botLog_map_sendMessage, botLog_map_bot, List.nil_append]
        show (if s.isPolling k then none else s.botStep (.exec k ret [])) = some (s₁, e)
        rw [isPolling_of_handling hup]
        exact hstep

/-! ## What is handed over -/

/-- The addresses of the updates that were handed over, and of those that are left, are different, and below `n`. -/
structure Distinct (n : Nat) (handed left : List BatchUpdate) : Prop where
  nodup : ((handed ++ left).map BatchUpdate.addr).Nodup
  below : ∀ up ∈ handed ++ left, up.addr < n

namespace Distinct

variable {n : Nat} {handed left : List BatchUpdate}

theorem mono {n' : Nat} (h : Distinct n handed left) (hn : n ≤ n') : Distinct n' handed left :=
  ⟨h.nodup, fun up hup => Nat.lt_of_lt_of_le (h.below up hup) hn⟩

theorem nil (h : Distinct n handed left) : Distinct n handed [] := by
  refine ⟨?_, fun up hup => h.below up (List.mem_append_left _ ((List.append_nil handed) ▸ hup))⟩
  rw [List.append_nil]
  exact h.nodup.sublist ((List.sublist_append_left handed left).map _)

theorem next {up : BatchUpdate} (h : Distinct n handed (up :: left)) : Distinct n (handed ++ [up]) left := by
  obtain ⟨h1, h2⟩ := h
  rw [← List.singleton_append, ← List.append_assoc] at h1 h2
  exact ⟨h1, h2⟩

/-- The updates of a batch that is stored have addresses of their own. -/
theorem batch (h : Distinct n handed left) (updates : TgUpdates) : Distinct (n + updates.len) handed (batchOf n updates) := by
  obtain ⟨hnodup, hbelow⟩ := h.nil
  rw [List.append_nil] at hnodup hbelow
  have haddrs : (batchOf n updates).map BatchUpdate.addr = (List.range updates.len).map (fun i => n + i) := by
    rw [batchOf, List.map_map]
    rfl
  refine ⟨?_, fun up hup => ?_⟩
  · rw [List.map_append, haddrs]
    refine List.nodup_append.2 ⟨hnodup, (List.nodup_range).map (fun i j hij => Nat.add_left_cancel hij), ?_⟩
    intro addr haddr addr' haddr' heq
    obtain ⟨up, hup, rfl⟩ := List.mem_map.1 haddr
    obtain ⟨i, -, rfl⟩ := List.mem_map.1 haddr'
    have := hbelow up hup
    omega
  · rcases List.mem_append.1 hup with hup | hup
    · exact Nat.lt_of_lt_of_le (hbelow up hup) (Nat.le_add_right _ _)
    · exact mem_batchOf hup

end Distinct

/-! ## What is sent -/

/-- How many handlers of the update at an address have returned. -/
def nrReturned (up : Nat) (log : List ServeEvent) : Nat :=
  sqeCount .handlerRet (fun data => isHandlerOf up data.sqe) (ringLog (botLog log))

theorem nrReturned_append (up : Nat) (l l' : List ServeEvent) : nrReturned up (l ++ l') = nrReturned up l + nrReturned up l' := by
  rw [nrReturned, botLog_append, ringLog_append, sqeCount_append, nrReturned, nrReturned]

theorem nrReturned_map_bot {b : TgBotCtx.Act} {bot' : TgBotCtx} {e : List BotEvent} (hstep : s.bot.step b = some (bot', e)) (up : Nat) :
    nrReturned up (e.map .bot) = s.bot.returnedCount b (isHandlerOf up) := by
  rw [nrReturned, botLog_map_bot, (TgBotCtx.step_cases hstep).handlerRet]

/-- Where no worker comes back from `gw_module_handle`, no handler returns. -/
theorem returnedCount_of_not_handling {b : TgBotCtx.Act} (h : ∀ k res batch, b = .exec k res batch → s.handlingUpdate k = none) (up : Nat) :
    s.bot.returnedCount b (isHandlerOf up) = 0 := by
  cases b with
  | exec k res batch =>
    have hnone := h k res batch rfl
    unfold handlingUpdate at hnone
    unfold TgBotCtx.returnedCount GwRing.returnedCount
    simp only
    split
    · rename_i data hk
      rw [hk] at hnone
      refine if_neg (fun hq => ?_)
      simp only [if_pos (isHandlerOf_op _ hq)] at hnone
      cases hnone
    · rfl
  | _ => rfl

theorem returnedCount_of_handling {k up : Nat} (h : s.handlingUpdate k = some up) (res : Int) (batch : List BatchUpdate) (up' : Nat) :
    s.bot.returnedCount (.exec k res batch) (isHandlerOf up') = if up = up' then 1 else 0 := by
  obtain ⟨data, hk, hop, rfl⟩ := handler_of_handling h
  unfold TgBotCtx.returnedCount GwRing.returnedCount
  simp only [hk, one, isHandlerOf, hop, beq_self_eq_true, Bool.true_and, beq_iff_eq]

theorem handlingUpdate_of_polling {k : Nat} (h : s.isPolling k = true) : s.handlingUpdate k = none := by
  cases hup : s.handlingUpdate k with
  | none => rfl
  | some up => exact absurd (h.symm.trans (isPolling_of_handling hup)) (by decide)

/-- No handler of an update that is not there has been prepared. -/
theorem nrReturned_new (h0 : TgBotCtx.Started s₀.bot max) (hinv : Inv s (botLog log))
    (hrun : TgBotCtx.machine.Reach s₀.bot s.bot (botLog log)) {up : Nat} (hup : s.nextEntry ≤ up) : nrReturned up log = 0 := by
  have hsum := TgBotCtx.handlers_eq h0 hrun (@isHandlerOf_op up)
  have hzero : (preparedOf (botLog log)).countP (isHandlerOf up) = 0 := by
    refine List.countP_eq_zero.2 (fun sqe hsqe hhandler => ?_)
    have hlt := hinv.below.prepared sqe hsqe (isHandlerOf_op sqe hhandler)
    have heq := beq_iff_eq.1 (Bool.and_eq_true_iff.1 hhandler).2
    omega
  unfold nrReturned
  omega

/-! ## What holds in every run -/

/-- What a run has to observe: the responses are readable. -/
def ReadsWell (toks : ι → JsonTokener) (_ : TgBotMem) : ServeAct ι → Prop
  | .mem (.getUpdates _ i env curl) => ReadableResponse (toks i) env curl
  | _ => True

/-- Every text has a chat, and every update an entry in a live container; the updates that were handed over, and are yet to be, are
different; and each handler that has returned has sent the answer to its update. -/
structure Serves (s : TgBotMem) (log : List ServeEvent) : Prop where
  texts : ∀ up, TextHasChat (s.entries up).message
  live : AllLive s
  covers : ∀ up, up < s.nextEntry → ∃ c ∈ s.containers, c.hasEntry up = true
  handing : TgBotCtx.Handing (Distinct s.nextEntry) s.bot (botLog log)
  sent : ∀ up, sentFor up log = (List.replicate (nrReturned up log) (pongOf (s.entries up)).toList).flatten

namespace Serves

/-- The bot goes on, with the containers as they are. -/
theorem goOn (h : Serves s log) {b : TgBotCtx.Act} {bot' : TgBotCtx} {e : List BotEvent} {mem : Mem}
    (hstep : s.bot.step b = some (bot', e)) (hfreed : mem.freed = s.mem.freed)
    (hexec : ∀ k res batch, b = .exec k res batch → s.bot.updatesAfter k res batch = s.bot.updates) {ev : List ServeEvent}
    (hev : botLog ev = e)
    (hcalls : ∀ up, sentFor up ev =
      (List.replicate (s.bot.returnedCount b (isHandlerOf up)) (pongOf (s.entries up)).toList).flatten) :
    Serves { s with mem := mem, bot := bot' } (log ++ ev) := by
  refine ⟨h.texts, ?_, h.covers, ?_, fun up => ?_⟩
  · show ∀ c ∈ s.containers, c.addr ∉ mem.freed
    rw [hfreed]
    exact h.live
  · rw [botLog_append, hev]
    refine h.handing.step (fun _ _ hp => hp.nil) (fun _ _ _ hp => hp.next) (TgBotCtx.step_cases hstep) ?_
    intro k res batch stored hb hstored
    exact Or.inl ((hexec k res batch hb).symm.trans hstored)
  · have hone : nrReturned up ev = s.bot.returnedCount b (isHandlerOf up) := by
      rw [nrReturned, hev, (TgBotCtx.step_cases hstep).handlerRet]
    show sentFor up (log ++ ev) = (List.replicate (nrReturned up (log ++ ev)) (pongOf (s.entries up)).toList).flatten
    rw [sentFor_append, h.sent up, hcalls up, nrReturned_append, hone, List.replicate_add, List.flatten_append]

/-- A container is stored. -/
theorem stored (h : Serves s log) (hinv : Inv s (botLog log)) (h0 : TgBotCtx.Started s₀.bot max)
    (hrun : TgBotCtx.machine.Reach s₀.bot s.bot (botLog log)) {k : Nat} {i : ι} {env : ParseEnv} {curl : CurlHttpGet} {mem : Mem}
    {updates : TgUpdates} {bot' : TgBotCtx} {e : List BotEvent} (hread : ReadableResponse (toks i) env curl)
    (hpoll : s.isPolling k = true) (hout : HandedOut s.mem mem updates)
    (hcall : tgapiCallGetUpdates J (toks i) env s.mem curl = some (mem, some updates, 0))
    (hstep : s.bot.step (.exec k 0 (batchOf s.nextEntry updates)) = some (bot', e)) :
    Serves { s.store updates with mem := mem, bot := bot' } (log ++ e.map .bot) := by
  have htexts := container_textHasChat hread hcall
  have hlive : AllLive { s.store updates with mem := mem, bot := bot' } := by
    refine h.live.step hinv (Move.stored (i := i) hpoll hout hcall hstep) ?_
    rintro k' i' env' curl' he
    cases he
    exact hread.noNull
  refine ⟨fun up => ?_, hlive, fun up hup => ?_, ?_, fun up => ?_⟩
  · show TextHasChat (TgUpdate.message (if _ then _ else _))
    split
    · rw [List.getD_eq_getElem?_getD]
      cases hentry : updates.updates[up - s.nextEntry]? with
      | none => exact fun hz => by cases hz
      | some update => exact htexts update (List.mem_of_getElem? hentry)
    · exact h.texts up
  · by_cases hold : up < s.nextEntry
    · obtain ⟨c, hc, hentry⟩ := h.covers up hold
      exact ⟨c, List.mem_cons_of_mem _ hc, hentry⟩
    · exact ⟨_, List.mem_cons_self, decide_eq_true ⟨Nat.le_of_not_lt hold, hup⟩⟩
  · rw [botLog_append, botLog_map_bot]
    have hmono := h.handing.mono (fun _ _ hp => hp.mono (Nat.le_add_right s.nextEntry updates.len))
    refine hmono.step (fun _ _ hp => hp.nil) (fun _ _ _ hp => hp.next) (TgBotCtx.step_cases hstep) ?_
    intro k' res batch stored hb hstored
    cases hb
    obtain ⟨data, hk, hop⟩ := poll_of_polling hpoll
    rw [updatesAfter_of_polling hk hop] at hstored
    cases hstored
    exact Or.inr (h.handing.rest.batch updates)
  · have hzero : nrReturned up (e.map .bot) = 0 := by
      rw [nrReturned_map_bot hstep]
      refine returnedCount_of_not_handling ?_ up
      intro k' res batch hb
      cases hb
      exact handlingUpdate_of_polling hpoll
    rw [sentFor_append, sentFor_map_bot, List.append_nil, nrReturned_append, hzero, Nat.add_zero, h.sent up]
    by_cases hnew : s.nextEntry ≤ up
    · rw [nrReturned_new h0 hinv hrun hnew]
      rfl
    · have hsame : (s.store updates).entries up = s.entries up := if_neg (fun hand => hnew hand.1)
      show _ = (List.replicate _ (pongOf ((s.store updates).entries up)).toList).flatten
      rw [hsame]

theorem step (h : Serves s log) (hinv : Inv s (botLog log)) (h0 : TgBotCtx.Started s₀.bot max)
    (hrun : TgBotCtx.machine.Reach s₀.bot s.bot (botLog log)) {a : ServeAct ι} (hc : ReadsWell toks s a)
    (hs : ServeCase J toks s a s' ev) : Serves s' (log ++ ev) := by
  cases hs with
  | bot hstep hquiet =>
    refine h.goOn hstep rfl (fun k res batch hb => updatesAfter_of_not_polling (hquiet k res batch hb).1 res batch) (botLog_map_bot _)
      (fun up => ?_)
    rw [sentFor_map_bot, returnedCount_of_not_handling (fun k res batch hb => (hquiet k res batch hb).2)]
    rfl
  | @failed k i env curl mem ret bot' e hpoll hneg _ hfreed hstep =>
    refine h.goOn hstep hfreed ?_ (botLog_map_bot _) (fun up => ?_)
    · intro k' res batch hb
      cases hb
      exact updatesAfter_of_failed (Int.ne_of_lt hneg) []
    · rw [sentFor_map_bot, returnedCount_of_not_handling ?_ up]
      · rfl
      · intro k' res batch hb
        cases hb
        exact handlingUpdate_of_polling hpoll
  | stored hpoll hout hcall hstep => exact h.stored hinv h0 hrun hc hpoll hout hcall hstep
  | @handle k up sendRet ret bot' e hup hstep =>
    have hlog : botLog ((pongOf (s.entries up)).toList.map (.sendMessage up) ++ e.map .bot) = e := by
      rw [botLog_append, botLog_map_sendMessage, botLog_map_bot, List.nil_append]
    refine h.goOn hstep rfl ?_ hlog (fun up' => ?_)
    · intro k' res batch hb
      cases hb
      exact updatesAfter_of_not_polling (isPolling_of_handling hup) ret []
    · rw [sentFor_append, sentFor_map_bot, List.append_nil, sentFor_map_sendMessage, returnedCount_of_handling hup]
      split
      · rename_i heq
        rw [heq]
        exact (List.append_nil _).symm
      · rfl

theorem init {bot₀ : TgBotCtx} (h0 : TgBotCtx.Started bot₀ max) (hempty : bot₀.updates = none) : Serves (init bot₀) [] := by
  refine ⟨?_, fun c hc => absurd hc List.not_mem_nil, fun up hup => absurd hup (Nat.not_lt_zero up), ?_, fun _ => rfl⟩
  · intro up hz
    cases hz
  refine ⟨fun _ batch hb => absurd (hempty.symm.trans hb) nofun, ?_⟩
  show Distinct _ _ bot₀.pc.rest
  rw [h0.pc]
  exact ⟨List.nodup_nil, fun up hup => absurd hup List.not_mem_nil⟩

theorem of_run (h0 : TgBotCtx.Started s₀.bot max) (hinv₀ : Inv s₀ []) (hserves : Serves s₀ [])
    (h : (serveMachine J toks).Run (ReadsWell toks) s₀ s log) : Serves s log := by
  refine h.invariant (I := Serves) hserves ?_
  intro s log a s' ev hr hi hc hs
  have hmem := mem_run hr
  have hinv := TgBotMem.Inv.of_run hinv₀ hmem
  exact hi.step hinv h0 (bot_run hinv₀ hmem) hc (serve_cases hinv.noJson hinv.freed hs)

end Serves

/-! ## Main result -/

/-- The handlers of the update at an address that are yet to return: the main thread is at it, or it was prepared. -/
def nrPending (s : TgBotMem) (up : Nat) : Nat :=
  s.bot.unanswered (isHandlerOf up) + ((s.bot.pc.current.map BatchUpdate.addr).toList).count up

/-- The handlers of the update at an address that `punt_to_io_wq` has failed for. -/
def nrLost (up : Nat) (log : List ServeEvent) : Nat :=
  sqeCount .uncounted (fun data => isHandlerOf up data.sqe) (ringLog (botLog log))

/-- What has become of an update that was handed over: its handler has returned, and what was sent is the answer to the update; or nothing
was sent, and its handler is yet to return, or it was lost. -/
def AnsweredOnce (s : TgBotMem) (log : List ServeEvent) (up : Nat) : Prop :=
  (sentFor up log = (pongOf (s.entries up)).toList ∧ s.nrPending up = 0 ∧ nrLost up log = 0) ∨
    (sentFor up log = [] ∧ s.nrPending up + nrLost up log = 1)

/-- The addresses of the updates that were handed over. -/
def handedAddrs (log : List ServeEvent) : List Nat := (handedOver (botLog log)).map BatchUpdate.addr

/-- Each update that was handed over has a handler, once. -/
theorem count_handedAddrs (h0 : TgBotCtx.Started s₀.bot max) (hrun : TgBotCtx.machine.Reach s₀.bot s.bot (botLog log)) (up : Nat) :
    (handedAddrs log).count up = nrLost up log + nrReturned up log + s.nrPending up := by
  have hhandlers := TgBotCtx.handlers_eq h0 hrun (@isHandlerOf_op up)
  rw [countP_isHandlerOf] at hhandlers
  rw [handedAddrs, TgBotCtx.handlersOf_eq h0 hrun, List.count_append, hhandlers]
  unfold nrLost nrReturned nrPending
  omega

/-- In a run of the bot in which the responses are readable: each update is handed over once, and its entry is in a container that is live;
what is sent is the answers to updates that were handed over, each once; an update that was handed over is answered, unless its handler is
on its way or was lost; and every handler that a worker is in comes back. -/
theorem pings_get_one_pong {size : UInt32} {env : GwRing.InitEnv} {ring₀ : GwRing} (h0 : GwRing.gwRingInit size env = some (.ok ring₀))
    (addr tctxP updatesP : Nat) (h : (serveMachine J toks).Run (ReadsWell toks) (init (.init addr tctxP updatesP ring₀)) s log) :
    (handedAddrs log).Nodup ∧ (∀ up ∉ handedAddrs log, sentFor up log = []) ∧
    (∀ up ∈ handedAddrs log, AnsweredOnce s log up ∧ ∃ c ∈ s.containers, c.hasEntry up = true ∧ c.addr ∉ s.mem.freed) ∧
    ∀ k up, s.handlingUpdate k = some up → up ∈ handedAddrs log ∧ ∀ sendRet, (handleUpdate (s.entries up) sendRet).isSome = true := by
  obtain ⟨max, -, hfresh⟩ := GwRing.gwRingInit_fresh h0
  have hstart : TgBotCtx.Started (init (.init addr tctxP updatesP ring₀)).bot max := ⟨hfresh, rfl⟩
  have hinv₀ : Inv (init (.init addr tctxP updatesP ring₀)) [] := Inv.init hstart rfl
  have hserves := Serves.of_run hstart hinv₀ (Serves.init hstart rfl) h
  have hrun := bot_run hinv₀ (mem_run h)
  have hcount := count_handedAddrs hstart hrun
  have hdistinct := hserves.handing.rest.nil
  have hnodup : (handedAddrs log).Nodup := by
    have hn := hdistinct.nodup
    rwa [List.append_nil] at hn
  refine ⟨hnodup, fun up hup => ?_, fun up hup => ⟨?_, ?_⟩, fun k up hk => ⟨?_, handleUpdate_isSome (hserves.texts up)⟩⟩
  · have hzero := List.count_eq_zero.2 hup
    have hreturned : nrReturned up log = 0 := by
      have := hcount up
      omega
    rw [hserves.sent up, hreturned]
    rfl
  · have hone := hcount up
    rw [List.count_eq_one_of_mem hnodup hup] at hone
    have hsent := hserves.sent up
    by_cases hreturned : nrReturned up log = 0
    · rw [hreturned] at hsent
      exact Or.inr ⟨hsent, by omega⟩
    · have hreturned : nrReturned up log = 1 := by omega
      rw [hreturned] at hsent
      exact Or.inl ⟨hsent.trans (List.append_nil _), by omega, by omega⟩
  · obtain ⟨update, hupdate, rfl⟩ := List.mem_map.1 hup
    obtain ⟨c, hc, hentry⟩ := hserves.covers update.addr (hdistinct.below update (List.mem_append_left _ hupdate))
    exact ⟨c, hc, hentry, hserves.live c hc⟩
  · obtain ⟨data, hexec, hop, rfl⟩ := handler_of_handling hk
    have hpos : 0 < execCount ExecPc.isUnhandled (fun d => isHandlerOf data.sqe.tgModuleHandle.update d.sqe) s.bot.ring.execs := by
      refine List.countP_pos_iff.2 ⟨_, List.mem_of_getElem? hexec, ?_⟩
      show (true && isHandlerOf data.sqe.tgModuleHandle.update data.sqe) = true
      simp [isHandlerOf, hop]
    refine List.count_pos_iff.1 ?_
    rw [hcount]
    unfold nrPending TgBotCtx.unanswered GwRing.unanswered
    omega

/-- A response whose one update is a ping. -/
def pingText : String :=
  "\x7b\"ok\":true,\"result\":[\x7b\"update_id\":1,\"message\":\x7b\"message_id\":2,\"date\":3," ++
    "\"from\":\x7b\"id\":4,\"first_name\":\"a\"\x7d,\"chat\":\x7b\"id\":5\x7d,\"text\":\"/ping\"\x7d\x7d]\x7d"

/-- What the parser is handed of it, and the value. -/
def pingResponse : List UInt8 × JsonObject :=
  (asciiBytes pingText ++ [0],
    .node 20 (.object ["ok", "result"])
      [.node 21 (.boolean true) [], .node 22 .array
        [.node 0 (.object ["update_id", "message"])
          [.node 1 (.int 1) [], .node 2 (.object ["message_id", "date", "from", "chat", "text"])
            [.node 3 (.int 2) [], .node 4 (.int 3) [],
              .node 5 (.object ["id", "first_name"]) [.node 6 (.int 4) [], .node 7 (.string "a") []],
              .node 8 (.object ["id"]) [.node 9 (.int 5) []], .node 10 (.string "/ping") []]]]])

/-- Whether a response is readable is said by what the tokener makes of it. -/
theorem readable_textTokener {data : List UInt8} {jobj : JsonObject}
    (h : ∀ result elems, jsonObjectObjectGetEx jobj "result" = some result → jsonObjectArray result = some elems →
      Readable plentyEnv.messages 0 elems) : ReadableResponse (textTokener (data ++ [0], jobj)) plentyEnv (.done data) := by
  intro data' jobj' result elems hdata hparse
  obtain rfl : data = data' := CurlHttpGet.done.inj hdata
  have hobj := (parseJson_textTokener (data ++ [0], jobj) (data.length + 1)).symm.trans hparse
  obtain rfl : jobj = jobj' := Except.ok.inj (Option.some.inj hobj)
  exact h result elems

/-- That response is readable. -/
theorem readable_pingResponse : ReadableResponse (textTokener pingResponse) plentyEnv (.done (asciiBytes pingText)) := by
  refine readable_textTokener fun result elems hresult helems => ?_
  cases hresult
  cases helems
  rintro (_ | k) elem helem
  · cases helem
    refine ⟨by simp, fun jmsg hjmsg => ?_⟩
    cases hjmsg
    decide
  · cases helem

/-- The bot with this response. -/
def pingMachine : Machine TgBotMem (ServeAct Unit) ServeEvent := serveMachine plainJsonC (fun _ => textTokener pingResponse)

/-- The first poll gets the response, the ping is handed over, and a worker runs its handler. -/
def pingHandled : List (ServeAct Unit) :=
  (TgBotCtx.firstPoll []).dropLast.map (fun b => .mem (.bot b)) ++
    [.mem (.getUpdates 0 () plentyEnv (.done (asciiBytes pingText)))] ++
    ([.ring (.postStart (.worker 0)), .ring .postStore, .ring .postPublish] ++ List.replicate 12 .main ++
      [.ring (.submitNext true), .ring (.queuer [] 0), .ring (.submitNext true), .ring (.run 0), .ring (.run 0), .ring (.run 0),
        .ring (.worker 0 []), .ring (.run 0), .exec 0 0 []] : List TgBotCtx.Act).map (fun b => .mem (.bot b)) ++ [.handle 0 0]

theorem readsWell_pingHandled : ∀ a ∈ pingHandled, ∀ s, ReadsWell (fun _ => textTokener pingResponse) s a := by
  intro a ha s
  simp only [pingHandled, List.mem_append, List.mem_map, List.mem_singleton] at ha
  rcases ha with ((⟨b, -, rfl⟩ | rfl) | ⟨b, -, rfl⟩) | rfl
  · trivial
  · exact readable_pingResponse
  · trivial
  · trivial

/-- The ping gets its answer. -/
theorem pings_get_one_pong_first : ∃ (ring₀ : GwRing) (s : TgBotMem) (log : List ServeEvent),
    GwRing.gwRingInit 8192 GwRing.InitEnv.ok = some (.ok ring₀) ∧
    pingMachine.Run (ReadsWell (fun _ => textTokener pingResponse)) (init (.init 1 2 3 ring₀)) s log ∧ handedAddrs log = [0] ∧
    pongOf (s.entries 0) = some (CurlTransfer.pingCall 5 2) ∧ AnsweredOnce s log 0 ∧ sentFor 0 log = [CurlTransfer.pingCall 5 2] := by
  have hrun : ∃ ring₀ : GwRing, GwRing.gwRingInit 8192 GwRing.InitEnv.ok = some (.ok ring₀) ∧
      (pingMachine.exec (init (.init 1 2 3 ring₀)) pingHandled).map
        (fun r => (handedAddrs r.2, pongOf (r.1.entries 0), sentFor 0 r.2)) =
        some ([0], some (CurlTransfer.pingCall 5 2), [CurlTransfer.pingCall 5 2]) := by
    refine ⟨_, rfl, ?_⟩
    set_option maxRecDepth 20000 in decide
  obtain ⟨ring₀, h0, he⟩ := hrun
  obtain ⟨s, log, h, hval⟩ := Machine.exists_of_exec_all readsWell_pingHandled
    (fun (s : TgBotMem) log => (handedAddrs log, pongOf (s.entries 0), sentFor 0 log)) he
  simp only [Prod.mk.injEq] at hval
  obtain ⟨hhanded, hpong, hsent⟩ := hval
  have hanswered := (pings_get_one_pong h0 1 2 3 h).2.2.1 0 (by rw [hhanded]; exact List.mem_cons_self)
  exact ⟨ring₀, s, log, h0, h, hhanded, hpong, hanswered.1, hsent⟩

end TgBotMem

end GwBot

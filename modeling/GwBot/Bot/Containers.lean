import GwBot.Bot.Memory
import Mathlib.Data.List.Nodup

/-!
# The containers are never freed

`main.c` stores a container in `ctx->updates`, hands its updates out, and overwrites the pointer: nothing calls `tgapi_free_updates`. A
batch is released as it should be only as long as none has come to its end.
-/

namespace GwBot

open Lib

/-- The updates whose handlers the main thread has yet to prepare. -/
def MainPc.toHandle : MainPc → List BatchUpdate
  | .updates rest _ => rest
  | .getSqe (.handle up rest _) _ | .submitFull (.handle up rest _) | .inSubmitFull (.handle up rest _) => up :: rest
  | _ => []

namespace TgBotCtx

variable {bot bot' : TgBotCtx} {a : Act} {log ev : List BotEvent} {n : Nat}

/-- The main thread knows the addresses of no other updates than those below `n`. -/
structure UpdatesBelow (n : Nat) (bot : TgBotCtx) (log : List BotEvent) : Prop where
  updates : ∀ batch, bot.updates = some batch → ∀ up ∈ batch, up.addr < n
  toHandle : ∀ up ∈ bot.pc.toHandle, up.addr < n
  prepared : ∀ sqe ∈ preparedOf log, sqe.op = GW_RING_OP_MODULE_HANDLE → sqe.tgModuleHandle.update < n

namespace UpdatesBelow

theorem mono {n' : Nat} (h : UpdatesBelow n bot log) (hn : n ≤ n') : UpdatesBelow n' bot log :=
  ⟨fun batch hb up hup => Nat.lt_of_lt_of_le (h.updates batch hb up hup) hn, fun up hup => Nat.lt_of_lt_of_le (h.toHandle up hup) hn,
    fun sqe hsqe hop => Nat.lt_of_lt_of_le (h.prepared sqe hsqe hop) hn⟩

theorem processCqe (h : UpdatesBelow n bot log) (cqe : GwRingCqe) : ∀ up ∈ (bot.processCqe cqe).toHandle, up.addr < n := by
  rcases processCqe_cases bot cqe with ⟨ret, hpc⟩ | ⟨rest, res, hpc, hrest⟩ | hpc
  · rw [hpc]
    nofun
  · rw [hpc]
    exact h.updates rest hrest
  · rw [hpc]
    nofun

/-- The main thread learns of updates only from a worker. -/
theorem step (h : UpdatesBelow n bot log) (hs : StepCase bot a bot' ev)
    (hexec : ∀ k res batch, a = .exec k res batch → bot.updatesAfter k res batch = bot.updates ∨ ∀ up ∈ batch, up.addr < n) :
    UpdatesBelow n bot' (log ++ ev) := by
  have hprepared : preparedOf ev = [] → ∀ sqe ∈ preparedOf (log ++ ev), sqe.op = GW_RING_OP_MODULE_HANDLE →
      sqe.tgModuleHandle.update < n := by
    intro hnil
    rw [preparedOf_append, hnil, List.append_nil]
    exact h.prepared
  cases hs with
  | @full prep again hat _ =>
    refine ⟨h.updates, ?_, hprepared rfl⟩
    have hhandle := h.toHandle
    rw [hat] at hhandle
    cases again with
    | true => nofun
    | false => cases prep <;> exact hhandle
  | @prepare prep again slot sqe hat _ _ _ _ hsqe =>
    have hhandle := h.toHandle
    rw [hat] at hhandle
    cases prep with
    | poll ret =>
      refine ⟨nofun, ?_, ?_⟩
      · cases ret <;> nofun
      · intro x hx hop
        rw [preparedOf_append] at hx
        rcases List.mem_append.1 hx with hx | hx
        · exact h.prepared x hx hop
        · rw [List.mem_singleton.1 hx, hsqe] at hop
          nomatch hop
    | handle up rest res =>
      refine ⟨h.updates, fun u hu => hhandle u (List.mem_cons_of_mem _ hu), ?_⟩
      intro x hx hop
      rw [preparedOf_append] at hx
      rcases List.mem_append.1 hx with hx | hx
      · exact h.prepared x hx hop
      · rw [List.mem_singleton.1 hx, hsqe]
        exact hhandle up List.mem_cons_self
  | @own maxUpdateId pc ev ho =>
    have hhandle := h.toHandle
    have hpc : (∀ up ∈ pc.toHandle, up.addr < n) ∧ preparedOf ev = [] := by
      cases ho with
      | @submittedFull prep hat _ =>
        rw [hat] at hhandle
        refine ⟨?_, rfl⟩
        cases prep <;> exact hhandle
      | submitted _ _ =>
        refine ⟨?_, rfl⟩
        split <;> nofun
      | updatesEnd _ => exact ⟨nofun, rfl⟩
      | update hat =>
        rw [hat] at hhandle
        exact ⟨hhandle, rfl⟩
    exact ⟨h.updates, hpc.1, hprepared hpc.2⟩
  | @call b ring' pc e hcall hstep =>
    have hhandle := h.toHandle
    have hpc : ∀ up ∈ pc.toHandle, up.addr < n := by
      cases hcall with
      | @submitFull prep _ hat =>
        rw [hat] at hhandle
        cases prep <;> exact hhandle
      | visit cqe _ => exact h.processCqe cqe
      | submit _ _ | sleeps _ _ | forEach _ _ | loadHead _ _ | loadEnd _ _ _ => nofun
      | waited _ _ _ | next _ _ | advance _ _ => split <;> nofun
    exact ⟨h.updates, hpc, hprepared (preparedOf_map_ring e)⟩
  | inner _ _ => exact ⟨h.updates, h.toHandle, hprepared (preparedOf_map_ring _)⟩
  | @exec k res batch ring' e _ =>
    refine ⟨?_, h.toHandle, hprepared (preparedOf_map_ring e)⟩
    show ∀ b, bot.updatesAfter k res batch = some b → _
    rcases hexec k res batch rfl with heq | hbatch
    · rw [heq]
      exact h.updates
    · intro b hb
      unfold updatesAfter at hb
      repeat' split at hb
      · cases hb
        exact hbatch
      · exact h.updates b hb
      · exact h.updates b hb

end UpdatesBelow

end TgBotCtx

namespace TgBotMem

variable {ι : Type} {J : JsonC} {toks : ι → JsonTokener} {s s' s₀ : TgBotMem} {a : Act ι} {log ev : List BotEvent}
  {C : TgBotMem → Act ι → Prop} {max : UInt32}

/-! ## What a batch is owed -/

/-- Each container that was stored is freed at most once, not while a handler of one of its updates is out, and it has been freed when
none is out and `ctx->updates` has been reset; and all live ones but one have handlers. -/
structure ReleasedOnce (s : TgBotMem) : Prop where
  once : ∀ c ∈ s.containers, s.mem.freed.count c.addr ≤ 1
  after : ∀ c ∈ s.containers, 0 < s.nrHandlers c → c.addr ∉ s.mem.freed
  done : ∀ c ∈ s.containers, s.current ≠ some c → s.nrHandlers c = 0 → c.addr ∈ s.mem.freed
  live : s.containers.countP (fun c => c.addr ∉ s.mem.freed) ≤ s.containers.countP (fun c => 0 < s.nrHandlers c) + 1

/-- The step lets no batch go. When a poll is prepared, a live container in `ctx->updates` has handlers that are out; a handler is not
prepared for an update of a container that has been freed; and a handler that is deleted is not the last one of a container that is no
more in `ctx->updates`. -/
def LetsNoBatchGo (s : TgBotMem) : Act ι → Prop
  | .bot .main =>
    match s.bot.pc with
    | .getSqe (.poll _) _ => s.bot.ring.gwRingGetSqe.2 ≠ none → ∀ c ∈ s.current, c.addr ∉ s.mem.freed → 0 < s.nrHandlers c
    | .getSqe (.handle up _ _) _ =>
      s.bot.ring.gwRingGetSqe.2 ≠ none → ∀ c ∈ s.containers, c.hasEntry up.addr = true → c.addr ∉ s.mem.freed
    | _ => True
  | .bot (.ring b) =>
    ∀ c ∈ s.containers, s.current ≠ some c → 0 < s.bot.givenBackCount (.ring b) c.isHandler → 1 < s.nrHandlers c
  | _ => True

instance (s : TgBotMem) (a : Act ι) : Decidable (LetsNoBatchGo s a) := by
  unfold LetsNoBatchGo
  split
  · split <;> infer_instance
  · infer_instance
  · infer_instance

/-! ## What a step does -/

/-- No entry has its pointer to the JSON set. -/
def EntriesNoJson (s : TgBotMem) : Prop := ∀ up, (s.entries up).json = .nil

/-- Then nothing happens where references are taken and dropped. -/
theorem effect_noJson (h : s.EntriesNoJson) (e : BotEvent) : s.effect e = s := by
  unfold effect
  split
  · rename_i up
    rw [tgapiIncRefUpdate, h up.addr]
    rfl
  · rename_i data _
    have hfree : tgapiFreeUpdate (s.entries data.sqe.tgModuleHandle.update) s.mem = (s.mem, s.entries data.sqe.tgModuleHandle.update) := by
      rw [tgapiFreeUpdate, h]
    have hsame : writeSlot s.entries data.sqe.tgModuleHandle.update (s.entries data.sqe.tgModuleHandle.update) = s.entries := by
      funext up
      unfold writeSlot
      split
      · rename_i hup
        rw [hup]
      · rfl
    simp only [hfree, hsame]
  · rfl

theorem effects_noJson (h : s.EntriesNoJson) (ev : List BotEvent) : ev.foldl effect s = s := by
  induction ev with
  | nil => rfl
  | cons e ev ih =>
    rw [List.foldl_cons, effect_noJson h]
    exact ih

/-- A step of the bot leaves the memory as it is. -/
theorem botStep_eq_some (h : s.EntriesNoJson) {b : TgBotCtx.Act} (hs : s.botStep b = some (s', ev)) :
    ∃ bot', s.bot.step b = some (bot', ev) ∧ s' = { s with bot := bot' } := by
  obtain ⟨⟨bot', e⟩, hstep, heq⟩ := Option.map_eq_some_iff.1 hs
  have hno : ({ s with bot := bot' } : TgBotMem).EntriesNoJson := h
  simp only [Prod.mk.injEq] at heq
  obtain ⟨rfl, rfl⟩ := heq
  exact ⟨bot', hstep, effects_noJson hno e⟩

theorem store_noJson (h : s.EntriesNoJson) {updates : TgUpdates} (hno : NoJson updates.updates) : (s.store updates).EntriesNoJson := by
  intro up
  show TgUpdate.json (if _ then _ else _) = .nil
  split
  · exact hno.getD _
  · exact h up

/-- What a step does: the bot goes on; or `tgapi_call_get_updates` fails in worker `k`, or stores a container. -/
inductive Move (J : JsonC) (toks : ι → JsonTokener) (s : TgBotMem) : Act ι → TgBotMem → List BotEvent → Prop where
  | bot {b : TgBotCtx.Act} {bot' : TgBotCtx} {ev : List BotEvent} : s.bot.step b = some (bot', ev) →
      (∀ k res batch, b = .exec k res batch → s.isPolling k = false) → Move J toks s (.bot b) { s with bot := bot' } ev
  | failed {k : Nat} {i : ι} {env : ParseEnv} {curl : CurlHttpGet} {mem : Mem} {ret : Int} {bot' : TgBotCtx} {ev : List BotEvent} :
      s.isPolling k = true → ret < 0 → mem.next = s.mem.next → mem.freed = s.mem.freed → s.bot.step (.exec k ret []) = some (bot', ev) →
      Move J toks s (.getUpdates k i env curl) { s with mem := mem, bot := bot' } ev
  | stored {k : Nat} {i : ι} {env : ParseEnv} {curl : CurlHttpGet} {mem : Mem} {updates : TgUpdates} {bot' : TgBotCtx}
      {ev : List BotEvent} : s.isPolling k = true → HandedOut s.mem mem updates →
      tgapiCallGetUpdates J (toks i) env s.mem curl = some (mem, some updates, 0) →
      s.bot.step (.exec k 0 (batchOf s.nextEntry updates)) = some (bot', ev) →
      Move J toks s (.getUpdates k i env curl) { s.store updates with mem := mem, bot := bot' } ev

theorem step_move (hno : s.EntriesNoJson) (hfreed : ∀ b ∈ s.mem.freed, b < s.mem.next) (hs : s.step J toks a = some (s', ev)) :
    Move J toks s a s' ev := by
  unfold step at hs
  split at hs
  · rename_i k res batch
    split at hs
    · nomatch hs
    · rename_i hpoll
      obtain ⟨bot', hstep, rfl⟩ := botStep_eq_some hno hs
      refine Move.bot hstep ?_
      rintro k' res' batch' he
      cases he
      exact Bool.not_eq_true _ ▸ hpoll
  · rename_i b hb
    obtain ⟨bot', hstep, rfl⟩ := botStep_eq_some hno hs
    exact Move.bot hstep (fun k res batch he => absurd he (hb k res batch))
  · rename_i k i env curl
    split at hs
    · rename_i hpoll
      split at hs
      · nomatch hs
      · rename_i mem stored ret hcall
        obtain ⟨hneg, rfl, hnext, hfreed'⟩ | ⟨updates, rfl, rfl, hout⟩ := tgapiCallGetUpdates_cases hfreed hcall
        · obtain ⟨bot', hstep, rfl⟩ := botStep_eq_some (s := { s with mem := mem }) hno hs
          exact Move.failed hpoll hneg hnext hfreed' hstep
        · have hno' : (({ s with mem := mem } : TgBotMem).store updates).EntriesNoJson :=
            store_noJson (s := { s with mem := mem }) hno hout.noJson
          obtain ⟨bot', hstep, rfl⟩ := botStep_eq_some hno' hs
          exact Move.stored hpoll hout hcall hstep
    · nomatch hs

/-- Each is a step of the bot, and a run is a run of the bot. -/
theorem Move.bot_step (h : Move J toks s a s' ev) : ∃ b, s.bot.step b = some (s'.bot, ev) := by
  cases h with
  | bot hstep _ => exact ⟨_, hstep⟩
  | failed _ _ _ _ hstep => exact ⟨_, hstep⟩
  | stored _ _ _ hstep => exact ⟨_, hstep⟩

/-! ## What holds in every run -/

/-- What holds of the memory: no entry has its pointer to the JSON set, only blocks that were handed out have been freed, each container
has a block of its own, freed at most once, and the main thread knows of no updates that are not there. -/
structure Inv (s : TgBotMem) (log : List BotEvent) : Prop where
  noJson : s.EntriesNoJson
  freed : ∀ b ∈ s.mem.freed, b < s.mem.next
  addrs : ∀ c ∈ s.containers, c.addr < s.mem.next
  nodup : (s.containers.map Container.addr).Nodup
  once : ∀ c ∈ s.containers, s.mem.freed.count c.addr ≤ 1
  below : TgBotCtx.UpdatesBelow s.nextEntry s.bot log

/-- Where no worker comes back from `tgapi_call_get_updates`, `ctx->updates` stays. -/
theorem updatesAfter_of_not_polling {k : Nat} (h : s.isPolling k = false) (res : Int) (batch : List BatchUpdate) :
    s.bot.updatesAfter k res batch = s.bot.updates := by
  unfold isPolling at h
  unfold TgBotCtx.updatesAfter
  split
  · rename_i data hk
    rw [hk] at h
    exact if_neg (fun hst => absurd hst.1 (by simpa using h))
  · rfl

/-- A call that fails stores nothing. -/
theorem updatesAfter_of_failed {k : Nat} {res : Int} (h : res ≠ 0) (batch : List BatchUpdate) :
    s.bot.updatesAfter k res batch = s.bot.updates := by
  unfold TgBotCtx.updatesAfter
  split
  · exact if_neg (fun hst => h hst.2)
  · rfl

theorem poll_of_polling {k : Nat} (h : s.isPolling k = true) :
    ∃ data, s.bot.ring.execs[k]? = some (some ⟨data, .handling⟩) ∧ data.sqe.op = GW_RING_OP_TG_API_CALL := by
  unfold isPolling at h
  split at h
  · rename_i data hk
    exact ⟨data, hk, beq_iff_eq.1 h⟩
  · cases h

/-- A call that returns 0 stores its batch. -/
theorem updatesAfter_of_polling {k : Nat} {data : WqSqeData} (hk : s.bot.ring.execs[k]? = some (some ⟨data, .handling⟩))
    (hop : data.sqe.op = GW_RING_OP_TG_API_CALL) (batch : List BatchUpdate) : s.bot.updatesAfter k 0 batch = some batch := by
  unfold TgBotCtx.updatesAfter
  rw [hk]
  exact if_pos ⟨hop, rfl⟩

theorem mem_batchOf {entry : Nat} {updates : TgUpdates} {up : BatchUpdate} (h : up ∈ batchOf entry updates) :
    up.addr < entry + updates.len := by
  obtain ⟨i, hi, rfl⟩ := List.mem_map.1 h
  exact Nat.add_lt_add_left (List.mem_range.1 hi) entry

namespace Inv

theorem step (h : Inv s log) (hm : Move J toks s a s' ev) : Inv s' (log ++ ev) := by
  cases hm with
  | bot hstep hpoll =>
    refine ⟨h.noJson, h.freed, h.addrs, h.nodup, h.once, h.below.step (TgBotCtx.step_cases hstep) ?_⟩
    intro k res batch he
    exact Or.inl (updatesAfter_of_not_polling (hpoll k res batch he) res batch)
  | @failed k i env curl mem ret bot' ev _ hneg hnext hfreed hstep =>
    refine ⟨h.noJson, ?_, ?_, h.nodup, ?_, h.below.step (TgBotCtx.step_cases hstep) ?_⟩
    · show ∀ b ∈ mem.freed, b < mem.next
      rw [hnext, hfreed]
      exact h.freed
    · show ∀ c ∈ s.containers, c.addr < mem.next
      rw [hnext]
      exact h.addrs
    · show ∀ c ∈ s.containers, mem.freed.count c.addr ≤ 1
      rw [hfreed]
      exact h.once
    · intro k' res batch he
      cases he
      exact Or.inl (updatesAfter_of_failed (Int.ne_of_lt hneg) [])
  | @stored k i env curl mem updates bot' ev _ hout _ hstep =>
    obtain ⟨hnext, l, hl, hbound⟩ := hout.freesNew
    have hnew : ∀ c ∈ s.containers, c.addr ≠ updates.addr := by
      intro c hc he
      have hlt := h.addrs c hc
      have hle := hout.le_addr
      omega
    refine ⟨store_noJson h.noJson hout.noJson, ?_, ?_, ?_, ?_, ?_⟩
    · show ∀ b ∈ mem.freed, b < mem.next
      rw [hl]
      intro b hb
      rcases List.mem_append.1 hb with hb | hb
      · exact Nat.lt_of_lt_of_le (h.freed b hb) hnext
      · exact (hbound b hb).2
    · intro c hc
      rcases List.mem_cons.1 hc with rfl | hc
      · exact hout.addr_lt
      · exact Nat.lt_of_lt_of_le (h.addrs c hc) hnext
    · refine List.nodup_cons.2 ⟨?_, h.nodup⟩
      intro hm
      obtain ⟨c, hc, he⟩ := List.mem_map.1 hm
      exact hnew c hc he
    · intro c hc
      rcases List.mem_cons.1 hc with rfl | hc
      · exact hout.once
      · show mem.freed.count c.addr ≤ 1
        rw [hl, List.count_append]
        have hzero : l.count c.addr = 0 := by
          refine List.count_eq_zero.2 (fun hm => ?_)
          have hle := (hbound _ hm).1
          have hlt := h.addrs c hc
          omega
        have hone := h.once c hc
        omega
    · have hbelow : TgBotCtx.UpdatesBelow (s.nextEntry + updates.len) s.bot log := h.below.mono (Nat.le_add_right _ _)
      refine hbelow.step (TgBotCtx.step_cases hstep) ?_
      intro k' res batch he
      cases he
      exact Or.inr (fun up hup => mem_batchOf hup)

theorem init {bot₀ : TgBotCtx} (h0 : TgBotCtx.Started bot₀ max) (hempty : bot₀.updates = none) : Inv (init bot₀) [] := by
  refine ⟨fun _ => rfl, nofun, nofun, List.nodup_nil, nofun, ?_, ?_, nofun⟩
  · show ∀ batch, bot₀.updates = some batch → _
    rw [hempty]
    nofun
  · show ∀ up ∈ bot₀.pc.toHandle, _
    rw [h0.pc]
    nofun

theorem of_run (h0 : Inv s₀ []) (h : (machine J toks).Run C s₀ s log) : Inv s log := by
  refine h.invariant (I := Inv) h0 ?_
  intro s log a s' ev _ hi _ hs
  exact hi.step (step_move hi.noJson hi.freed hs)

end Inv

/-- A run is a run of the bot. -/
theorem bot_run (h0 : Inv s₀ []) (h : (machine J toks).Run C s₀ s log) : TgBotCtx.machine.Reach s₀.bot s.bot log := by
  refine h.invariant (I := fun s log => TgBotCtx.machine.Reach s₀.bot s.bot log) Machine.Run.init ?_
  intro s log a s' ev hr hi _ hs
  have hinv := Inv.of_run h0 hr
  obtain ⟨b, hb⟩ := (step_move hinv.noJson hinv.freed hs).bot_step
  exact hi.step b trivial hb

/-! ## Live containers -/

/-- Every container that was stored is live. -/
def AllLive (s : TgBotMem) : Prop := ∀ c ∈ s.containers, c.addr ∉ s.mem.freed

/-- They stay so where no response has a null among its updates. -/
theorem AllLive.step (hlive : AllLive s) (hinv : Inv s log) (hm : Move J toks s a s' ev)
    (hnull : ∀ k i env curl, a = .getUpdates k i env curl → NoNullResponse (toks i) env curl) : AllLive s' := by
  cases hm with
  | bot _ _ => exact hlive
  | failed _ _ _ hfreed _ => exact fun c hc hm => hlive c hc (hfreed ▸ hm)
  | @stored k i env curl mem updates bot' ev _ hout hcall _ =>
    intro c hc
    rcases List.mem_cons.1 hc with rfl | hc
    · exact container_live (hnull k i env curl rfl) hinv.freed hcall
    · exact hout.freesNew.not_freed (hinv.addrs c hc) (hlive c hc)

/-! ## Batches that go on -/

theorem isHandler_op (c : Container) (sqe : GwRingSqe) (h : c.isHandler sqe = true) : sqe.op = GW_RING_OP_MODULE_HANDLE :=
  beq_iff_eq.1 (Bool.and_eq_true_iff.1 h).1

/-- A container is live while handlers of its updates are out, and not when none is out and `ctx->updates` has been reset. -/
structure InUse (s : TgBotMem) (c : Container) : Prop where
  after : 0 < s.nrHandlers c → c.addr ∉ s.mem.freed
  done : s.current ≠ some c → s.nrHandlers c = 0 → c.addr ∈ s.mem.freed

theorem countP_le_add {α : Type} {l : List α} {p q r : α → Bool} (h : ∀ x ∈ l, p x = true → q x = true ∨ r x = true) :
    l.countP p ≤ l.countP q + l.countP r := by
  induction l with
  | nil => exact Nat.le_refl 0
  | cons x l ih =>
    have htail := ih (fun y hy => h y (List.mem_cons_of_mem x hy))
    have hhead := h x List.mem_cons_self
    rw [List.countP_cons, List.countP_cons, List.countP_cons]
    by_cases hp : p x = true
    · rcases hhead hp with hq | hr
      · rw [if_pos hp, if_pos hq]
        omega
      · rw [if_pos hp, if_pos hr]
        omega
    · rw [if_neg hp]
      omega

/-- At most one container is in `ctx->updates`. -/
theorem countP_current_le (h : Inv s log) : s.containers.countP (fun c => s.current = some c) ≤ 1 := by
  cases hcur : s.current with
  | none => simp
  | some c =>
    have hcount : s.containers.countP (fun d => some c = some d) = s.containers.count c := by
      rw [List.count]
      refine List.countP_congr (fun d _ => ?_)
      simp only [Option.some.injEq, decide_eq_true_eq, beq_iff_eq]
      exact eq_comm
    rw [hcount]
    rw [(List.Nodup.of_map _ h.nodup).count]
    split <;> omega

/-- It comes to the containers one by one. -/
theorem releasedOnce_iff (h : Inv s log) : ReleasedOnce s ↔ ∀ c ∈ s.containers, InUse s c := by
  refine ⟨fun hrel c hc => ⟨hrel.after c hc, hrel.done c hc⟩, fun huse => ?_⟩
  refine ⟨h.once, fun c hc => (huse c hc).after, fun c hc => (huse c hc).done, ?_⟩
  have hone := countP_current_le h
  refine Nat.le_trans (countP_le_add (q := fun c => 0 < s.nrHandlers c) (r := fun c => s.current = some c) ?_)
    (Nat.add_le_add_left hone _)
  intro c hc hlive
  simp only [decide_eq_true_eq] at hlive ⊢
  by_contra hno
  rw [not_or] at hno
  exact hlive ((huse c hc).done hno.2 (Nat.eq_zero_of_not_pos hno.1))

/-- Where the containers, their handlers, `ctx->updates` and the memory stay, they are in use as before. -/
theorem InUse.same {c : Container} (hfreed : s'.mem.freed = s.mem.freed) (hcur : s'.current = s.current)
    (hnr : s'.nrHandlers c = s.nrHandlers c) : InUse s' c ↔ InUse s c := by
  constructor
  · rintro ⟨h1, h2⟩
    rw [hfreed, hnr] at h1
    rw [hfreed, hnr, hcur] at h2
    exact ⟨h1, h2⟩
  · rintro ⟨h1, h2⟩
    refine ⟨?_, ?_⟩
    · rw [hfreed, hnr]
      exact h1
    · rw [hfreed, hnr, hcur]
      exact h2

/-- `ctx->updates` points to the same container as before. -/
theorem current_eq {bot' : TgBotCtx} (h : bot'.updates = s.bot.updates) : ({ s with bot := bot' } : TgBotMem).current = s.current := by
  unfold current
  simp only [h]

/-- Where it takes no entry, the main thread lets no batch go. -/
theorem letsNoBatchGo_main (h : ∀ prep again, s.bot.pc = .getSqe prep again → s.bot.ring.gwRingGetSqe.2 = none) :
    LetsNoBatchGo s (.bot .main : Act ι) := by
  simp only [LetsNoBatchGo]
  split
  · rename_i ret again hpc
    exact fun hroom => absurd (h _ _ hpc) hroom
  · rename_i up rest res again hpc
    exact fun hroom => absurd (h _ _ hpc) hroom
  · trivial

variable {bot' : TgBotCtx}

/-- When the bot goes on and `ctx->updates` and the handlers stay, all containers are in use as before. -/
theorem inUse_same (huse : ∀ c ∈ s.containers, InUse s c) (hup : bot'.updates = s.bot.updates)
    (hnr : ∀ c : Container, bot'.undeleted c.isHandler = s.nrHandlers c) :
    ∀ c ∈ s.containers, InUse { s with bot := bot' } c := by
  intro c hc
  have hsame : InUse { s with bot := bot' } c ↔ InUse s c := InUse.same rfl (current_eq hup) (hnr c)
  exact hsame.2 (huse c hc)

/-- When a poll is prepared, `ctx->updates` is reset, and the container that it pointed to needs handlers to be in use. -/
theorem inUse_poll (huse : ∀ c ∈ s.containers, InUse s c) (hup : bot'.updates = none)
    (hnr : ∀ c : Container, bot'.undeleted c.isHandler = s.nrHandlers c) :
    (∀ c ∈ s.containers, InUse { s with bot := bot' } c) ↔ ∀ c ∈ s.current, c.addr ∉ s.mem.freed → 0 < s.nrHandlers c := by
  have hcur : ({ s with bot := bot' } : TgBotMem).current = none := by
    unfold current
    simp only [hup]
  constructor
  · intro hall c hc hlive
    have hmem : c ∈ s.containers := by
      unfold current at hc
      split at hc
      · exact List.mem_of_head? hc
      · nomatch hc
    by_contra hno
    refine hlive ((hall c hmem).done (by rw [hcur]; nofun) ?_)
    exact (hnr c).trans (Nat.eq_zero_of_not_pos hno)
  · intro hall c hc
    refine ⟨fun hpos => (huse c hc).after (hnr c ▸ hpos), fun _ hz => ?_⟩
    have hz : s.nrHandlers c = 0 := (hnr c).symm.trans hz
    by_cases hcur' : s.current = some c
    · by_contra hlive
      have hpos := hall c hcur' hlive
      omega
    · exact (huse c hc).done hcur' hz

/-- When a handler is prepared, the container of its update must not have been freed. -/
theorem inUse_handle (huse : ∀ c ∈ s.containers, InUse s c) {up : Nat} (hup : bot'.updates = s.bot.updates)
    (hnr : ∀ c : Container, bot'.undeleted c.isHandler = s.nrHandlers c + if c.hasEntry up then 1 else 0) :
    (∀ c ∈ s.containers, InUse { s with bot := bot' } c) ↔ ∀ c ∈ s.containers, c.hasEntry up = true → c.addr ∉ s.mem.freed := by
  constructor
  · intro hall c hc hentry
    refine (hall c hc).after ?_
    show 0 < bot'.undeleted c.isHandler
    rw [hnr c, if_pos hentry]
    exact Nat.succ_pos _
  · intro hall c hc
    refine ⟨fun hpos => ?_, fun hcur hz => ?_⟩
    · have hpos : 0 < bot'.undeleted c.isHandler := hpos
      rw [hnr c] at hpos
      by_cases hentry : c.hasEntry up = true
      · exact hall c hc hentry
      · rw [if_neg hentry] at hpos
        exact (huse c hc).after hpos
    · have hz : bot'.undeleted c.isHandler = 0 := hz
      rw [hnr c] at hz
      rw [current_eq hup] at hcur
      exact (huse c hc).done hcur (Nat.eq_zero_of_add_eq_zero_right hz)

/-- When a handler is deleted, it must not be the last one of a container that is no more in `ctx->updates`. -/
theorem inUse_givenBack (huse : ∀ c ∈ s.containers, InUse s c) {given : Container → Nat} (hone : ∀ c, given c ≤ 1)
    (hup : bot'.updates = s.bot.updates)
    (hnr : ∀ c : Container, bot'.undeleted c.isHandler + given c = s.nrHandlers c) :
    (∀ c ∈ s.containers, InUse { s with bot := bot' } c) ↔
      ∀ c ∈ s.containers, s.current ≠ some c → 0 < given c → 1 < s.nrHandlers c := by
  constructor
  · intro hall c hc hcur hpos
    have hsum := hnr c
    have hle := hone c
    by_contra hno
    have hz : bot'.undeleted c.isHandler = 0 := by omega
    refine (huse c hc).after (by omega) ((hall c hc).done ?_ hz)
    rw [current_eq hup]
    exact hcur
  · intro hall c hc
    have hsum := hnr c
    refine ⟨fun hpos => ?_, fun hcur hz => ?_⟩
    · have hpos : 0 < bot'.undeleted c.isHandler := hpos
      exact (huse c hc).after (by omega)
    · have hz : bot'.undeleted c.isHandler = 0 := hz
      rw [current_eq hup] at hcur
      have hlast := hall c hc hcur
      have hle := hone c
      exact (huse c hc).done hcur (by omega)

/-- The container that a worker stores is in use, and the others are as before. -/
theorem inUse_stored (hinv : Inv s log) (huse : ∀ c ∈ s.containers, InUse s c) {mem : Mem} {updates : TgUpdates}
    (hout : HandedOut s.mem mem updates) (hempty : s.bot.updates = none) {batch : List BatchUpdate} (hup : bot'.updates = some batch)
    (hnr : ∀ c : Container, bot'.undeleted c.isHandler = s.nrHandlers c) (hnew : s.nrHandlers ⟨updates.addr, s.nextEntry, updates.len⟩ = 0) :
    ∀ c ∈ (s.store updates).containers, InUse { s.store updates with mem := mem, bot := bot' } c := by
  have hcur : ({ s.store updates with mem := mem, bot := bot' } : TgBotMem).current = some ⟨updates.addr, s.nextEntry, updates.len⟩ := by
    unfold current
    simp only [hup]
    rfl
  intro c hc
  rcases List.mem_cons.1 hc with rfl | hc
  · refine ⟨fun hpos => ?_, fun hcur' => absurd hcur hcur'⟩
    have hz := (hnr _).trans hnew
    exact absurd hz (Nat.ne_of_gt hpos)
  · have hnone : s.current ≠ some c := by
      unfold current
      rw [hempty]
      nofun
    have hfreed : c.addr ∈ mem.freed ↔ c.addr ∈ s.mem.freed := by
      refine ⟨fun hm => ?_, fun hm => ?_⟩
      · by_contra hlive
        exact hout.freesNew.not_freed (hinv.addrs c hc) hlive hm
      · obtain ⟨-, l, hl, -⟩ := hout.freesNew
        rw [hl]
        exact List.mem_append_left l hm
    refine ⟨fun hpos => ?_, fun _ hz => ?_⟩
    · have hlive := (huse c hc).after (hnr c ▸ hpos)
      exact fun hm => hlive (hfreed.1 hm)
    · exact hfreed.2 ((huse c hc).done hnone ((hnr c).symm.trans hz))

/-- When the bot takes a step, all containers stay in use exactly when it lets no batch go. -/
theorem inUse_botStep (huse : ∀ c ∈ s.containers, InUse s c) {b : TgBotCtx.Act} (hstep : s.bot.step b = some (bot', ev))
    (hpoll : ∀ k res batch, b = .exec k res batch → s.isPolling k = false)
    (hnr : ∀ c : Container, bot'.undeleted c.isHandler + s.bot.givenBackCount b c.isHandler =
      s.nrHandlers c + (preparedOf ev).countP c.isHandler) :
    (∀ c ∈ s.containers, InUse { s with bot := bot' } c) ↔ LetsNoBatchGo s (.bot b : Act ι) := by
  cases TgBotCtx.step_cases hstep with
  | full hat hnone => exact iff_of_true (inUse_same (s := s) huse rfl hnr) (letsNoBatchGo_main (fun _ _ _ => hnone))
  | own ho =>
    refine iff_of_true (inUse_same (s := s) huse rfl ?_) (letsNoBatchGo_main (fun prep again hpc => ?_))
    · cases ho <;> exact hnr
    · cases ho with
      | submittedFull hat _ | submitted hat _ | updatesEnd hat | update hat => nomatch hat.symm.trans hpc
  | call hcall _ =>
    refine iff_of_true (inUse_same (s := s) huse rfl ?_) (letsNoBatchGo_main (fun prep again hpc => ?_))
    · rw [preparedOf_map_ring] at hnr
      exact hnr
    · cases hcall with
      | submitFull _ hat | submit _ hat | waited _ hat _ | sleeps _ hat | forEach _ hat | loadHead _ hat | loadEnd _ hat _
      | visit _ hat | next _ hat | advance _ hat => nomatch hat.symm.trans hpc
  | inner _ _ =>
    rw [preparedOf_map_ring] at hnr
    exact inUse_givenBack (s := s) huse (fun c => GwRing.givenBackCount_le _ _ _) rfl hnr
  | @exec k res batch ring' e _ =>
    rw [preparedOf_map_ring] at hnr
    exact iff_of_true (inUse_same (s := s) huse (updatesAfter_of_not_polling (hpoll k res batch rfl) res batch) hnr) trivial
  | @prepare prep again slot sqe hat _ hslot _ _ hsqe =>
    have hroom : s.bot.ring.gwRingGetSqe.2 ≠ none := by
      rw [hslot]
      nofun
    subst hsqe
    cases prep with
    | poll ret =>
      simp only [LetsNoBatchGo, hat]
      rw [forall_prop_of_true hroom]
      exact inUse_poll (s := s) huse rfl hnr
    | handle up rest res =>
      simp only [LetsNoBatchGo, hat]
      rw [forall_prop_of_true hroom]
      refine inUse_handle (s := s) huse rfl (fun c => ?_)
      refine (hnr c).trans (congrArg (s.nrHandlers c + ·) ?_)
      exact List.countP_singleton

/-- No handler of a container that is stored now has been prepared. -/
theorem nrHandlers_new (h0 : TgBotCtx.Started s₀.bot max) (hinv : Inv s log) (hrun : TgBotCtx.machine.Reach s₀.bot s.bot log)
    (addr len : Nat) : s.nrHandlers ⟨addr, s.nextEntry, len⟩ = 0 := by
  have hsum := TgBotCtx.undeleted_eq h0 hrun (isHandler_op ⟨addr, s.nextEntry, len⟩)
  have hzero : (preparedOf log).countP (Container.isHandler ⟨addr, s.nextEntry, len⟩) = 0 := by
    refine List.countP_eq_zero.2 (fun sqe hsqe hhandler => ?_)
    have hlt := hinv.below.prepared sqe hsqe (isHandler_op _ sqe hhandler)
    have hentry := of_decide_eq_true (Bool.and_eq_true_iff.1 hhandler).2
    exact absurd hlt (Nat.not_lt.2 hentry.1)
  unfold nrHandlers
  omega

/-! ## Main results -/

/-- After a run in which each container has been released as it should be, a step keeps that so exactly when it lets no batch go. -/
theorem releasedOnce_step (h0 : TgBotCtx.Started s₀.bot max) (hempty : s₀.bot.updates = none) (hinv₀ : Inv s₀ [])
    (h : (machine J toks).Run C s₀ s log) (hrel : ReleasedOnce s) (hs : (machine J toks).step s a = some (s', ev)) :
    ReleasedOnce s' ↔ LetsNoBatchGo s a := by
  have hinv := Inv.of_run hinv₀ h
  have hm := step_move hinv.noJson hinv.freed hs
  have huse := (releasedOnce_iff hinv).1 hrel
  rw [releasedOnce_iff (hinv.step hm)]
  have hrun := bot_run hinv₀ h
  have hexec : ∀ {k : Nat} {res : Int} {batch : List BatchUpdate} {bot' : TgBotCtx} {ev : List BotEvent},
      s.bot.step (.exec k res batch) = some (bot', ev) → bot'.updates = s.bot.updatesAfter k res batch ∧
        ∀ c : Container, bot'.undeleted c.isHandler = s.nrHandlers c := by
    intro k res batch bot' ev hstep
    have hnr := fun c : Container => TgBotCtx.undeleted_step h0 hrun trivial hstep (isHandler_op c)
    cases TgBotCtx.step_cases hstep with
    | exec _ =>
      rw [preparedOf_map_ring] at hnr
      exact ⟨rfl, hnr⟩
  cases hm with
  | bot hstep hpoll =>
    exact inUse_botStep huse hstep hpoll (fun c => TgBotCtx.undeleted_step h0 hrun trivial hstep (isHandler_op c))
  | @failed k i env curl mem ret bot' ev _ hneg _ hfreed hstep =>
    obtain ⟨hup, hnr⟩ := hexec hstep
    refine iff_of_true (fun c hc => ?_) trivial
    have hcur : ({ s with mem := mem, bot := bot' } : TgBotMem).current = s.current :=
      current_eq (hup.trans (updatesAfter_of_failed (Int.ne_of_lt hneg) []))
    have hsame : InUse { s with mem := mem, bot := bot' } c ↔ InUse s c := InUse.same hfreed hcur (hnr c)
    exact hsame.2 (huse c hc)
  | stored hpoll hout _ hstep =>
    obtain ⟨hup, hnr⟩ := hexec hstep
    obtain ⟨data, hk, hop⟩ := poll_of_polling hpoll
    have hstored := updatesAfter_of_polling hk hop
    have hnone := TgBotCtx.updates_empty h0 hempty hrun hk hop
    exact iff_of_true (inUse_stored hinv huse hout hnone (hup.trans (hstored _)) hnr (nrHandlers_new h0 hinv hrun _ _)) trivial

/-- As long as no step of the run has let a batch go, each container is released once, after its last handler; and the next step keeps that
so exactly when it lets no batch go. -/
theorem batch_released_after_last_handler {size : UInt32} {env : GwRing.InitEnv} {ring₀ : GwRing}
    (h0 : GwRing.gwRingInit size env = some (.ok ring₀)) (addr tctxP updatesP : Nat)
    (h : (machine J toks).Run LetsNoBatchGo (init (.init addr tctxP updatesP ring₀)) s log) :
    ReleasedOnce s ∧ ∀ a s' ev, (machine J toks).step s a = some (s', ev) → (ReleasedOnce s' ↔ LetsNoBatchGo s a) := by
  obtain ⟨max, -, hfresh⟩ := GwRing.gwRingInit_fresh h0
  have hstart : TgBotCtx.Started (init (.init addr tctxP updatesP ring₀)).bot max := ⟨hfresh, rfl⟩
  have hinv₀ : Inv (init (.init addr tctxP updatesP ring₀)) [] := Inv.init hstart rfl
  have hrel : ReleasedOnce s := by
    refine h.stateInv ((releasedOnce_iff hinv₀).2 (fun c hc => absurd hc List.not_mem_nil)) ?_
    intro s log a s' ev hr hrel hc hs
    exact (releasedOnce_step hstart rfl hinv₀ hr hrel hs).2 hc
  exact ⟨hrel, fun a s' ev hs => releasedOnce_step hstart rfl hinv₀ h hrel hs⟩

/-! ## One batch -/

/-- A response with one update. -/
def oneResponse : List UInt8 × JsonObject :=
  response "\x7b\"update_id\":5\x7d" [.node 0 (.object ["update_id"]) [.node 1 (.int 5) []]]

/-- The tokener of that response, which `tgapi_call_get_updates` ends with a zero. -/
def oneTokener : Unit → JsonTokener := fun _ => textTokener (oneResponse.1 ++ [0], oneResponse.2)

/-- The first poll gets the response, and the main thread prepares the handler and the next poll. -/
def firstContainer : List (Act Unit) :=
  (TgBotCtx.firstPoll []).dropLast.map .bot ++ [.getUpdates 0 () plentyEnv (.done oneResponse.1)] ++
    ([.ring (.postStart (.worker 0)), .ring .postStore, .ring .postPublish] ++ List.replicate 11 .main : List TgBotCtx.Act).map .bot

/-- Then the handler is out, and the container is live. -/
theorem batch_released_after_last_handler_first : ∃ (ring₀ : GwRing) (s : TgBotMem) (log : List BotEvent),
    GwRing.gwRingInit 8192 GwRing.InitEnv.ok = some (.ok ring₀) ∧
    (machine plainJsonC oneTokener).Run LetsNoBatchGo (init (.init 1 2 3 ring₀)) s log ∧
    s.bot.pc = .loop ∧ s.containers.map s.nrHandlers = [1] ∧ ReleasedOnce s := by
  have hrun : ∃ ring₀ : GwRing, GwRing.gwRingInit 8192 GwRing.InitEnv.ok = some (.ok ring₀) ∧
      ((machine plainJsonC oneTokener).execIf LetsNoBatchGo (init (.init 1 2 3 ring₀)) firstContainer).map
        (fun r => (r.1.bot.pc, r.1.containers.map r.1.nrHandlers)) = some (.loop, [1]) := by
    refine ⟨_, rfl, ?_⟩
    decide +kernel
  obtain ⟨ring₀, h0, he⟩ := hrun
  obtain ⟨s, log, h, hval⟩ := Machine.exists_of_exec (fun (s : TgBotMem) _ => (s.bot.pc, s.containers.map s.nrHandlers)) he
  obtain ⟨hpc, hnr⟩ := Prod.mk.injEq _ _ _ _ ▸ hval
  exact ⟨ring₀, s, log, h0, h, hpc, hnr, (batch_released_after_last_handler h0 1 2 3 h).1⟩

/-- When the handler has run and its work has been deleted, the container is still live. -/
theorem batch_not_released : ∃ (ring₀ : GwRing) (s : TgBotMem) (log : List BotEvent) (c : Container),
    GwRing.gwRingInit 8192 GwRing.InitEnv.ok = some (.ok ring₀) ∧
    (machine plainJsonC oneTokener).Reach (init (.init 1 2 3 ring₀)) s log ∧
    s.containers = [c] ∧ s.current ≠ some c ∧ s.nrHandlers c = 0 ∧ c.addr ∉ s.mem.freed ∧ ¬ReleasedOnce s := by
  have hrun : ∃ ring₀ : GwRing, GwRing.gwRingInit 8192 GwRing.InitEnv.ok = some (.ok ring₀) ∧
      ((machine plainJsonC oneTokener).exec (init (.init 1 2 3 ring₀))
        (firstContainer ++ ([.main, .ring (.submitNext true), .ring (.queuer [] 0), .ring (.submitNext true), .ring (.submitNext true),
          .ring (.queuer [] 0), .ring (.submitNext true), .ring (.submitNext true), .main, .ring (.run 0), .ring (.run 0),
          .ring (.run 0), .ring (.worker 0 []), .ring (.run 0), .exec 0 0 [], .exec 0 0 [], .ring (.postStart (.worker 0)),
          .ring .postStore, .ring .postPublish, .ring (.run 0), .ring (.run 0)] : List TgBotCtx.Act).map .bot)).map
        (fun r => (r.1.containers, r.1.current, r.1.containers.map r.1.nrHandlers, r.1.mem.freed)) =
        some ([⟨0, 0, 1⟩], none, [0], []) := by
    refine ⟨_, rfl, ?_⟩
    decide +kernel
  obtain ⟨ring₀, h0, he⟩ := hrun
  obtain ⟨s, log, h, hval⟩ := Machine.exists_of_exec (fun (s : TgBotMem) _ => (s.containers, s.current,
    s.containers.map s.nrHandlers, s.mem.freed)) he
  simp only [Prod.mk.injEq] at hval
  obtain ⟨hcontainers, hcur, hnr, hfreed⟩ := hval
  have hzero : s.nrHandlers ⟨0, 0, 1⟩ = 0 := by
    rw [hcontainers] at hnr
    exact List.head_eq_of_cons_eq hnr
  have hnone : s.current ≠ some ⟨0, 0, 1⟩ := by
    rw [hcur]
    nofun
  have hlive : (0 : Nat) ∉ s.mem.freed := by
    rw [hfreed]
    nofun
  refine ⟨ring₀, s, log, ⟨0, 0, 1⟩, h0, h, hcontainers, hnone, hzero, hlive, fun hrel => ?_⟩
  exact hlive (hrel.done ⟨0, 0, 1⟩ (by rw [hcontainers]; exact List.mem_cons_self) hnone hzero)

end TgBotMem

end GwBot

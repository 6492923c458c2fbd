import GwBot.Bot.Polls
import GwBot.TgApi.Ids

/-!
# The offset of a poll

`max_update_id` passes over the entries of a container, rejected elements' entries included, before the next poll is prepared, so the
offset of that poll is past every id of the response.
-/

namespace GwBot

open Lib

/-- The batch is a container that a response with these ids, of which some elements may have been rejected, was parsed into. -/
def Received (J : JsonC) (batch : List BatchUpdate) (ids : List Int) : Prop :=
  ∃ (tok : JsonTokener) (env : ParseEnv) (json : List UInt8) (len maxUpdates : Nat) (mem mem' : Mem) (container : TgUpdates)
    (jobj result : JsonObject) (elems : List JsonObject),
    parseJson tok env.fuel env.tokenerNew json len = some (.ok jobj) ∧ jsonObjectObjectGetEx jobj "result" = some result ∧
    jsonObjectArray result = some elems ∧ HasIds (elems.take maxUpdates) ids ∧
    tgapiParseUpdatesLenMax J tok env json len maxUpdates mem = some (mem', some container, 0) ∧
    batch.map BatchUpdate.updateId = (container.updates.take container.len).map TgUpdate.updateId

/-- The ids that `process_tg_api_updates` reads in a batch. -/
def batchIds (batch : List BatchUpdate) : List Int := (batch.map BatchUpdate.updateId).map int64OfU64

theorem batchIds_cons (up : BatchUpdate) (batch : List BatchUpdate) : batchIds (up :: batch) = int64OfU64 up.updateId :: batchIds batch := by
  rw [batchIds, List.map_cons, List.map_cons, batchIds]

/-- An id that fits is the same with a sign. -/
theorem int64OfU64_entry {update : TgUpdate} (h : entryId update < 2 ^ 63) : int64OfU64 update.updateId = entryId update := by
  unfold int64OfU64 entryId at *
  rw [Int.bmod_eq_of_le] <;> omega

/-- The batch of a response makes `max_update_id` its last id. -/
theorem maxOver_received {J : JsonC} (hJ : GetsInts J) {batch : List BatchUpdate} {ids : List Int} (h : Received J batch ids) {prev : Int}
    (hprev : 0 ≤ prev) : maxOver prev (batchIds batch) = passed prev ids := by
  obtain ⟨tok, env, json, len, maxUpdates, mem, mem', container, jobj, result, elems, hparse, hresult, helems, hids, hcall, hbatch⟩ := h
  have hentries : batchIds batch = (container.updates.take container.len).map entryId := by
    rw [batchIds, hbatch, List.map_map]
    refine List.map_congr_left (fun update hu => ?_)
    rw [Function.comp_apply]
    refine int64OfU64_entry ?_
    rcases entries_ids hJ hparse hresult helems hids hcall update hu with hz | hm
    · omega
    · have := (hids.bounds _ hm).2
      omega
  rw [hentries]
  exact maxOver_entries hJ hparse hresult helems hids hcall hprev

/-- The updates of the batch at hand whose ids `max_update_id` has yet to pass. -/
def MainPc.rest : MainPc → List BatchUpdate
  | .updates rest _ | .getSqe (.handle _ rest _) _ | .submitFull (.handle _ rest _) | .inSubmitFull (.handle _ rest _) => rest
  | _ => []

/-- The offsets of the polls prepared, in order. -/
def pollOffsets (log : List BotEvent) : List Int :=
  ((preparedOf log).filter (fun sqe => isPoll sqe.op)).map (fun sqe => sqe.tgApiCall.offset)

theorem pollOffsets_append (l l' : List BotEvent) : pollOffsets (l ++ l') = pollOffsets l ++ pollOffsets l' := by
  rw [pollOffsets, preparedOf_append, List.filter_append, List.map_append]
  rfl

/-- Where nothing is prepared no poll is. -/
theorem pollOffsets_of_prepared {ev : List BotEvent} (h : preparedOf ev = []) : pollOffsets ev = [] := by
  rw [pollOffsets, h]
  rfl

namespace TgBotCtx

variable {bot bot' : TgBotCtx} {a : Act} {log ev : List BotEvent} {C : TgBotCtx → Act → Prop}

/-- What `max_update_id` is when the batch at hand has been gone through. -/
def finalMax (bot : TgBotCtx) : Int := maxOver bot.maxUpdateId (batchIds bot.pc.rest)

/-- With no updates left `max_update_id` is what it will be. -/
theorem finalMax_of_rest (h : bot.pc.rest = []) : bot.finalMax = bot.maxUpdateId := by
  rw [finalMax, h]
  rfl

theorem maxUpdateId_le_finalMax (bot : TgBotCtx) : bot.maxUpdateId ≤ bot.finalMax := le_maxOver _ _

/-- What a step does for the offsets: it prepares a poll when the batch at hand has been gone through; it visits a completion; or it goes on
with the batch. -/
inductive OffsetMove (bot bot' : TgBotCtx) (ev : List BotEvent) : Prop where
  | poll : bot.pc.nrOwed = 1 → bot.pc ≠ .crashed → bot.pc.rest = [] → pollOffsets ev = [bot.maxUpdateId + 1] →
      bot'.maxUpdateId = bot.maxUpdateId → bot'.pc.rest = [] → OffsetMove bot bot' ev
  | visit (cqe : GwRingCqe) : bot.pc = .entry → pollOffsets ev = [] → bot'.maxUpdateId = bot.maxUpdateId →
      bot'.pc = bot.processCqe cqe → OffsetMove bot bot' ev
  | goOn : pollOffsets ev = [] → bot'.pc.nrOwed = bot.pc.nrOwed → bot.maxUpdateId ≤ bot'.maxUpdateId →
      (bot.pc = .crashed → bot'.pc = .crashed) →
      (bot'.pc = .crashed ∧ bot'.maxUpdateId = bot.maxUpdateId) ∨ bot'.finalMax = bot.finalMax → OffsetMove bot bot' ev

/-- Every step is one of these moves. -/
theorem StepCase.offset_move (hs : StepCase bot a bot' ev) : OffsetMove bot bot' ev := by
  cases hs with
  | @full prep again hat _ =>
    cases again with
    | true => exact OffsetMove.goOn rfl (by rw [hat]; rfl) (Int.le_refl _) (fun _ => rfl) (Or.inl ⟨rfl, rfl⟩)
    | false =>
      refine OffsetMove.goOn rfl (by rw [hat]; rfl) (Int.le_refl _) (by rw [hat]; nofun) (Or.inr ?_)
      rw [finalMax, finalMax, hat]
      cases prep <;> rfl
  | @prepare prep again slot sqe hat _ _ _ _ hsqe =>
    subst hsqe
    cases prep with
    | poll ret =>
      refine OffsetMove.poll (by rw [hat]; rfl) (by rw [hat]; nofun) (by rw [hat]; rfl) rfl rfl ?_
      cases ret <;> rfl
    | handle up rest res =>
      refine OffsetMove.goOn rfl (by rw [hat]; rfl) (Int.le_refl _) (by rw [hat]; nofun) (Or.inr ?_)
      rw [finalMax, finalMax, hat]
      rfl
  | own ho =>
    cases ho with
    | @submittedFull prep hat _ =>
      refine OffsetMove.goOn rfl (by rw [hat]; rfl) (Int.le_refl _) (by rw [hat]; nofun) (Or.inr ?_)
      rw [finalMax, finalMax, hat]
      cases prep <;> rfl
    | submitted hat _ =>
      by_cases hret : bot.ring.submitRet < 0
      · rw [if_pos hret]
        exact OffsetMove.goOn rfl (by rw [hat]; rfl) (Int.le_refl _) (by rw [hat]; nofun) (Or.inr (by rw [finalMax, finalMax, hat]; rfl))
      · rw [if_neg hret]
        exact OffsetMove.goOn rfl (by rw [hat]; rfl) (Int.le_refl _) (by rw [hat]; nofun) (Or.inr (by rw [finalMax, finalMax, hat]; rfl))
    | updatesEnd hat =>
      exact OffsetMove.goOn rfl (by rw [hat]; rfl) (Int.le_refl _) (by rw [hat]; nofun) (Or.inr (by rw [finalMax, finalMax, hat]; rfl))
    | @update up rest res hat =>
      have hmax : (if int64OfU64 up.updateId > bot.maxUpdateId then int64OfU64 up.updateId else bot.maxUpdateId) =
          max bot.maxUpdateId (int64OfU64 up.updateId) := by
        split <;> omega
      refine OffsetMove.goOn rfl (by rw [hat]; rfl) ?_ (by rw [hat]; nofun) (Or.inr ?_)
      · exact hmax ▸ Int.le_max_left _ _
      · rw [finalMax, finalMax, hat, MainPc.rest, MainPc.rest, batchIds_cons, maxOver_cons, ← hmax]
  | @call b ring' pc e hcall hstep =>
    have hprep := pollOffsets_of_prepared (preparedOf_map_ring e)
    have hmove : ∀ pc : MainPc, pc.nrOwed = bot.pc.nrOwed → bot.pc ≠ .crashed → pc.rest = bot.pc.rest →
        OffsetMove bot { bot with ring := ring', pc := pc } (e.map .ring) := by
      intro pc h1 h2 h3
      refine OffsetMove.goOn hprep h1 (Int.le_refl _) (fun hc => absurd hc h2) (Or.inr ?_)
      rw [finalMax, finalMax, ← h3]
    cases hcall with
    | visit cqe hat => exact OffsetMove.visit cqe hat hprep rfl rfl
    | @submitFull prep _ hat => exact hmove _ (by rw [hat]; rfl) (by rw [hat]; nofun) (by rw [hat]; cases prep <;> rfl)
    | submit _ hat | sleeps _ hat | forEach _ hat | loadHead _ hat | loadEnd _ hat _ =>
      exact hmove _ (congrArg MainPc.nrOwed hat).symm (by rw [hat]; nofun) (congrArg MainPc.rest hat).symm
    | waited _ hat _ | next _ hat | advance _ hat =>
      split <;> exact hmove _ (congrArg MainPc.nrOwed hat).symm (by rw [hat]; nofun) (congrArg MainPc.rest hat).symm
  | inner hin hstep =>
    exact OffsetMove.goOn (pollOffsets_of_prepared (preparedOf_map_ring _)) rfl (Int.le_refl _) id (Or.inr rfl)
  | exec hstep =>
    exact OffsetMove.goOn (pollOffsets_of_prepared (preparedOf_map_ring _)) rfl (Int.le_refl _) id (Or.inr rfl)

/-- None lowers `max_update_id`. -/
theorem OffsetMove.le (h : OffsetMove bot bot' ev) : bot.maxUpdateId ≤ bot'.maxUpdateId := by
  cases h with
  | poll _ _ _ _ hmax _ => exact Int.le_of_eq hmax.symm
  | visit _ _ _ hmax _ => exact Int.le_of_eq hmax.symm
  | goOn _ _ hle _ _ => exact hle

/-- The polls that a step prepares have the offset after `max_update_id`. -/
theorem OffsetMove.offset (h : OffsetMove bot bot' ev) : ∀ o ∈ pollOffsets ev, o = bot.maxUpdateId + 1 := by
  intro o ho
  cases h with
  | poll _ _ _ hoff _ _ =>
    rw [hoff] at ho
    exact List.mem_singleton.1 ho
  | visit _ _ hoff _ _ | goOn hoff _ _ _ _ =>
    rw [hoff] at ho
    nomatch ho

/-! ## Responses -/

/-- What a run has to observe: each batch that `tgapi_call_get_updates` stores comes from a response with ids. -/
def StoresReceived (J : JsonC) (bot : TgBotCtx) : Act → Prop
  | .exec k res batch => ∀ data, bot.ring.execs[k]? = some (some ⟨data, .handling⟩) → data.sqe.op = GW_RING_OP_TG_API_CALL → res = 0 →
    ∃ ids, Received J batch ids
  | _ => True

variable {J : JsonC} {bot₀ : TgBotCtx}

/-- What `ctx->updates` points to comes from a response. -/
theorem received_of_run (h0 : bot₀.updates = none) (h : machine.Run (StoresReceived J) bot₀ bot log) {batch : List BatchUpdate}
    (hb : bot.updates = some batch) : ∃ ids, Received J batch ids := by
  have hinv : ∀ batch, bot.updates = some batch → ∃ ids, Received J batch ids := by
    refine h.stateInv (I := fun bot => ∀ batch, bot.updates = some batch → ∃ ids, Received J batch ids) (by rw [h0]; nofun) ?_
    intro bot log a bot' ev _ hi hc hs
    cases step_cases hs with
    | full _ _ | own _ | call _ _ | inner _ _ => exact hi
    | @prepare prep again slot sqe _ _ _ _ _ _ =>
      cases prep with
      | poll ret => nofun
      | handle up rest res => exact hi
    | @exec k res batch ring' e hstep =>
      intro b hb
      have hb : bot.updatesAfter k res batch = some b := hb
      unfold updatesAfter at hb
      split at hb
      · rename_i data hk
        split at hb
        · rename_i hst
          cases hb
          exact hc data hk hst.1 hst.2
        · exact hi b hb
      · exact hi b hb
  exact hinv batch hb

/-- `max_update_id` and the offsets so far: it is after the last of them, and none is below the one before. -/
structure Offsets (bot : TgBotCtx) (log : List BotEvent) : Prop where
  nonneg : 0 ≤ bot.maxUpdateId
  le : ∀ o ∈ pollOffsets log, 1 ≤ o ∧ o ≤ bot.maxUpdateId + 1
  sorted : (pollOffsets log).Pairwise (· ≤ ·)

theorem Offsets.step (h : Offsets bot log) (hm : OffsetMove bot bot' ev) : Offsets bot' (log ++ ev) := by
  have hle := hm.le
  have hnonneg := h.nonneg
  refine ⟨Int.le_trans hnonneg hle, fun o ho => ?_, ?_⟩
  · rw [pollOffsets_append] at ho
    rcases List.mem_append.1 ho with ho | ho
    · have := h.le o ho
      omega
    · have := hm.offset o ho
      omega
  · rw [pollOffsets_append, List.pairwise_append]
    refine ⟨h.sorted, List.pairwise_of_forall_mem_list (fun o ho o' ho' => ?_), fun o ho o' ho' => ?_⟩
    · rw [hm.offset o ho, hm.offset o' ho']
    · rw [hm.offset o' ho']
      exact (h.le o ho).2

theorem Offsets.of_run (h0 : bot₀.maxUpdateId = 0) (h : machine.Run C bot₀ bot log) : Offsets bot log := by
  refine h.invariant (I := Offsets) ⟨by rw [h0], nofun, List.Pairwise.nil⟩ ?_
  intro bot log a bot' ev _ hi _ hs
  exact hi.step (step_cases hs).offset_move

/-! ## After a batch -/

/-- After a batch that makes `max_update_id` come to `final`: the first poll has the offset after it, and no poll one that is not. -/
structure AfterBatch (final : Int) (bot : TgBotCtx) (log : List BotEvent) : Prop where
  owed : pollOffsets log = [] → bot.pc.nrOwed = 1 ∧ (bot.pc = .crashed ∨ bot.finalMax = final)
  final_le : bot.pc = .crashed ∨ final ≤ bot.finalMax
  first : ∀ o, (pollOffsets log).head? = some o → o = final + 1
  past : ∀ o ∈ pollOffsets log, final < o

theorem AfterBatch.step {final : Int} (h : AfterBatch final bot log) (hm : OffsetMove bot bot' ev) :
    AfterBatch final bot' (log ++ ev) := by
  cases hm with
  | poll howed hcrash hrest hoff hmax hrest' =>
    have hle := h.final_le.resolve_left hcrash
    rw [finalMax_of_rest hrest] at hle
    refine ⟨?_, Or.inr ?_, ?_, ?_⟩
    · rw [pollOffsets_append, hoff]
      exact fun he => absurd (List.append_eq_nil_iff.1 he).2 nofun
    · rw [finalMax_of_rest hrest', hmax]
      exact hle
    · intro o ho
      rw [pollOffsets_append, hoff, List.head?_append] at ho
      cases hfirst : (pollOffsets log).head? with
      | some o' =>
        rw [hfirst] at ho
        cases ho
        exact h.first o hfirst
      | none =>
        rw [hfirst] at ho
        cases ho
        have hfinal := (h.owed (List.head?_eq_none_iff.1 hfirst)).2.resolve_left hcrash
        rw [finalMax_of_rest hrest] at hfinal
        rw [hfinal]
    · intro o ho
      rw [pollOffsets_append, hoff] at ho
      rcases List.mem_append.1 ho with ho | ho
      · exact h.past o ho
      · rw [List.mem_singleton.1 ho]
        omega
  | visit cqe hat hoff hmax hpc =>
    have hfinal : final ≤ bot.maxUpdateId := by
      have := h.final_le.resolve_left (by rw [hat]; nofun)
      rwa [finalMax_of_rest (by rw [hat]; rfl)] at this
    rw [← hmax] at hfinal
    refine ⟨?_, Or.inr (Int.le_trans hfinal (maxUpdateId_le_finalMax bot')), ?_, ?_⟩
    · rw [pollOffsets_append, hoff, List.append_nil]
      intro he
      have := (h.owed he).1
      rw [hat] at this
      nomatch this
    · rw [pollOffsets_append, hoff, List.append_nil]
      exact h.first
    · rw [pollOffsets_append, hoff, List.append_nil]
      exact h.past
  | goOn hoff howed hle hcrash hfinal =>
    have hlog : pollOffsets (log ++ ev) = pollOffsets log := by rw [pollOffsets_append, hoff, List.append_nil]
    refine ⟨?_, ?_, ?_, ?_⟩
    · rw [hlog]
      intro he
      obtain ⟨h1, h2⟩ := h.owed he
      refine ⟨howed.trans h1, ?_⟩
      rcases h2 with h2 | h2
      · exact Or.inl (hcrash h2)
      · rcases hfinal with hfinal | hfinal
        · exact Or.inl hfinal.1
        · exact Or.inr (hfinal.trans h2)
    · rcases h.final_le with h2 | h2
      · exact Or.inl (hcrash h2)
      · rcases hfinal with hfinal | hfinal
        · exact Or.inl hfinal.1
        · exact Or.inr (hfinal ▸ h2)
    · rw [hlog]
      exact h.first
    · rw [hlog]
      exact h.past

/-! ## Main results -/

/-- Ids that Telegram sends keep `max_update_id` so far from the greatest `int64_t` that the offset after it is one. -/
theorem passed_le {prev : Int} {batch : List BatchUpdate} {ids : List Int} (h : Received J batch ids) (hprev : prev ≤ 2 ^ 63 - 2) :
    passed prev ids ≤ 2 ^ 63 - 2 := by
  obtain ⟨tok, env, json, len, maxUpdates, mem, mem', container, jobj, result, elems, -, -, -, hids, -⟩ := h
  unfold passed
  split
  · rename_i last hlast
    exact Int.max_le.2 ⟨hprev, (hids.bounds last (List.mem_of_getLast? hlast)).2⟩
  · exact hprev

/-- Every id of a batch is passed. -/
theorem le_passed {prev id : Int} {batch : List BatchUpdate} {ids : List Int} (h : Received J batch ids) (hid : id ∈ ids) :
    id ≤ passed prev ids := by
  obtain ⟨tok, env, json, len, maxUpdates, mem, mem', container, jobj, result, elems, -, -, -, hids, -⟩ := h
  unfold passed
  split
  · rename_i last hlast
    exact Int.le_trans (hids.le_last hlast id hid) (Int.le_max_right _ _)
  · rename_i hlast
    rw [List.getLast?_eq_none_iff.1 hlast] at hid
    nomatch hid

/-- It stays below the greatest id there can be. -/
theorem finalMax_le (hJ : GetsInts J) (h0 : bot₀.updates = none) (h1 : bot₀.maxUpdateId = 0) (h2 : bot₀.pc.rest = [])
    (h : machine.Run (StoresReceived J) bot₀ bot log) : bot.finalMax ≤ 2 ^ 63 - 2 := by
  refine h.stateInv (I := fun bot => bot.finalMax ≤ 2 ^ 63 - 2) ?_ ?_
  · rw [finalMax_of_rest h2, h1]
    decide
  · intro bot log a bot' ev hr hi _ hs
    have hmax := Int.le_trans (maxUpdateId_le_finalMax bot) hi
    cases (step_cases hs).offset_move with
    | poll _ _ _ _ hsame hrest' => rwa [finalMax_of_rest hrest', hsame]
    | visit cqe hat _ hsame hpc =>
      rcases processCqe_cases bot cqe with ⟨res, hp⟩ | ⟨batch, res, hp, hup⟩ | hp
      · rwa [finalMax_of_rest (by rw [hpc, hp]; rfl), hsame]
      · obtain ⟨ids, hids⟩ := received_of_run h0 hr hup
        rw [finalMax, hpc, hp, hsame, MainPc.rest, maxOver_received hJ hids (Offsets.of_run h1 hr).nonneg]
        exact passed_le hids hmax
      · rwa [finalMax_of_rest (by rw [hpc, hp]; rfl), hsame]
    | goOn _ _ _ _ hfinal =>
      rcases hfinal with ⟨hcrash, hsame⟩ | hsame
      · rwa [finalMax_of_rest (by rw [hcrash]; rfl), hsame]
      · rwa [hsame]

/-- In a run of the bot in which each batch stored comes from a response whose elements have increasing ids, whichever of them are rejected:
the offsets of the polls never decrease, and fit; and after the completion of a poll whose batch `process_tg_api_updates` goes through,
the next poll has the offset after the last id of the batch, or after `max_update_id` if that was greater, and no later poll asks for
one of the batch again. -/
theorem offset_passes_batch (hJ : GetsInts J) (addr tctxP updatesP : Nat) (ring₀ : GwRing)
    (h : machine.Run (StoresReceived J) (init addr tctxP updatesP ring₀) bot log) :
    (pollOffsets log).Pairwise (· ≤ ·) ∧ (∀ o ∈ pollOffsets log, 1 ≤ o ∧ o ≤ 2 ^ 63 - 1) ∧
    ∀ bot₁ ev₁ batch res, bot.pc = .entry → bot.step .main = some (bot₁, ev₁) → bot₁.pc = .updates batch res →
      (∃ ids, Received J batch ids) ∧ ∀ ids, Received J batch ids → ∀ bot₂ log₂, machine.Run (StoresReceived J) bot₁ bot₂ log₂ →
        (∀ o, (pollOffsets log₂).head? = some o → o = 1 + passed bot.maxUpdateId ids) ∧
        ∀ o ∈ pollOffsets log₂, passed bot.maxUpdateId ids < o ∧ ∀ id ∈ ids, id < o := by
  have hzero : (init addr tctxP updatesP ring₀).maxUpdateId = 0 := rfl
  have hoff := Offsets.of_run hzero h
  have hmax := Int.le_trans (maxUpdateId_le_finalMax bot) (finalMax_le hJ rfl rfl rfl h)
  refine ⟨hoff.sorted, fun o ho => ?_, ?_⟩
  · have := hoff.le o ho
    omega
  · intro bot₁ ev₁ batch res hat hs hpc
    have hvisit : bot.updates = some batch ∧ bot₁.maxUpdateId = bot.maxUpdateId := by
      cases (step_cases hs).offset_move with
      | poll howed _ _ _ _ _ =>
        rw [hat] at howed
        nomatch howed
      | visit cqe _ _ hsame hpc₁ =>
        rw [hpc] at hpc₁
        rcases processCqe_cases bot cqe with ⟨ret, hp⟩ | ⟨rest, res', hp, hup⟩ | hp
        · nomatch hpc₁.trans hp
        · cases hpc₁.trans hp
          exact ⟨hup, hsame⟩
        · nomatch hpc₁.trans hp
      | goOn _ howed _ _ _ =>
        rw [hat, hpc] at howed
        nomatch howed
    obtain ⟨hup, hsame⟩ := hvisit
    refine ⟨received_of_run rfl h hup, fun ids hids bot₂ log₂ hr => ?_⟩
    have hfinal : bot₁.finalMax = passed bot.maxUpdateId ids := by
      rw [finalMax, hpc, hsame, MainPc.rest, maxOver_received hJ hids hoff.nonneg]
    have hstart : AfterBatch (passed bot.maxUpdateId ids) bot₁ [] :=
      ⟨fun _ => ⟨by rw [hpc]; rfl, Or.inr hfinal⟩, Or.inr (Int.le_of_eq hfinal.symm), nofun, nofun⟩
    have hafter : AfterBatch (passed bot.maxUpdateId ids) bot₂ log₂ :=
      hr.invariant (I := AfterBatch (passed bot.maxUpdateId ids)) hstart (fun _ _ _ _ _ _ hi _ hs => hi.step (step_cases hs).offset_move)
    refine ⟨fun o ho => (hafter.first o ho).trans (Int.add_comm _ _), fun o ho => ?_⟩
    have hpast := hafter.past o ho
    exact ⟨hpast, fun id hid => Int.lt_of_le_of_lt (le_passed hids hid) hpast⟩

/-- A response with two updates, of which the parser rejects the second. -/
def lastRejected : List UInt8 × JsonObject :=
  response "\x7b\"update_id\":5\x7d,\x7b\"update_id\":6,\"message\":7\x7d"
    [.node 0 (.object ["update_id"]) [.node 1 (.int 5) []],
      .node 2 (.object ["update_id", "message"]) [.node 3 (.int 6) [], .node 4 (.int 7) []]]

/-- The container that it is parsed into, with the addresses of its entries. -/
def lastRejectedBatch : List BatchUpdate := [⟨7, 5⟩, ⟨8, 6⟩]

/-- It is what that response is parsed into. -/
theorem received_lastRejected : Received plainJsonC lastRejectedBatch [5, 6] := by
  have h : ∃ mem container, tgapiParseUpdatesLenMax plainJsonC (textTokener lastRejected) plentyEnv lastRejected.1 lastRejected.1.length 5
      .empty = some (mem, some container, 0) ∧
      lastRejectedBatch.map BatchUpdate.updateId = (container.updates.take container.len).map TgUpdate.updateId := by
    rw [tgapiParseUpdatesLenMax, parseJson_textTokener]
    exact ⟨_, _, rfl, by decide⟩
  obtain ⟨mem, container, hcall, hbatch⟩ := h
  exact ⟨_, _, _, _, 5, _, _, container, _, _, _, parseJson_textTokener _ _, rfl, rfl, ⟨rfl, by decide, by decide⟩, hcall, hbatch⟩

/-- The polls of a run get this response. -/
def GetsLastRejected (bot : TgBotCtx) : Act → Prop
  | .exec k _ batch =>
    match bot.ring.execs[k]? with
    | some (some ⟨_, .handling⟩) => batch = lastRejectedBatch
    | _ => True
  | _ => True

instance (bot : TgBotCtx) (a : Act) : Decidable (GetsLastRejected bot a) := by
  unfold GetsLastRejected
  split
  · split <;> infer_instance
  · infer_instance

theorem GetsLastRejected.storesReceived (h : GetsLastRejected bot a) : StoresReceived plainJsonC bot a := by
  cases a with
  | exec k res batch =>
    intro data hk _ _
    unfold GetsLastRejected at h
    simp only [hk] at h
    exact ⟨[5, 6], h ▸ received_lastRejected⟩
  | _ => trivial

/-- The poll after it has the offset 7. -/
theorem offset_passes_batch_first : ∃ (ring₀ : GwRing) (bot : TgBotCtx) (log : List BotEvent) (bot₁ : TgBotCtx) (ev₁ : List BotEvent)
    (bot₂ : TgBotCtx) (log₂ : List BotEvent), machine.Run (StoresReceived plainJsonC) (init 1 2 3 ring₀) bot log ∧ bot.pc = .entry ∧
    bot.step .main = some (bot₁, ev₁) ∧ bot₁.pc = .updates lastRejectedBatch 0 ∧
    machine.Run (StoresReceived plainJsonC) bot₁ bot₂ log₂ ∧ pollOffsets log₂ = [7] ∧ 7 = 1 + passed bot.maxUpdateId [5, 6] := by
  have hrun : ∃ ring₀ : GwRing, GwRing.gwRingInit 8192 GwRing.InitEnv.ok = some (.ok ring₀) ∧
      (machine.execIf GetsLastRejected (init 1 2 3 ring₀) (firstPoll lastRejectedBatch ++
          [.ring (.postStart (.worker 0)), .ring .postStore, .ring .postPublish] ++ List.replicate 3 .main)).map
        (fun r => (r.1.pc, (r.1.step .main).map (fun r₁ =>
          (r₁.1.pc, (machine.execIf GetsLastRejected r₁.1 (List.replicate 6 .main)).map (fun r₂ => pollOffsets r₂.2))))) =
        some (.entry, some (.updates lastRejectedBatch 0, some [7])) := by
    refine ⟨_, rfl, ?_⟩
    set_option maxRecDepth 20000 in decide
  obtain ⟨ring₀, -, he⟩ := hrun
  obtain ⟨bot, log, h, hval⟩ := Machine.exists_of_exec (fun (bot : TgBotCtx) _ => (bot.pc, (bot.step .main).map (fun r₁ =>
    (r₁.1.pc, (machine.execIf GetsLastRejected r₁.1 (List.replicate 6 .main)).map (fun r₂ => pollOffsets r₂.2))))) he
  obtain ⟨hpc, hstep⟩ := Prod.mk.inj hval
  obtain ⟨⟨bot₁, ev₁⟩, hs, hnext⟩ := Option.map_eq_some_iff.1 hstep
  obtain ⟨hpc₁, hexec⟩ := Prod.mk.inj hnext
  obtain ⟨bot₂, log₂, h₂, hoff⟩ := Machine.exists_of_exec (fun (_ : TgBotCtx) log => pollOffsets log) hexec
  have hrun := h.mono (fun _ _ hc => hc.storesReceived)
  have hrun₂ := h₂.mono (fun _ _ hc => hc.storesReceived)
  refine ⟨ring₀, bot, log, bot₁, ev₁, bot₂, log₂, hrun, hpc, hs, hpc₁, hrun₂, hoff, ?_⟩
  have hints : GetsInts plainJsonC := fun _ _ _ _ _ => rfl
  exact (((offset_passes_batch hints 1 2 3 ring₀ hrun).2.2 bot₁ ev₁ _ _ hpc hs hpc₁).2 [5, 6] received_lastRejected bot₂ log₂ hrun₂).1 7
    (by rw [hoff]; rfl)

end TgBotCtx

end GwBot

import GwBot.Bot.Handing
import GwBot.Bot.Stored
import GwBot.Lib.Feed
import GwBot.TgApi.Sent

/-!
# Updates are handed over once and in order

The main thread reads the updates of the server as a feed, with `max_update_id` as its cursor: each poll asks for what is past it, and each
update of a batch that is handed over moves it. So no update is handed over twice, and no poll asks the server to forget one that the parser
accepts and that was not handed over.
-/

namespace GwBot

open Lib

/-! ## Answers -/

/-- The ids of a batch that are not 0, as those of entries that were not written are. -/
def nonzeroIds (batch : List BatchUpdate) : List Int := (batchIds batch).filter (fun id => id ≠ 0)

/-- The batch is a container that a response was parsed into that holds a first part of the items past the cursor, and the elements that are
wanted are accepted. -/
def Served (J : JsonC) (source : List Int) (wanted : Int → Bool) (cursor : Int) (batch : List BatchUpdate) : Prop :=
  ∃ (tok : JsonTokener) (env : ParseEnv) (json : List UInt8) (len maxUpdates : Nat) (mem mem' : Mem) (container : TgUpdates)
    (jobj result : JsonObject) (elems : List JsonObject) (n : Nat),
    parseJson tok env.fuel env.tokenerNew json len = some (.ok jobj) ∧ jsonObjectObjectGetEx jobj "result" = some result ∧
    jsonObjectArray result = some elems ∧ (elems.take maxUpdates).map elemId = ((itemsPast source cursor).take n).map some ∧
    AcceptsWanted wanted env.messages 0 (elems.take maxUpdates) ∧
    tgapiParseUpdatesLenMax J tok env json len maxUpdates mem = some (mem', some container, 0) ∧
    batch.map BatchUpdate.updateId = (container.updates.take container.len).map TgUpdate.updateId

/-- The ids of the updates that the server has: they increase, and fit. -/
structure Source (source : List Int) : Prop where
  increasing : source.Pairwise (· < ·)
  bounds : ∀ id ∈ source, 1 ≤ id ∧ id ≤ 2 ^ 63 - 2

variable {J : JsonC} {source : List Int} {wanted : Int → Bool}

theorem batchIds_of_entries {batch : List BatchUpdate} {updates : List TgUpdate} (h : ∀ update ∈ updates, entryId update < 2 ^ 63)
    (hb : batch.map BatchUpdate.updateId = updates.map TgUpdate.updateId) : batchIds batch = updates.map entryId := by
  rw [batchIds, hb, List.map_map]
  refine List.map_congr_left (fun update hu => ?_)
  rw [Function.comp_apply]
  exact int64OfU64_entry (h update hu)

/-- What is served is an answer. -/
theorem Served.answer (hJ : GetsInts J) (hs : Source source) {cursor : Int} {batch : List BatchUpdate}
    (h : Served J source wanted cursor batch) : Answer source wanted cursor (nonzeroIds batch) := by
  obtain ⟨tok, env, json, len, maxUpdates, mem, mem', container, jobj, result, elems, n, hparse, hresult, helems, hids, hacc, hcall,
    hbatch⟩ := h
  have hpart : ((itemsPast source cursor).take n).Sublist source := (List.take_sublist _ _).trans List.filter_sublist
  have hhas : HasIds (elems.take maxUpdates) ((itemsPast source cursor).take n) :=
    ⟨hids, hs.increasing.sublist hpart, fun id hm => hs.bounds id (hpart.subset hm)⟩
  have hentry : ∀ update ∈ container.updates.take container.len, 0 ≤ entryId update ∧ entryId update < 2 ^ 63 := by
    intro update hu
    rcases entries_ids hJ hparse hresult helems hhas hcall update hu with hz | hm
    · omega
    · have := hhas.bounds _ hm
      omega
  have hwritten : nonzeroIds batch = writtenIds (container.updates.take container.len) := by
    rw [nonzeroIds, batchIds_of_entries (fun update hu => (hentry update hu).2) hbatch, writtenIds]
    refine List.filter_congr (fun id hm => ?_)
    obtain ⟨update, hu, rfl⟩ := List.mem_map.1 hm
    have := (hentry update hu).1
    exact decide_eq_decide.2 (by omega)
  rw [hwritten]
  exact ⟨n, container_kept hJ hparse hresult helems hhas hacc hcall⟩

/-- The ids of the entries that have been handed over, in order. -/
def handedIds (log : List BotEvent) : List Int := batchIds (handedOver log)

theorem nonzeroIds_append (batch batch' : List BatchUpdate) : nonzeroIds (batch ++ batch') = nonzeroIds batch ++ nonzeroIds batch' := by
  rw [nonzeroIds, batchIds_append, List.filter_append, nonzeroIds, nonzeroIds]

theorem nonzeroIds_singleton (up : BatchUpdate) :
    nonzeroIds [up] = if int64OfU64 up.updateId ≠ 0 then [int64OfU64 up.updateId] else [] := by
  have hids : batchIds [up] = [int64OfU64 up.updateId] := rfl
  rw [nonzeroIds, hids, List.filter_cons, List.filter_nil]
  simp only [decide_eq_true_eq]

namespace TgBotCtx

variable {bot bot' : TgBotCtx} {a : Act} {log ev : List BotEvent} {C : TgBotCtx → Act → Prop} {max : UInt32} {bot₀ : TgBotCtx}

/-! ## What the polls ask for -/

/-- The entries with `q` that were prepared and have no answer yet. -/
def unanswered (bot : TgBotCtx) (q : GwRingSqe → Bool) : Nat :=
  bot.ring.sqWindow.countP q + bot.ring.unanswered (fun data => q data.sqe)

theorem preparedOf_countP (h0 : Started bot₀ max) (h : machine.Run C bot₀ bot log) (q : GwRingSqe → Bool) :
    (preparedOf log).countP q = sqeCount .uncounted (fun data => q data.sqe) (ringLog log) +
      bot.ring.answeredCount (ringLog log) (fun data => q data.sqe) + bot.unanswered q := by
  have hring := GwRing.unanswered_of_run (fun _ _ hc => hc.1) h0.ring (ring_run h) (fun data => q data.sqe)
  rw [(Inv.of_run h0 h).prepared, List.countP_append, countP_submittedSqes q]
  unfold unanswered
  omega

/-- A step leaves no more without an answer than were so before, and those that it prepares. -/
theorem unanswered_step (h0 : Started bot₀ max) (h : machine.Run C bot₀ bot log) (hc : C bot a) (hs : bot.step a = some (bot', ev))
    (q : GwRingSqe → Bool) : bot'.unanswered q ≤ bot.unanswered q + (preparedOf ev).countP q := by
  have hbefore := preparedOf_countP h0 h q
  have hafter := preparedOf_countP h0 (h.step a hc hs) q
  have hmono := answered_step h0 h (step_cases hs) (fun data => q data.sqe)
  rw [preparedOf_append, List.countP_append, ringLog_append, sqeCount_append, ← ringLog_append] at hafter
  omega

/-- The polls that do not ask for what is past the cursor. -/
def asksElse (cursor : Int) (sqe : GwRingSqe) : Bool := isPoll sqe.op && sqe.tgApiCall.offset != cursor + 1

theorem unanswered_asksElse_le (bot : TgBotCtx) (cursor : Int) : bot.unanswered (asksElse cursor) ≤ bot.nrUnanswered := by
  have hpoll : ∀ sqe, asksElse cursor sqe = true → isPoll sqe.op = true := fun sqe h => (Bool.and_eq_true_iff.1 h).1
  exact Nat.add_le_add (List.countP_mono_left (fun sqe _ h => hpoll sqe h)) (GwRing.unanswered_mono (fun data h => hpoll data.sqe h) _)

theorem countP_asksElse {cursor : Int} (h : ∀ o ∈ pollOffsets ev, o = cursor + 1) : (preparedOf ev).countP (asksElse cursor) = 0 := by
  refine List.countP_eq_zero.2 (fun sqe hsqe hq => ?_)
  obtain ⟨hpoll, hne⟩ := Bool.and_eq_true_iff.1 hq
  exact bne_iff_ne.1 hne (h _ (List.mem_map_of_mem (List.mem_filter.2 ⟨hsqe, hpoll⟩)))

/-- While a poll is owed, none is without an answer. -/
theorem nrUnanswered_of_owed (h0 : Started bot₀ max) (h : machine.Run C bot₀ bot log) (howed : bot.pc.nrOwed ≠ 0) :
    bot.nrUnanswered = 0 := by
  have hpolls := polls_eq h0 h
  have hsplit := GwRing.execCount_unposted (p := GwRing.dataOf isPoll) bot.ring.execs
  unfold GwRing.due GwRing.outstanding at hpolls
  unfold nrUnanswered GwRing.unanswered
  omega

/-- Where the thread comes to owe no poll, `max_update_id` stays. -/
theorem OffsetMove.maxUpdateId_eq (hm : OffsetMove bot bot' ev) (howed : bot'.pc.nrOwed = 0) : bot'.maxUpdateId = bot.maxUpdateId := by
  cases hm with
  | poll _ _ _ _ hsame _ => exact hsame
  | visit _ _ _ hsame _ => exact hsame
  | goOn _ heq _ _ hfinal =>
    rcases hfinal with ⟨-, hsame⟩ | hsame
    · exact hsame
    · rwa [finalMax_of_rest (rest_of_nrOwed howed), finalMax_of_rest (rest_of_nrOwed (heq.symm.trans howed))] at hsame

/-- Between two polls, the one that is without an answer asks for what is past `max_update_id`. -/
theorem asks_past (h0 : Started bot₀ max) (h : machine.Run C bot₀ bot log) :
    bot.pc.nrOwed = 0 → bot.unanswered (asksElse bot.maxUpdateId) = 0 := by
  refine h.stateInv (I := fun bot => bot.pc.nrOwed = 0 → bot.unanswered (asksElse bot.maxUpdateId) = 0) ?_ ?_
  · rw [h0.pc]
    nofun
  · intro bot log a bot' ev hr hi hc hs howed'
    have hm := (step_cases hs).offset_move
    have hstep := unanswered_step h0 hr hc hs (asksElse bot.maxUpdateId)
    rw [countP_asksElse hm.offset] at hstep
    rw [hm.maxUpdateId_eq howed']
    by_cases howed : bot.pc.nrOwed = 0
    · have := hi howed
      omega
    · have hle := unanswered_asksElse_le bot bot.maxUpdateId
      have := nrUnanswered_of_owed h0 hr howed
      omega

/-! ## The cursor -/

/-- What a run has to observe: the batch that `tgapi_call_get_updates` stores is what the server has from the offset of the poll on. -/
def ServesFrom (J : JsonC) (source : List Int) (wanted : Int → Bool) (bot : TgBotCtx) : Act → Prop
  | .exec k res batch => ∀ data, bot.ring.execs[k]? = some (some ⟨data, .handling⟩) → data.sqe.op = GW_RING_OP_TG_API_CALL → res = 0 →
    Served J source wanted (data.sqe.tgApiCall.offset - 1) batch
  | _ => True

/-- A worker in `tgapi_call_get_updates` has asked for what is past `max_update_id`. -/
theorem offset_of_handling (h0 : Started bot₀ max) (h : machine.Run C bot₀ bot log) {k : Nat} {data : WqSqeData}
    (hk : bot.ring.execs[k]? = some (some ⟨data, .handling⟩)) (hop : data.sqe.op = GW_RING_OP_TG_API_CALL) :
    data.sqe.tgApiCall.offset = bot.maxUpdateId + 1 := by
  have howed : bot.pc.nrOwed = 0 := by
    by_contra howed
    have hpos := nrUnanswered_pos hk hop
    have hzero := nrUnanswered_of_owed h0 h howed
    omega
  by_contra hne
  have hasks : asksElse bot.maxUpdateId data.sqe = true := Bool.and_eq_true_iff.2 ⟨beq_iff_eq.2 hop, bne_iff_ne.2 hne⟩
  have hexec : 0 < execCount ExecPc.isUnhandled (fun data => asksElse bot.maxUpdateId data.sqe) bot.ring.execs :=
    List.countP_pos_iff.2 ⟨_, List.mem_of_getElem? hk, show (true && asksElse bot.maxUpdateId data.sqe) = true from hasks⟩
  have hzero := asks_past h0 h howed
  unfold unanswered GwRing.unanswered at hzero
  omega

/-- What was handed over, the entries that were not written apart, is what has been kept of the feed, up to the greatest of its ids; and what
is left is an answer to that. -/
structure Follows (source : List Int) (wanted : Int → Bool) (handed left : List BatchUpdate) : Prop where
  kept : (feed source wanted).Reach 0 (maxOver 0 (batchIds handed)) (nonzeroIds handed)
  answer : Answer source wanted (maxOver 0 (batchIds handed)) (nonzeroIds left)

/-- Going on with the batch at hand. -/
theorem Follows.next (hs : Source source) {handed left : List BatchUpdate} {up : BatchUpdate}
    (h : Follows source wanted handed (up :: left)) : Follows source wanted (handed ++ [up]) left := by
  obtain ⟨hkept, hanswer⟩ := h
  have hnonneg := le_maxOver 0 (batchIds handed)
  rw [← List.singleton_append, nonzeroIds_append] at hanswer
  have hids := nonzeroIds_singleton up
  by_cases hzero : int64OfU64 up.updateId = 0
  · -- an entry that was not written: the cursor stays
    rw [if_neg (not_not_intro hzero)] at hids
    rw [hids] at hanswer
    have hmax : maxOver 0 (batchIds (handed ++ [up])) = maxOver 0 (batchIds handed) := by
      rw [batchIds_append, maxOver_append, maxOver_singleton, hzero, Int.max_eq_left hnonneg]
    refine ⟨?_, hmax ▸ hanswer⟩
    rw [hmax, nonzeroIds_append, hids, List.append_nil]
    exact hkept
  · rw [if_pos hzero] at hids
    rw [hids] at hanswer
    obtain ⟨hstep, hlt, hnext⟩ := Answer.next hs.increasing hanswer
    have hmax : maxOver 0 (batchIds (handed ++ [up])) = int64OfU64 up.updateId := by
      rw [batchIds_append, maxOver_append, maxOver_singleton, Int.max_eq_right (Int.le_of_lt hlt)]
    refine ⟨?_, hmax ▸ hnext⟩
    rw [hmax, nonzeroIds_append, hids]
    exact hkept.step hstep

/-- The main thread follows the feed. -/
theorem follows_of_run (hJ : GetsInts J) (hs : Source source) (h0 : Started bot₀ max) (hempty : bot₀.updates = none)
    (hzero : bot₀.maxUpdateId = 0) (h : machine.Run (ServesFrom J source wanted) bot₀ bot log) :
    Handing (Follows source wanted) bot log := by
  refine h.invariant (I := Handing (Follows source wanted)) ?_ ?_
  · refine ⟨fun _ batch hb => absurd (hempty.symm.trans hb) nofun, ?_⟩
    rw [h0.pc]
    exact ⟨Spec.Reach.init, Answer.nil⟩
  · intro bot log a bot' ev hr hi hc hstep
    refine hi.step (fun handed left hp => ⟨hp.kept, Answer.nil⟩) (fun handed up left hp => hp.next hs) (step_cases hstep) ?_
    rintro k res batch stored rfl hstored
    unfold updatesAfter at hstored
    split at hstored
    · rename_i data hk
      split at hstored
      · rename_i hst
        cases hstored
        have hanswer := (hc data hk hst.1 hst.2).answer hJ hs
        rw [offset_of_handling h0 hr hk hst.1, Int.add_sub_cancel, maxUpdateId_eq hzero hr] at hanswer
        exact Or.inr ⟨hi.rest.kept, hanswer⟩
      · exact Or.inl hstored
    · exact Or.inl hstored

/-! ## Main result -/

theorem itemsTo_mono (source : List Int) {cursor cursor' : Int} (h : cursor ≤ cursor') :
    (itemsTo source cursor).Sublist (itemsTo source cursor') :=
  List.monotone_filter_right _ (fun _ hx => decide_eq_true (Int.le_trans (of_decide_eq_true hx) h))

/-- In a run of the bot in which the server sends, from the offset of a poll on, as many of its updates as it likes: the ids that are handed
over, but for the zeros of entries that were not written, are those of updates of the server, each once and in their order; and when a poll
asks for the updates from `o` on, those before are handed over, but for some that are not wanted. -/
theorem updates_handed_over_once (hJ : GetsInts J) (hs : Source source) {size : UInt32} {env : GwRing.InitEnv} {ring₀ : GwRing}
    (h0 : GwRing.gwRingInit size env = some (.ok ring₀)) (addr tctxP updatesP : Nat)
    (h : machine.Run (ServesFrom J source wanted) (init addr tctxP updatesP ring₀) bot log) :
    ((handedIds log).filter (fun id => id ≠ 0)).Sublist source ∧
      ∀ o ∈ pollOffsets log, ((itemsTo source (o - 1)).filter wanted).Sublist (handedIds log) := by
  obtain ⟨max, -, hfresh⟩ := GwRing.gwRingInit_fresh h0
  have hstart : Started (init addr tctxP updatesP ring₀) max := ⟨hfresh, rfl⟩
  have hreach := (follows_of_run hJ hs hstart rfl rfl h).rest.kept
  have hzero : itemsTo source 0 = [] := by
    refine List.filter_eq_nil_iff.2 (fun id hm hle => ?_)
    have := (hs.bounds id hm).1
    have := of_decide_eq_true hle
    omega
  obtain ⟨hhanded, hwanted⟩ := feed_reach hs.increasing hzero hreach
  refine ⟨hhanded.trans List.filter_sublist, fun o ho => ?_⟩
  have hle := ((Offsets.of_run rfl h).le o ho).2
  rw [maxUpdateId_eq rfl h] at hle
  exact (((itemsTo_mono source (by omega)).filter wanted).trans hwanted).trans List.filter_sublist

/-- A response with two updates, of which the parser rejects the first. -/
def firstRejected : List UInt8 × JsonObject :=
  response "\x7b\"update_id\":5,\"message\":7\x7d,\x7b\"update_id\":6\x7d"
    [.node 0 (.object ["update_id", "message"]) [.node 1 (.int 5) [], .node 2 (.int 7) []],
      .node 3 (.object ["update_id"]) [.node 4 (.int 6) []]]

/-- The container that it is parsed into: the second update has taken the entry of the first, and the second entry was not written. -/
def firstRejectedBatch : List BatchUpdate := [⟨7, 6⟩, ⟨8, 0⟩]

/-- The server has the updates of this response, of which the first is not wanted. -/
theorem served_firstRejected : Served plainJsonC [5, 6] (· == 6) 0 firstRejectedBatch := by
  have h : ∃ mem container, tgapiParseUpdatesLenMax plainJsonC (textTokener firstRejected) plentyEnv firstRejected.1
      firstRejected.1.length 5 .empty = some (mem, some container, 0) ∧
      firstRejectedBatch.map BatchUpdate.updateId = (container.updates.take container.len).map TgUpdate.updateId := by
    rw [tgapiParseUpdatesLenMax, parseJson_textTokener]
    exact ⟨_, _, rfl, by decide⟩
  obtain ⟨mem, container, hcall, hbatch⟩ := h
  refine ⟨_, _, _, _, 5, _, _, container, _, _, _, 2, parseJson_textTokener _ _, rfl, rfl, rfl, ?_, hcall, hbatch⟩
  rintro (_ | _ | k) elem id helem hid hw
  · cases helem
    cases hid
    exact absurd hw (by decide)
  · cases helem
    rfl
  · cases helem

/-- The first poll of a run gets this response. -/
def FirstGetsFirstRejected (bot : TgBotCtx) : Act → Prop
  | .exec k _ batch => ∀ e ∈ bot.ring.execs[k]?.bind id, e.pc = .handling → batch = firstRejectedBatch ∧ e.data.sqe.tgApiCall.offset = 1
  | _ => True

instance (bot : TgBotCtx) (a : Act) : Decidable (FirstGetsFirstRejected bot a) :=
  match a with
  | .exec k _ batch => inferInstanceAs (Decidable (∀ e ∈ bot.ring.execs[k]?.bind id, e.pc = .handling →
      batch = firstRejectedBatch ∧ e.data.sqe.tgApiCall.offset = 1))
  | .main | .ring _ => isTrue trivial

theorem FirstGetsFirstRejected.servesFrom (h : FirstGetsFirstRejected bot a) : ServesFrom plainJsonC [5, 6] (· == 6) bot a := by
  cases a with
  | exec k res batch =>
    intro data hk _ _
    obtain ⟨rfl, hoff⟩ := h ⟨data, .handling⟩ (by rw [hk]; rfl) rfl
    rw [hoff]
    exact served_firstRejected
  | _ => trivial

/-- Both entries are handed over, the one that was not written too, and then the poll after them asks for what is from 7 on. -/
theorem updates_handed_over_once_first : ∃ (ring₀ : GwRing) (bot : TgBotCtx) (log : List BotEvent),
    GwRing.gwRingInit 8192 GwRing.InitEnv.ok = some (.ok ring₀) ∧
    machine.Run (ServesFrom plainJsonC [5, 6] (· == 6)) (init 1 2 3 ring₀) bot log ∧ pollOffsets log = [1, 7] ∧ handedIds log = [6, 0] ∧
    ((handedIds log).filter (fun id => id ≠ 0)).Sublist [5, 6] ∧ ((itemsTo [5, 6] (7 - 1)).filter (· == 6)).Sublist (handedIds log) := by
  have hrun : ∃ ring₀ : GwRing, GwRing.gwRingInit 8192 GwRing.InitEnv.ok = some (.ok ring₀) ∧
      (machine.execIf FirstGetsFirstRejected (init 1 2 3 ring₀) (firstPoll firstRejectedBatch ++
          [.ring (.postStart (.worker 0)), .ring .postStore, .ring .postPublish] ++ List.replicate 10 .main)).map
        (fun r => (pollOffsets r.2, handedIds r.2)) = some ([1, 7], [6, 0]) := by
    refine ⟨_, rfl, ?_⟩
    set_option maxRecDepth 20000 in decide
  obtain ⟨ring₀, h0, he⟩ := hrun
  obtain ⟨bot, log, h, hval⟩ := Machine.exists_of_exec (fun (_ : TgBotCtx) log => (pollOffsets log, handedIds log)) he
  obtain ⟨hoff, hids⟩ := Prod.mk.injEq _ _ _ _ ▸ hval
  have hserves := h.mono (fun _ _ hc => hc.servesFrom)
  have hints : GetsInts plainJsonC := fun _ _ _ _ _ => rfl
  obtain ⟨hhanded, hwanted⟩ := updates_handed_over_once hints ⟨by decide, by decide⟩ h0 1 2 3 hserves
  exact ⟨ring₀, bot, log, h0, hserves, hoff, hids, hhanded, hwanted 7 (by rw [hoff]; decide)⟩

end TgBotCtx

end GwBot

import GwBot.TgApi.Parse
import Mathlib.Data.List.Infix

/-!
# The lifetime of an update

An update is shared by counting references to its JSON root. `tgapi_free_update` returns when `json_object_put` says that it has freed
the root, and goes on to free the message when it says that it has not: the message is leaked by the one holder, and freed under
the others. The blocks and the root are released at the last free, and not before, only when there are no blocks and one holder.
-/

namespace GwBot

open Lib

/-! ## Calls on an update -/

/-- The calls that take and drop a reference to an update. -/
inductive UpdateCall where
  | incRef
  | free
  deriving DecidableEq, Repr

/-- One call. -/
def callUpdate (s : Mem × TgUpdate) : UpdateCall → Mem × TgUpdate
  | .incRef => (tgapiIncRefUpdate s.2 s.1, s.2)
  | .free => tgapiFreeUpdate s.2 s.1

/-- Some calls, in order. -/
def callsUpdate (s : Mem × TgUpdate) (calls : List UpdateCall) : Mem × TgUpdate := calls.foldl callUpdate s

/-- The blocks that `tgapi_free_message` frees. -/
def messageBlocks (msg : TgMessage) : List Nat :=
  (msg.fromUser.map Ptr.addr).toList ++ (msg.chat.map Ptr.addr).toList ++ (if msg.type = .text then msg.entities.toList else [])

/-- The blocks of an update. -/
def ownedBlocks (update : TgUpdate) : List Nat :=
  match update.type with
  | .message => messageBlocks update.message
  | .unknown => []

/-- The blocks and the JSON root of the update are live. -/
structure Live (update : TgUpdate) (mem : Mem) : Prop where
  blocks : ∀ a ∈ ownedBlocks update, a ∉ mem.freed
  json : ∀ a ∈ update.json.root?, 0 < mem.json.refs a ∧ a ∉ mem.json.freed

/-- The blocks and the JSON root of the update have been released, each once. -/
structure Released (update : TgUpdate) (mem : Mem) : Prop where
  blocks : ∀ a ∈ ownedBlocks update, mem.freed.count a = 1
  json : ∀ a ∈ update.json.root?, mem.json.freed.count a = 1

/-- The update is live before the calls and after every call but the last free, and released by that. -/
def ReleasedAtLastFree (update : TgUpdate) (mem : Mem) (calls : List UpdateCall) : Prop :=
  (∀ calls', calls' <+: calls → calls'.count .free < calls.count .free → Live update (callsUpdate (mem, update) calls').1) ∧
    Released update (callsUpdate (mem, update) calls).1

/-- The calls of `n + 1` holders, none of which drops more than has been taken. -/
structure Holders (n : Nat) (calls : List UpdateCall) : Prop where
  incRefs : calls.count .incRef = n
  frees : calls.count .free = n + 1
  prefixes : ∀ calls', calls' <+: calls → calls'.count .free ≤ 1 + calls'.count .incRef

/-- The prefixes of concrete calls are checked one by one. -/
theorem Holders.of_inits {n : Nat} {calls : List UpdateCall} (hcount : calls.count .incRef = n ∧ calls.count .free = n + 1)
    (hpre : ∀ calls' ∈ calls.inits, calls'.count .free ≤ 1 + calls'.count .incRef) : Holders n calls :=
  ⟨hcount.1, hcount.2, fun calls' h => hpre calls' ((List.mem_inits calls' calls).2 h)⟩

/-! ## What the parse leaves -/

variable {J : JsonC} {tok : JsonTokener} {env : ParseEnv} {update update' : TgUpdate} {json : List UInt8} {len : Nat} {mem mem' : Mem}
  {jobj : JsonObject}

/-- A successful parse leaves the one reference to the root with the update, and its pointers set if there is a message. -/
structure JustParsed (jobj : JsonObject) (mem : Mem) (update : TgUpdate) : Prop where
  json : update.json = jobj
  root : ∃ a label cs, jobj = .node a label cs
  nodup : jobj.addrs.Nodup
  refs : ∀ a ∈ jobj.addrs, mem.json.refs a = 1 ∧ a ∉ mem.json.freed
  type : if hasKey jobj "message" then
    update.type = .message ∧ update.message.fromUser.isSome = true ∧ update.message.chat.isSome = true
    else update.type = .unknown

/-- Only an object has members. -/
theorem root_of_hasKey {key : String} (h : hasKey jobj key = true) : ∃ a label cs, jobj = .node a label cs := by
  cases jobj with
  | nil => nomatch h
  | node a label cs => exact ⟨a, label, cs, rfl⟩

theorem tgapiParseUpdateLen_justParsed (hparse : parseJson tok env.fuel env.tokenerNew json len = some (.ok jobj))
    (hnew : RefTree.IsNew mem.json jobj) (h : tgapiParseUpdateLen J tok env update json len mem = some (mem', update', 0)) :
    JustParsed jobj mem' update' := by
  obtain ⟨hjson, hset, htype⟩ := tgjGetUpdate_cases ((tgapiParseUpdateLen_eq_zero hparse).1 h)
  obtain ⟨hok, hled⟩ := hset.of_zero
  have hkey : hasKey jobj "update_id" = true := (Bool.and_eq_true_iff.1 hok).1
  refine ⟨hjson, root_of_hasKey hkey, hnew.nodup, ?_, htype rfl⟩
  intro a ha
  rw [hled.json]
  exact ⟨RefTree.new_refs _ ha, hnew.fresh a ha⟩

/-! ## What the calls do -/

/-- Once the pointer to the JSON is reset, the calls do nothing. -/
theorem callsUpdate_nil (h : update.json = .nil) (calls : List UpdateCall) : callsUpdate (mem, update) calls = (mem, update) := by
  induction calls with
  | nil => rfl
  | cons c calls ih =>
    have hone : callUpdate (mem, update) c = (mem, update) := by
      cases c with
      | incRef => simp [callUpdate, tgapiIncRefUpdate, Mem.jsonObjectGet, RefTree.get, h]
      | free => simp [callUpdate, tgapiFreeUpdate, h]
    rw [callsUpdate, List.foldl_cons, hone]
    exact ih

/-- References that are taken are counted at the root. -/
theorem callsUpdate_incRefs (mem : Mem) {a : Nat} {label : JsonType} {cs : List JsonObject} (h : update.json = .node a label cs) (i : Nat) :
    (callsUpdate (mem, update) (List.replicate i .incRef)).2 = update ∧
      (callsUpdate (mem, update) (List.replicate i .incRef)).1.json.refs a = mem.json.refs a + i ∧
      (callsUpdate (mem, update) (List.replicate i .incRef)).1.json.freed = mem.json.freed := by
  induction i generalizing mem with
  | zero => exact ⟨rfl, rfl, rfl⟩
  | succ i ih =>
    have hone : callUpdate (mem, update) .incRef = ({ mem with json := mem.json.setRefs a (mem.json.refs a + 1) }, update) := by
      simp [callUpdate, tgapiIncRefUpdate, Mem.jsonObjectGet, RefTree.get, h]
    obtain ⟨h1, h2, h3⟩ := ih { mem with json := mem.json.setRefs a (mem.json.refs a + 1) }
    rw [List.replicate_succ, callsUpdate, List.foldl_cons, hone]
    refine ⟨h1, h2.trans ?_, h3⟩
    rw [RefHeap.setRefs_refs, if_pos rfl]
    omega

/-- The free by the only holder frees the JSON, and nothing else. -/
theorem tgapiFreeUpdate_last {a : Nat} {label : JsonType} {cs : List JsonObject} (h : update.json = .node a label cs)
    (hrefs : mem.json.refs a = 1) :
    tgapiFreeUpdate update mem = ({ mem with json := (RefTree.put mem.json update.json).1 }, update) := by
  have hput : (mem.jsonObjectPut (.node a label cs)).2 = 1 := by simp [Mem.jsonObjectPut, RefTree.put, hrefs]
  simp only [tgapiFreeUpdate, h, hput]
  rfl

theorem tgapiFreeMessage_json (msg : TgMessage) (mem : Mem) : (tgapiFreeMessage msg mem).json = mem.json := by
  rw [tgapiFreeMessage, Mem.free_json, Mem.free_json]
  split
  · exact Mem.free_json _ _
  · rfl

/-- The free by one of several holders drops one reference to the JSON, and resets the pointer to it. -/
theorem tgapiFreeUpdate_shared {a : Nat} {label : JsonType} {cs : List JsonObject} (h : update.json = .node a label cs)
    (hrefs : mem.json.refs a ≠ 1) :
    (tgapiFreeUpdate update mem).2.json = .nil ∧
      (tgapiFreeUpdate update mem).1.json = mem.json.setRefs a (mem.json.refs a - 1) := by
  have hput : mem.jsonObjectPut (.node a label cs) = ({ mem with json := mem.json.setRefs a (mem.json.refs a - 1) }, 0) := by
    simp [Mem.jsonObjectPut, RefTree.put_shared _ hrefs]
  have hle : ¬(0 : Int) > 0 := by decide
  simp only [tgapiFreeUpdate, h, hput, if_neg hle]
  cases update.type with
  | message => exact ⟨rfl, tgapiFreeMessage_json _ _⟩
  | unknown => exact ⟨rfl, rfl⟩

/-- Calls with a free start with references that are taken, up to the first free. -/
theorem calls_split {calls : List UpdateCall} (h : 0 < calls.count .free) :
    ∃ i rest, calls = List.replicate i .incRef ++ .free :: rest := by
  induction calls with
  | nil => nomatch h
  | cons c calls ih =>
    cases c with
    | free => exact ⟨0, calls, rfl⟩
    | incRef =>
      obtain ⟨i, rest, hi⟩ := ih (by simpa using h)
      exact ⟨i + 1, rest, by rw [hi, List.replicate_succ, List.cons_append]⟩

/-- The calls of one holder are one free. -/
theorem Holders.eq_free {calls : List UpdateCall} (h : Holders 0 calls) : calls = [.free] := by
  obtain ⟨i, rest, rfl⟩ := calls_split (by rw [h.frees]; exact Nat.one_pos)
  have h1 := h.incRefs
  have h2 := h.frees
  simp only [List.count_append, List.count_replicate_self, List.count_cons_self, List.count_replicate] at h1 h2
  have hrest : rest = [] := by
    cases rest with
    | nil => rfl
    | cons c rest => cases c <;> simp at h1 h2
  obtain rfl : i = 0 := by omega
  rw [hrest]
  rfl

/-! ## When the update is released at the last free -/

/-- The free by the only holder frees every node of the JSON. -/
theorem JustParsed.free_json (hp : JustParsed jobj mem update) :
    (tgapiFreeUpdate update mem).1 = { mem with json := mem.json.freeAll jobj.addrs } := by
  obtain ⟨a, label, cs, rfl⟩ := hp.root
  rw [tgapiFreeUpdate_last hp.json (hp.refs a List.mem_cons_self).1, hp.json,
    RefTree.put_unshared _ _ hp.nodup (fun b hb => (hp.refs b hb).1)]

/-- Of several holders, the first free either frees the JSON under the others, or leaves a reference to it for ever. -/
theorem not_released_of_holders {n : Nat} {calls : List UpdateCall} (hp : JustParsed jobj mem update) (hn : 0 < n)
    (hc : Holders n calls) : ¬ReleasedAtLastFree update mem calls := by
  intro ⟨hlive, hrel⟩
  obtain ⟨a, label, cs, rfl⟩ := hp.root
  have hroot : a ∈ update.json.root? := by rw [hp.json]; rfl
  obtain ⟨hone, hfreed⟩ := hp.refs a List.mem_cons_self
  obtain ⟨i, rest, rfl⟩ := calls_split (by rw [hc.frees]; exact Nat.succ_pos n)
  by_cases hi : i = 0
  · subst hi
    have hdead := (hlive [.free] (List.prefix_append [.free] rest) (by rw [hc.frees]; exact Nat.succ_lt_succ hn)).json a hroot
    have hstep : (callsUpdate (mem, update) [.free]).1 = _ := hp.free_json
    rw [hstep] at hdead
    simp [RefHeap.freeAll, RefTree.addrs] at hdead
  · obtain ⟨hu, hr, hf⟩ := callsUpdate_incRefs mem hp.json i
    generalize hs : callsUpdate (mem, update) (List.replicate i .incRef) = s at hu hr hf
    obtain ⟨mem₁, update₁⟩ := s
    obtain rfl : update₁ = update := hu
    have hne : mem₁.json.refs a ≠ 1 := by
      rw [hr, hone]
      omega
    obtain ⟨hnil, hjson⟩ := tgapiFreeUpdate_shared hp.json hne
    have hend : callsUpdate (mem, update₁) (List.replicate i .incRef ++ .free :: rest) = tgapiFreeUpdate update₁ mem₁ := by
      rw [callsUpdate, List.foldl_append, List.foldl_cons]
      change callsUpdate (callUpdate (callsUpdate (mem, update₁) (List.replicate i .incRef)) .free) rest = _
      rw [hs]
      exact callsUpdate_nil hnil rest
    have hcount := hrel.json a hroot
    rw [hend, hjson, RefHeap.setRefs_freed, hf, List.count_eq_zero.2 hfreed] at hcount
    nomatch hcount

/-- The one holder of a message leaks its user and its chat. -/
theorem not_released_of_message (hp : JustParsed jobj mem update) (hmsg : hasKey jobj "message" = true) :
    ¬ReleasedAtLastFree update mem [.free] := by
  intro ⟨hlive, hrel⟩
  have htype := hp.type
  rw [if_pos hmsg] at htype
  obtain ⟨ht, huser, -⟩ := htype
  obtain ⟨user, hu⟩ := Option.isSome_iff_exists.1 huser
  have hown : user.addr ∈ ownedBlocks update := by simp [ownedBlocks, messageBlocks, ht, hu]
  have hstep : (callsUpdate (mem, update) [.free]).1 = _ := hp.free_json
  have hcount := hrel.blocks _ hown
  have hnot : user.addr ∉ mem.freed := (hlive [] List.nil_prefix Nat.one_pos).blocks _ hown
  rw [hstep, List.count_eq_zero.2 hnot] at hcount
  nomatch hcount

/-- An update that is no message, with one holder, is released as it should be. -/
theorem released_of_unknown (hp : JustParsed jobj mem update) (hmsg : hasKey jobj "message" = false) :
    ReleasedAtLastFree update mem [.free] := by
  have htype := hp.type
  rw [hmsg, if_neg (by decide)] at htype
  have hown : ownedBlocks update = [] := by rw [ownedBlocks, htype]
  obtain ⟨a, label, cs, rfl⟩ := hp.root
  obtain ⟨hone, hfreed⟩ := hp.refs a List.mem_cons_self
  have hroot : ∀ b ∈ update.json.root?, b = a := by
    intro b hb
    rw [hp.json] at hb
    exact (Option.some.inj hb).symm
  refine ⟨fun calls' hpre hlt => ?_, ?_, ?_⟩
  · -- the only prefix without the free is empty
    obtain rfl : calls' = [] := by
      rcases List.prefix_cons_iff.1 hpre with rfl | ⟨t, rfl, ht⟩
      · rfl
      · simp at hlt
    refine ⟨fun b hb => ?_, fun b hb => ?_⟩
    · rw [hown] at hb
      nomatch hb
    · rw [hroot b hb]
      exact ⟨by rw [show (callsUpdate (mem, update) []).1 = mem from rfl, hone]; exact Nat.one_pos, hfreed⟩
  · intro b hb
    rw [hown] at hb
    nomatch hb
  · intro b hb
    have hstep : (callsUpdate (mem, update) [.free]).1 = _ := hp.free_json
    rw [hroot b hb, hstep]
    show List.count a (mem.json.freed ++ RefTree.addrs _) = 1
    rw [List.count_append, List.count_eq_zero.2 hfreed, Nat.zero_add]
    rw [hp.nodup.count]
    exact if_pos List.mem_cons_self

/-- The blocks of a parsed update and its JSON root are live until the last free, and each is released once by it, exactly when the
JSON has no message and nobody takes a further reference. -/
theorem update_released_at_last_free {n : Nat} {calls : List UpdateCall}
    (hparse : parseJson tok env.fuel env.tokenerNew json len = some (.ok jobj)) (hnew : RefTree.IsNew mem.json jobj)
    (h : tgapiParseUpdateLen J tok env update json len mem = some (mem', update', 0)) (hc : Holders n calls) :
    ReleasedAtLastFree update' mem' calls ↔ n = 0 ∧ hasKey jobj "message" = false := by
  have hp := tgapiParseUpdateLen_justParsed hparse hnew h
  constructor
  · intro hrel
    have hn : n = 0 := Nat.eq_zero_of_not_pos (fun hn => not_released_of_holders hp hn hc hrel)
    subst hn
    obtain rfl := hc.eq_free
    exact ⟨rfl, Bool.not_eq_true _ ▸ fun hmsg => not_released_of_message hp hmsg hrel⟩
  · rintro ⟨rfl, hmsg⟩
    obtain rfl := hc.eq_free
    exact released_of_unknown hp hmsg

/-! ## Two updates -/

/-- The bytes of a text of ASCII characters. -/
def asciiBytes (text : String) : List UInt8 := text.toList.map (fun c => UInt8.ofNat c.toNat)

/-- An update that is no message. -/
def bareUpdate : List UInt8 × JsonObject :=
  (asciiBytes "\x7b\"update_id\":1\x7d", .node 0 (.object ["update_id"]) [.node 1 (.int 1) []])

/-- The text of an update with a message of a user in a chat. -/
def messageText : String :=
  "\x7b\"update_id\":1,\"message\":\x7b\"message_id\":2,\"date\":3," ++
    "\"from\":\x7b\"id\":4,\"first_name\":\"a\"\x7d,\"chat\":\x7b\"id\":5\x7d\x7d\x7d"

/-- That update. -/
def messageUpdate : List UInt8 × JsonObject :=
  (asciiBytes messageText,
    .node 0 (.object ["update_id", "message"])
      [.node 1 (.int 1) [], .node 2 (.object ["message_id", "date", "from", "chat"])
        [.node 3 (.int 2) [], .node 4 (.int 3) [],
          .node 5 (.object ["id", "first_name"]) [.node 6 (.int 4) [], .node 7 (.string "a") []],
          .node 8 (.object ["id"]) [.node 9 (.int 5) []]]])

theorem update_released_at_last_free_small :
    ∃ mem update, tgapiParseUpdateLen plainJsonC (textTokener bareUpdate) plentyEnv .zero bareUpdate.1 bareUpdate.1.length .empty =
      some (mem, update, 0) ∧ (ReleasedAtLastFree update mem [.free] ↔ 0 = 0 ∧ hasKey bareUpdate.2 "message" = false) := by
  have h : ∃ mem update, tgapiParseUpdateLen plainJsonC (textTokener bareUpdate) plentyEnv .zero bareUpdate.1 bareUpdate.1.length .empty =
      some (mem, update, 0) := by
    rw [tgapiParseUpdateLen, parseJson_textTokener]
    exact ⟨_, _, rfl⟩
  obtain ⟨mem, update, h⟩ := h
  exact ⟨mem, update, h, update_released_at_last_free (parseJson_textTokener _ _) ⟨by decide, by decide⟩ h
    (Holders.of_inits (by decide) (by decide))⟩

/-- With one further reference taken, the first of the two frees frees the user and the chat of the message under the other holder. -/
theorem message_freed_under_holder :
    ∃ mem update user, tgapiParseUpdateLen plainJsonC (textTokener messageUpdate) plentyEnv .zero messageUpdate.1 messageUpdate.1.length .empty =
        some (mem, update, 0) ∧ Holders 1 [.incRef, .free, .free] ∧ update.message.fromUser = some user ∧
      user.addr ∈ (callsUpdate (mem, update) [.incRef, .free]).1.freed ∧
      ¬ReleasedAtLastFree update mem [.incRef, .free, .free] := by
  rw [tgapiParseUpdateLen, parseJson_textTokener]
  refine ⟨_, _, _, rfl, Holders.of_inits (by decide) (by decide), rfl, by decide +kernel, ?_⟩
  intro h
  have hlive := h.1 [.incRef, .free] ⟨[.free], rfl⟩ (by decide)
  exact hlive.blocks 0 (by decide +kernel) (by decide +kernel)

end GwBot

import GwBot.TgApi.Arrays

/-!
# What a failed parse leaves

However far a call of `tgapi_parse_update_len` came before it failed, it has freed what it allocated and dropped its reference to the JSON,
and the update is all zero, or as it was when there was no JSON.
-/

namespace GwBot

open Lib

/-- Entities beside a text are an array. -/
def EntitiesArray (jobj : JsonObject) : Prop :=
  ∀ jmsg jent, jsonObjectObjectGetEx jobj "message" = some jmsg → hasKey jmsg "text" = true →
    jsonObjectObjectGetEx jmsg "entities" = some jent → (jsonObjectArray jent).isSome = true

/-- Where entities are an array, the parse does not take another value for one. -/
theorem EntitiesArray.not_meets {jobj : JsonObject} (h : EntitiesArray jobj) (env : MessageEnv) : ¬MeetsNonArray env jobj := by
  rintro ⟨-, jmsg, hmsg, -, htext, jent, hent, hnone⟩
  have hsome := h jmsg jent hmsg htext hent
  rw [hnone] at hsome
  nomatch hsome

/-- Nothing is left of a call, given what `parse_json` came to: each block that it was handed has been freed once, and no other; without
JSON the update and json-c's values are as they were; else the update is all zero, and the reference to the root was dropped once, which
has freed each value of the JSON if nobody else refers to it. -/
structure LeavesNothing (mem : Mem) (prior : TgUpdate) (parsed : Except Int JsonObject) (mem' : Mem) (update : TgUpdate) : Prop where
  blocks : ∃ l, mem'.freed = mem.freed ++ l ∧ ∀ a, l.count a = if mem.next ≤ a ∧ a < mem'.next then 1 else 0
  noJson : ∀ ret, parsed = .error ret → update = prior ∧ mem'.json = mem.json
  json : ∀ jobj, parsed = .ok jobj → update = .zero ∧ mem'.json = (RefTree.put (RefTree.new mem.json jobj) jobj).1
  jsonFreed : ∀ jobj, parsed = .ok jobj → RefTree.IsNew mem.json jobj →
    ∀ a ∈ jobj.addrs, mem'.json.refs a = 0 ∧ mem'.json.freed.count a = 1

variable {J : JsonC} {tok : JsonTokener} {env : ParseEnv} {json : List UInt8} {len : Nat} {jobj : JsonObject}
  {parsed : Except Int JsonObject}

/-- Nothing is left of a call that `parse_json` has failed. -/
theorem LeavesNothing.of_error (mem : Mem) (prior : TgUpdate) (ret : Int) : LeavesNothing mem prior (.error ret) mem prior := by
  obtain ⟨-, -, l, hl, hcount⟩ := Ledger.refl mem
  refine ⟨⟨l, hl, fun a => ?_⟩, fun _ _ => ⟨rfl, rfl⟩, nofun, nofun⟩
  have := hcount a
  rwa [List.count_nil, Nat.add_zero] at this

/-- Nothing is left of a call whose `tgj_get_update` kept nothing, once the root is dropped. -/
theorem LeavesNothing.of_ledger {mem mem' : Mem} (prior : TgUpdate)
    (h : Ledger { mem with json := RefTree.new mem.json jobj } mem' []) :
    LeavesNothing mem prior (.ok jobj) (mem'.jsonObjectPut jobj).1 .zero := by
  have hjson := h.json
  obtain ⟨-, -, l, hl, hcount⟩ := h
  refine ⟨⟨l, hl, fun a => ?_⟩, nofun, ?_, ?_⟩
  · have := hcount a
    rwa [List.count_nil, Nat.add_zero] at this
  · intro jobj' e
    cases e
    refine ⟨rfl, ?_⟩
    rw [Mem.jsonObjectPut, hjson]
  · intro jobj' e hnew a ha
    cases e
    exact put_new_released hnew hjson ha

/-- A call returns, and when it returns an error it has left nothing behind. -/
theorem failed_parse_leaves_nothing (prior : TgUpdate) (mem : Mem)
    (hparse : parseJson tok env.fuel env.tokenerNew json len = some parsed) (hent : ∀ jobj, parsed = .ok jobj → EntitiesArray jobj) :
    ∃ mem' update ret, tgapiParseUpdateLen J tok env prior json len mem = some (mem', update, ret) ∧
      (ret ≠ 0 → LeavesNothing mem prior parsed mem' update) := by
  rw [tgapiParseUpdateLen, hparse]
  cases parsed with
  | error ret => exact ⟨mem, prior, ret, rfl, fun _ => LeavesNothing.of_error mem prior ret⟩
  | ok jobj =>
    have hmeets := (hent jobj rfl).not_meets (env.messages 0)
    rw [← tgjGetUpdate_eq_none (J := J) (env.messages 0) { prior with json := jobj } jobj
      { mem with json := RefTree.new mem.json jobj }] at hmeets
    obtain ⟨⟨mem₁, update, ret⟩, hget⟩ := Option.ne_none_iff_exists'.1 hmeets
    obtain ⟨hjson, hset, -⟩ := tgjGetUpdate_cases hget
    simp only [hget]
    obtain ⟨rfl, -⟩ | ⟨hneg, -, hled⟩ := hset
    · exact ⟨_, _, 0, rfl, fun h => absurd rfl h⟩
    · refine ⟨_, _, ret, if_pos (Int.ne_of_lt hneg), fun _ => ?_⟩
      rw [hjson]
      exact LeavesNothing.of_ledger prior hled

/-- An update whose chat has no id. -/
def oddChat : List UInt8 × JsonObject :=
  (asciiBytes
    ("\x7b\"update_id\":1,\"message\":\x7b\"message_id\":2,\"date\":3," ++
      "\"from\":\x7b\"id\":4,\"first_name\":\"a\"\x7d,\"chat\":\x7b\x7d\x7d\x7d"),
    .node 0 (.object ["update_id", "message"])
      [.node 1 (.int 1) [], .node 2 (.object ["message_id", "date", "from", "chat"])
        [.node 3 (.int 2) [], .node 4 (.int 3) [],
          .node 5 (.object ["id", "first_name"]) [.node 6 (.int 4) [], .node 7 (.string "a") []], .node 8 (.object []) []]])

/-- The parse of it fails with its user and its chat allocated, and leaves nothing behind. -/
theorem failed_parse_leaves_nothing_small :
    ∃ mem update, tgapiParseUpdateLen plainJsonC (textTokener oddChat) plentyEnv .zero oddChat.1 oddChat.1.length .empty =
      some (mem, update, -ENOENT) ∧ mem.next = 2 ∧ LeavesNothing .empty .zero (.ok oddChat.2) mem update := by
  have h : ∃ mem update, tgapiParseUpdateLen plainJsonC (textTokener oddChat) plentyEnv .zero oddChat.1 oddChat.1.length .empty =
      some (mem, update, -ENOENT) ∧ mem.next = 2 := by
    rw [tgapiParseUpdateLen, parseJson_textTokener]
    exact ⟨_, _, rfl, rfl⟩
  obtain ⟨mem, update, h, hnext⟩ := h
  obtain ⟨mem', update', ret, h', hleft⟩ := failed_parse_leaves_nothing (J := plainJsonC) .zero .empty (parseJson_textTokener oddChat _) (by
    intro jobj hj jmsg jent hmsg htext
    cases hj
    cases hmsg
    cases htext)
  cases h.symm.trans h'
  exact ⟨mem, update, h, hnext, hleft (by decide)⟩

end GwBot

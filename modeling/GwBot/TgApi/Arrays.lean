import GwBot.TgApi.Outcome

/-!
# Where a value is taken for an array

`json_object_array_length` asserts that it is given an array. `tgj_get_entities_and_alloc` gives it what a message has under `entities`
beside a `text`, and `tgapi_parse_updates_len_max` what the response has under `result`, and neither looks at what that is first. A parse
fails the assertion exactly when it comes to one of the two and that is no array.
-/

namespace GwBot

open Lib

variable {J : JsonC}

/-! ## One update -/

/-- `tgj_get_message` comes to `tgj_arrange_message_variant`. -/
def reachesVariant (env : MessageEnv) (jmsg : JsonObject) : Bool :=
  hasKey jmsg "message_id" && hasKey jmsg "date" &&
    (jsonObjectObjectGetEx jmsg "from").any (fun res => env.user && userOk res) &&
    (jsonObjectObjectGetEx jmsg "chat").any (fun res => env.chat && chatOk res)

/-- The message has a text, and beside it entities that are no array. -/
def OddEntities (jmsg : JsonObject) : Prop :=
  hasKey jmsg "text" = true ∧ ∃ jent, jsonObjectObjectGetEx jmsg "entities" = some jent ∧ jsonObjectArray jent = none

/-- `tgj_get_update` comes to entities that are no array. -/
def MeetsNonArray (env : MessageEnv) (jobj : JsonObject) : Prop :=
  hasKey jobj "update_id" = true ∧
    ∃ jmsg, jsonObjectObjectGetEx jobj "message" = some jmsg ∧ reachesVariant env jmsg = true ∧ OddEntities jmsg

theorem tgjGetEntitiesAndAlloc_eq_none (malloc : Bool) (jent : JsonObject) (mem : Mem) :
    tgjGetEntitiesAndAlloc malloc jent mem = none ↔ jsonObjectArray jent = none := by
  unfold tgjGetEntitiesAndAlloc
  cases harr : jsonObjectArray jent with
  | none => exact iff_of_true rfl rfl
  | some elems =>
    refine iff_of_false (fun h => ?_) nofun
    simp only at h
    split at h
    · nomatch h
    · split at h <;> nomatch h

theorem tgjArrangeMessageVariant_eq_none (malloc : Bool) (msg : TgMessage) (jmsg : JsonObject) (mem : Mem) :
    tgjArrangeMessageVariant J malloc msg jmsg mem = none ↔ OddEntities jmsg := by
  unfold tgjArrangeMessageVariant OddEntities
  cases htext : jsonObjectObjectGetEx jmsg "text" with
  | none =>
    rw [hasKey_of_eq_none htext]
    exact iff_of_false nofun (fun h => nomatch h.1)
  | some res =>
    rw [hasKey_of_eq_some htext]
    cases hent : jsonObjectObjectGetEx jmsg "entities" with
    | none => exact iff_of_false nofun (fun ⟨_, _, h, _⟩ => nomatch h)
    | some jent =>
      have harr := tgjGetEntitiesAndAlloc_eq_none malloc jent mem
      simp only [true_and, Option.some.injEq, exists_eq_left']
      rw [← harr]
      split <;> simp_all

/-- The chat is parsed, and after it the variant. -/
theorem tgjGetMessageChat_eq_none (env : MessageEnv) (msg : TgMessage) (jmsg : JsonObject) (mem : Mem) :
    tgjGetMessageChat J env msg jmsg mem = none ↔
      (jsonObjectObjectGetEx jmsg "chat").any (fun res => env.chat && chatOk res) = true ∧ OddEntities jmsg := by
  unfold tgjGetMessageChat
  cases hchat : jsonObjectObjectGetEx jmsg "chat" with
  | none => exact iff_of_false (by simp) (by simp)
  | some res =>
    rw [Option.any_some]
    rcases getAndAlloc_cases (tgjGetChat_accepts (J := J)) env.chat res mem with ⟨mem₁, chat, hg, hok, -⟩ | ⟨mem₁, ret, hg, hok, -⟩
    · simp only [tgjGetChatAndAlloc, hg, hok, true_and]
      rw [← tgjArrangeMessageVariant_eq_none (J := J) env.entities { msg with chat := some chat } jmsg mem₁]
      split
      · rename_i h
        exact iff_of_true rfl h
      · rename_i h
        rw [h]
        split <;> exact iff_of_false (by simp) (by simp)
    · simp only [tgjGetChatAndAlloc, hg, hok]
      exact iff_of_false (by simp) (by simp)

theorem tgjGetMessage_eq_none (env : MessageEnv) (msg : TgMessage) (jmsg : JsonObject) (mem : Mem) :
    tgjGetMessage J env msg jmsg mem = none ↔ reachesVariant env jmsg = true ∧ OddEntities jmsg := by
  unfold tgjGetMessage reachesVariant
  cases hid : jsonObjectObjectGetEx jmsg "message_id" with
  | none => simp [hasKey_of_eq_none hid]
  | some id =>
    cases hdate : jsonObjectObjectGetEx jmsg "date" with
    | none => simp [hasKey_of_eq_none hdate]
    | some date =>
      cases hfrom : jsonObjectObjectGetEx jmsg "from" with
      | none => simp
      | some res =>
        simp only [hasKey_of_eq_some hid, hasKey_of_eq_some hdate, Option.any_some, Bool.true_and]
        rcases getAndAlloc_cases (tgjGetUser_accepts (J := J)) env.user res mem with ⟨mem₁, user, hg, hok, -⟩ | ⟨mem₁, ret, hg, hok, -⟩
        · simp only [tgjGetUserAndAlloc, hg, hok, Bool.true_and]
          exact tgjGetMessageChat_eq_none env _ jmsg mem₁
        · simp only [tgjGetUserAndAlloc, hg, hok, Bool.false_and]
          exact iff_of_false (by simp) (by simp)

/-- `tgj_get_update` fails json-c's assertion just when it comes to entities that are no array. -/
theorem tgjGetUpdate_eq_none (env : MessageEnv) (update : TgUpdate) (jobj : JsonObject) (mem : Mem) :
    tgjGetUpdate J env update jobj mem = none ↔ MeetsNonArray env jobj := by
  unfold tgjGetUpdate MeetsNonArray
  cases hid : jsonObjectObjectGetEx jobj "update_id" with
  | none =>
    rw [hasKey_of_eq_none hid]
    exact iff_of_false nofun (fun h => nomatch h.1)
  | some id =>
    rw [hasKey_of_eq_some hid]
    cases hmsg : jsonObjectObjectGetEx jobj "message" with
    | none => exact iff_of_false nofun (fun ⟨_, _, h, _⟩ => nomatch h)
    | some jmsg =>
      simp only [true_and, Option.some.injEq, exists_eq_left']
      rw [← tgjGetMessage_eq_none (J := J) env update.message jmsg mem]
      split
      · rename_i h
        exact iff_of_true rfl h
      · rename_i h
        exact iff_of_false nofun (fun h' => nomatch h.symm.trans h')

/-! ## A batch -/

/-- The elements that the loop looks at before it ends. -/
def elemsBeforeNull (elems : List JsonObject) : List JsonObject := elems.takeWhile (fun elem => !elem.isNil)

@[simp] theorem elemsBeforeNull_nil : elemsBeforeNull [] = [] := rfl

@[simp] theorem elemsBeforeNull_null (elems : List JsonObject) : elemsBeforeNull (.nil :: elems) = [] := rfl

/-- `tgapi_parse_updates_len_max` comes to a `result` that is no array, or its loop to an element with entities that are none. -/
def BatchMeetsNonArray (env : ParseEnv) (jobj : JsonObject) (maxUpdates : Nat) : Prop :=
  ∃ result, jsonObjectObjectGetEx jobj "result" = some result ∧
    (jsonObjectArray result = none ∨
      env.updates = true ∧ ∃ elems i elem, jsonObjectArray result = some elems ∧
        (elemsBeforeNull (elems.take maxUpdates))[i]? = some elem ∧ MeetsNonArray (env.messages i) elem)

/-- An element of a list, with its index from `i` on, is the first one or one of the rest. -/
theorem exists_getElem?_cons {α : Type} {P : Nat → α → Prop} {x : α} {l : List α} {i : Nat} :
    (∃ k y, (x :: l)[k]? = some y ∧ P (i + k) y) ↔ P i x ∨ ∃ k y, l[k]? = some y ∧ P (i + 1 + k) y := by
  constructor
  · rintro ⟨k, y, hk, hy⟩
    cases k with
    | zero =>
      cases hk
      exact Or.inl hy
    | succ k => exact Or.inr ⟨k, y, hk, by rwa [Nat.add_assoc, Nat.add_comm 1 k]⟩
  · rintro (hx | ⟨k, y, hk, hy⟩)
    · exact ⟨0, x, rfl, hx⟩
    · exact ⟨k + 1, y, hk, by rwa [Nat.add_assoc, Nat.add_comm 1 k] at hy⟩

/-- The loop fails the assertion at the first of its elements that has such entities. -/
theorem parseUpdates_eq_none (messages : Nat → MessageEnv) (i : Nat) (elems : List JsonObject) (j : Nat) (updates : List TgUpdate)
    (mem : Mem) :
    parseUpdates J messages i elems j updates mem = none ↔
      ∃ k elem, (elemsBeforeNull elems)[k]? = some elem ∧ MeetsNonArray (messages (i + k)) elem := by
  induction elems generalizing i j updates mem with
  | nil => exact iff_of_false (by simp [parseUpdates]) (by simp)
  | cons elem elems ih =>
    cases elem with
    | nil => exact iff_of_false (by simp [parseUpdates]) (by simp)
    | node a label cs =>
      have hcons : elemsBeforeNull (.node a label cs :: elems) = .node a label cs :: elemsBeforeNull elems := rfl
      rw [hcons, exists_getElem?_cons (P := fun i => MeetsNonArray (messages i)), parseUpdates,
        ← tgjGetUpdate_eq_none (J := J) (messages i) (updates.getD j .zero) _ mem]
      swap
      · simp
      split
      · rename_i h
        exact iff_of_true rfl (Or.inl h)
      · rename_i mem₁ update ret h
        rw [h, or_iff_right (by simp)]
        simp only
        split
        · exact ih _ _ _ _
        · exact ih _ _ _ _

/-- The parse of a batch fails it at `result`, or in its loop. -/
theorem parseResult_eq_none (env : ParseEnv) (jobj : JsonObject) (maxUpdates : Nat) (mem : Mem) :
    parseResult J env jobj maxUpdates mem = none ↔ BatchMeetsNonArray env jobj maxUpdates := by
  unfold parseResult BatchMeetsNonArray
  cases hresult : jsonObjectObjectGetEx jobj "result" with
  | none => exact iff_of_false nofun (fun ⟨_, h, _⟩ => nomatch h)
  | some result =>
    simp only [Option.some.injEq, exists_eq_left']
    cases harr : jsonObjectArray result with
    | none => exact iff_of_true rfl (Or.inl rfl)
    | some elems =>
      have htake : elems.take (min elems.length maxUpdates) = elems.take maxUpdates := by
        rw [List.take_eq_take_iff]
        omega
      simp only [htake, reduceCtorEq, false_or]
      cases hcalloc : env.updates with
      | false => exact iff_of_false nofun (fun h => nomatch h.1)
      | true =>
        have hloop := parseUpdates_eq_none (J := J) env.messages 0 (elems.take maxUpdates) 0
          (List.replicate (min elems.length maxUpdates) .zero) { mem with next := mem.next + 1 }
        simp only [Nat.zero_add] at hloop
        simp only [Mem.malloc, if_true, true_and, Option.some.injEq, exists_eq_left', exists_and_left]
        rw [← hloop]
        split
        · rename_i h
          exact iff_of_true rfl h
        · rename_i h
          exact iff_of_false nofun (fun h' => nomatch h.symm.trans h')
        · rename_i h
          exact iff_of_false nofun (fun h' => nomatch h.symm.trans h')

/-- A parse of an update, and of a batch, takes only arrays for arrays exactly when it does not come to another value where it takes one:
there, and nowhere else, it does not return. -/
theorem arrays_respected {tok : JsonTokener} {env : ParseEnv} {json : List UInt8} {len : Nat} {jobj : JsonObject} (update : TgUpdate)
    (maxUpdates : Nat) (mem : Mem) (hparse : parseJson tok env.fuel env.tokenerNew json len = some (.ok jobj)) :
    ((tgapiParseUpdateLen J tok env update json len mem).isSome = true ↔ ¬MeetsNonArray (env.messages 0) jobj) ∧
    ((tgapiParseUpdatesLenMax J tok env json len maxUpdates mem).isSome = true ↔ ¬BatchMeetsNonArray env jobj maxUpdates) := by
  rw [tgapiParseUpdateLen, tgapiParseUpdatesLenMax, hparse]
  refine ⟨?_, ?_⟩
  · rw [← tgjGetUpdate_eq_none (J := J) (env.messages 0) { update with json := jobj } jobj
      { mem with json := RefTree.new mem.json jobj }]
    simp only
    split
    · rename_i h
      exact iff_of_false (by simp) (fun hne => hne h)
    · rename_i h
      rw [h]
      refine iff_of_true ?_ (by simp)
      split <;> rfl
  · rw [← parseResult_eq_none (J := J) env jobj maxUpdates { mem with json := RefTree.new mem.json jobj }]
    exact Option.isSome_iff_ne_none

/-- An update with the message of a text, and some more members of the message. -/
def textUpdate (text : String) (keys : List String) (members : List JsonObject) : List UInt8 × JsonObject :=
  (asciiBytes
    ("\x7b\"update_id\":1,\"message\":\x7b\"message_id\":2,\"date\":3,\"from\":\x7b\"id\":4,\"first_name\":\"a\"\x7d," ++
      "\"chat\":\x7b\"id\":5\x7d,\"text\":\"b\"" ++ text ++ "\x7d\x7d"),
    .node 0 (.object ["update_id", "message"])
      [.node 1 (.int 1) [], .node 2 (.object (["message_id", "date", "from", "chat", "text"] ++ keys))
        ([.node 3 (.int 2) [], .node 4 (.int 3) [],
          .node 5 (.object ["id", "first_name"]) [.node 6 (.int 4) [], .node 7 (.string "a") []],
          .node 8 (.object ["id"]) [.node 9 (.int 5) []], .node 10 (.string "b") []] ++ members)])

/-- Its entities are an array without elements. -/
def entitiesUpdate : List UInt8 × JsonObject := textUpdate ",\"entities\":[]" ["entities"] [.node 11 .array []]

/-- Its entities are an object. -/
def oddUpdate : List UInt8 × JsonObject := textUpdate ",\"entities\":\x7b\x7d" ["entities"] [.node 11 (.object []) []]

/-- A response whose result is an object. -/
def oddResult : List UInt8 × JsonObject :=
  (asciiBytes "\x7b\"ok\":true,\"result\":\x7b\x7d\x7d",
    .node 0 (.object ["ok", "result"]) [.node 1 (.boolean true) [], .node 2 (.object []) []])

/-- Entities and a result that are arrays are taken for that. -/
theorem arrays_respected_small :
    (tgapiParseUpdateLen plainJsonC (textTokener entitiesUpdate) plentyEnv .zero entitiesUpdate.1 entitiesUpdate.1.length .empty).isSome =
      true ∧
    (tgapiParseUpdatesLenMax plainJsonC (textTokener nullResponse) plentyEnv nullResponse.1 nullResponse.1.length 5 .empty).isSome =
      true := by
  constructor
  · refine (arrays_respected .zero 5 .empty (parseJson_textTokener entitiesUpdate _)).1.2 ?_
    rintro ⟨-, jmsg, hmsg, -, -, jent, hent, hnone⟩
    cases hmsg
    cases hent
    nomatch hnone
  · refine (arrays_respected .zero 5 .empty (parseJson_textTokener nullResponse _)).2.2 ?_
    rintro ⟨result, hresult, hnone | ⟨-, elems, i, elem, helems, hi, -⟩⟩
    · cases hresult
      nomatch hnone
    · cases hresult
      cases helems
      nomatch hi

/-- A text with an object for its entities, and a response with an object for its result, fail json-c's assertion. -/
theorem non_array_taken :
    parseJson (textTokener oddUpdate) plentyEnv.fuel plentyEnv.tokenerNew oddUpdate.1 oddUpdate.1.length = some (.ok oddUpdate.2) ∧
    tgapiParseUpdateLen plainJsonC (textTokener oddUpdate) plentyEnv .zero oddUpdate.1 oddUpdate.1.length .empty = none ∧
    parseJson (textTokener oddResult) plentyEnv.fuel plentyEnv.tokenerNew oddResult.1 oddResult.1.length = some (.ok oddResult.2) ∧
    tgapiParseUpdatesLenMax plainJsonC (textTokener oddResult) plentyEnv oddResult.1 oddResult.1.length 5 .empty = none := by
  refine ⟨parseJson_textTokener _ _, ?_, parseJson_textTokener _ _, ?_⟩
  · rw [tgapiParseUpdateLen, parseJson_textTokener]
    rfl
  · rw [tgapiParseUpdatesLenMax, parseJson_textTokener]
    rfl

end GwBot

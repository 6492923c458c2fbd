import GwBot.TgApi.Failure
import GwBot.TgApi.Fields

/-!
# The grammar of updates

What `tgj_get_update` accepts, and what it then holds, without its order of steps: a grammar of the JSON by its members, and for each
structure the members that its fields hold. The parse is compared with that when it starts from zero and nothing fails for want of memory.
-/

namespace GwBot

open Lib

/-! ## The grammar -/

/-- The value is an object with this member. -/
def Member (jobj : JsonObject) (key : String) (res : JsonObject) : Prop := jsonObjectObjectGetEx jobj key = some res

/-- A user has an id and a first name. -/
structure IsUser (juser : JsonObject) : Prop where
  id : ∃ res, Member juser "id" res
  firstName : ∃ res, Member juser "first_name" res

/-- A chat has an id, and no type that is null. -/
structure IsChat (jchat : JsonObject) : Prop where
  id : ∃ res, Member jchat "id" res
  type : ∀ res, Member jchat "type" res → res ≠ .nil

/-- A message has an id, a date, a user and a chat. -/
structure IsMessage (jmsg : JsonObject) : Prop where
  messageId : ∃ res, Member jmsg "message_id" res
  date : ∃ res, Member jmsg "date" res
  fromUser : ∃ res, Member jmsg "from" res ∧ IsUser res
  chat : ∃ res, Member jmsg "chat" res ∧ IsChat res

/-- An update has an id, and if it has a message that is one. -/
structure IsUpdate (jobj : JsonObject) : Prop where
  updateId : ∃ res, Member jobj "update_id" res
  message : ∀ res, Member jobj "message" res → IsMessage res

/-- The entities of the message, beside a text, are an array of fewer than 2^31 elements. -/
def EntitiesFit (jobj : JsonObject) : Prop :=
  ∀ jmsg jent, Member jobj "message" jmsg → hasKey jmsg "text" = true → Member jmsg "entities" jent →
    ∃ elems, jsonObjectArray jent = some elems ∧ elems.length < 2 ^ 31

/-! ## The fields -/

/-- A string that need not be there: `NULL` where it is not, or is null. -/
def HoldsString (J : JsonC) (jobj : JsonObject) (key : String) (s : Option String) : Prop :=
  (∀ res, Member jobj key res → s = jsonObjectGetString J res) ∧ ((∀ res, ¬Member jobj key res) → s = none)

/-- The user holds the members of its object. -/
structure HoldsUser (J : JsonC) (juser : JsonObject) (user : TgUser) : Prop where
  id : ∃ res, Member juser "id" res ∧ user.id = jsonObjectGetUint64 J res
  firstName : HoldsString J juser "first_name" user.firstName
  lastName : HoldsString J juser "last_name" user.lastName
  username : HoldsString J juser "username" user.username
  languageCode : HoldsString J juser "language_code" user.languageCode
  isBot : user.isBot = true ↔ ∃ res, Member juser "is_bot" res ∧ jsonObjectGetBoolean J res = true

/-- The chat holds the members of its object; of the type only what comes before a NUL counts. -/
structure HoldsChat (J : JsonC) (jchat : JsonObject) (chat : TgChat) : Prop where
  id : ∃ res, Member jchat "id" res ∧ chat.id = jsonObjectGetInt64 J res
  title : HoldsString J jchat "title" chat.title
  username : HoldsString J jchat "username" chat.username
  type : chat.type = .supergroup ↔
    ∃ res p, Member jchat "type" res ∧ jsonObjectGetString J res = some p ∧ cString p = "supergroup".toList

/-- The keys that make the type of a message, the first that is there. -/
def messageTypes : List (String × TgMsgType) :=
  [("text", .text), ("photo", .photo), ("sticker", .sticker), ("video", .video), ("voice", .voice), ("audio", .audio),
    ("document", .document), ("location", .location), ("contact", .contact), ("new_chat_members", .newChatMembers),
    ("left_chat_member", .leftChatMember), ("new_chat_title", .newChatTitle), ("new_chat_photo", .newChatPhoto),
    ("delete_chat_photo", .deleteChatPhoto), ("group_chat_created", .groupChatCreated),
    ("supergroup_chat_created", .supergroupChatCreated), ("channel_chat_created", .channelChatCreated),
    ("migrate_to_chat_id", .migrateToChatId), ("migrate_from_chat_id", .migrateFromChatId), ("pinned_message", .pinnedMessage)]

/-- The type is the one of the first key that the message has, or unknown. -/
inductive IsMessageType (jmsg : JsonObject) : TgMsgType → Prop where
  | first {before after : List (String × TgMsgType)} {key : String} {type : TgMsgType} :
      messageTypes = before ++ (key, type) :: after → (∃ res, Member jmsg key res) →
      (∀ v ∈ before, ∀ res, ¬Member jmsg v.1 res) → IsMessageType jmsg type
  | unknown : (∀ v ∈ messageTypes, ∀ res, ¬Member jmsg v.1 res) → IsMessageType jmsg .unknown

/-- The message holds the members of its object. -/
structure HoldsMessage (J : JsonC) (jmsg : JsonObject) (msg : TgMessage) : Prop where
  messageId : ∃ res, Member jmsg "message_id" res ∧ msg.messageId = jsonObjectGetUint64 J res
  date : ∃ res, Member jmsg "date" res ∧ msg.date = jsonObjectGetUint64 J res
  fromUser : ∃ res user, Member jmsg "from" res ∧ msg.fromUser = some user ∧ HoldsUser J res user.val
  chat : ∃ res chat, Member jmsg "chat" res ∧ msg.chat = some chat ∧ HoldsChat J res chat.val
  type : IsMessageType jmsg msg.type
  text : HoldsString J jmsg "text" msg.text
  entitiesLen : (∀ jent elems, msg.type = .text → Member jmsg "entities" jent → jsonObjectArray jent = some elems →
      msg.entitiesLen = elems.length) ∧
    (msg.type ≠ .text ∨ (∀ jent, ¬Member jmsg "entities" jent) → msg.entitiesLen = 0)

/-- The update holds the members of its object. -/
structure HoldsUpdate (J : JsonC) (jobj : JsonObject) (update : TgUpdate) : Prop where
  updateId : ∃ res, Member jobj "update_id" res ∧ update.updateId = jsonObjectGetUint64 J res
  type : update.type = .message ↔ ∃ res, Member jobj "message" res
  message : ∀ jmsg, Member jobj "message" jmsg → HoldsMessage J jmsg update.message

/-! ## What is accepted -/

theorem hasKey_iff {jobj : JsonObject} {key : String} : hasKey jobj key = true ↔ ∃ res, Member jobj key res :=
  Option.isSome_iff_exists

theorem userOk_iff {juser : JsonObject} : userOk juser = true ↔ IsUser juser := by
  rw [userOk, Bool.and_eq_true, hasKey_iff, hasKey_iff]
  exact ⟨fun ⟨hid, hname⟩ => ⟨hid, hname⟩, fun h => ⟨h.id, h.firstName⟩⟩

theorem chatOk_iff {jchat : JsonObject} : chatOk jchat = true ↔ IsChat jchat := by
  have hnil : ∀ res : JsonObject, (!res.isNil) = true ↔ res ≠ .nil := by
    intro res
    cases res <;> simp [RefTree.isNil]
  rw [chatOk, Bool.and_eq_true, hasKey_iff, Option.all_eq_true]
  simp only [hnil]
  exact ⟨fun h => ⟨h.1, h.2⟩, fun h => ⟨h.id, h.type⟩⟩

/-- Every allocation for a message succeeds. -/
def plentyMessageEnv : MessageEnv := ⟨true, true, true⟩

/-- With entities that fit, the variant is accepted. -/
theorem variantOk_of_fit {jobj jmsg : JsonObject} (hfit : EntitiesFit jobj) (hmsg : Member jobj "message" jmsg) :
    variantOk true jmsg = true := by
  rw [variantOk, Bool.or_eq_true, Bool.not_eq_true']
  cases htext : hasKey jmsg "text" with
  | false => exact Or.inl rfl
  | true =>
    rw [Option.all_eq_true]
    refine Or.inr (fun jent hent => ?_)
    obtain ⟨elems, harr, hlt⟩ := hfit jmsg jent hmsg htext hent
    rw [entitiesOk, harr, Option.any_some, intOfSize_of_lt hlt]
    simp

theorem messageOk_iff {jmsg : JsonObject} (hvar : variantOk true jmsg = true) :
    messageOk plentyMessageEnv jmsg = true ↔ IsMessage jmsg := by
  simp only [messageOk, plentyMessageEnv, Bool.and_eq_true, hasKey_iff, Option.any_eq_true, userOk_iff, chatOk_iff, hvar, and_true,
    true_and]
  constructor
  · rintro ⟨⟨⟨hid, hdate⟩, hfrom⟩, hchat⟩
    exact ⟨hid, hdate, hfrom, hchat⟩
  · exact fun h => ⟨⟨⟨h.messageId, h.date⟩, h.fromUser⟩, h.chat⟩

theorem updateOk_iff {jobj : JsonObject} (hfit : EntitiesFit jobj) : updateOk plentyMessageEnv jobj = true ↔ IsUpdate jobj := by
  rw [updateOk, Bool.and_eq_true, hasKey_iff, Option.all_eq_true]
  constructor
  · rintro ⟨hid, hmsg⟩
    exact ⟨hid, fun jmsg h => (messageOk_iff (variantOk_of_fit hfit h)).1 (hmsg jmsg h)⟩
  · rintro ⟨hid, hmsg⟩
    exact ⟨hid, fun jmsg h => (messageOk_iff (variantOk_of_fit hfit h)).2 (hmsg jmsg h)⟩

/-! ## What is held -/

variable {J : JsonC}

theorem optionalString_holds (jobj : JsonObject) (key : String) : HoldsString J jobj key (optionalString J jobj key) := by
  unfold optionalString
  split
  · rename_i res h
    refine ⟨fun res' h' => ?_, fun hno => absurd h (hno res)⟩
    cases h.symm.trans h'
    rfl
  · rename_i h
    exact ⟨fun res h' => (nomatch h.symm.trans h'), fun _ => rfl⟩

/-- A string that is there. -/
theorem HoldsString.of_member {jobj res : JsonObject} {key : String} (h : Member jobj key res) :
    HoldsString J jobj key (jsonObjectGetString J res) := by
  refine ⟨fun res' h' => ?_, fun hno => absurd h (hno res)⟩
  cases h.symm.trans h'
  rfl

theorem tgjGetUser_holds {juser : JsonObject} {user : TgUser} (h : tgjGetUser J juser = .ok user) : HoldsUser J juser user := by
  unfold tgjGetUser at h
  split at h
  · nomatch h
  · rename_i id hid
    split at h
    · nomatch h
    · rename_i name hname
      cases h
      refine ⟨⟨id, hid, rfl⟩, HoldsString.of_member hname, optionalString_holds _ _, optionalString_holds _ _,
        optionalString_holds _ _, ?_⟩
      simp only [Member]
      split
      · rename_i res hres
        simp [hres]
      · rename_i hres
        simp [hres]

/-- There is no NUL in the name of the type that is looked for. -/
theorem cString_supergroup : cString "supergroup" = "supergroup".toList := by decide

theorem tgjGetChatType_holds {jchat : JsonObject} {type : TgChatType} (h : tgjGetChatType J jchat = .ok type) :
    type = .supergroup ↔
      ∃ res p, Member jchat "type" res ∧ jsonObjectGetString J res = some p ∧ cString p = "supergroup".toList := by
  unfold tgjGetChatType at h
  rw [cString_supergroup] at h
  split at h
  · rename_i res hres
    split at h
    · nomatch h
    · rename_i p hp
      have hone : (∃ res p, Member jchat "type" res ∧ jsonObjectGetString J res = some p ∧ cString p = "supergroup".toList) ↔
          cString p = "supergroup".toList := by
        simp [Member, hres, hp]
      rw [hone]
      split at h
      · rename_i hsuper
        cases h
        exact iff_of_true rfl hsuper
      · rename_i hsuper
        cases h
        exact iff_of_false nofun hsuper
  · rename_i hres
    cases h
    exact iff_of_false nofun (fun ⟨res, _, h', _⟩ => nomatch hres.symm.trans h')

theorem tgjGetChat_holds {jchat : JsonObject} {chat : TgChat} (h : tgjGetChat J jchat = .ok chat) : HoldsChat J jchat chat := by
  unfold tgjGetChat at h
  split at h
  · nomatch h
  · rename_i id hid
    split at h
    · nomatch h
    · rename_i type htype
      cases h
      exact ⟨⟨id, hid, rfl⟩, optionalString_holds _ _, optionalString_holds _ _, tgjGetChatType_holds htype⟩

/-- The keys of the grammar are `text` and those that `tgj_arrange_message_variant` looks for after it, in the same order. -/
theorem messageTypes_eq : messageTypes = ("text", .text) :: messageVariants := rfl

/-- The type after `text` is that of the first of the other keys. -/
theorem variantOf_isMessageType {jmsg : JsonObject} (htext : ∀ res, ¬Member jmsg "text" res) : IsMessageType jmsg (variantOf jmsg) := by
  have hnot : ∀ {v : String × TgMsgType}, ¬(jsonObjectObjectGetEx jmsg v.1).isSome = true → ∀ res, ¬Member jmsg v.1 res := by
    intro v hv res hres
    exact hv (Option.isSome_iff_exists.2 ⟨res, hres⟩)
  unfold variantOf
  split
  · rename_i v hv
    obtain ⟨hkey, before, after, hsplit, hbefore⟩ := List.find?_eq_some_iff_append.1 hv
    have htypes : messageTypes = (("text", .text) :: before) ++ (v.1, v.2) :: after := by
      rw [messageTypes_eq, hsplit]
      rfl
    refine IsMessageType.first htypes (Option.isSome_iff_exists.1 hkey) ?_
    intro w hw
    rcases List.mem_cons.1 hw with rfl | hw
    · exact htext
    · have := hbefore w hw
      exact hnot (by simpa using this)
  · rename_i hnone
    refine IsMessageType.unknown (fun v hv => ?_)
    rw [messageTypes_eq] at hv
    rcases List.mem_cons.1 hv with rfl | hv
    · exact htext
    · exact hnot (List.find?_eq_none.1 hnone v hv)

theorem not_member {jobj : JsonObject} {key : String} (h : jsonObjectObjectGetEx jobj key = none) (res : JsonObject) :
    ¬Member jobj key res := by
  rw [Member, h]
  nofun

theorem VariantParse.holds {jobj jmsg : JsonObject} {addr : Nat} {msg msg' : TgMessage} (hfit : EntitiesFit jobj)
    (hmsg : Member jobj "message" jmsg) (htext : msg.text = none) (hlen : msg.entitiesLen = 0) (h : VariantParse J jmsg addr msg msg') :
    IsMessageType jmsg msg'.type ∧ HoldsString J jmsg "text" msg'.text ∧
      ((∀ jent elems, msg'.type = .text → Member jmsg "entities" jent → jsonObjectArray jent = some elems →
          msg'.entitiesLen = elems.length) ∧
        (msg'.type ≠ .text ∨ (∀ jent, ¬Member jmsg "entities" jent) → msg'.entitiesLen = 0)) := by
  have hfirst : ∀ {res}, Member jmsg "text" res → IsMessageType jmsg .text :=
    fun hres => @IsMessageType.first _ [] _ _ _ messageTypes_eq ⟨_, hres⟩ nofun
  cases h with
  | text hres hent =>
    exact ⟨hfirst hres, HoldsString.of_member hres, fun jent _ _ hent' => absurd hent' (not_member hent jent), fun _ => hlen⟩
  | entities hres hent harr _ =>
    obtain ⟨elems, harr', hlt⟩ := hfit jmsg _ hmsg (hasKey_of_eq_some hres) hent
    cases harr.symm.trans harr'
    refine ⟨hfirst hres, HoldsString.of_member hres, fun jent elems' _ hent' harr'' => ?_, fun hno => ?_⟩
    · cases hent.symm.trans hent'
      cases harr.symm.trans harr''
      rw [intOfSize_of_lt hlt, Int.toNat_natCast]
    · rcases hno with hno | hno
      · exact absurd rfl hno
      · exact absurd hent (hno _)
  | other hres =>
    refine ⟨variantOf_isMessageType (not_member hres), ⟨fun res h => absurd h (not_member hres res), fun _ => htext⟩,
      fun _ _ htype => absurd htype (variantOf_ne_text jmsg), fun _ => hlen⟩

theorem MessageParse.holds {jobj jmsg : JsonObject} {addr : Nat} {msg : TgMessage} (hfit : EntitiesFit jobj)
    (hmsg : Member jobj "message" jmsg) (h : MessageParse J jmsg addr .zero msg) : HoldsMessage J jmsg msg := by
  cases h with
  | mk hid hdate hfrom huser hchat hchat' hv =>
    obtain ⟨hid', hdate', hfrom', hchat''⟩ := hv.kept
    obtain ⟨htype, htext, hlen⟩ := hv.holds hfit hmsg rfl rfl
    exact ⟨⟨_, hid, hid'⟩, ⟨_, hdate, hdate'⟩, ⟨_, _, hfrom, hfrom', tgjGetUser_holds huser⟩,
      ⟨_, _, hchat, hchat'', tgjGetChat_holds hchat'⟩, htype, htext, hlen⟩

/-- What is parsed over zero holds the members of its JSON. -/
theorem UpdateParse.holds {jobj : JsonObject} {addr : Nat} {update : TgUpdate} (hfit : EntitiesFit jobj)
    (h : UpdateParse J jobj addr .zero update) : HoldsUpdate J jobj update := by
  cases h with
  | message hid hmsg hparse =>
    refine ⟨⟨_, hid, rfl⟩, iff_of_true rfl ⟨_, hmsg⟩, fun jmsg hmsg' => ?_⟩
    cases hmsg.symm.trans hmsg'
    exact hparse.holds hfit hmsg
  | unknown hid hmsg =>
    exact ⟨⟨_, hid, rfl⟩, iff_of_false nofun (fun ⟨res, h⟩ => not_member hmsg res h), fun jmsg h => absurd h (not_member hmsg jmsg)⟩

/-- `tgj_get_update` of a zero update, with memory for all it allocates, returns 0 on exactly the values of the grammar, and the update then
holds the members of the value. -/
theorem update_parser_accepts_grammar {jobj : JsonObject} (hfit : EntitiesFit jobj) (mem : Mem) :
    ∃ mem' update ret, tgjGetUpdate J plentyMessageEnv .zero jobj mem = some (mem', update, ret) ∧ (ret = 0 ↔ IsUpdate jobj) ∧
      (ret = 0 → HoldsUpdate J jobj update) := by
  have harr : EntitiesArray jobj := by
    intro jmsg jent hmsg htext hent
    obtain ⟨elems, harr, -⟩ := hfit jmsg jent hmsg htext hent
    rw [harr]
    rfl
  have hmeets := harr.not_meets plentyMessageEnv
  rw [← tgjGetUpdate_eq_none (J := J) plentyMessageEnv .zero jobj mem] at hmeets
  obtain ⟨⟨mem', update, ret⟩, hget⟩ := Option.ne_none_iff_exists'.1 hmeets
  refine ⟨mem', update, ret, hget, ?_, ?_⟩
  · rw [← updateOk_iff hfit]
    exact (tgjGetUpdate_cases hget).2.1.ret_eq_zero_iff
  · rintro rfl
    exact (tgjGetUpdate_fields hget).holds hfit

/-- An update with a message of a user in a supergroup, and some more members of the message. -/
def groupUpdate (keys : List String) (members : List JsonObject) : JsonObject :=
  .node 0 (.object ["update_id", "message"])
    [.node 1 (.int 1) [], .node 2 (.object (["message_id", "date", "from", "chat"] ++ keys))
      ([.node 3 (.int 2) [], .node 4 (.int 3) [],
        .node 5 (.object ["id", "first_name"]) [.node 6 (.int 4) [], .node 7 (.string "a") []],
        .node 8 (.object ["id", "type"]) [.node 9 (.int (-5)) [], .node 10 (.string "supergroup") []]] ++ members)]

/-- Its message is a photo, whatever comes after that. -/
def photoUpdate : JsonObject := groupUpdate ["pinned_message", "photo"] [.node 11 (.object []) [], .node 12 .array []]

/-- Its message is a text with two entities. -/
def twoEntitiesUpdate : JsonObject :=
  groupUpdate ["photo", "entities", "text"]
    [.node 11 .array [], .node 12 .array [.node 13 (.object []) [], .node 14 (.object []) []], .node 15 (.string "b") []]

/-- A photo, and a text with entities, are updates of the grammar. -/
theorem update_parser_accepts_grammar_small :
    (∃ mem update, tgjGetUpdate plainJsonC plentyMessageEnv .zero photoUpdate .empty = some (mem, update, 0) ∧
      update.message.type = .photo ∧ IsUpdate photoUpdate ∧ HoldsUpdate plainJsonC photoUpdate update) ∧
    ∃ mem update, tgjGetUpdate plainJsonC plentyMessageEnv .zero twoEntitiesUpdate .empty = some (mem, update, 0) ∧
      update.message.type = .text ∧ update.message.entitiesLen = 2 ∧ IsUpdate twoEntitiesUpdate ∧
      HoldsUpdate plainJsonC twoEntitiesUpdate update := by
  constructor
  · have hfit : EntitiesFit photoUpdate := by
      intro jmsg jent hmsg htext _
      cases hmsg
      nomatch htext
    have h : ∃ mem update, tgjGetUpdate plainJsonC plentyMessageEnv .zero photoUpdate .empty = some (mem, update, 0) ∧
        update.message.type = .photo := ⟨_, _, rfl, rfl⟩
    obtain ⟨mem, update, h, htype⟩ := h
    obtain ⟨mem', update', ret, h', hiff, hholds⟩ := update_parser_accepts_grammar (J := plainJsonC) hfit .empty
    cases h.symm.trans h'
    exact ⟨mem, update, h, htype, hiff.1 rfl, hholds rfl⟩
  · have hfit : EntitiesFit twoEntitiesUpdate := by
      intro jmsg jent hmsg _ hent
      cases hmsg
      cases hent
      exact ⟨_, rfl, by decide⟩
    have h : ∃ mem update, tgjGetUpdate plainJsonC plentyMessageEnv .zero twoEntitiesUpdate .empty = some (mem, update, 0) ∧
        update.message.type = .text ∧ update.message.entitiesLen = 2 := ⟨_, _, rfl, rfl, rfl⟩
    obtain ⟨mem, update, h, htype, hlen⟩ := h
    obtain ⟨mem', update', ret, h', hiff, hholds⟩ := update_parser_accepts_grammar (J := plainJsonC) hfit .empty
    cases h.symm.trans h'
    exact ⟨mem, update, h, htype, hlen, hiff.1 rfl, hholds rfl⟩

end GwBot

import GwBot.TgApi.Grammar
import GwBot.TgApi.Ids

/-!
# From the server's updates to those of the bot

The server says its updates in a JSON response: the members of an object in any order, with any others beside them. What
`tgapi_parse_updates_len_max` makes of the response is these updates again, in their order and without loss, up to the contents of entities
and media, which it does not read. `SaysResponse` is what a response has to be for that, and `encodeResponse` is one for each list of
updates.
-/

namespace GwBot

open Lib

/-! ## Updates as the server has them -/

/-- What a message says that the bot reads. -/
structure MessageData where
  messageId : UInt64
  fromUser : TgUser
  date : UInt64
  chat : TgChat
  type : TgMsgType
  text : Option String
  entitiesLen : Nat
  deriving DecidableEq, Repr

/-- What an update says that the bot reads. -/
structure UpdateData where
  updateId : UInt64
  message : Option MessageData
  deriving DecidableEq, Repr

/-- What a parsed message says, behind its pointers. -/
def TgMessage.data? (msg : TgMessage) : Option MessageData :=
  match msg.fromUser, msg.chat with
  | some user, some chat => some ⟨msg.messageId, user.val, msg.date, chat.val, msg.type, msg.text, msg.entitiesLen⟩
  | _, _ => none

/-- What a parsed update says. -/
def TgUpdate.data? (update : TgUpdate) : Option UpdateData :=
  match update.type with
  | .message => update.message.data?.map (fun msg => ⟨update.updateId, some msg⟩)
  | .unknown => some ⟨update.updateId, none⟩

/-! ## Saying them -/

/-- The member is this number. -/
def SaysInt (jobj : JsonObject) (key : String) (n : Int) : Prop := ∃ a cs, Member jobj key (.node a (.int n) cs)

/-- The member is this string; without one it is not there, or null. -/
def SaysString (jobj : JsonObject) (key : String) : Option String → Prop
  | some s => ∃ a cs, Member jobj key (.node a (.string s) cs)
  | none => ∀ res, Member jobj key res → res = .nil

/-- The object says this user. -/
structure SaysUser (juser : JsonObject) (user : TgUser) : Prop where
  id : SaysInt juser "id" user.id.toNat
  hasFirstName : hasKey juser "first_name" = true
  firstName : SaysString juser "first_name" user.firstName
  lastName : SaysString juser "last_name" user.lastName
  username : SaysString juser "username" user.username
  languageCode : SaysString juser "language_code" user.languageCode
  flag : ∀ res, Member juser "is_bot" res → ∃ a b cs, res = .node a (.boolean b) cs
  isBot : user.isBot = true ↔ ∃ a cs, Member juser "is_bot" (.node a (.boolean true) cs)

/-- The object says this chat: a supergroup when its type says so up to the first NUL. -/
structure SaysChat (jchat : JsonObject) (chat : TgChat) : Prop where
  id : SaysInt jchat "id" chat.id
  id_bounds : -2 ^ 63 ≤ chat.id ∧ chat.id < 2 ^ 63
  title : SaysString jchat "title" chat.title
  username : SaysString jchat "username" chat.username
  typed : ∀ res, Member jchat "type" res → ∃ a s cs, res = .node a (.string s) cs
  type : chat.type = .supergroup ↔ ∃ a s cs, Member jchat "type" (.node a (.string s) cs) ∧ cString s = "supergroup".toList

/-- The object says this message. -/
structure SaysMessage (jmsg : JsonObject) (msg : MessageData) : Prop where
  messageId : SaysInt jmsg "message_id" msg.messageId.toNat
  date : SaysInt jmsg "date" msg.date.toNat
  fromUser : ∃ juser, Member jmsg "from" juser ∧ SaysUser juser msg.fromUser
  chat : ∃ jchat, Member jmsg "chat" jchat ∧ SaysChat jchat msg.chat
  type : IsMessageType jmsg msg.type
  text : SaysString jmsg "text" msg.text
  entities : ∀ jent, msg.type = .text → Member jmsg "entities" jent →
    ∃ elems, jsonObjectArray jent = some elems ∧ elems.length = msg.entitiesLen ∧ elems.length < 2 ^ 31
  noEntities : msg.type ≠ .text ∨ (∀ jent, ¬Member jmsg "entities" jent) → msg.entitiesLen = 0

/-- The object says this update. -/
structure SaysUpdate (jobj : JsonObject) (update : UpdateData) : Prop where
  updateId : SaysInt jobj "update_id" update.updateId.toNat
  message : ∀ msg, update.message = some msg → ∃ jmsg, Member jobj "message" jmsg ∧ SaysMessage jmsg msg
  noMessage : update.message = none → ∀ res, ¬Member jobj "message" res

/-- The response says these updates, in this order. -/
def SaysResponse (jobj : JsonObject) (updates : List UpdateData) : Prop :=
  ∃ result elems, Member jobj "result" result ∧ jsonObjectArray result = some elems ∧ List.Forall₂ SaysUpdate elems updates

/-- json-c gives a number, a string or a boolean as it is, when that is what it is asked for. -/
structure GetsScalars (J : JsonC) : Prop where
  uint64 : GetsInts J
  int64 : ∀ a n cs, -2 ^ 63 ≤ n → n < 2 ^ 63 → J.getInt64 (.node a (.int n) cs) = n
  string : ∀ a s cs, J.getString (.node a (.string s) cs) = s
  boolean : ∀ a b cs, J.getBoolean (.node a (.boolean b) cs) = b

variable {J : JsonC}

/-! ## What is held is what was said -/

/-- A key has one member. -/
theorem Member.unique {jobj res res' : JsonObject} {key : String} (h : Member jobj key res) (h' : Member jobj key res') : res = res' :=
  Option.some.inj (h.symm.trans h')

theorem GetsScalars.uint64_eq (hJ : GetsScalars J) {jobj res : JsonObject} {key : String} {n : UInt64}
    (hs : SaysInt jobj key n.toNat) (h : Member jobj key res) : jsonObjectGetUint64 J res = n := by
  obtain ⟨a, cs, hm⟩ := hs
  rw [← hm.unique h]
  have hlt : (n.toNat : Int) < 2 ^ 64 := by exact_mod_cast n.toNat_lt
  have hget : jsonObjectGetUint64 J (.node a (.int n.toNat) cs) = UInt64.ofNat (n.toNat : Int).toNat :=
    hJ.uint64 a n.toNat cs (Int.natCast_nonneg _) hlt
  rw [hget, Int.toNat_natCast, UInt64.ofNat_toNat]

theorem GetsScalars.string_eq (hJ : GetsScalars J) {jobj : JsonObject} {key : String} {s s' : Option String}
    (hs : SaysString jobj key s') (h : HoldsString J jobj key s) : s = s' := by
  cases s' with
  | some x =>
    obtain ⟨a, cs, hm⟩ := hs
    rw [h.1 _ hm]
    exact congrArg some (hJ.string a x cs)
  | none =>
    by_cases hm : ∃ res, Member jobj key res
    · obtain ⟨res, hm⟩ := hm
      rw [h.1 res hm, hs res hm]
      rfl
    · exact h.2 (fun res hres => hm ⟨res, hres⟩)

theorem GetsScalars.user_eq (hJ : GetsScalars J) {juser : JsonObject} {user user' : TgUser} (hs : SaysUser juser user')
    (h : HoldsUser J juser user) : user = user' := by
  obtain ⟨res, hres, hid⟩ := h.id
  have hbot : user.isBot = user'.isBot := by
    rw [Bool.eq_iff_iff, h.isBot, hs.isBot]
    constructor
    · rintro ⟨res, hres, hb⟩
      obtain ⟨a, b, cs, rfl⟩ := hs.flag res hres
      have hget : jsonObjectGetBoolean J (.node a (.boolean b) cs) = b := hJ.boolean a b cs
      obtain rfl : b = true := hget.symm.trans hb
      exact ⟨a, cs, hres⟩
    · rintro ⟨a, cs, hm⟩
      exact ⟨_, hm, hJ.boolean a true cs⟩
  have hid' := hid.trans (hJ.uint64_eq hs.id hres)
  have hfirst := hJ.string_eq hs.firstName h.firstName
  have hlast := hJ.string_eq hs.lastName h.lastName
  have hname := hJ.string_eq hs.username h.username
  have hlang := hJ.string_eq hs.languageCode h.languageCode
  cases user
  cases user'
  simp only at hid' hfirst hlast hname hlang hbot
  rw [hid', hfirst, hlast, hname, hlang, hbot]

theorem GetsScalars.chat_eq (hJ : GetsScalars J) {jchat : JsonObject} {chat chat' : TgChat} (hs : SaysChat jchat chat')
    (h : HoldsChat J jchat chat) : chat = chat' := by
  obtain ⟨res, hres, hid⟩ := h.id
  obtain ⟨a, cs, hm⟩ := hs.id
  have hid' : chat.id = chat'.id := by
    rw [hid, ← hm.unique hres]
    exact hJ.int64 a _ cs hs.id_bounds.1 hs.id_bounds.2
  have htype : chat.type = .supergroup ↔ chat'.type = .supergroup := by
    rw [h.type, hs.type]
    constructor
    · rintro ⟨res, p, hres, hstr, hp⟩
      obtain ⟨a, s, cs, rfl⟩ := hs.typed res hres
      have hget : jsonObjectGetString J (.node a (.string s) cs) = some s := congrArg some (hJ.string a s cs)
      obtain rfl : s = p := Option.some.inj (hget.symm.trans hstr)
      exact ⟨a, s, cs, hres, hp⟩
    · rintro ⟨a, s, cs, hm, hp⟩
      exact ⟨_, s, hm, congrArg some (hJ.string a s cs), hp⟩
  have htitle := hJ.string_eq hs.title h.title
  have hname := hJ.string_eq hs.username h.username
  obtain ⟨id, title, username, type⟩ := chat
  obtain ⟨id', title', username', type'⟩ := chat'
  simp only at hid' htitle hname htype
  have htype' : type = type' := by
    cases type <;> cases type' <;> simp at htype ⊢
  rw [hid', htitle, hname, htype']

/-- A message has one type. -/
theorem IsMessageType.eq {jmsg : JsonObject} {type : TgMsgType} (h : IsMessageType jmsg type) :
    type = ((messageTypes.find? (fun v => hasKey jmsg v.1)).map Prod.snd).getD .unknown := by
  cases h with
  | @first before after key _ hsplit hkey hbefore =>
    have hfind : messageTypes.find? (fun v => hasKey jmsg v.1) = some (key, type) := by
      refine List.find?_eq_some_iff_append.2 ⟨hasKey_iff.2 hkey, before, after, hsplit, fun v hv => ?_⟩
      rw [Bool.not_eq_true', ← Bool.not_eq_true, hasKey_iff]
      exact fun ⟨res, hres⟩ => hbefore v hv res hres
    rw [hfind]
    rfl
  | unknown hnone =>
    have hfind : messageTypes.find? (fun v => hasKey jmsg v.1) = none := by
      refine List.find?_eq_none.2 (fun v hv hkey => ?_)
      obtain ⟨res, hres⟩ := hasKey_iff.1 hkey
      exact hnone v hv res hres
    rw [hfind]
    rfl

/-- A message with a text is a text. -/
theorem IsMessageType.eq_text {jmsg : JsonObject} {type : TgMsgType} (h : IsMessageType jmsg type) (htext : hasKey jmsg "text" = true) :
    type = .text := by
  rw [h.eq, messageTypes_eq, List.find?_cons]
  simp only [htext]
  rfl

theorem GetsScalars.message_eq (hJ : GetsScalars J) {jmsg : JsonObject} {msg : TgMessage} {data : MessageData} (hs : SaysMessage jmsg data)
    (h : HoldsMessage J jmsg msg) : msg.data? = some data := by
  obtain ⟨id, hid, hid'⟩ := h.messageId
  obtain ⟨date, hdate, hdate'⟩ := h.date
  obtain ⟨juser, user, hfrom, huser, hholds⟩ := h.fromUser
  obtain ⟨jchat, chat, hchat, hchat', hholds'⟩ := h.chat
  obtain ⟨juser', hfrom', hsuser⟩ := hs.fromUser
  obtain ⟨jchat', hchat'', hschat⟩ := hs.chat
  obtain rfl := hfrom'.unique hfrom
  obtain rfl := hchat''.unique hchat
  have htype : msg.type = data.type := h.type.eq.trans hs.type.eq.symm
  have hlen : msg.entitiesLen = data.entitiesLen := by
    by_cases hent : data.type = .text ∧ ∃ jent, Member jmsg "entities" jent
    · obtain ⟨htext, jent, hent⟩ := hent
      obtain ⟨elems, harr, hn, -⟩ := hs.entities jent htext hent
      rw [h.entitiesLen.1 jent elems (htype.trans htext) hent harr, hn]
    · have hno : data.type ≠ .text ∨ ∀ jent, ¬Member jmsg "entities" jent := by
        by_cases htext : data.type = .text
        · exact Or.inr (fun jent hjent => hent ⟨htext, jent, hjent⟩)
        · exact Or.inl htext
      rw [hs.noEntities hno, h.entitiesLen.2 (htype ▸ hno)]
  rw [TgMessage.data?, huser, hchat']
  simp only
  rw [hid', hJ.uint64_eq hs.messageId hid, hJ.user_eq hsuser hholds, hdate', hJ.uint64_eq hs.date hdate, hJ.chat_eq hschat hholds',
    htype, hJ.string_eq hs.text h.text, hlen]

theorem GetsScalars.update_eq (hJ : GetsScalars J) {jobj : JsonObject} {update : TgUpdate} {data : UpdateData} (hs : SaysUpdate jobj data)
    (h : HoldsUpdate J jobj update) : update.data? = some data := by
  obtain ⟨id, hid, hid'⟩ := h.updateId
  have hid' := hid'.trans (hJ.uint64_eq hs.updateId hid)
  obtain ⟨updateId, message⟩ := data
  cases message with
  | some msg =>
    obtain ⟨jmsg, hm, hsmsg⟩ := hs.message msg rfl
    have htype : update.type = .message := h.type.2 ⟨jmsg, hm⟩
    rw [TgUpdate.data?, htype]
    simp only
    rw [hJ.message_eq hsmsg (h.message jmsg hm), hid']
    rfl
  | none =>
    have htype : update.type = .unknown := by
      cases hu : update.type with
      | unknown => rfl
      | message =>
        obtain ⟨res, hres⟩ := h.type.1 hu
        exact absurd hres (hs.noMessage rfl res)
    rw [TgUpdate.data?, htype]
    simp only
    rw [hid']

/-! ## What is said is accepted -/

theorem SaysUser.isUser {juser : JsonObject} {user : TgUser} (h : SaysUser juser user) : IsUser juser := by
  obtain ⟨a, cs, hid⟩ := h.id
  exact ⟨⟨_, hid⟩, hasKey_iff.1 h.hasFirstName⟩

theorem SaysChat.isChat {jchat : JsonObject} {chat : TgChat} (h : SaysChat jchat chat) : IsChat jchat := by
  obtain ⟨a, cs, hid⟩ := h.id
  refine ⟨⟨_, hid⟩, fun res hres => ?_⟩
  obtain ⟨a, s, cs, rfl⟩ := h.typed res hres
  nofun

theorem SaysMessage.isMessage {jmsg : JsonObject} {msg : MessageData} (h : SaysMessage jmsg msg) : IsMessage jmsg := by
  obtain ⟨a, cs, hid⟩ := h.messageId
  obtain ⟨a, cs, hdate⟩ := h.date
  obtain ⟨juser, hfrom, huser⟩ := h.fromUser
  obtain ⟨jchat, hchat, hchat'⟩ := h.chat
  exact ⟨⟨_, hid⟩, ⟨_, hdate⟩, ⟨juser, hfrom, huser.isUser⟩, ⟨jchat, hchat, hchat'.isChat⟩⟩

/-- The message in the object of an update is the one that it says. -/
theorem SaysUpdate.of_message {jobj jmsg : JsonObject} {data : UpdateData} (h : SaysUpdate jobj data) (hm : Member jobj "message" jmsg) :
    ∃ msg, SaysMessage jmsg msg := by
  obtain ⟨updateId, message⟩ := data
  cases message with
  | none => exact absurd hm (h.noMessage rfl jmsg)
  | some msg =>
    obtain ⟨jmsg', hm', hmsg⟩ := h.message msg rfl
    obtain rfl := hm'.unique hm
    exact ⟨msg, hmsg⟩

theorem SaysUpdate.isUpdate {jobj : JsonObject} {data : UpdateData} (h : SaysUpdate jobj data) : IsUpdate jobj := by
  obtain ⟨a, cs, hid⟩ := h.updateId
  refine ⟨⟨_, hid⟩, fun jmsg hm => ?_⟩
  obtain ⟨msg, hmsg⟩ := h.of_message hm
  exact hmsg.isMessage

theorem SaysUpdate.entitiesFit {jobj : JsonObject} {data : UpdateData} (h : SaysUpdate jobj data) : EntitiesFit jobj := by
  intro jmsg jent hm htext hent
  obtain ⟨msg, hmsg⟩ := h.of_message hm
  obtain ⟨elems, harr, -, hlt⟩ := hmsg.entities jent (hmsg.type.eq_text htext) hent
  exact ⟨elems, harr, hlt⟩

/-- Entities that fit are an array. -/
theorem EntitiesFit.entitiesArray {jobj : JsonObject} (h : EntitiesFit jobj) : EntitiesArray jobj := by
  intro jmsg jent hmsg htext hent
  obtain ⟨elems, harr, -⟩ := h jmsg jent hmsg htext hent
  rw [harr]
  rfl

theorem SaysUpdate.ok {jobj : JsonObject} {data : UpdateData} (h : SaysUpdate jobj data) : updateOk plentyMessageEnv jobj = true :=
  (updateOk_iff h.entitiesFit).2 h.isUpdate

/-- What `tgj_get_update` makes of what was said. -/
theorem SaysUpdate.parsed (hJ : GetsScalars J) {jobj : JsonObject} {data : UpdateData} (h : SaysUpdate jobj data) {env : MessageEnv}
    {update : TgUpdate} {mem mem' : Mem} (hget : tgjGetUpdate J env .zero jobj mem = some (mem', update, 0)) :
    update.data? = some data :=
  hJ.update_eq h ((tgjGetUpdate_fields hget).holds h.entitiesFit)

/-! ## Responses -/

/-- Every allocation of a parse succeeds. -/
def PlentyOf (env : ParseEnv) : Prop := env.updates = true ∧ ∀ i, env.messages i = plentyMessageEnv

/-- Each of the elements says one of the updates. -/
theorem exists_said {elems : List JsonObject} {said : List UpdateData} (h : List.Forall₂ SaysUpdate elems said) {elem : JsonObject}
    (hm : elem ∈ elems) : ∃ data, SaysUpdate elem data := by
  induction h with
  | nil => cases hm
  | cons hone _ ih =>
    rcases List.mem_cons.1 hm with rfl | hm
    · exact ⟨_, hone⟩
    · exact ih hm

/-- The parses of what was said, one after the other. -/
theorem data_of_parses (hJ : GetsScalars J) {messages : Nat → MessageEnv} {elems : List JsonObject} {said : List UpdateData}
    {updates : List TgUpdate} {i : Nat} (hs : List.Forall₂ SaysUpdate elems said)
    (hp : List.Forall₂ (IsParse J messages) (elems.zipIdx i) updates) : updates.map TgUpdate.data? = said.map some := by
  induction hs generalizing i updates with
  | nil =>
    cases hp
    rfl
  | cons h _ ih =>
    rw [List.zipIdx_cons] at hp
    cases hp with
    | cons hone hrest =>
      obtain ⟨mem, mem', hget⟩ := hone
      rw [List.map_cons, List.map_cons, h.parsed hJ hget, ih hrest]

/-- A response that says updates is no error to the parser. -/
theorem SaysResponse.not_meets {jobj : JsonObject} {said : List UpdateData} (h : SaysResponse jobj said) (env : ParseEnv)
    (maxUpdates : Nat) : ¬BatchMeetsNonArray env jobj maxUpdates := by
  obtain ⟨result, elems, hresult, helems, hall⟩ := h
  rintro ⟨result', hresult', hbad⟩
  obtain rfl := Member.unique hresult hresult'
  rcases hbad with hnone | ⟨-, elems', i, elem, helems', hi, hmeets⟩
  · cases helems.symm.trans hnone
  · cases helems.symm.trans helems'
    have hmem : elem ∈ elems :=
      List.mem_of_mem_take ((List.takeWhile_sublist _).subset (List.mem_of_getElem? hi))
    obtain ⟨data, hsays⟩ := exists_said hall hmem
    exact hsays.entitiesFit.entitiesArray.not_meets _ hmeets

/-- The parser makes of a response the updates that it says, as many as it is asked for. -/
theorem SaysResponse.parsed (hJ : GetsScalars J) {jobj : JsonObject} {said : List UpdateData} (h : SaysResponse jobj said)
    {env : ParseEnv} (henv : PlentyOf env) (maxUpdates : Nat) (mem : Mem) :
    ∃ mem' batch, parseResult J env jobj maxUpdates mem = some (mem', some batch, 0) ∧ batch.len = min said.length maxUpdates ∧
      (batch.updates.take batch.len).map TgUpdate.data? = (said.take maxUpdates).map some := by
  have hsome : parseResult J env jobj maxUpdates mem ≠ none := fun hnone =>
    h.not_meets env maxUpdates ((parseResult_eq_none env jobj maxUpdates mem).1 hnone)
  obtain ⟨⟨mem', stored, ret⟩, hparse⟩ := Option.ne_none_iff_exists'.1 hsome
  obtain ⟨result, elems, hresult, helems, hall⟩ := h
  have htake : List.Forall₂ SaysUpdate (elems.take maxUpdates) (said.take maxUpdates) := List.forall₂_take maxUpdates hall
  have hok : ∀ elem ∈ elems.take maxUpdates, updateOk plentyMessageEnv elem = true := by
    intro elem hm
    obtain ⟨data, hsays⟩ := exists_said htake hm
    exact hsays.ok
  obtain ⟨-, -, -, hbad⟩ | ⟨result', elems', addr, mem₁, mem₂, updates, b, hresult', helems', -, -, rfl, hloop, rfl, -⟩ :=
    parseResult_cases hparse
  · rcases hbad with hbad | hbad
    · cases hresult.symm.trans hbad
    · cases henv.1.symm.trans hbad
  · obtain rfl := Member.unique hresult hresult'
    cases helems.symm.trans helems'
    have hb : b = false := by
      rw [← Bool.not_eq_true, parseUpdates_null hloop]
      exact fun hnil => absurd (hok _ hnil) (by decide)
    subst hb
    obtain ⟨filled, hupdates, hfilled⟩ := parseUpdates_accepted
      (fun k elem hk => by rw [henv.2]; exact hok elem (List.mem_of_getElem? hk)) (by simp)
      (fun k _ => by simp [List.getD_eq_getElem?_getD, List.getElem?_replicate]; split <;> rfl) hloop
    rw [List.take_zero, List.nil_append] at hupdates
    subst hupdates
    have hlen : (elems.take maxUpdates).length = updates.length := by
      rw [← hfilled.length_eq, List.length_zipIdx]
    refine ⟨mem', _, hparse, ?_, ?_⟩
    · rw [htake.length_eq, List.length_take, Nat.min_comm]
    · rw [List.take_of_length_le (Nat.le_of_eq hlen.symm)]
      exact data_of_parses hJ htake hfilled

/-! ## A response for each list of updates -/

/-- An object with these members. What its address is does not matter to the parser. -/
def jsonMembers (members : List (String × JsonObject)) : JsonObject :=
  .node 0 (.object (members.map Prod.fst)) (members.map Prod.snd)

/-- A number. -/
def jsonInt (n : Int) : JsonObject := .node 0 (.int n) []

/-- A string, or null. -/
def jsonString : Option String → JsonObject
  | some s => .node 0 (.string s) []
  | none => .nil

/-- The JSON of a user. -/
def encodeUser (user : TgUser) : JsonObject :=
  jsonMembers
    [("id", jsonInt user.id.toNat), ("is_bot", .node 0 (.boolean user.isBot) []), ("first_name", jsonString user.firstName),
      ("last_name", jsonString user.lastName), ("username", jsonString user.username), ("language_code", jsonString user.languageCode)]

/-- The JSON of a chat: one that is no supergroup is a group. -/
def encodeChat (chat : TgChat) : JsonObject :=
  jsonMembers
    [("id", jsonInt chat.id), ("title", jsonString chat.title), ("username", jsonString chat.username),
      ("type", jsonString (some (if chat.type = .supergroup then "supergroup" else "group")))]

/-- The members of a message that make its type. -/
def encodeVariant (msg : MessageData) : List (String × JsonObject) :=
  if msg.type = .text then
    [("text", jsonString msg.text), ("entities", .node 0 .array (List.replicate msg.entitiesLen (jsonMembers [])))]
  else ((messageVariants.find? (fun v => v.2 = msg.type)).map (fun v => (v.1, jsonMembers []))).toList

/-- The JSON of a message. -/
def encodeMessage (msg : MessageData) : JsonObject :=
  jsonMembers
    ([("message_id", jsonInt msg.messageId.toNat), ("from", encodeUser msg.fromUser), ("chat", encodeChat msg.chat),
      ("date", jsonInt msg.date.toNat)] ++ encodeVariant msg)

/-- The JSON of an update. -/
def encodeUpdate (update : UpdateData) : JsonObject :=
  jsonMembers
    (("update_id", jsonInt update.updateId.toNat) :: (update.message.map (fun msg => ("message", encodeMessage msg))).toList)

/-- The response with these updates. -/
def encodeResponse (updates : List UpdateData) : JsonObject :=
  jsonMembers [("ok", .node 0 (.boolean true) []), ("result", .node 0 .array (updates.map encodeUpdate))]

/-- What the server can say: a chat's id is an `int64_t`, and only a text has a text, with entities that an `int` counts. -/
structure MessageData.Valid (msg : MessageData) : Prop where
  chatId : -2 ^ 63 ≤ msg.chat.id ∧ msg.chat.id < 2 ^ 63
  type : msg.type ≠ .zero
  text : msg.type ≠ .text → msg.text = none
  entitiesLen : msg.entitiesLen < 2 ^ 31
  noEntities : msg.type ≠ .text → msg.entitiesLen = 0

/-- The message of the update is one that the server can say. -/
def UpdateData.Valid (update : UpdateData) : Prop := ∀ msg, update.message = some msg → msg.Valid

theorem member_jsonMembers {members : List (String × JsonObject)} {key : String} {res : JsonObject} :
    Member (jsonMembers members) key res ↔ members.lookup key = some res := by
  rw [Member, jsonMembers, jsonObjectObjectGetEx]
  have hzip : (members.map Prod.fst).zip (members.map Prod.snd) = members := by
    rw [← List.unzip_fst, ← List.unzip_snd, List.zip_unzip]
  rw [hzip]

/-- A string or null says what it is. -/
theorem says_jsonString {jobj : JsonObject} {key : String} {s : Option String} (h : Member jobj key (jsonString s)) :
    SaysString jobj key s := by
  cases s with
  | some s => exact ⟨0, [], h⟩
  | none => exact fun res hres => hres.unique h

theorem encodeUser_says (user : TgUser) : SaysUser (encodeUser user) user := by
  have hbot : Member (encodeUser user) "is_bot" (.node 0 (.boolean user.isBot) []) := rfl
  refine ⟨⟨0, [], rfl⟩, rfl, says_jsonString rfl, says_jsonString rfl, says_jsonString rfl, says_jsonString rfl, ?_, ?_⟩
  · exact fun res hres => ⟨0, user.isBot, [], hres.unique hbot⟩
  · constructor
    · intro h
      exact ⟨0, [], h ▸ hbot⟩
    · rintro ⟨a, cs, h⟩
      have hsame := hbot.unique h
      simp only [RefTree.node.injEq, JsonType.boolean.injEq] at hsame
      exact hsame.2.1

theorem encodeChat_says {chat : TgChat} (hid : -2 ^ 63 ≤ chat.id ∧ chat.id < 2 ^ 63) : SaysChat (encodeChat chat) chat := by
  have htype : Member (encodeChat chat) "type" (jsonString (some (if chat.type = .supergroup then "supergroup" else "group"))) := rfl
  refine ⟨⟨0, [], rfl⟩, hid, says_jsonString rfl, says_jsonString rfl, ?_, ?_⟩
  · exact fun res hres => ⟨0, _, [], hres.unique htype⟩
  · constructor
    · intro h
      rw [if_pos h] at htype
      exact ⟨0, _, [], htype, cString_supergroup⟩
    · rintro ⟨a, s, cs, h, hs⟩
      by_contra hno
      rw [if_neg hno] at htype
      have hsame := htype.unique h
      simp only [jsonString, RefTree.node.injEq, JsonType.string.injEq] at hsame
      rw [← hsame.2.1] at hs
      exact absurd hs (by decide)

/-- The keys of an object. -/
theorem hasKey_jsonMembers (members : List (String × JsonObject)) (key : String) :
    hasKey (jsonMembers members) key = (members.map Prod.fst).contains key := by
  rw [Bool.eq_iff_iff, hasKey_iff, List.contains_iff_mem]
  simp only [member_jsonMembers]
  induction members with
  | nil => simp
  | cons m members ih =>
    rw [List.lookup_cons, List.map_cons, List.mem_cons]
    by_cases hkey : key = m.1
    · simp [hkey]
    · rw [beq_false_of_ne hkey, or_iff_right hkey]
      exact ih

/-- The keys that each message has. -/
def messageKeys : List String := ["message_id", "from", "chat", "date"]

/-- Beside them, the key of a variant is the first that stands for a type, and without one there is none. -/
theorem find?_messageKeys :
    (∀ v ∈ messageVariants, (messageKeys ++ [v.1]).contains "text" = false ∧
      messageVariants.find? (fun w => (messageKeys ++ [v.1]).contains w.1) = some v) ∧
    messageVariants.find? (fun w => messageKeys.contains w.1) = none := by
  decide

/-- The types that no key after `text` stands for. -/
theorem type_of_find?_eq_none {type : TgMsgType} (h : messageVariants.find? (fun v => v.2 = type) = none) :
    type = .zero ∨ type = .text ∨ type = .unknown := by
  cases type with
  | zero => exact Or.inl rfl
  | text => exact Or.inr (Or.inl rfl)
  | unknown => exact Or.inr (Or.inr rfl)
  | _ => cases h

/-- The variant of a message that is no text is the one its type stands for. -/
theorem variantOf_encodeMessage {msg : MessageData} (hv : msg.Valid) (h : msg.type ≠ .text) :
    hasKey (encodeMessage msg) "text" = false ∧ variantOf (encodeMessage msg) = msg.type := by
  have hkeys : ∀ key, hasKey (encodeMessage msg) key = (messageKeys ++ (encodeVariant msg).map Prod.fst).contains key := by
    intro key
    rw [encodeMessage, hasKey_jsonMembers, List.map_append]
    rfl
  have hvariant : variantOf (encodeMessage msg) =
      ((messageVariants.find? (fun w => (messageKeys ++ (encodeVariant msg).map Prod.fst).contains w.1)).map Prod.snd).getD .unknown := by
    have hsame : (fun v : String × TgMsgType => (jsonObjectObjectGetEx (encodeMessage msg) v.1).isSome) =
        fun w => (messageKeys ++ (encodeVariant msg).map Prod.fst).contains w.1 := funext (fun v => hkeys v.1)
    rw [variantOf, hsame]
    split
    · rename_i hfind
      rw [hfind]
      rfl
    · rename_i hfind
      rw [hfind]
      rfl
  rw [hkeys, hvariant, encodeVariant, if_neg h]
  cases hfind : messageVariants.find? (fun v => v.2 = msg.type) with
  | some v =>
    obtain ⟨htext, hfirst⟩ := find?_messageKeys.1 v (List.mem_of_find?_eq_some hfind)
    refine ⟨htext, ?_⟩
    simp only [Option.map_some, Option.toList_some, List.map_cons, List.map_nil, hfirst, Option.getD_some]
    have htype := List.find?_some hfind
    simpa using htype
  | none =>
    refine ⟨rfl, ?_⟩
    simp only [Option.map_none, Option.toList_none, List.map_nil, List.append_nil, find?_messageKeys.2, Option.getD_none]
    rcases type_of_find?_eq_none hfind with htype | htype | htype
    · exact absurd htype hv.type
    · exact absurd htype h
    · exact htype.symm

/-- The members of a text. -/
theorem member_encodeMessage_text {msg : MessageData} (h : msg.type = .text) :
    Member (encodeMessage msg) "text" (jsonString msg.text) ∧
      Member (encodeMessage msg) "entities" (.node 0 .array (List.replicate msg.entitiesLen (jsonMembers []))) := by
  rw [encodeMessage, encodeVariant, if_pos h]
  exact ⟨rfl, rfl⟩

theorem encodeMessage_says {msg : MessageData} (hv : msg.Valid) : SaysMessage (encodeMessage msg) msg := by
  have hfrom : Member (encodeMessage msg) "from" (encodeUser msg.fromUser) := rfl
  have hchat : Member (encodeMessage msg) "chat" (encodeChat msg.chat) := rfl
  have hfrom' : ∃ juser, Member (encodeMessage msg) "from" juser ∧ SaysUser juser msg.fromUser := ⟨_, hfrom, encodeUser_says _⟩
  have hchat' : ∃ jchat, Member (encodeMessage msg) "chat" jchat ∧ SaysChat jchat msg.chat := ⟨_, hchat, encodeChat_says hv.chatId⟩
  by_cases h : msg.type = .text
  · obtain ⟨htext, hent⟩ := member_encodeMessage_text h
    refine ⟨⟨0, [], rfl⟩, ⟨0, [], rfl⟩, hfrom', hchat', ?_, says_jsonString htext, fun jent _ hjent => ?_, fun hno => ?_⟩
    · rw [h]
      exact @IsMessageType.first _ [] _ _ _ messageTypes_eq ⟨_, htext⟩ nofun
    · obtain rfl := hent.unique hjent
      exact ⟨_, rfl, List.length_replicate, by rw [List.length_replicate]; exact hv.entitiesLen⟩
    · rcases hno with hno | hno
      · exact absurd h hno
      · exact absurd hent (hno _)
  · obtain ⟨hnokey, hvariant⟩ := variantOf_encodeMessage hv h
    have hnotext : ∀ res, ¬Member (encodeMessage msg) "text" res := by
      intro res hres
      rw [hasKey_of_eq_some hres] at hnokey
      cases hnokey
    refine ⟨⟨0, [], rfl⟩, ⟨0, [], rfl⟩, hfrom', hchat', ?_, ?_, fun _ htext => absurd htext h, fun _ => hv.noEntities h⟩
    · rw [← hvariant]
      exact variantOf_isMessageType hnotext
    · rw [hv.text h]
      exact fun res hres => absurd hres (hnotext res)

theorem encodeUpdate_says {update : UpdateData} (hv : update.Valid) : SaysUpdate (encodeUpdate update) update := by
  obtain ⟨updateId, message⟩ := update
  refine ⟨⟨0, [], rfl⟩, ?_, ?_⟩
  · rintro msg rfl
    exact ⟨encodeMessage msg, rfl, encodeMessage_says (hv msg rfl)⟩
  · rintro rfl
    exact not_member rfl

/-- The JSON of some updates says them. -/
theorem encodeUpdates_say {said : List UpdateData} (hv : ∀ update ∈ said, update.Valid) :
    List.Forall₂ SaysUpdate (said.map encodeUpdate) said := by
  rw [List.forall₂_map_left_iff, List.forall₂_same]
  exact fun update hm => encodeUpdate_says (hv update hm)

/-! ## The round trip -/

/-- Each list of updates that the server can have has a response that says them; and whatever response says them, with members in any order
and others beside them, the parser hands out a container with these updates, in their order, as many as it is asked for. -/
theorem updates_round_trip (hJ : GetsScalars J) {said : List UpdateData} (hsaid : ∀ update ∈ said, update.Valid) :
    SaysResponse (encodeResponse said) said ∧
    ∀ jobj, SaysResponse jobj said → ∀ tok env json len maxUpdates mem, PlentyOf env →
      parseJson tok env.fuel env.tokenerNew json len = some (.ok jobj) →
      ∃ mem' batch, tgapiParseUpdatesLenMax J tok env json len maxUpdates mem = some (mem', some batch, 0) ∧
        batch.len = min said.length maxUpdates ∧
        (batch.updates.take batch.len).map TgUpdate.data? = (said.take maxUpdates).map some := by
  refine ⟨⟨_, _, rfl, rfl, encodeUpdates_say hsaid⟩, fun jobj hsays tok env json len maxUpdates mem henv hparse => ?_⟩
  rw [tgapiParseUpdatesLenMax, hparse]
  exact hsays.parsed hJ henv maxUpdates _

/-- The scalars of the concrete json-c. -/
theorem plainJsonC_getsScalars : GetsScalars plainJsonC :=
  ⟨fun _ _ _ _ _ => rfl, fun _ _ _ _ _ => rfl, fun _ _ _ => rfl, fun _ _ _ => rfl⟩

/-- Two updates, of which the second has a text with one entity. -/
def twoUpdates : List UpdateData :=
  [⟨7, none⟩,
    ⟨8, some ⟨2, ⟨4, some "a", none, some "b", none, true⟩, 3, ⟨-5, some "c", none, .supergroup⟩, .text, some "/ping", 1⟩⟩]

/-- The response with these two. -/
def twoResponse : List UInt8 × JsonObject :=
  response
    ("\x7b\"update_id\":7\x7d,\x7b\"update_id\":8,\"message\":\x7b\"message_id\":2," ++
      "\"from\":\x7b\"id\":4,\"is_bot\":true,\"first_name\":\"a\",\"last_name\":null,\"username\":\"b\",\"language_code\":null\x7d," ++
      "\"chat\":\x7b\"id\":-5,\"title\":\"c\",\"username\":null,\"type\":\"supergroup\"\x7d," ++
      "\"date\":3,\"text\":\"/ping\",\"entities\":[\x7b\x7d]\x7d\x7d")
    (twoUpdates.map encodeUpdate)

/-- They are read from it as they are. -/
theorem updates_round_trip_two :
    ∃ mem batch, tgapiParseUpdatesLenMax plainJsonC (textTokener twoResponse) plentyEnv twoResponse.1 twoResponse.1.length 100 .empty =
      some (mem, some batch, 0) ∧ batch.len = 2 ∧ (batch.updates.take batch.len).map TgUpdate.data? = twoUpdates.map some := by
  have hvalid : ∀ update ∈ twoUpdates, update.Valid := by
    intro update hm msg hmsg
    simp only [twoUpdates, List.mem_cons, List.not_mem_nil, or_false] at hm
    rcases hm with rfl | rfl
    · cases hmsg
    · cases hmsg
      exact ⟨by decide, by decide, fun h => absurd rfl h, by decide, fun h => absurd rfl h⟩
  have hsays : SaysResponse twoResponse.2 twoUpdates := ⟨_, _, rfl, rfl, encodeUpdates_say hvalid⟩
  exact (updates_round_trip plainJsonC_getsScalars hvalid).2 _ hsays _ plentyEnv _ _ 100 .empty ⟨rfl, fun _ => rfl⟩
    (parseJson_textTokener _ _)

end GwBot

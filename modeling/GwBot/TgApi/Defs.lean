import GwBot.TgApi.JsonC

/-!
# Parsing and freeing updates, as the code has it

`lib/tgapi.c` up to `tgapi_free_updates`, and `tgapi_call_get_updates`. A structure is filled field by field, over what it held before,
so each function takes the old contents and returns the new ones, also when it fails. Every allocation may fail. A function returns
`none` when the call does not return: json-c's assertion fails, or the tokener's loop goes on.
-/

namespace GwBot

open Lib

/-! ## Data -/

/-- A pointer to a block that `malloc` returned, with what it points to. -/
structure Ptr (α : Type) where
  addr : Nat
  val : α
  deriving Repr

/-- `struct tg_user`. -/
structure TgUser where
  id : UInt64
  firstName : Option String
  lastName : Option String
  username : Option String
  languageCode : Option String
  isBot : Bool
  deriving DecidableEq, Repr

/-- `enum tg_chat_type`. -/
inductive TgChatType where
  | unknown
  | supergroup
  deriving DecidableEq, Repr

/-- `struct tg_chat`. -/
structure TgChat where
  id : Int
  title : Option String
  username : Option String
  type : TgChatType
  deriving DecidableEq, Repr

/-- `enum tg_msg_type`. `zero` is no enumerator: it is what `memset` leaves. -/
inductive TgMsgType where
  | zero
  | unknown
  | text
  | audio
  | document
  | photo
  | sticker
  | video
  | voice
  | contact
  | location
  | newChatMembers
  | leftChatMember
  | newChatTitle
  | newChatPhoto
  | deleteChatPhoto
  | groupChatCreated
  | supergroupChatCreated
  | channelChatCreated
  | migrateToChatId
  | migrateFromChatId
  | pinnedMessage
  deriving DecidableEq, Repr

/-- `struct tg_message`. `fromUser` is its member `from`; of `entities` only the address matters. -/
structure TgMessage where
  messageId : UInt64
  fromUser : Option (Ptr TgUser)
  date : UInt64
  chat : Option (Ptr TgChat)
  text : Option String
  entities : Option Nat
  entitiesLen : Nat
  type : TgMsgType
  deriving Repr

/-- `enum tg_update_type`. -/
inductive TgUpdateType where
  | unknown
  | message
  deriving DecidableEq, Repr

/-- `struct tg_update`. -/
structure TgUpdate where
  updateId : UInt64
  type : TgUpdateType
  message : TgMessage
  json : JsonObject

/-- `struct tg_updates`, in its block. -/
structure TgUpdates where
  addr : Nat
  len : Nat
  updates : List TgUpdate

/-- A message that is all zero. -/
def TgMessage.zero : TgMessage := ⟨0, none, 0, none, none, none, 0, .zero⟩

/-- An update that is all zero. -/
def TgUpdate.zero : TgUpdate := ⟨0, .unknown, .zero, .nil⟩

/-- Whether the allocations for one message succeed. -/
structure MessageEnv where
  user : Bool
  chat : Bool
  entities : Bool
  deriving DecidableEq, Repr

/-! ## Users and chats -/

variable (J : JsonC)

/-- The string member of a key that need not be there. -/
def optionalString (jobj : JsonObject) (key : String) : Option String :=
  match jsonObjectObjectGetEx jobj key with
  | some res => jsonObjectGetString J res
  | none => none

/-- `tgj_get_user`. -/
def tgjGetUser (juser : JsonObject) : Except Int TgUser :=
  match jsonObjectObjectGetEx juser "id" with
  | none => .error (-ENOENT)
  | some id =>
    match jsonObjectObjectGetEx juser "first_name" with
    | none => .error (-ENOENT)
    | some firstName =>
      .ok
        { id := jsonObjectGetUint64 J id
          firstName := jsonObjectGetString J firstName
          lastName := optionalString J juser "last_name"
          username := optionalString J juser "username"
          languageCode := optionalString J juser "language_code"
          isBot := match jsonObjectObjectGetEx juser "is_bot" with
            | some res => jsonObjectGetBoolean J res
            | none => false }

/-- The type of a chat in `tgj_get_chat`, where `strcmp` reads both strings up to their NUL. -/
def tgjGetChatType (jchat : JsonObject) : Except Int TgChatType :=
  match jsonObjectObjectGetEx jchat "type" with
  | some res =>
    match jsonObjectGetString J res with
    | none => .error (-EINVAL)
    | some p => if cString p = cString "supergroup" then .ok .supergroup else .ok .unknown
  | none => .ok .unknown

/-- `tgj_get_chat`. -/
def tgjGetChat (jchat : JsonObject) : Except Int TgChat :=
  match jsonObjectObjectGetEx jchat "id" with
  | none => .error (-ENOENT)
  | some id =>
    match tgjGetChatType J jchat with
    | .error ret => .error ret
    | .ok type =>
      .ok
        { id := jsonObjectGetInt64 J id
          title := optionalString J jchat "title"
          username := optionalString J jchat "username"
          type := type }

/-- Allocate a structure and fill it: what `tgj_get_user_and_alloc` and `tgj_get_chat_and_alloc` do. -/
def getAndAlloc {α : Type} (get : JsonObject → Except Int α) (malloc : Bool) (jobj : JsonObject) (mem : Mem) :
    Mem × Except Int (Ptr α) :=
  match mem.malloc malloc with
  | (mem, none) => (mem, .error (-ENOMEM))
  | (mem, some addr) =>
    match get jobj with
    | .ok val => (mem, .ok ⟨addr, val⟩)
    | .error ret => (mem.free (some addr), .error ret)

/-- `tgj_get_user_and_alloc`. -/
def tgjGetUserAndAlloc (malloc : Bool) (jobj : JsonObject) (mem : Mem) : Mem × Except Int (Ptr TgUser) :=
  getAndAlloc (tgjGetUser J) malloc jobj mem

/-- `tgj_get_chat_and_alloc`. -/
def tgjGetChatAndAlloc (malloc : Bool) (jobj : JsonObject) (mem : Mem) : Mem × Except Int (Ptr TgChat) :=
  getAndAlloc (tgjGetChat J) malloc jobj mem

/-! ## Messages -/

/-- `tgj_get_message_entities`, which fills nothing in. -/
def tgjGetMessageEntities (len : Nat) : Int := intOfSize len

/-- `tgj_get_entities_and_alloc`: the pointer and its return value, or the error. -/
def tgjGetEntitiesAndAlloc (malloc : Bool) (jent : JsonObject) (mem : Mem) : Option (Mem × Except Int (Nat × Int)) :=
  match jsonObjectArray jent with
  | none => none
  | some elems =>
    match mem.malloc malloc with
    | (mem, none) => some (mem, .error (-ENOMEM))
    | (mem, some ent) =>
      let ret := tgjGetMessageEntities elems.length
      if ret ≥ 0 then some (mem, .ok (ent, intOfSize elems.length)) else some (mem.free (some ent), .error ret)

/-- The keys that `tgj_arrange_message_variant` looks for after `text`, in its order, and the types they stand for. -/
def messageVariants : List (String × TgMsgType) :=
  [("photo", .photo), ("sticker", .sticker), ("video", .video), ("voice", .voice), ("audio", .audio), ("document", .document),
    ("location", .location), ("contact", .contact), ("new_chat_members", .newChatMembers), ("left_chat_member", .leftChatMember),
    ("new_chat_title", .newChatTitle), ("new_chat_photo", .newChatPhoto), ("delete_chat_photo", .deleteChatPhoto),
    ("group_chat_created", .groupChatCreated), ("supergroup_chat_created", .supergroupChatCreated),
    ("channel_chat_created", .channelChatCreated), ("migrate_to_chat_id", .migrateToChatId),
    ("migrate_from_chat_id", .migrateFromChatId), ("pinned_message", .pinnedMessage)]

/-- The type of the first of these keys that the message has. -/
def variantOf (jmsg : JsonObject) : TgMsgType :=
  match messageVariants.find? (fun v => (jsonObjectObjectGetEx jmsg v.1).isSome) with
  | some v => v.2
  | none => .unknown

/-- `tgj_arrange_message_variant`. -/
def tgjArrangeMessageVariant (malloc : Bool) (msg : TgMessage) (jmsg : JsonObject) (mem : Mem) : Option (Mem × TgMessage × Int) :=
  match jsonObjectObjectGetEx jmsg "text" with
  | some res =>
    let msg := { msg with type := .text, text := jsonObjectGetString J res }
    match jsonObjectObjectGetEx jmsg "entities" with
    | none => some (mem, msg, 0)
    | some res =>
      match tgjGetEntitiesAndAlloc malloc res mem with
      | none => none
      | some (mem, .error ret) => some (mem, msg, ret)
      | some (mem, .ok (ent, ret)) => some (mem, { msg with entities := some ent, entitiesLen := ret.toNat }, 0)
  | none => some (mem, { msg with type := variantOf jmsg }, 0)

/-- From `err_free_from` of `tgj_get_message`. -/
def errFreeFrom (msg : TgMessage) (ret : Int) (mem : Mem) : Mem × TgMessage × Int :=
  (mem.free (msg.fromUser.map Ptr.addr), { msg with fromUser := none }, ret)

/-- From `err_free_chat` of `tgj_get_message`. -/
def errFreeChat (msg : TgMessage) (ret : Int) (mem : Mem) : Mem × TgMessage × Int :=
  errFreeFrom { msg with chat := none } ret (mem.free (msg.chat.map Ptr.addr))

/-- `tgj_get_message` once `from` is there: the chat and the variant. -/
def tgjGetMessageChat (env : MessageEnv) (msg : TgMessage) (jmsg : JsonObject) (mem : Mem) : Option (Mem × TgMessage × Int) :=
  match jsonObjectObjectGetEx jmsg "chat" with
  | none => some (errFreeFrom msg (-ENOENT) mem)
  | some res =>
    match tgjGetChatAndAlloc J env.chat res mem with
    | (mem, .error ret) => some (errFreeFrom msg ret mem)
    | (mem, .ok chat) =>
      match tgjArrangeMessageVariant J env.entities { msg with chat := some chat } jmsg mem with
      | none => none
      | some (mem, msg, ret) => if ret ≠ 0 then some (errFreeChat msg ret mem) else some (mem, msg, 0)

/-- `tgj_get_message`. -/
def tgjGetMessage (env : MessageEnv) (msg : TgMessage) (jmsg : JsonObject) (mem : Mem) : Option (Mem × TgMessage × Int) :=
  match jsonObjectObjectGetEx jmsg "message_id" with
  | none => some (mem, msg, -ENOENT)
  | some res =>
    let msg := { msg with messageId := jsonObjectGetUint64 J res }
    match jsonObjectObjectGetEx jmsg "date" with
    | none => some (mem, msg, -ENOENT)
    | some res =>
      let msg := { msg with date := jsonObjectGetUint64 J res }
      match jsonObjectObjectGetEx jmsg "from" with
      | none => some (mem, { msg with messageId := 0 }, -ENOENT)
      | some res =>
        match tgjGetUserAndAlloc J env.user res mem with
        | (mem, .error ret) => some (mem, msg, ret)
        | (mem, .ok user) => tgjGetMessageChat J env { msg with fromUser := some user } jmsg mem

/-! ## Updates -/

/-- `tgj_get_update`. -/
def tgjGetUpdate (env : MessageEnv) (update : TgUpdate) (jobj : JsonObject) (mem : Mem) : Option (Mem × TgUpdate × Int) :=
  match jsonObjectObjectGetEx jobj "update_id" with
  | none => some (mem, update, -ENOENT)
  | some res =>
    let update := { update with updateId := jsonObjectGetUint64 J res }
    match jsonObjectObjectGetEx jobj "message" with
    | some res =>
      let update := { update with type := .message }
      match tgjGetMessage J env update.message res mem with
      | none => none
      | some (mem, msg, ret) => some (mem, { update with message := msg }, ret)
    | none => some (mem, { update with type := .unknown }, 0)

/-- What a parse gets from the system: how many rounds its tokener's loop is given, and which allocations succeed. -/
structure ParseEnv where
  fuel : Nat
  tokenerNew : Bool
  updates : Bool
  messages : Nat → MessageEnv

/-- `tgapi_parse_update_len`. -/
def tgapiParseUpdateLen (tok : JsonTokener) (env : ParseEnv) (update : TgUpdate) (json : List UInt8) (len : Nat) (mem : Mem) :
    Option (Mem × TgUpdate × Int) :=
  match parseJson tok env.fuel env.tokenerNew json len with
  | none => none
  | some (.error ret) => some (mem, update, ret)
  | some (.ok jobj) =>
    match tgjGetUpdate J (env.messages 0) { update with json := jobj } jobj { mem with json := RefTree.new mem.json jobj } with
    | none => none
    | some (mem, update, ret) =>
      if ret ≠ 0 then some ((mem.jsonObjectPut update.json).1, TgUpdate.zero, ret) else some (mem, update, 0)

/-- `tgapi_free_message_text`. -/
def tgapiFreeMessageText (msg : TgMessage) (mem : Mem) : Mem := mem.free msg.entities

/-- `tgapi_free_message`. -/
def tgapiFreeMessage (msg : TgMessage) (mem : Mem) : Mem :=
  let mem := if msg.type = .text then tgapiFreeMessageText msg mem else mem
  (mem.free (msg.fromUser.map Ptr.addr)).free (msg.chat.map Ptr.addr)

/-- `tgapi_inc_ref_update`. -/
def tgapiIncRefUpdate (update : TgUpdate) (mem : Mem) : Mem := mem.jsonObjectGet update.json

/-- `tgapi_free_update`. -/
def tgapiFreeUpdate (update : TgUpdate) (mem : Mem) : Mem × TgUpdate :=
  match update.json with
  | .nil => (mem, update)
  | json =>
    if (mem.jsonObjectPut json).2 > 0 then ((mem.jsonObjectPut json).1, update)
    else
      match update.type with
      | .message => (tgapiFreeMessage update.message (mem.jsonObjectPut json).1, { update with json := .nil })
      | .unknown => ((mem.jsonObjectPut json).1, { update with json := .nil })

/-! ## Batches -/

/-- `tgapi_free_update` for each of some updates, in order. -/
def tgapiFreeEach (updates : List TgUpdate) (mem : Mem) : Mem := updates.foldl (fun mem update => (tgapiFreeUpdate update mem).1) mem

/-- `tgapi_free_updates`. -/
def tgapiFreeUpdates (updates : TgUpdates) (mem : Mem) : Mem :=
  (tgapiFreeEach (updates.updates.take updates.len) mem).free (some updates.addr)

/-- The loop of `tgapi_parse_updates_len_max` from index `i` on, over the elements that are left; `j` entries of the container are
filled. True when it ends by `out_clean`. -/
def parseUpdates (messages : Nat → MessageEnv) : Nat → List JsonObject → Nat → List TgUpdate → Mem → Option (Mem × List TgUpdate × Bool)
  | _, [], _, updates, mem => some (mem, updates, false)
  | _, .nil :: _, _, updates, mem => some (mem, updates, true)
  | i, elem :: elems, j, updates, mem =>
    match tgjGetUpdate J (messages i) (updates.getD j .zero) elem mem with
    | none => none
    | some (mem, update, ret) =>
      let updates := updates.set j update
      if ret ≠ 0 then parseUpdates messages (i + 1) elems j updates mem
      else parseUpdates messages (i + 1) elems (j + 1) updates (mem.jsonObjectGet elem)

/-- `tgapi_parse_updates_len_max` from its second test on: what it stores in `*updates_p`, and what it returns. -/
def parseResult (env : ParseEnv) (jobj : JsonObject) (maxUpdates : Nat) (mem : Mem) : Option (Mem × Option TgUpdates × Int) :=
  match jsonObjectObjectGetEx jobj "result" with
  | none => some ((mem.jsonObjectPut jobj).1, none, -ENOENT)
  | some result =>
    match jsonObjectArray result with
    | none => none
    | some elems =>
      let len := min elems.length maxUpdates
      match mem.malloc env.updates with
      | (mem, none) => some ((mem.jsonObjectPut jobj).1, none, -ENOMEM)
      | (mem, some addr) =>
        match parseUpdates J env.messages 0 (elems.take len) 0 (List.replicate len .zero) mem with
        | none => none
        | some (mem, updates, false) => some ((mem.jsonObjectPut jobj).1, some ⟨addr, len, updates⟩, 0)
        | some (mem, updates, true) =>
          some ((((tgapiFreeEach updates mem).free (some addr)).jsonObjectPut jobj).1, some ⟨addr, len, updates⟩, 0)

/-- `tgapi_parse_updates_len_max`. -/
def tgapiParseUpdatesLenMax (tok : JsonTokener) (env : ParseEnv) (json : List UInt8) (len maxUpdates : Nat) (mem : Mem) :
    Option (Mem × Option TgUpdates × Int) :=
  match parseJson tok env.fuel env.tokenerNew json len with
  | none => none
  | some (.error ret) => some (mem, none, ret)
  | some (.ok jobj) => parseResult J env jobj maxUpdates { mem with json := RefTree.new mem.json jobj }

/-- `tgapi_parse_updates_len`. -/
def tgapiParseUpdatesLen (tok : JsonTokener) (env : ParseEnv) (json : List UInt8) (len : Nat) (mem : Mem) :
    Option (Mem × Option TgUpdates × Int) :=
  tgapiParseUpdatesLenMax J tok env json len (2 ^ 64 - 1) mem

/-- What `curl_http_get` comes to: there is no handle, the transfer fails, or it leaves the bytes of the response. -/
inductive CurlHttpGet where
  | noHandle
  | failed
  | done (data : List UInt8)
  deriving DecidableEq, Repr

/-- `tgapi_call_get_updates`, without the buffer of the response. A response without a byte leaves the buffer null, which the tokener
reads. -/
def tgapiCallGetUpdates (tok : JsonTokener) (env : ParseEnv) (mem : Mem) : CurlHttpGet → Option (Mem × Option TgUpdates × Int)
  | .noHandle => some (mem, none, -ENOMEM)
  | .failed => some (mem, none, -1)
  | .done [] => none
  | .done data => tgapiParseUpdatesLen J tok env (data ++ [0]) (data.length + 1) mem

end GwBot

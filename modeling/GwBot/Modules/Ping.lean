import GwBot.Modules.Defs
import GwBot.TgApi.Request
import GwBot.TgApi.Texts

/-!
# The ping module

`modules/ping/ping.c`, with the table of the modules that the build makes when it is the one that is switched on: what `gw_module_handle`
sends for an update. What `tgapi_call_send_message` returns is given.
-/

namespace GwBot

deriving instance DecidableEq for TgaCallSendMessage

/-- "/ping", ".ping" or "!ping". -/
def isPing (text : String) : Bool :=
  match cString text with
  | [] => false
  | c :: rest => (c = '/' || c = '!' || c = '.') && rest = "ping".toList

/-- `__ping_handle`, when `tgapi_call_send_message` returns `sendRet`: the calls of that, and what it returns; `none` when it reads through
a null pointer. -/
def pingReply (msg : TgMessage) (sendRet : Int) : Option (List TgaCallSendMessage × Int) :=
  match msg.chat with
  | none => none
  | some chat => some ([CurlTransfer.pingCall (Int64.ofInt chat.val.id) msg.messageId.toInt64], sendRet)

/-- `ping_handle`; `none` also when its assertion fails. -/
def pingHandle (up : TgUpdate) (sendRet : Int) : Option (List TgaCallSendMessage × Int) :=
  if up.type.bits &&& TgUpdateType.message.bits = 0 then none
  else if up.type ≠ .message then some ([], 0)
  else if up.message.type ≠ .text then some ([], 0)
  else
    match up.message.text with
    | none => some ([], 0)
    | some text => if isPing text then pingReply up.message sendRet else some ([], 0)

/-- `gw_bot_modules`. -/
def gwBotModules : List (GwBotModule String) := [gwModInfoPing]

/-- The handle hook of a module of the table. -/
def handleHook (i : Nat) (up : TgUpdate) (sendRet : Int) : Option (List TgaCallSendMessage × Int) :=
  if (gwBotModules[i]?).bind (fun mod => mod.handle) = some "ping_handle" then pingHandle up sendRet else none

/-- What is sent as a hook is called. -/
def sentIn (up : TgUpdate) (sendRet : Int) : HookEvent → Option (List TgaCallSendMessage)
  | .handle i _ => (handleHook i up sendRet).map (fun h => h.1)
  | _ => some []

/-- What `gw_module_handle` sends for an update, and what it returns, with the hooks of the table; `none` when one of them does not come
back. -/
def handleUpdate (up : TgUpdate) (sendRet : Int) : Option (List TgaCallSendMessage × Int) :=
  let r := gwModuleHandle up (fun i => ((handleHook i up sendRet).map (fun h => h.2)).getD 0) gwBotModules
  (r.1.mapM (sentIn up sendRet)).map (fun calls => (calls.flatten, r.2))

/-! ## What is answered -/

/-- The answer to an update: to a ping, a "Pong!" in reply to its message. -/
def pongOf (up : TgUpdate) : Option TgaCallSendMessage :=
  if up.type = .message ∧ up.message.type = .text ∧ up.message.text.any isPing = true then
    up.message.chat.map (fun chat => CurlTransfer.pingCall (Int64.ofInt chat.val.id) up.message.messageId.toInt64)
  else none

/-- There is only one hook, which listens to messages. -/
theorem handleUpdate_eq (up : TgUpdate) (sendRet : Int) :
    handleUpdate up sendRet = if up.type = .message then pingHandle up sendRet else some ([], 0) := by
  have hhook : handleHook 0 up sendRet = pingHandle up sendRet := rfl
  unfold handleUpdate
  cases htype : up.type with
  | unknown => simp [gwModuleHandle, handleModules, gwBotModules, gwModInfoPing, htype, TgUpdateType.bits]
  | message =>
    cases hping : pingHandle up sendRet with
    | none => simp [gwModuleHandle, handleModules, gwBotModules, gwModInfoPing, htype, TgUpdateType.bits, sentIn, hhook, hping]
    | some r =>
      obtain ⟨calls, ret⟩ := r
      by_cases hret : ret = 0 <;>
        simp [gwModuleHandle, handleModules, gwBotModules, gwModInfoPing, htype, TgUpdateType.bits, sentIn, hhook, hping, hret]

theorem pingHandle_eq {up : TgUpdate} (sendRet : Int) (h : up.type = .message) :
    pingHandle up sendRet =
      if up.message.type = .text ∧ up.message.text.any isPing = true then pingReply up.message sendRet else some ([], 0) := by
  unfold pingHandle
  rw [h, if_neg (by decide), if_neg (fun hne => hne rfl)]
  by_cases htype : up.message.type = .text
  · rw [if_neg (fun hne => hne htype)]
    cases htext : up.message.text with
    | none => simp
    | some text => simp [htype]
  · rw [if_pos htype, if_neg (fun hand => htype hand.1)]

/-- `gw_module_handle` sends the answer to the update, and nothing else. -/
theorem handleUpdate_calls {up : TgUpdate} {sendRet ret : Int} {calls : List TgaCallSendMessage}
    (h : handleUpdate up sendRet = some (calls, ret)) : calls = (pongOf up).toList := by
  rw [handleUpdate_eq] at h
  unfold pongOf
  by_cases htype : up.type = .message
  · rw [if_pos htype, pingHandle_eq sendRet htype] at h
    by_cases hping : up.message.type = .text ∧ up.message.text.any isPing = true
    · rw [if_pos hping] at h
      rw [if_pos ⟨htype, hping⟩]
      unfold pingReply at h
      cases hchat : up.message.chat with
      | none =>
        rw [hchat] at h
        cases h
      | some chat =>
        rw [hchat] at h
        cases h
        rfl
    · rw [if_neg hping] at h
      rw [if_neg (fun hand => hping hand.2)]
      cases h
      rfl
  · rw [if_neg htype] at h
    rw [if_neg (fun hand => htype hand.1)]
    cases h
    rfl

/-- It comes back when a text has a chat. -/
theorem handleUpdate_isSome {up : TgUpdate} (h : TextHasChat up.message) (sendRet : Int) : (handleUpdate up sendRet).isSome = true := by
  rw [handleUpdate_eq]
  by_cases htype : up.type = .message
  · rw [if_pos htype, pingHandle_eq sendRet htype]
    by_cases hping : up.message.type = .text ∧ up.message.text.any isPing = true
    · obtain ⟨chat, hchat⟩ := Option.isSome_iff_exists.1 (h hping.1)
      rw [if_pos hping, pingReply, hchat]
      rfl
    · rw [if_neg hping]
      rfl
  · rw [if_neg htype]
    rfl

example : isPing "!ping" = true ∧ isPing "/pong" = false ∧ isPing "ping" = false := by decide

end GwBot

import GwBot.TgApi.Lifetime
import GwBot.TgApi.Outcome
import GwBot.TgApi.Response

/-!
# The calls of the Telegram API

`tgapi_call_get_updates` and `tgapi_call_send_message`, with the URLs that they make and the buffer of the response. What libcurl comes to
is given: it stops calling the write function after a short return, and then reports an error.
-/

namespace GwBot

open Lib

/-! ## URLs -/

/-- The string that `snprintf` leaves in a buffer of `size` bytes. -/
def snprintf (size : Nat) (text : List UInt8) : List UInt8 := text.take (size - 1)

/-- An `int64_t` as `PRId64` prints it. -/
def decimal (n : Int64) : List UInt8 :=
  (if n.toInt < 0 then ['-'.toUInt8] else []) ++ (Nat.toDigits 10 n.toInt.natAbs).map Char.toUInt8

/-- What `tgapi_call_get_updates` prints into its URL. -/
def getUpdatesUrl (token : List UInt8) (offset : Int64) : List UInt8 :=
  asciiBytes "https://api.telegram.org/bot" ++ token ++ asciiBytes "/getUpdates?offset=" ++ decimal offset

/-- `struct tga_call_send_message`, as far as it is read. -/
structure TgaCallSendMessage where
  chatId : Int64
  text : List UInt8
  replyToMessageId : Int64

/-- What `tgapi_call_send_message` prints into its URL. -/
def sendMessageUrl (token : List UInt8) (call : TgaCallSendMessage) (escapeText : List UInt8) : List UInt8 :=
  asciiBytes "https://api.telegram.org/bot" ++ token ++ asciiBytes "/sendMessage?chat_id=" ++ decimal call.chatId ++
    asciiBytes "&text=" ++ escapeText ++ asciiBytes "&reply_to_message_id=" ++ decimal call.replyToMessageId

/-! ## Transfers -/

/-- `CURLE_WRITE_ERROR`. -/
def CURLE_WRITE_ERROR : Nat := 23

/-- What `curl_easy_perform` does: the pieces of the body, with what the write function gets for each, and what it returns when none of
these calls is short. -/
structure CurlTransfer where
  calls : List (CurlWriteEnv × CurlChunk)
  res : Nat

/-- `curl_easy_perform`, from a piece on. -/
def curlEasyPerform (res : Nat) : List (CurlWriteEnv × CurlChunk) → Mem → TgapiCurlData → Option (Mem × TgapiCurlData × Nat)
  | [], mem, d => some (mem, d, res)
  | (env, chunk) :: calls, mem, d =>
    match tgapiCurlWrite env chunk mem (some d) with
    | some (mem, some d, ret) => if ret ≠ chunk.realSize then some (mem, d, CURLE_WRITE_ERROR) else curlEasyPerform res calls mem d
    | _ => none

namespace CurlTransfer

variable (transfer : CurlTransfer)

/-- `curl_http_get`; `handle` is whether `gw_curl_thread_init` has a handle. -/
def curlHttpGet (handle : Bool) (mem : Mem) (d : TgapiCurlData) : Option (Mem × TgapiCurlData × Int) :=
  if handle = false then some (mem, d, -ENOMEM)
  else
    match curlEasyPerform transfer.res transfer.calls mem d with
    | none => none
    | some (mem, d, res) => if res ≠ 0 then some (mem, d, -1) else some (mem, d, 0)

/-- What a call of the API hands on: a URL to `curl_http_get`, or a buffer and a length to the parser, `none` being `NULL`. -/
inductive CallEvent where
  | httpGet (url : List UInt8)
  | parse (json : Option (List UInt8)) (len : Nat)
  deriving DecidableEq, Repr

/-- `tgapi_call_get_updates`, with what it hands on; `none` when the parser is handed `NULL`, which the tokener reads, or has no result. -/
def tgapiCallGetUpdates (J : JsonC) (tok : JsonTokener) (env : ParseEnv) (token : List UInt8) (offset : Int64) (handle : Bool) (mem : Mem) :
    List CallEvent × Option (Mem × Option TgUpdates × Int) :=
  let url := snprintf 256 (getUpdatesUrl token offset)
  match transfer.curlHttpGet handle mem .zero with
  | none => ([.httpGet url], none)
  | some (mem, d, ret) =>
    if ret ≠ 0 then ([.httpGet url], some (mem, none, ret))
    else
      let len := (d.len + 1).toNat
      match d.data with
      | none => ([.httpGet url, .parse none len], none)
      | some buf =>
        let json := (List.range len).filterMap buf.block.cells
        ([.httpGet url, .parse (some json) len],
          (tgapiParseUpdatesLen J tok env json len mem).map fun r => (r.1.free (some buf.addr), r.2))

/-- `tgapi_call_send_message`, with what it hands on: `ch` is whether its own call of `gw_curl_thread_init` has a handle, and `handle`
whether that of `curl_http_get` has one. `easyEscape` is `curl_easy_escape`. -/
def tgapiCallSendMessage (easyEscape : List UInt8 → Int → Option (List UInt8)) (token : List UInt8) (call : TgaCallSendMessage)
    (ch handle : Bool) (mem : Mem) : List CallEvent × Option (Mem × Int) :=
  if ch = false then ([], some (mem, -ENOMEM))
  else
    match easyEscape call.text (intOfSize call.text.length) with
    | none => ([], some (mem, -ENOMEM))
    | some escapeText =>
      let url := snprintf (4096 * 3 + 128) (sendMessageUrl token call escapeText)
      match transfer.curlHttpGet handle mem .zero with
      | none => ([.httpGet url], none)
      | some (mem, d, ret) => if ret ≠ 0 then ([.httpGet url], some (mem, ret)) else ([.httpGet url], some (mem.free d.addr, 0))

end CurlTransfer

/-! ## The length of a request -/

theorem snprintf_eq_iff {size : Nat} (hsize : 0 < size) (text : List UInt8) : snprintf size text = text ↔ text.length < size := by
  rw [snprintf, List.take_eq_self_iff]
  omega

theorem length_sendMessageUrl (token : List UInt8) (call : TgaCallSendMessage) (escapeText : List UInt8) :
    (sendMessageUrl token call escapeText).length =
      76 + token.length + (decimal call.chatId).length + escapeText.length + (decimal call.replyToMessageId).length := by
  have h₁ : (asciiBytes "https://api.telegram.org/bot").length = 28 := rfl
  have h₂ : (asciiBytes "/sendMessage?chat_id=").length = 21 := rfl
  have h₃ : (asciiBytes "&text=").length = 6 := rfl
  have h₄ : (asciiBytes "&reply_to_message_id=").length = 21 := rfl
  simp only [sendMessageUrl, List.length_append, h₁, h₂, h₃, h₄]
  omega

/-- An `int64_t` is printed with at most 20 characters. -/
theorem length_decimal_le (n : Int64) : (decimal n).length ≤ 20 := by
  have hlt : n.toInt.natAbs < 10 ^ 19 := by
    have := n.toInt_lt
    have := n.le_toInt
    omega
  have hdigits := (Nat.length_toDigits_le_iff (b := 10) (by decide) (by decide : 0 < 19)).2 hlt
  rw [decimal, List.length_append, List.length_map]
  split
  · rw [List.length_singleton]
    omega
  · rw [List.length_nil]
    omega

end GwBot

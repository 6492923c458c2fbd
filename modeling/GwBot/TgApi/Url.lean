import GwBot.Lib.Query
import GwBot.TgApi.Request

/-!
# What the server reads of a request

The URLs of `tgapi_call_get_updates` and `tgapi_call_send_message`, taken apart again as the server of the API does it. The offset of a
poll, the chat and the text of a message arrive as they were given, whatever bytes the text has, also where the buffer is too short for the
URL; the message that is replied to does so exactly when nothing is cut off.
-/

namespace GwBot

open Lib

/-- A request as the server takes it apart: the token, the method, and the fields of the query. -/
structure ApiRequest where
  token : List UInt8
  method : List UInt8
  params : List (List UInt8 × List UInt8)
  deriving DecidableEq, Repr

/-- What stands in each URL before the token. -/
def apiHost : List UInt8 := asciiBytes "https://api.telegram.org/bot"

namespace ApiRequest

/-- The token is what stands up to the next slash, the method what stands up to the question mark. -/
def ofUrl (url : List UInt8) : Option ApiRequest :=
  if url.take apiHost.length = apiHost then
    let path := cut 47 (url.drop apiHost.length)
    let method := cut 63 path.2
    some ⟨path.1, method.1, readQuery method.2⟩
  else none

/-- The value of a parameter. -/
def param (req : ApiRequest) (key : String) : Option (List UInt8) := req.params.lookup (asciiBytes key)

/-- The value of a parameter that is a number. -/
def int (req : ApiRequest) (key : String) : Option Int := (req.param key).bind readInt

theorem ofUrl_append {token method : List UInt8} (htoken : 47 ∉ token) (hmethod : 63 ∉ method) (query : List UInt8) :
    ofUrl (apiHost ++ (token ++ 47 :: (method ++ 63 :: query))) = some ⟨token, method, readQuery query⟩ := by
  rw [ofUrl, if_pos (List.take_left' rfl), List.drop_left' rfl, cut_append htoken]
  dsimp only
  rw [cut_append hmethod]

end ApiRequest

namespace CurlTransfer

/-- What is documented of `curl_easy_escape`: the bytes that are not letters, digits or `-._~` become percent codes. -/
def PercentEscapes (easyEscape : List UInt8 → Int → Option (List UInt8)) : Prop :=
  ∀ text escapeText, text.length < 2 ^ 31 → easyEscape text (intOfSize text.length) = some escapeText →
    ∃ codes, List.Forall₂ (PercentCode isUnreserved) text codes ∧ escapeText = codes.flatten

/-- The bytes of a token: those that need no escape, and the colon. -/
def IsToken (token : List UInt8) : Prop := ∀ c ∈ token, isUnreserved c = true ∨ c = 58

/-- No byte takes more than three. -/
theorem length_flatten_le {keep : UInt8 → Bool} {text : List UInt8} {codes : List (List UInt8)}
    (h : List.Forall₂ (PercentCode keep) text codes) : codes.flatten.length ≤ 3 * text.length := by
  induction h with
  | nil => exact Nat.le_refl 0
  | @cons c code text codes hcode _ ih =>
    have hcode : code.length ≤ 3 := by
      cases hcode with
      | plain _ => exact Nat.le_of_ble_eq_true rfl
      | escape _ _ _ => exact Nat.le_refl 3
    rw [List.flatten_cons, List.length_append, List.length_cons]
    omega

theorem IsToken.slash_notMem {token : List UInt8} (h : IsToken token) : 47 ∉ token := by
  intro hmem
  rcases h 47 hmem with hc | hc
  · exact absurd hc (by decide)
  · exact absurd hc (by decide)

/-! ## The fields -/

theorem decimal_eq (n : Int64) : decimal n = intDigits n.toInt := rfl

theorem decimal_plain (n : Int64) : ∀ c ∈ decimal n, c ≠ 37 ∧ c ≠ 43 := by
  intro c hc
  constructor
  · rintro rfl
    exact notMem_intDigits (by decide) (by decide) n.toInt hc
  · rintro rfl
    exact notMem_intDigits (by decide) (by decide) n.toInt hc

/-- The fields of a `sendMessage`, of whose last one `j` bytes are left. -/
def sendFields (call : TgaCallSendMessage) (escapeText : List UInt8) (j : Nat) : List (List UInt8) :=
  [asciiBytes "chat_id" ++ 61 :: decimal call.chatId, asciiBytes "text" ++ 61 :: escapeText,
    (asciiBytes "reply_to_message_id" ++ 61 :: decimal call.replyToMessageId).take j]

/-- What stands in the URL before the last field. -/
def sendHead (token : List UInt8) (call : TgaCallSendMessage) (escapeText : List UInt8) : List UInt8 :=
  asciiBytes "https://api.telegram.org/bot" ++ token ++ asciiBytes "/sendMessage?chat_id=" ++ decimal call.chatId ++
    asciiBytes "&text=" ++ escapeText ++ [38]

theorem sendMessageUrl_eq (token : List UInt8) (call : TgaCallSendMessage) (escapeText : List UInt8) :
    sendMessageUrl token call escapeText =
      sendHead token call escapeText ++ (asciiBytes "reply_to_message_id" ++ 61 :: decimal call.replyToMessageId) := by
  have hkey : asciiBytes "&reply_to_message_id=" = [38] ++ (asciiBytes "reply_to_message_id" ++ [61]) := rfl
  rw [sendMessageUrl, sendHead, hkey]
  simp only [List.append_assoc, List.cons_append, List.nil_append]

theorem sendHead_append (token : List UInt8) (call : TgaCallSendMessage) (escapeText : List UInt8) (j : Nat) :
    sendHead token call escapeText ++ (asciiBytes "reply_to_message_id" ++ 61 :: decimal call.replyToMessageId).take j =
      apiHost ++ (token ++ 47 :: (asciiBytes "sendMessage" ++ 63 :: [38].intercalate (sendFields call escapeText j))) := by
  have hchat : asciiBytes "/sendMessage?chat_id=" = 47 :: (asciiBytes "sendMessage" ++ 63 :: (asciiBytes "chat_id" ++ [61])) := rfl
  have htext : asciiBytes "&text=" = 38 :: (asciiBytes "text" ++ [61]) := rfl
  rw [sendHead, apiHost, sendFields, hchat, htext]
  simp only [List.intercalate_cons_cons, List.intercalate_singleton, List.append_assoc, List.cons_append, List.nil_append]

theorem length_sendHead (token : List UInt8) (call : TgaCallSendMessage) (escapeText : List UInt8) :
    (sendHead token call escapeText).length = 56 + token.length + (decimal call.chatId).length + escapeText.length := by
  have hurl := congrArg List.length (sendMessageUrl_eq token call escapeText)
  have hkey : (asciiBytes "reply_to_message_id").length = 19 := rfl
  rw [length_sendMessageUrl, List.length_append, List.length_append, List.length_cons, hkey] at hurl
  omega

theorem amp_notMem_sendFields {call : TgaCallSendMessage} {codes : List (List UInt8)}
    (hcodes : List.Forall₂ (PercentCode isUnreserved) call.text codes) (j : Nat) : ∀ field ∈ sendFields call codes.flatten j, 38 ∉ field := by
  have hdecimal : ∀ n : Int64, 38 ∉ decimal n := fun n => notMem_intDigits (by decide) (by decide) n.toInt
  intro field hmem
  simp only [sendFields, List.mem_cons, List.not_mem_nil, or_false] at hmem
  rcases hmem with rfl | rfl | rfl
  · exact notMem_field (by decide) (by decide) (hdecimal _)
  · exact notMem_field (by decide) (by decide) (notMem_flatten (by decide) (by decide) (by decide) hcodes)
  · exact fun hmem => notMem_field (by decide) (by decide) (hdecimal _) (List.mem_of_mem_take hmem)

/-- The fields of a `sendMessage` as they are read. -/
theorem readQuery_sendFields {call : TgaCallSendMessage} {codes : List (List UInt8)}
    (hcodes : List.Forall₂ (PercentCode isUnreserved) call.text codes) (j : Nat) :
    readQuery ([38].intercalate (sendFields call codes.flatten j)) =
      [(asciiBytes "chat_id", decimal call.chatId), (asciiBytes "text", call.text),
        ((asciiBytes "reply_to_message_id").take j, (decimal call.replyToMessageId).take (j - 19 - 1))] := by
  have hchat : readField (asciiBytes "chat_id" ++ 61 :: decimal call.chatId) = (asciiBytes "chat_id", decimal call.chatId) := by
    rw [readField_append (plain_of_all rfl) (by decide), percentDecode_plain (decimal_plain _)]
  have htext : readField (asciiBytes "text" ++ 61 :: codes.flatten) = (asciiBytes "text", call.text) := by
    rw [readField_append (plain_of_all rfl) (by decide), percentDecode_flatten (by decide) (by decide) hcodes]
  have hreply : readField ((asciiBytes "reply_to_message_id" ++ 61 :: decimal call.replyToMessageId).take j) =
      ((asciiBytes "reply_to_message_id").take j, (decimal call.replyToMessageId).take (j - 19 - 1)) :=
    readField_take (plain_of_all rfl) (by decide) (decimal_plain _) j
  rw [readQuery_intercalate (by simp [sendFields]) (amp_notMem_sendFields hcodes j), sendFields, List.map_cons, List.map_cons,
    List.map_singleton, hchat, htext, hreply]

/-- The server reads the call, whatever it reads of the reply. -/
structure ReadsCall (req : ApiRequest) (token : List UInt8) (call : TgaCallSendMessage) : Prop where
  token : req.token = token
  method : req.method = asciiBytes "sendMessage"
  chat : req.int "chat_id" = some call.chatId.toInt
  text : req.param "text" = some call.text

theorem readInt_decimal (n : Int64) : readInt (decimal n) = some n.toInt := readInt_intDigits n.toInt

/-- The reply is read from the last field, which must have its key and all digits of the number. -/
theorem int_reply {params : List (List UInt8 × List UInt8)} {token method : List UInt8} {n : Int64} {j : Nat}
    (hnone : params.lookup (asciiBytes "reply_to_message_id") = none) :
    ApiRequest.int ⟨token, method, params ++ [((asciiBytes "reply_to_message_id").take j, (decimal n).take (j - 19 - 1))]⟩
      "reply_to_message_id" = some n.toInt ↔ 20 + (decimal n).length ≤ j := by
  have hkey : (asciiBytes "reply_to_message_id").length = 19 := rfl
  have hpos : 0 < (decimal n).length := by
    have h := readInt_decimal n
    cases hdec : decimal n with
    | nil => simp [hdec, readInt] at h
    | cons c l => exact Nat.succ_pos l.length
  rw [ApiRequest.int, ApiRequest.param, List.lookup_append, hnone, Option.none_or, List.lookup_cons, List.lookup_nil]
  by_cases hj : 19 ≤ j
  · rw [List.take_of_length_le (hkey.trans_le hj), beq_self_eq_true]
    dsimp only
    rw [Option.bind_some, decimal_eq, readInt_take_iff, ← decimal_eq]
    omega
  · have hne : (asciiBytes "reply_to_message_id" == (asciiBytes "reply_to_message_id").take j) = false := by
      rw [beq_eq_false_iff_ne]
      intro heq
      have hlen := congrArg List.length heq
      rw [List.length_take, hkey] at hlen
      omega
    rw [hne]
    simp only [Option.bind_none, reduceCtorEq, false_iff]
    omega

/-- What the server reads of a `sendMessage`, as long as the buffer has room for what stands before the reply. -/
theorem ofUrl_sendMessage {token : List UInt8} {call : TgaCallSendMessage} {codes : List (List UInt8)} (htoken : 47 ∉ token)
    (hcodes : List.Forall₂ (PercentCode isUnreserved) call.text codes) (hroom : (sendHead token call codes.flatten).length ≤ 12415) :
    ∃ req, ApiRequest.ofUrl (snprintf (4096 * 3 + 128) (sendMessageUrl token call codes.flatten)) = some req ∧
      ReadsCall req token call ∧
      (req.int "reply_to_message_id" = some call.replyToMessageId.toInt ↔ Fits token call codes.flatten) := by
  rw [snprintf, sendMessageUrl_eq, List.take_append, List.take_of_length_le hroom, sendHead_append,
    ApiRequest.ofUrl_append htoken (by decide), readQuery_sendFields hcodes]
  refine ⟨_, rfl, ⟨rfl, rfl, readInt_decimal call.chatId, rfl⟩, ?_⟩
  have hnone : [(asciiBytes "chat_id", decimal call.chatId), (asciiBytes "text", call.text)].lookup (asciiBytes "reply_to_message_id") =
    none := rfl
  refine (int_reply hnone).trans ?_
  rw [length_sendHead] at hroom ⊢
  unfold Fits
  omega

/-- What the server reads of a poll. -/
theorem ofUrl_getUpdates {token : List UInt8} (htoken : 47 ∉ token) (hlen : token.length ≤ 188) (offset : Int64) :
    ∃ req, ApiRequest.ofUrl (snprintf 256 (getUpdatesUrl token offset)) = some req ∧ req.token = token ∧
      req.method = asciiBytes "getUpdates" ∧ req.int "offset" = some offset.toInt := by
  have hurl : getUpdatesUrl token offset =
      apiHost ++ (token ++ 47 :: (asciiBytes "getUpdates" ++ 63 :: (asciiBytes "offset" ++ 61 :: decimal offset))) := by
    have hmethod : asciiBytes "/getUpdates?offset=" = 47 :: (asciiBytes "getUpdates" ++ 63 :: (asciiBytes "offset" ++ [61])) := rfl
    rw [getUpdatesUrl, apiHost, hmethod]
    simp only [List.append_assoc, List.cons_append, List.nil_append]
  have hfield : readQuery (asciiBytes "offset" ++ 61 :: decimal offset) = [(asciiBytes "offset", decimal offset)] := by
    have hamp : 38 ∉ asciiBytes "offset" ++ 61 :: decimal offset :=
      notMem_field (by decide) (by decide) (notMem_intDigits (by decide) (by decide) offset.toInt)
    rw [readQuery, List.splitOn_eq_singleton hamp, List.map_singleton, readField_append (plain_of_all rfl) (by decide),
      percentDecode_plain (decimal_plain _)]
  have hwhole : snprintf 256 (getUpdatesUrl token offset) = getUpdatesUrl token offset := by
    rw [snprintf_eq_iff (by decide), getUpdatesUrl]
    have hdecimal := length_decimal_le offset
    have h₁ : (asciiBytes "https://api.telegram.org/bot").length = 28 := rfl
    have h₂ : (asciiBytes "/getUpdates?offset=").length = 19 := rfl
    simp only [List.length_append, h₁, h₂]
    omega
  rw [hwhole, hurl, ApiRequest.ofUrl_append htoken (by decide), hfield]
  exact ⟨_, rfl, rfl, rfl, readInt_decimal offset⟩

/-! ## Both calls -/

variable {easyEscape : List UInt8 → Int → Option (List UInt8)} {token : List UInt8} {transfer : CurlTransfer} {handle : Bool} {mem : Mem}

theorem eq_of_mem_tgapiCallGetUpdates {J : JsonC} {tok : JsonTokener} {env : ParseEnv} {offset : Int64} {url : List UInt8}
    (h : .httpGet url ∈ (transfer.tgapiCallGetUpdates J tok env token offset handle mem).1) :
    url = snprintf 256 (getUpdatesUrl token offset) := by
  unfold tgapiCallGetUpdates at h
  split at h
  · simpa using h
  · dsimp only at h
    split at h
    · simpa using h
    · split at h
      · simpa using h
      · simpa using h

/-- The server reads of a poll the token and the offset, and of a message the token, the chat and the text, byte by byte; and it reads the
message that is replied to exactly when the request fits. -/
theorem server_reads_requests (hesc : PercentEscapes easyEscape) (htoken : IsToken token) (hlen : token.length ≤ 46)
    (transfer : CurlTransfer) (handle : Bool) (mem : Mem) :
    (∀ J tok env offset url, .httpGet url ∈ (transfer.tgapiCallGetUpdates J tok env token offset handle mem).1 →
      ∃ req, ApiRequest.ofUrl url = some req ∧ req.token = token ∧ req.method = asciiBytes "getUpdates" ∧
        req.int "offset" = some offset.toInt) ∧
    ∀ call ch url, call.text.length ≤ 4096 →
      .httpGet url ∈ (transfer.tgapiCallSendMessage easyEscape token call ch handle mem).1 →
      ∃ req escapeText, ApiRequest.ofUrl url = some req ∧ ReadsCall req token call ∧
        easyEscape call.text (intOfSize call.text.length) = some escapeText ∧
        (req.int "reply_to_message_id" = some call.replyToMessageId.toInt ↔ Fits token call escapeText) := by
  refine ⟨fun J tok env offset url h => ?_, fun call ch url htext h => ?_⟩
  · rw [eq_of_mem_tgapiCallGetUpdates h]
    exact ofUrl_getUpdates htoken.slash_notMem (by omega) offset
  · obtain ⟨-, escapeText, he, rfl⟩ := mem_tgapiCallSendMessage_iff.1 h
    obtain ⟨codes, hcodes, rfl⟩ := hesc call.text escapeText (by omega) he
    have hroom : (sendHead token call codes.flatten).length ≤ 12415 := by
      have hcodesLen := length_flatten_le hcodes
      have hchat := length_decimal_le call.chatId
      rw [length_sendHead]
      omega
    obtain ⟨req, hreq, hreads, hreply⟩ := ofUrl_sendMessage htoken.slash_notMem hcodes hroom
    exact ⟨req, codes.flatten, hreq, hreads, he, hreply⟩

theorem hexValue_hexDigit {n : UInt8} (h : n.toNat < 16) : hexValue (hexDigit n) = some n := by
  have hall : ∀ n : Fin 16, hexValue (hexDigit (UInt8.ofNat n)) = some (UInt8.ofNat n) := by decide
  have hn := hall ⟨n.toNat, h⟩
  rwa [UInt8.ofNat_toNat] at hn

theorem percentEscape_percentEscapes : PercentEscapes percentEscape := by
  rintro text _ _ ⟨⟩
  refine ⟨text.map escapeByte, ?_, rfl⟩
  rw [List.forall₂_map_right_iff]
  refine List.forall₂_same.2 fun c _ => ?_
  unfold escapeByte
  split
  · rename_i hkeep
    exact PercentCode.plain hkeep
  · have hlt : c.toNat < 256 := c.toNat_lt
    have hhi : (c / 16).toNat = c.toNat / 16 := UInt8.toNat_div c 16
    have hlo : (c % 16).toNat = c.toNat % 16 := UInt8.toNat_mod c 16
    refine PercentCode.escape (hexValue_hexDigit (by omega)) (hexValue_hexDigit (by omega)) ?_
    rw [← UInt8.toNat_inj, UInt8.toNat_add, UInt8.toNat_mul, hhi, hlo]
    show c.toNat = (16 * (c.toNat / 16) % 256 + c.toNat % 16) % 256
    omega

/-- The answer to a ping in a group, as the server reads it. -/
theorem server_reads_requests_pong : ∃ url req,
    .httpGet url ∈ (CurlTransfer.tgapiCallSendMessage ⟨[], 0⟩ percentEscape (asciiBytes "123:abc") (pingCall (-1001234567890) 31337) true
      true Mem.empty).1 ∧
    ApiRequest.ofUrl url = some req ∧ ReadsCall req (asciiBytes "123:abc") (pingCall (-1001234567890) 31337) ∧
    req.int "reply_to_message_id" = some 31337 := by
  have hmem : .httpGet (snprintf (4096 * 3 + 128) (sendMessageUrl (asciiBytes "123:abc") (pingCall (-1001234567890) 31337)
      (asciiBytes "Pong%21"))) ∈ (CurlTransfer.tgapiCallSendMessage ⟨[], 0⟩ percentEscape (asciiBytes "123:abc")
        (pingCall (-1001234567890) 31337) true true Mem.empty).1 := mem_tgapiCallSendMessage_iff.2 ⟨rfl, _, by decide, rfl⟩
  have htoken : IsToken (asciiBytes "123:abc") := by
    intro c hc
    have hall : (asciiBytes "123:abc").all (fun c => isUnreserved c || c == 58) = true := rfl
    simpa using List.all_eq_true.1 hall c hc
  obtain ⟨req, escapeText, hreq, hreads, he, hreply⟩ :=
    (server_reads_requests percentEscape_percentEscapes htoken (by decide) ⟨[], 0⟩ true Mem.empty).2 _ true _ (by decide) hmem
  exact ⟨_, req, hmem, hreq, hreads, hreply.2 (pingCall_fits percentEscape_escapesBytes (by decide) _ _ he)⟩

end CurlTransfer

end GwBot

import GwBot.TgApi.Calls

/-!
# The request of sendMessage

`tgapi_call_send_message` prints its URL into a buffer of 4096 * 3 + 128 bytes and does not look at what `snprintf` returns. The fixed
parts take 76 bytes and the NUL one: the token, the escaped text and the two numbers have 12339 bytes together. That is a few bytes short
of the longest text, whose escape alone can take 12288: then the last number is cut off, and the reply is to another message.
-/

namespace GwBot

namespace CurlTransfer

variable {easyEscape : List UInt8 → Int → Option (List UInt8)} {token : List UInt8} {call : TgaCallSendMessage}

/-- What `curl_easy_escape` is known to do: each byte becomes itself, or a percent sign and two bytes more. -/
def EscapesBytes (easyEscape : List UInt8 → Int → Option (List UInt8)) : Prop :=
  ∀ text escapeText, easyEscape text (intOfSize text.length) = some escapeText →
    ∃ pieces, List.Forall₂ (fun c piece => piece = [c] ∨ ∃ h l, piece = ['%'.toUInt8, h, l]) text pieces ∧ escapeText = pieces.flatten

theorem EscapesBytes.length_le (h : EscapesBytes easyEscape) {text escapeText : List UInt8}
    (he : easyEscape text (intOfSize text.length) = some escapeText) : escapeText.length ≤ 3 * text.length := by
  obtain ⟨pieces, hp, rfl⟩ := h text escapeText he
  clear he
  induction hp with
  | nil => exact Nat.le_refl 0
  | @cons c piece text pieces hc _ ih =>
    have hpiece : piece.length ≤ 3 := by
      rcases hc with rfl | ⟨_, _, rfl⟩
      · exact Nat.le_of_ble_eq_true rfl
      · exact Nat.le_refl 3
    rw [List.flatten_cons, List.length_append, List.length_cons]
    omega

/-- Every URL that a call of `tgapi_call_send_message` hands to `curl_http_get` is the whole request. -/
def WholeRequest (transfer : CurlTransfer) (easyEscape : List UInt8 → Int → Option (List UInt8)) (token : List UInt8)
    (call : TgaCallSendMessage) (ch handle : Bool) (mem : Mem) : Prop :=
  ∀ url, .httpGet url ∈ (transfer.tgapiCallSendMessage easyEscape token call ch handle mem).1 →
    ∃ escapeText, easyEscape call.text (intOfSize call.text.length) = some escapeText ∧ url = sendMessageUrl token call escapeText

/-- The parts of the URL that vary are short enough. -/
def Fits (token : List UInt8) (call : TgaCallSendMessage) (escapeText : List UInt8) : Prop :=
  token.length + (decimal call.chatId).length + escapeText.length + (decimal call.replyToMessageId).length ≤ 12339

theorem snprintf_sendMessageUrl_iff (token : List UInt8) (call : TgaCallSendMessage) (escapeText : List UInt8) :
    snprintf (4096 * 3 + 128) (sendMessageUrl token call escapeText) = sendMessageUrl token call escapeText ↔
      Fits token call escapeText := by
  rw [snprintf_eq_iff (by decide), length_sendMessageUrl, Fits]
  omega

/-- What is handed to `curl_http_get` is what fits of the request; there is no request without a handle or an escaped text. -/
theorem mem_tgapiCallSendMessage_iff {transfer : CurlTransfer} {ch handle : Bool} {mem : Mem} {url : List UInt8} :
    .httpGet url ∈ (transfer.tgapiCallSendMessage easyEscape token call ch handle mem).1 ↔
      ch = true ∧ ∃ escapeText, easyEscape call.text (intOfSize call.text.length) = some escapeText ∧
        url = snprintf (4096 * 3 + 128) (sendMessageUrl token call escapeText) := by
  unfold tgapiCallSendMessage
  cases ch with
  | false => simp
  | true =>
    cases he : easyEscape call.text (intOfSize call.text.length) with
    | none => simp
    | some escapeText =>
      have hurl : ∀ ev, .httpGet url ∈ [CallEvent.httpGet ev] ↔ url = ev := fun ev => by simp
      simp only [Bool.true_eq_false, if_false, Option.some.injEq, exists_eq_left', true_and]
      split
      · exact hurl _
      · split
        · exact hurl _
        · exact hurl _

/-- A request is whole exactly when its parts fit. -/
theorem wholeRequest_iff (transfer : CurlTransfer) (easyEscape : List UInt8 → Int → Option (List UInt8)) (token : List UInt8)
    (call : TgaCallSendMessage) (ch handle : Bool) (mem : Mem) :
    transfer.WholeRequest easyEscape token call ch handle mem ↔
      (ch = true → ∀ escapeText, easyEscape call.text (intOfSize call.text.length) = some escapeText → Fits token call escapeText) := by
  constructor
  · intro h hch escapeText he
    obtain ⟨escapeText', he', hurl⟩ := h _ (mem_tgapiCallSendMessage_iff.2 ⟨hch, escapeText, he, rfl⟩)
    rw [he] at he'
    cases he'
    exact (snprintf_sendMessageUrl_iff token call escapeText).1 hurl
  · intro h url hurl
    obtain ⟨hch, escapeText, he, rfl⟩ := mem_tgapiCallSendMessage_iff.1 hurl
    exact ⟨escapeText, he, (snprintf_sendMessageUrl_iff token call escapeText).2 (h hch escapeText he)⟩

/-- A token of 46 bytes leaves room for every text of 4084. -/
theorem fits_of_length_le (h : EscapesBytes easyEscape) (htoken : token.length ≤ 46) (htext : call.text.length ≤ 4084)
    {escapeText : List UInt8} (he : easyEscape call.text (intOfSize call.text.length) = some escapeText) : Fits token call escapeText := by
  have hlen := h.length_le he
  have hchat := length_decimal_le call.chatId
  have hreply := length_decimal_le call.replyToMessageId
  unfold Fits
  omega

/-- The call of `__ping_handle`. -/
def pingCall (chatId messageId : Int64) : TgaCallSendMessage := ⟨chatId, asciiBytes "Pong!", messageId⟩

/-- The answer to a ping is never cut off. -/
theorem pingCall_fits (h : EscapesBytes easyEscape) (htoken : token.length ≤ 46) (chatId messageId : Int64) {escapeText : List UInt8}
    (he : easyEscape (pingCall chatId messageId).text (intOfSize (pingCall chatId messageId).text.length) = some escapeText) :
    Fits token (pingCall chatId messageId) escapeText := by
  have htext : (pingCall chatId messageId).text.length ≤ 4084 := show 5 ≤ 4084 by decide
  exact fits_of_length_le h htoken htext he

/-! ## A reply to another message -/

/-- The bytes that `curl_easy_escape` leaves as they are: letters, digits and `-._~`. -/
def isUnreserved (c : UInt8) : Bool :=
  (48 ≤ c && c ≤ 57) || (65 ≤ c && c ≤ 90) || (97 ≤ c && c ≤ 122) || c = 45 || c = 46 || c = 95 || c = 126

def hexDigit (n : UInt8) : UInt8 := if n < 10 then 48 + n else 55 + n

/-- A byte as `curl_easy_escape` writes it. -/
def escapeByte (c : UInt8) : List UInt8 := if isUnreserved c then [c] else ['%'.toUInt8, hexDigit (c / 16), hexDigit (c % 16)]

/-- `curl_easy_escape`, when it has memory. -/
def percentEscape (text : List UInt8) (_ : Int) : Option (List UInt8) := some (text.flatMap escapeByte)

theorem percentEscape_escapesBytes : EscapesBytes percentEscape := by
  rintro text _ ⟨⟩
  refine ⟨text.map escapeByte, ?_, rfl⟩
  rw [List.forall₂_map_right_iff]
  refine List.forall₂_same.2 fun c _ => ?_
  unfold escapeByte
  split
  · exact Or.inl rfl
  · exact Or.inr ⟨_, _, rfl⟩

/-- 4092 spaces, in reply to message 31337 of a group. -/
def spacesCall : TgaCallSendMessage := ⟨-1001234567890, List.replicate 4092 32, 31337⟩

/-- A token of 46 bytes. -/
def longToken : List UInt8 := List.replicate 46 65

theorem length_escaped_spaces (n : Nat) : ((List.replicate n 32).flatMap escapeByte).length = 3 * n := by
  induction n with
  | zero => rfl
  | succ n ih =>
    rw [List.replicate_succ, List.flatMap_cons, List.length_append, ih]
    show 3 + 3 * n = 3 * (n + 1)
    omega

/-- The end of the request of these spaces is cut off: what is left is the request of a reply to message 313. -/
theorem spacesCall_cut_off {escapeText : List UInt8} (hlen : escapeText.length = 12276) :
    snprintf (4096 * 3 + 128) (sendMessageUrl longToken spacesCall escapeText) =
      sendMessageUrl longToken { spacesCall with replyToMessageId := 313 } escapeText := by
  have hreply : decimal spacesCall.replyToMessageId = decimal 313 ++ [51, 55] := by decide
  have hurl : sendMessageUrl longToken spacesCall escapeText =
      sendMessageUrl longToken { spacesCall with replyToMessageId := 313 } escapeText ++ [51, 55] := by
    rw [sendMessageUrl, hreply, ← List.append_assoc]
    rfl
  have hcut : (sendMessageUrl longToken { spacesCall with replyToMessageId := 313 } escapeText).length = 12415 := by
    rw [length_sendMessageUrl, hlen]
    have hchat : (decimal spacesCall.chatId).length = 14 := by decide
    have h313 : (decimal 313).length = 3 := by decide
    show 76 + (List.replicate 46 _).length + (decimal spacesCall.chatId).length + 12276 + (decimal 313).length = 12415
    rw [List.length_replicate, hchat, h313]
  rw [hurl, snprintf]
  exact List.take_left' hcut

/-- The bot replies to message 313 when it is to reply to message 31337. -/
theorem request_cut_off : EscapesBytes percentEscape ∧ spacesCall.text.length ≤ 4096 ∧ longToken.length ≤ 46 ∧
    ¬CurlTransfer.WholeRequest ⟨[], 0⟩ percentEscape longToken spacesCall true true Mem.empty ∧
    ∀ url, .httpGet url ∈ (CurlTransfer.tgapiCallSendMessage ⟨[], 0⟩ percentEscape longToken spacesCall true true Mem.empty).1 →
      ∃ escapeText, percentEscape spacesCall.text (intOfSize spacesCall.text.length) = some escapeText ∧
        url = sendMessageUrl longToken { spacesCall with replyToMessageId := 313 } escapeText := by
  have hlen : (spacesCall.text.flatMap escapeByte).length = 12276 := length_escaped_spaces 4092
  have htoken : longToken.length = 46 := List.length_replicate
  have htext : spacesCall.text.length = 4092 := List.length_replicate
  refine ⟨percentEscape_escapesBytes, by rw [htext]; decide, by rw [htoken], fun h => ?_, fun url hurl => ?_⟩
  · obtain ⟨escapeText, he, hurl⟩ := h _ (mem_tgapiCallSendMessage_iff.2 ⟨rfl, _, rfl, rfl⟩)
    rw [← Option.some.inj he] at hurl
    have hfits := (snprintf_sendMessageUrl_iff _ _ _).1 hurl
    have hchat : (decimal spacesCall.chatId).length = 14 := by decide
    have hreply : (decimal spacesCall.replyToMessageId).length = 5 := by decide
    rw [Fits, hchat, hreply, htoken, hlen] at hfits
    omega
  · obtain ⟨-, escapeText, he, rfl⟩ := mem_tgapiCallSendMessage_iff.1 hurl
    refine ⟨escapeText, he, spacesCall_cut_off ?_⟩
    rw [← Option.some.inj he, hlen]

end CurlTransfer

end GwBot

import GwBot.TgApi.Outcome

/-!
# The texts that come out of a response

`tgj_get_message` writes the type and the text of a message before the last thing that can fail, the entities, and when that fails it sets
the chat back to null. So only an element whose entities fail leaves a text without a chat behind, in an entry that may be handed out.
-/

namespace GwBot

open Lib

/-- A text message has a chat. -/
def TextHasChat (msg : TgMessage) : Prop := msg.type = .text → msg.chat.isSome = true

theorem TextHasChat.of_chat {msg : TgMessage} (h : msg.chat.isSome = true) : TextHasChat msg := fun _ => h

variable {J : JsonC} {messages : Nat → MessageEnv} {mem mem' : Mem} {updates updates' : List TgUpdate} {elems : List JsonObject}

/-- Where the entities do not fail, a message that has no chat is left with the type that it had. -/
theorem tgjGetMessageChat_textHasChat {env : MessageEnv} {msg msg' : TgMessage} {jmsg : JsonObject} {ret : Int} (hmsg : TextHasChat msg)
    (hok : variantOk env.entities jmsg = true) (h : tgjGetMessageChat J env msg jmsg mem = some (mem', msg', ret)) : TextHasChat msg' := by
  unfold tgjGetMessageChat at h
  split at h
  · cases h
    exact hmsg
  · split at h
    · cases h
      exact hmsg
    · split at h
      · cases h
      · rename_i mem₃ msg₃ ret₃ hv
        obtain ⟨-, hchat, hset⟩ := tgjArrangeMessageVariant_cases hv
        obtain rfl := hset.ret_eq_zero_iff.2 hok
        cases h
        exact TextHasChat.of_chat (by rw [hchat]; rfl)

theorem tgjGetMessage_textHasChat {env : MessageEnv} {msg msg' : TgMessage} {jmsg : JsonObject} {ret : Int} (hmsg : TextHasChat msg)
    (hok : variantOk env.entities jmsg = true) (h : tgjGetMessage J env msg jmsg mem = some (mem', msg', ret)) : TextHasChat msg' := by
  unfold tgjGetMessage at h
  split at h
  · cases h
    exact hmsg
  · simp only at h
    split at h
    · cases h
      exact hmsg
    · split at h
      · cases h
        exact hmsg
      · split at h
        · cases h
          exact hmsg
        · refine tgjGetMessageChat_textHasChat ?_ hok h
          exact hmsg

/-- The entities of the message of the element do not fail. -/
def EntitiesFine (env : MessageEnv) (elem : JsonObject) : Prop :=
  ∀ jmsg, jsonObjectObjectGetEx elem "message" = some jmsg → variantOk env.entities jmsg = true

theorem tgjGetUpdate_textHasChat {env : MessageEnv} {update update' : TgUpdate} {elem : JsonObject} {ret : Int}
    (hmsg : TextHasChat update.message) (hok : EntitiesFine env elem) (h : tgjGetUpdate J env update elem mem = some (mem', update', ret)) :
    TextHasChat update'.message := by
  unfold tgjGetUpdate at h
  split at h
  · cases h
    exact hmsg
  · simp only at h
    split at h
    · rename_i jmsg hjmsg
      split at h
      · cases h
      · rename_i mem₁ msg₁ ret₁ hm
        cases h
        exact tgjGetMessage_textHasChat hmsg (hok jmsg hjmsg) hm
    · cases h
      exact hmsg

/-- The elements that are left from index `i` on are no nulls, and their entities do not fail. -/
def Readable (messages : Nat → MessageEnv) (i : Nat) (elems : List JsonObject) : Prop :=
  ∀ k elem, elems[k]? = some elem → elem ≠ .nil ∧ EntitiesFine (messages (i + k)) elem

theorem Readable.tail {i : Nat} {elem : JsonObject} (h : Readable messages i (elem :: elems)) : Readable messages (i + 1) elems := by
  intro k e hk
  rw [Nat.add_assoc, Nat.add_comm 1 k]
  exact h (k + 1) e hk

/-- The loop comes to its end, and every text that it leaves has a chat. -/
theorem parseUpdates_textHasChat {i j : Nat} {b : Bool} (hread : Readable messages i elems)
    (htexts : ∀ update ∈ updates, TextHasChat update.message)
    (h : parseUpdates J messages i elems j updates mem = some (mem', updates', b)) :
    b = false ∧ ∀ update ∈ updates', TextHasChat update.message := by
  induction elems generalizing i j updates mem with
  | nil =>
    cases h
    exact ⟨rfl, htexts⟩
  | cons elem elems ih =>
    obtain ⟨hnull, hfine⟩ := hread 0 elem rfl
    obtain ⟨mem₁, update, ret, hget, hrest⟩ := parseUpdates_cons hnull h
    have hold : TextHasChat (updates.getD j .zero).message := by
      rw [List.getD_eq_getElem?_getD]
      cases hj : updates[j]? with
      | none => exact fun hz => by cases hz
      | some entry => exact htexts entry (List.mem_of_getElem? hj)
    have hentry := tgjGetUpdate_textHasChat hold hfine hget
    have hset : ∀ u ∈ updates.set j update, TextHasChat u.message := by
      intro u hu
      rcases List.mem_or_eq_of_mem_set hu with hu | rfl
      · exact htexts u hu
      · exact hentry
    obtain ⟨-, h⟩ | ⟨-, h⟩ := hrest
    · exact ih hread.tail hset h
    · exact ih hread.tail hset h

section Container

variable {tok : JsonTokener} {env : ParseEnv} {batch : TgUpdates} {ret : Int}

/-- The response that the transfer leaves, if it has elements: they are readable. -/
def ReadableResponse (tok : JsonTokener) (env : ParseEnv) (curl : CurlHttpGet) : Prop :=
  ∀ data jobj result elems, curl = .done data → parseJson tok env.fuel env.tokenerNew (data ++ [0]) (data.length + 1) = some (.ok jobj) →
    jsonObjectObjectGetEx jobj "result" = some result → jsonObjectArray result = some elems → Readable env.messages 0 elems

theorem ReadableResponse.noNull {curl : CurlHttpGet} (hread : ReadableResponse tok env curl) : NoNullResponse tok env curl := by
  intro data jobj result elems hcurl hparse hresult helems hm
  obtain ⟨k, hk⟩ := List.mem_iff_getElem?.1 hm
  exact (hread data jobj result elems hcurl hparse hresult helems k .nil hk).1 rfl

/-- The texts in the container of such a response have a chat. -/
theorem container_textHasChat {curl : CurlHttpGet} (hread : ReadableResponse tok env curl)
    (h : tgapiCallGetUpdates J tok env mem curl = some (mem', some batch, ret)) : ∀ update ∈ batch.updates, TextHasChat update.message := by
  obtain ⟨data, jobj, result, elems, mem₁, mem₂, b, hcurl, hparse, hresult, helems, -, hloop, -⟩ := response_of_stored h
  have htake : Readable env.messages 0 (elems.take (2 ^ 64 - 1)) := by
    intro k elem hk
    rw [List.getElem?_take] at hk
    split at hk
    · exact hread data jobj result elems hcurl hparse hresult helems k elem hk
    · cases hk
  have hzero : ∀ update ∈ List.replicate (elems.take (2 ^ 64 - 1)).length TgUpdate.zero, TextHasChat update.message := by
    intro update hu hz
    rw [List.eq_of_mem_replicate hu] at hz
    cases hz
  exact (parseUpdates_textHasChat htake hzero hloop).2

end Container

end GwBot

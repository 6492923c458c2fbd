import GwBot.TgApi.Parse

/-!
# What a parse writes

A parse that succeeds writes its fields over what the update held before: `UpdateParse` says which. The blocks are the next ones that
`malloc` hands out, in the order user, chat, entities.
-/

namespace GwBot

open Lib

/-! ## The fields -/

/-- What `tgj_arrange_message_variant` makes of `msg`, with the next block at `addr`. -/
inductive VariantParse (J : JsonC) (jmsg : JsonObject) (addr : Nat) (msg : TgMessage) : TgMessage → Prop where
  | text {res : JsonObject} : jsonObjectObjectGetEx jmsg "text" = some res → jsonObjectObjectGetEx jmsg "entities" = none →
      VariantParse J jmsg addr msg { msg with type := .text, text := jsonObjectGetString J res }
  | entities {res jent : JsonObject} {elems : List JsonObject} : jsonObjectObjectGetEx jmsg "text" = some res →
      jsonObjectObjectGetEx jmsg "entities" = some jent → jsonObjectArray jent = some elems → 0 ≤ intOfSize elems.length →
      VariantParse J jmsg addr msg
        { msg with
          type := .text
          text := jsonObjectGetString J res
          entities := some addr
          entitiesLen := (intOfSize elems.length).toNat }
  | other : jsonObjectObjectGetEx jmsg "text" = none → VariantParse J jmsg addr msg { msg with type := variantOf jmsg }

/-- What `tgj_get_message` makes of `msg`, with the next blocks from `addr` on. -/
inductive MessageParse (J : JsonC) (jmsg : JsonObject) (addr : Nat) (msg : TgMessage) : TgMessage → Prop where
  | mk {id date juser jchat : JsonObject} {user : TgUser} {chat : TgChat} {msg' : TgMessage} :
      jsonObjectObjectGetEx jmsg "message_id" = some id → jsonObjectObjectGetEx jmsg "date" = some date →
      jsonObjectObjectGetEx jmsg "from" = some juser → tgjGetUser J juser = .ok user →
      jsonObjectObjectGetEx jmsg "chat" = some jchat → tgjGetChat J jchat = .ok chat →
      VariantParse J jmsg (addr + 2)
        { msg with
          messageId := jsonObjectGetUint64 J id
          date := jsonObjectGetUint64 J date
          fromUser := some ⟨addr, user⟩
          chat := some ⟨addr + 1, chat⟩ } msg' →
      MessageParse J jmsg addr msg msg'

/-- What `tgj_get_update` makes of `update`, with the next blocks from `addr` on. -/
inductive UpdateParse (J : JsonC) (jobj : JsonObject) (addr : Nat) (update : TgUpdate) : TgUpdate → Prop where
  | message {id jmsg : JsonObject} {msg : TgMessage} : jsonObjectObjectGetEx jobj "update_id" = some id →
      jsonObjectObjectGetEx jobj "message" = some jmsg → MessageParse J jmsg addr update.message msg →
      UpdateParse J jobj addr update { update with updateId := jsonObjectGetUint64 J id, type := .message, message := msg }
  | unknown {id : JsonObject} : jsonObjectObjectGetEx jobj "update_id" = some id → jsonObjectObjectGetEx jobj "message" = none →
      UpdateParse J jobj addr update { update with updateId := jsonObjectGetUint64 J id, type := .unknown }

/-- No key but `text` stands for a text. -/
theorem variantOf_ne_text (jmsg : JsonObject) : variantOf jmsg ≠ .text := by
  unfold variantOf
  split
  · rename_i v hv
    have hne : ∀ v ∈ messageVariants, v.2 ≠ .text := by decide
    exact hne v (List.mem_of_find?_eq_some hv)
  · nofun

/-- The variant leaves the other fields of the message as they are. -/
theorem VariantParse.kept {J : JsonC} {jmsg : JsonObject} {addr : Nat} {msg msg' : TgMessage} (h : VariantParse J jmsg addr msg msg') :
    msg'.messageId = msg.messageId ∧ msg'.date = msg.date ∧ msg'.fromUser = msg.fromUser ∧ msg'.chat = msg.chat := by
  cases h <;> exact ⟨rfl, rfl, rfl, rfl⟩

/-! ## The parse -/

variable {J : JsonC} {mem mem' : Mem}

/-- A block that was got is the next one. -/
theorem malloc_some {ok : Bool} {addr : Nat} (h : mem.malloc ok = (mem', some addr)) :
    addr = mem.next ∧ mem' = { mem with next := mem.next + 1 } := by
  unfold Mem.malloc at h
  split at h
  · cases h
    exact ⟨rfl, rfl⟩
  · nomatch h

/-- A value that was got and stored is in a block of its own. -/
theorem getAndAlloc_ok {α : Type} {get : JsonObject → Except Int α} {malloc : Bool} {jobj : JsonObject} {p : Ptr α}
    (h : getAndAlloc get malloc jobj mem = (mem', .ok p)) :
    ∃ val, get jobj = .ok val ∧ p = ⟨mem.next, val⟩ ∧ mem' = { mem with next := mem.next + 1 } := by
  unfold getAndAlloc at h
  split at h
  · nomatch h
  · rename_i mem₁ addr hm
    obtain ⟨rfl, rfl⟩ := malloc_some hm
    split at h
    · rename_i val hval
      cases h
      exact ⟨val, hval, rfl, rfl⟩
    · nomatch h

theorem tgjGetEntitiesAndAlloc_ok {malloc : Bool} {jent : JsonObject} {ent : Nat} {ret : Int}
    (h : tgjGetEntitiesAndAlloc malloc jent mem = some (mem', .ok (ent, ret))) :
    ∃ elems, jsonObjectArray jent = some elems ∧ ent = mem.next ∧ ret = intOfSize elems.length ∧ 0 ≤ ret := by
  unfold tgjGetEntitiesAndAlloc at h
  split at h
  · cases h
  · rename_i elems harr
    split at h
    · cases h
    · rename_i mem₁ addr hm
      obtain ⟨rfl, rfl⟩ := malloc_some hm
      simp only [tgjGetMessageEntities, ge_iff_le] at h
      by_cases hpos : 0 ≤ intOfSize elems.length
      · rw [if_pos hpos] at h
        cases h
        exact ⟨elems, harr, rfl, rfl, hpos⟩
      · rw [if_neg hpos] at h
        cases h

/-- A variant that is accepted has the fields of its value. -/
theorem tgjArrangeMessageVariant_fields {malloc : Bool} {msg msg' : TgMessage} {jmsg : JsonObject}
    (h : tgjArrangeMessageVariant J malloc msg jmsg mem = some (mem', msg', 0)) : VariantParse J jmsg mem.next msg msg' := by
  unfold tgjArrangeMessageVariant at h
  split at h
  · rename_i res htext
    simp only at h
    split at h
    · rename_i hent
      cases h
      exact VariantParse.text htext hent
    · rename_i jent hent
      split at h
      · nomatch h
      · rename_i mem₁ ret he
        cases h
        obtain ⟨ent, ret₂, hr, -⟩ | ⟨ret₂, hr, -, hneg, -⟩ := tgjGetEntitiesAndAlloc_cases he <;> cases hr
        exact absurd hneg (Int.lt_irrefl 0)
      · rename_i mem₁ ent ret he
        cases h
        obtain ⟨elems, harr, hnext, hlen, hpos⟩ := tgjGetEntitiesAndAlloc_ok he
        rw [hnext, hlen]
        exact VariantParse.entities htext hent harr (hlen ▸ hpos)
  · rename_i htext
    cases h
    exact VariantParse.other htext

/-- What `tgj_get_message` makes of a message that has its user. -/
theorem tgjGetMessageChat_fields {env : MessageEnv} {msg msg' : TgMessage} {jmsg : JsonObject}
    (h : tgjGetMessageChat J env msg jmsg mem = some (mem', msg', 0)) :
    ∃ jchat chat, jsonObjectObjectGetEx jmsg "chat" = some jchat ∧ tgjGetChat J jchat = .ok chat ∧
      VariantParse J jmsg (mem.next + 1) { msg with chat := some ⟨mem.next, chat⟩ } msg' := by
  unfold tgjGetMessageChat at h
  split at h
  · nomatch h
  · rename_i jchat hchat
    split at h
    · rename_i mem₁ ret hg
      cases h
      exact absurd (getAndAlloc_error tgjGetChat_accepts hg) (Int.lt_irrefl 0)
    · rename_i mem₁ chat hg
      obtain ⟨val, hchat', rfl, rfl⟩ := getAndAlloc_ok hg
      split at h
      · nomatch h
      · rename_i mem₂ msg₂ ret hv
        split at h
        · rename_i hret
          cases h
          exact absurd rfl hret
        · rename_i hret
          cases h
          obtain rfl := not_not.1 hret
          exact ⟨jchat, val, hchat, hchat', tgjArrangeMessageVariant_fields hv⟩

/-- So has a message. -/
theorem tgjGetMessage_fields {env : MessageEnv} {msg msg' : TgMessage} {jmsg : JsonObject}
    (h : tgjGetMessage J env msg jmsg mem = some (mem', msg', 0)) : MessageParse J jmsg mem.next msg msg' := by
  unfold tgjGetMessage at h
  split at h
  · nomatch h
  · rename_i id hid
    simp only at h
    split at h
    · nomatch h
    · rename_i date hdate
      split at h
      · nomatch h
      · rename_i juser hfrom
        split at h
        · rename_i mem₁ ret hg
          cases h
          exact absurd (getAndAlloc_error tgjGetUser_accepts hg) (Int.lt_irrefl 0)
        · rename_i mem₁ user hg
          obtain ⟨val, huser, rfl, rfl⟩ := getAndAlloc_ok hg
          obtain ⟨jchat, chat, hchat, hchat', hv⟩ := tgjGetMessageChat_fields h
          exact MessageParse.mk hid hdate hfrom huser hchat hchat' hv

/-- And an update. -/
theorem tgjGetUpdate_fields {env : MessageEnv} {update update' : TgUpdate} {jobj : JsonObject}
    (h : tgjGetUpdate J env update jobj mem = some (mem', update', 0)) : UpdateParse J jobj mem.next update update' := by
  unfold tgjGetUpdate at h
  split at h
  · nomatch h
  · rename_i id hid
    simp only at h
    split at h
    · rename_i jmsg hmsg
      split at h
      · nomatch h
      · rename_i hm
        cases h
        exact UpdateParse.message hid hmsg (tgjGetMessage_fields hm)
    · rename_i hmsg
      cases h
      exact UpdateParse.unknown hid hmsg

end GwBot

import GwBot.TgApi.Arrays
import GwBot.TgApi.Fields

/-!
# What an update held before the parse

Callers hand `tgapi_parse_update_len` an update that nobody has filled in. A parse that succeeds writes every field that is read later, but
for one case: a text without `entities` keeps the `entities` and `entities_len` that were there, and `tgapi_free_update` frees them
(`prior_entities_freed`).
-/

namespace GwBot

open Lib

/-! ## What is read -/

/-- Two messages agree on what is read of them: of a text also what it says and its entities. -/
structure MessagesAlike (msg₁ msg₂ : TgMessage) : Prop where
  messageId : msg₁.messageId = msg₂.messageId
  date : msg₁.date = msg₂.date
  fromUser : msg₁.fromUser = msg₂.fromUser
  chat : msg₁.chat = msg₂.chat
  type : msg₁.type = msg₂.type
  text : msg₁.type = .text → msg₁.text = msg₂.text ∧ msg₁.entities = msg₂.entities ∧ msg₁.entitiesLen = msg₂.entitiesLen

/-- Two updates agree on what is read of them. -/
structure UpdatesAlike (update₁ update₂ : TgUpdate) : Prop where
  json : update₁.json = update₂.json
  updateId : update₁.updateId = update₂.updateId
  type : update₁.type = update₂.type
  message : update₁.type = .message → MessagesAlike update₁.message update₂.message

/-- Whenever the update is freed, what is freed are blocks handed out between `mem` and `mem'`. -/
def FreesParsed (mem mem' : Mem) (update : TgUpdate) : Prop :=
  ∀ later : Mem, ∃ l, (tgapiFreeUpdate update later).1.freed = later.freed ++ l ∧ ∀ a ∈ l, mem.next ≤ a ∧ a < mem'.next

/-- The parse succeeds over whatever the update held, and what is read of the result does not depend on that. -/
def DependsOnlyOnJson (J : JsonC) (tok : JsonTokener) (env : ParseEnv) (json : List UInt8) (len : Nat) (mem : Mem) : Prop :=
  ∀ prior₁ prior₂, ∃ mem₁ mem₂ update₁ update₂,
    tgapiParseUpdateLen J tok env prior₁ json len mem = some (mem₁, update₁, 0) ∧
    tgapiParseUpdateLen J tok env prior₂ json len mem = some (mem₂, update₂, 0) ∧
    UpdatesAlike update₁ update₂ ∧ FreesParsed mem mem₁ update₁

/-- The message is a text, and has no entities. -/
def TextWithoutEntities (jobj : JsonObject) : Prop :=
  ∃ jmsg, jsonObjectObjectGetEx jobj "message" = some jmsg ∧ hasKey jmsg "text" = true ∧ jsonObjectObjectGetEx jmsg "entities" = none

variable {J : JsonC} {tok : JsonTokener} {env : ParseEnv} {json : List UInt8} {len : Nat} {mem mem' : Mem} {jobj : JsonObject}
  {prior update : TgUpdate}

/-! ## Parses that succeed -/

/-- Whether the parse succeeds does not depend on what the update held. -/
theorem tgjGetUpdate_any_prior {env : MessageEnv} (h : tgjGetUpdate J env prior jobj mem = some (mem', update, 0)) (prior' : TgUpdate) :
    ∃ mem₁ update', tgjGetUpdate J env prior' jobj mem = some (mem₁, update', 0) := by
  have hmeets : ¬MeetsNonArray env jobj := by
    rw [← tgjGetUpdate_eq_none (J := J) env prior jobj mem, h]
    nofun
  rw [← tgjGetUpdate_eq_none (J := J) env prior' jobj mem] at hmeets
  obtain ⟨⟨mem₁, update', ret⟩, hget⟩ := Option.ne_none_iff_exists'.1 hmeets
  have hok := (tgjGetUpdate_cases h).2.1.of_zero.1
  obtain rfl := (tgjGetUpdate_cases hget).2.1.ret_eq_zero_iff.2 hok
  exact ⟨mem₁, update', hget⟩

/-! ## The fields -/

/-- Of what held different fields before, the parse makes messages that agree, unless it leaves entities alone. -/
theorem VariantParse.alike {jmsg : JsonObject} {addr : Nat} {msg₁ msg₂ msg₁' msg₂' : TgMessage}
    (hno : ¬(hasKey jmsg "text" = true ∧ jsonObjectObjectGetEx jmsg "entities" = none)) (h₁ : VariantParse J jmsg addr msg₁ msg₁')
    (h₂ : VariantParse J jmsg addr msg₂ msg₂') (hid : msg₁.messageId = msg₂.messageId) (hdate : msg₁.date = msg₂.date)
    (hfrom : msg₁.fromUser = msg₂.fromUser) (hchat : msg₁.chat = msg₂.chat) : MessagesAlike msg₁' msg₂' := by
  cases h₁ with
  | text htext hent => exact absurd ⟨hasKey_of_eq_some htext, hent⟩ hno
  | entities htext hent harr =>
    cases h₂ with
    | text _ hent' => nomatch hent.symm.trans hent'
    | entities htext' hent' harr' =>
      cases htext.symm.trans htext'
      cases hent.symm.trans hent'
      cases harr.symm.trans harr'
      exact ⟨hid, hdate, hfrom, hchat, rfl, fun _ => ⟨rfl, rfl, rfl⟩⟩
    | other htext' => nomatch htext.symm.trans htext'
  | other htext =>
    cases h₂ with
    | text htext' | entities htext' => nomatch htext.symm.trans htext'
    | other => exact ⟨hid, hdate, hfrom, hchat, rfl, fun h => absurd h (variantOf_ne_text jmsg)⟩

theorem MessageParse.alike {jmsg : JsonObject} {addr : Nat} {msg₁ msg₂ msg₁' msg₂' : TgMessage}
    (hno : ¬(hasKey jmsg "text" = true ∧ jsonObjectObjectGetEx jmsg "entities" = none)) (h₁ : MessageParse J jmsg addr msg₁ msg₁')
    (h₂ : MessageParse J jmsg addr msg₂ msg₂') : MessagesAlike msg₁' msg₂' := by
  cases h₁ with
  | mk hid hdate hfrom huser hchat hchat' hv =>
    cases h₂ with
    | mk hid₂ hdate₂ hfrom₂ huser₂ hchat₂ hchat₂' hv₂ =>
      cases hid.symm.trans hid₂
      cases hdate.symm.trans hdate₂
      cases hfrom.symm.trans hfrom₂
      cases huser.symm.trans huser₂
      cases hchat.symm.trans hchat₂
      cases hchat'.symm.trans hchat₂'
      exact hv.alike hno hv₂ rfl rfl rfl rfl

theorem UpdateParse.alike {addr : Nat} {prior₁ prior₂ update₁ update₂ : TgUpdate} (hno : ¬TextWithoutEntities jobj)
    (h₁ : UpdateParse J jobj addr prior₁ update₁) (h₂ : UpdateParse J jobj addr prior₂ update₂) (hjson : prior₁.json = prior₂.json) :
    UpdatesAlike update₁ update₂ := by
  cases h₁ with
  | message hid hmsg hparse =>
    cases h₂ with
    | message hid₂ hmsg₂ hparse₂ =>
      cases hid.symm.trans hid₂
      cases hmsg.symm.trans hmsg₂
      exact ⟨hjson, rfl, rfl, fun _ => hparse.alike (fun ⟨htext, hent⟩ => hno ⟨_, hmsg, htext, hent⟩) hparse₂⟩
    | unknown _ hmsg₂ => nomatch hmsg.symm.trans hmsg₂
  | unknown hid hmsg =>
    cases h₂ with
    | message _ hmsg₂ => nomatch hmsg.symm.trans hmsg₂
    | unknown hid₂ =>
      cases hid.symm.trans hid₂
      exact ⟨hjson, rfl, rfl, nofun⟩

/-- The entities of a text without entities are those that were there before. -/
theorem UpdateParse.prior_entities {addr : Nat} (hno : TextWithoutEntities jobj) (h : UpdateParse J jobj addr prior update) :
    update.type = .message ∧ update.message.type = .text ∧ update.message.entities = prior.message.entities := by
  obtain ⟨jmsg, hmsg, htext, hent⟩ := hno
  cases h with
  | message _ hmsg' hparse =>
    cases hmsg.symm.trans hmsg'
    cases hparse with
    | mk _ _ _ _ _ _ hv =>
      cases hv with
      | text => exact ⟨rfl, rfl, rfl⟩
      | entities _ hent' => nomatch hent.symm.trans hent'
      | other htext' => nomatch (hasKey_of_eq_none htext').symm.trans htext
  | unknown _ hmsg' => nomatch hmsg.symm.trans hmsg'

/-! ## The blocks -/

@[simp] theorem Mem.free_freed (mem : Mem) (p : Option Nat) : (mem.free p).freed = mem.freed ++ p.toList := by
  cases p with
  | none => exact (List.append_nil _).symm
  | some a => rfl

/-- `tgapi_free_update` frees blocks of the update, or none. -/
theorem tgapiFreeUpdate_freed (update : TgUpdate) (mem : Mem) :
    ∃ l, (tgapiFreeUpdate update mem).1.freed = mem.freed ++ l ∧ ∀ a ∈ l, a ∈ ownedBlocks update := by
  have hnone : mem.freed = mem.freed ++ [] := (List.append_nil _).symm
  unfold tgapiFreeUpdate
  split
  · exact ⟨[], hnone, nofun⟩
  · split
    · exact ⟨[], hnone, nofun⟩
    · split
      · rename_i htype
        refine ⟨(if update.message.type = .text then update.message.entities.toList else []) ++
          (update.message.fromUser.map Ptr.addr).toList ++ (update.message.chat.map Ptr.addr).toList, ?_, fun a ha => ?_⟩
        · simp only [tgapiFreeMessage, tgapiFreeMessageText, Mem.free_freed]
          split <;> simp [Mem.jsonObjectPut]
        · rw [ownedBlocks, htype]
          simp only [List.mem_append, messageBlocks] at ha ⊢
          rcases ha with (ha | ha) | ha
          · exact Or.inr ha
          · exact Or.inl (Or.inl ha)
          · exact Or.inl (Or.inr ha)
      · exact ⟨[], hnone, nofun⟩

/-- Unless it has kept the entities that were there before, a message owns the entities that its parse has allocated, if any. -/
theorem MessageParse.entities_mem {jmsg : JsonObject} {addr : Nat} {msg msg' : TgMessage}
    (hno : ¬(hasKey jmsg "text" = true ∧ jsonObjectObjectGetEx jmsg "entities" = none)) (h : MessageParse J jmsg addr msg msg') :
    ∀ a ∈ (if msg'.type = .text then msg'.entities.toList else []), a ∈ parsedEntities jmsg msg' := by
  cases h with
  | mk _ _ _ _ _ _ hv =>
    cases hv with
    | text htext hent => exact absurd ⟨hasKey_of_eq_some htext, hent⟩ hno
    | entities htext hent =>
      rw [parsedEntities, hasKey_of_eq_some htext, hasKey_of_eq_some hent]
      exact fun a ha => ha
    | other =>
      rw [if_neg (variantOf_ne_text jmsg)]
      simp

theorem UpdateParse.owned {addr : Nat} (hno : ¬TextWithoutEntities jobj) (h : UpdateParse J jobj addr prior update) :
    ∀ a ∈ ownedBlocks update, a ∈ updateBlocks jobj update := by
  cases h with
  | message _ hmsg hparse =>
    have hent := hparse.entities_mem (fun hlost => hno ⟨_, hmsg, hlost.1, hlost.2⟩)
    intro a ha
    rw [updateBlocks, hmsg]
    rcases List.mem_append.1 ha with ha | ha
    · exact List.mem_append_left _ ha
    · exact List.mem_append_right _ (hent a ha)
  | unknown => exact List.forall_mem_nil _

/-! ## The parse -/

/-- What is read of a parsed update depends only on its JSON exactly when that is not a text without entities. -/
theorem parse_depends_only_on_json (hparse : parseJson tok env.fuel env.tokenerNew json len = some (.ok jobj))
    (h : tgapiParseUpdateLen J tok env prior json len mem = some (mem', update, 0)) :
    DependsOnlyOnJson J tok env json len mem ↔ ¬TextWithoutEntities jobj := by
  have hany : ∀ prior', ∃ mem₁ update', tgapiParseUpdateLen J tok env prior' json len mem = some (mem₁, update', 0) := by
    intro prior'
    obtain ⟨mem₁, update', hget⟩ := tgjGetUpdate_any_prior ((tgapiParseUpdateLen_eq_zero hparse).1 h) { prior' with json := jobj }
    exact ⟨mem₁, update', (tgapiParseUpdateLen_eq_zero hparse).2 hget⟩
  have hfields : ∀ {prior' mem₁ update'}, tgapiParseUpdateLen J tok env prior' json len mem = some (mem₁, update', 0) →
      UpdateParse J jobj mem.next { prior' with json := jobj } update' := by
    intro prior' mem₁ update' h'
    have hget := tgjGetUpdate_fields ((tgapiParseUpdateLen_eq_zero hparse).1 h')
    exact hget
  constructor
  · intro hdep hno
    -- two updates that held different entities
    obtain ⟨mem₁, mem₂, update₁, update₂, h₁, h₂, halike, -⟩ :=
      hdep .zero { TgUpdate.zero with message := { TgMessage.zero with entities := some 0 } }
    obtain ⟨htype, htext, hent⟩ := (hfields h₁).prior_entities hno
    obtain ⟨-, -, hent₂⟩ := (hfields h₂).prior_entities hno
    have := ((halike.message htype).text htext).2.1
    rw [hent, hent₂] at this
    nomatch this
  · intro hno prior₁ prior₂
    obtain ⟨mem₁, update₁, h₁⟩ := hany prior₁
    obtain ⟨mem₂, update₂, h₂⟩ := hany prior₂
    refine ⟨mem₁, mem₂, update₁, update₂, h₁, h₂, (hfields h₁).alike hno (hfields h₂) rfl, fun later => ?_⟩
    obtain ⟨l, hl, hown⟩ := tgapiFreeUpdate_freed update₁ later
    refine ⟨l, hl, fun a ha => ?_⟩
    have hled := (tgjGetUpdate_cases ((tgapiParseUpdateLen_eq_zero hparse).1 h₁)).2.1.of_zero.2
    exact hled.owned_new a ((hfields h₁).owned hno a (hown a ha))

/-- A text with entities is parsed alike over whatever was there. -/
theorem parse_depends_only_on_json_small :
    DependsOnlyOnJson plainJsonC (textTokener entitiesUpdate) plentyEnv entitiesUpdate.1 entitiesUpdate.1.length .empty := by
  have h : ∃ mem update, tgapiParseUpdateLen plainJsonC (textTokener entitiesUpdate) plentyEnv .zero entitiesUpdate.1
      entitiesUpdate.1.length .empty = some (mem, update, 0) := by
    rw [tgapiParseUpdateLen, parseJson_textTokener]
    exact ⟨_, _, rfl⟩
  obtain ⟨mem, update, h⟩ := h
  refine (parse_depends_only_on_json (parseJson_textTokener entitiesUpdate _) h).2 ?_
  rintro ⟨jmsg, hmsg, -, hent⟩
  cases hmsg
  cases hent

/-- A text without entities. -/
def bareText : List UInt8 × JsonObject := textUpdate "" [] []

/-- An update whose memory happens to hold an address where its entities are to be. -/
def staleUpdate : TgUpdate := { TgUpdate.zero with message := { TgMessage.zero with entities := some 7, entitiesLen := 3 } }

/-- Over that, a text without entities has them, and the free of it by one of two holders frees them. -/
theorem prior_entities_freed :
    ∃ mem update mem₀ update₀,
      tgapiParseUpdateLen plainJsonC (textTokener bareText) plentyEnv staleUpdate bareText.1 bareText.1.length .empty =
        some (mem, update, 0) ∧
      tgapiParseUpdateLen plainJsonC (textTokener bareText) plentyEnv .zero bareText.1 bareText.1.length .empty =
        some (mem₀, update₀, 0) ∧
      (update.message.entities, update.message.entitiesLen) = (some 7, 3) ∧
      (update₀.message.entities, update₀.message.entitiesLen) = (none, 0) ∧ mem.next = 2 ∧
      7 ∈ (tgapiFreeUpdate update (tgapiIncRefUpdate update mem)).1.freed ∧
      ¬DependsOnlyOnJson plainJsonC (textTokener bareText) plentyEnv bareText.1 bareText.1.length .empty := by
  have hstale : ∃ mem update, tgapiParseUpdateLen plainJsonC (textTokener bareText) plentyEnv staleUpdate bareText.1 bareText.1.length
      .empty = some (mem, update, 0) ∧ (update.message.entities, update.message.entitiesLen) = (some 7, 3) ∧ mem.next = 2 ∧
      7 ∈ (tgapiFreeUpdate update (tgapiIncRefUpdate update mem)).1.freed ∧ update.type = .message ∧ update.message.type = .text := by
    rw [tgapiParseUpdateLen, parseJson_textTokener]
    exact ⟨_, _, rfl, rfl, rfl, by decide +kernel, rfl, rfl⟩
  have hzero : ∃ mem update, tgapiParseUpdateLen plainJsonC (textTokener bareText) plentyEnv .zero bareText.1 bareText.1.length
      .empty = some (mem, update, 0) ∧ (update.message.entities, update.message.entitiesLen) = (none, 0) := by
    rw [tgapiParseUpdateLen, parseJson_textTokener]
    exact ⟨_, _, rfl, rfl⟩
  obtain ⟨mem, update, h, hent, hnext, hfreed, htype, htext⟩ := hstale
  obtain ⟨mem₀, update₀, h₀, hent₀⟩ := hzero
  refine ⟨mem, update, mem₀, update₀, h, h₀, hent, hent₀, hnext, hfreed, fun hdep => ?_⟩
  obtain ⟨mem₁, mem₂, update₁, update₂, h₁, h₂, halike, -⟩ := hdep staleUpdate .zero
  cases h.symm.trans h₁
  cases h₀.symm.trans h₂
  have hsame := ((halike.message htype).text htext).2.1
  rw [(Prod.mk.inj hent).1, (Prod.mk.inj hent₀).1] at hsame
  cases hsame

end GwBot

import GwBot.TgApi.Defs

/-!
# What a parse accepts and what it owns

`tgj_get_update` and the functions below it fail exactly on what `updateOk` rejects, and each of them keeps its ledger: every block
that it was handed it has freed once, unless it owns it.
-/

namespace GwBot

open Lib

/-! ## The ledger -/

/-- From `mem` to `mem'`, each block that was handed out was freed once or is in `owned`, nothing else was freed, and json-c's values
were left alone. -/
structure Ledger (mem mem' : Mem) (owned : List Nat) : Prop where
  next_le : mem.next ≤ mem'.next
  json : mem'.json = mem.json
  freed : ∃ l, mem'.freed = mem.freed ++ l ∧
    ∀ a, l.count a + owned.count a = if mem.next ≤ a ∧ a < mem'.next then 1 else 0

namespace Ledger

variable {mem mem₁ mem₂ : Mem} {o o₁ o₂ : List Nat}

theorem refl (mem : Mem) : Ledger mem mem [] := by
  refine ⟨Nat.le_refl _, rfl, [], (List.append_nil _).symm, fun a => ?_⟩
  rw [if_neg (by omega)]
  rfl

/-- Ledgers of consecutive stretches add up. -/
theorem trans (h₁ : Ledger mem mem₁ o₁) (h₂ : Ledger mem₁ mem₂ o₂) : Ledger mem mem₂ (o₁ ++ o₂) := by
  obtain ⟨n1, j1, l1, f1, c1⟩ := h₁
  obtain ⟨n2, j2, l2, f2, c2⟩ := h₂
  refine ⟨Nat.le_trans n1 n2, j2.trans j1, l1 ++ l2, by rw [f2, f1, List.append_assoc], fun a => ?_⟩
  have e1 := c1 a
  have e2 := c2 a
  rw [List.count_append, List.count_append]
  split at e1 <;> split at e2 <;> split <;> omega

/-- A block that was handed out is owned. -/
theorem malloc {ok : Bool} {addr : Nat} (h : mem.malloc ok = (mem₁, some addr)) : ok = true ∧ Ledger mem mem₁ [addr] := by
  unfold Mem.malloc at h
  split at h
  · rename_i hok
    cases h
    refine ⟨hok, Nat.le_succ _, rfl, [], (List.append_nil _).symm, fun a => ?_⟩
    rw [List.count_nil, List.count_singleton, Nat.zero_add]
    simp only [beq_iff_eq]
    split <;> split <;> omega
  · nomatch h

/-- A failed allocation changes nothing. -/
theorem malloc_none {ok : Bool} (h : mem.malloc ok = (mem₁, none)) : ok = false ∧ mem₁ = mem := by
  unfold Mem.malloc at h
  split at h
  · nomatch h
  · rename_i hok
    cases h
    exact ⟨Bool.not_eq_true _ ▸ hok, rfl⟩

/-- A block that is owned is freed. -/
theorem free {addr : Nat} (h : Ledger mem mem₁ (addr :: o)) : Ledger mem (mem₁.free (some addr)) o := by
  obtain ⟨n, j, l, f, c⟩ := h
  refine ⟨n, j, l ++ [addr], ?_, fun a => ?_⟩
  · rw [← List.append_assoc, ← f]
    rfl
  · have e := c a
    rw [List.count_cons] at e
    rw [List.count_append, List.count_singleton, Nat.add_assoc, Nat.add_comm _ (List.count a o)]
    exact e

theorem perm (h : Ledger mem mem₁ o) (hp : o.Perm o₁) : Ledger mem mem₁ o₁ := by
  obtain ⟨n, j, l, f, c⟩ := h
  exact ⟨n, j, l, f, fun a => hp.count_eq a ▸ c a⟩

end Ledger

/-- A call has returned: it succeeded on what it accepts, and owns `owned`; or it failed on what it does not accept, and owns nothing. -/
def Settled (mem mem' : Mem) (ok : Bool) (ret : Int) (owned : List Nat) : Prop :=
  (ret = 0 ∧ ok = true ∧ Ledger mem mem' owned) ∨ (ret < 0 ∧ ok = false ∧ Ledger mem mem' [])

/-- A call that has returned 0 owns what it owns. -/
theorem Settled.of_zero {mem mem' : Mem} {ok : Bool} {owned : List Nat} (h : Settled mem mem' ok 0 owned) :
    ok = true ∧ Ledger mem mem' owned := by
  obtain ⟨-, hok, hled⟩ | ⟨hneg, -⟩ := h
  · exact ⟨hok, hled⟩
  · exact absurd hneg (Int.lt_irrefl 0)

theorem Settled.ret_eq_zero_iff {mem mem' : Mem} {ok : Bool} {ret : Int} {owned : List Nat} (h : Settled mem mem' ok ret owned) :
    ret = 0 ↔ ok = true := by
  obtain ⟨hret, hok, -⟩ | ⟨hneg, hno, -⟩ := h
  · exact iff_of_true hret hok
  · exact iff_of_false (Int.ne_of_lt hneg) (Bool.not_eq_true _ ▸ hno)

/-! ## The grammar -/

/-- The object has the key. -/
def hasKey (jobj : JsonObject) (key : String) : Bool := (jsonObjectObjectGetEx jobj key).isSome

/-- What `tgj_get_user` accepts. -/
def userOk (juser : JsonObject) : Bool := hasKey juser "id" && hasKey juser "first_name"

/-- What `tgj_get_chat` accepts: `type` need not be there, but must not be null. -/
def chatOk (jchat : JsonObject) : Bool :=
  hasKey jchat "id" && (jsonObjectObjectGetEx jchat "type").all (fun res => !res.isNil)

/-- What `tgj_get_entities_and_alloc` accepts, when its allocation succeeds or not. -/
def entitiesOk (malloc : Bool) (jent : JsonObject) : Bool :=
  (jsonObjectArray jent).any (fun elems => malloc && decide (0 ≤ intOfSize elems.length))

/-- What `tgj_arrange_message_variant` accepts: entities are looked at only beside a text. -/
def variantOk (malloc : Bool) (jmsg : JsonObject) : Bool :=
  !hasKey jmsg "text" || (jsonObjectObjectGetEx jmsg "entities").all (entitiesOk malloc)

/-- What `tgj_get_message` accepts. -/
def messageOk (env : MessageEnv) (jmsg : JsonObject) : Bool :=
  hasKey jmsg "message_id" && hasKey jmsg "date" &&
    (jsonObjectObjectGetEx jmsg "from").any (fun res => env.user && userOk res) &&
    (jsonObjectObjectGetEx jmsg "chat").any (fun res => env.chat && chatOk res) && variantOk env.entities jmsg

/-- What `tgj_get_update` accepts. -/
def updateOk (env : MessageEnv) (jobj : JsonObject) : Bool :=
  hasKey jobj "update_id" && (jsonObjectObjectGetEx jobj "message").all (messageOk env)

theorem hasKey_of_eq_some {jobj res : JsonObject} {key : String} (h : jsonObjectObjectGetEx jobj key = some res) :
    hasKey jobj key = true := by
  rw [hasKey, h]
  rfl

theorem hasKey_of_eq_none {jobj : JsonObject} {key : String} (h : jsonObjectObjectGetEx jobj key = none) :
    hasKey jobj key = false := by
  rw [hasKey, h]
  rfl

/-! ## Users and chats -/

variable {J : JsonC}

/-- The function succeeds exactly on what `ok` accepts, and fails with an error number. -/
def Accepts {α : Type} (get : JsonObject → Except Int α) (ok : JsonObject → Bool) : Prop :=
  ∀ jobj, (∃ val, get jobj = .ok val ∧ ok jobj = true) ∨ ∃ ret, get jobj = .error ret ∧ ok jobj = false ∧ ret < 0

theorem tgjGetUser_accepts : Accepts (tgjGetUser J) userOk := by
  intro juser
  unfold tgjGetUser userOk
  split
  · rename_i h
    rw [hasKey_of_eq_none h]
    exact Or.inr ⟨_, rfl, rfl, by decide⟩
  · rename_i id h
    rw [hasKey_of_eq_some h]
    split
    · rename_i h'
      rw [hasKey_of_eq_none h']
      exact Or.inr ⟨_, rfl, rfl, by decide⟩
    · rename_i firstName h'
      rw [hasKey_of_eq_some h']
      exact Or.inl ⟨_, rfl, rfl⟩

theorem tgjGetChatType_accepts :
    Accepts (tgjGetChatType J) (fun jchat => (jsonObjectObjectGetEx jchat "type").all (fun res => !res.isNil)) := by
  intro jchat
  unfold tgjGetChatType
  split
  · rename_i res h
    simp only [h, Option.all_some]
    cases res with
    | nil => exact Or.inr ⟨_, rfl, rfl, by decide⟩
    | node a label cs =>
      refine Or.inl ?_
      simp only [jsonObjectGetString]
      split
      · exact ⟨_, rfl, rfl⟩
      · exact ⟨_, rfl, rfl⟩
  · rename_i h
    simp only [h]
    exact Or.inl ⟨_, rfl, rfl⟩

theorem tgjGetChat_accepts : Accepts (tgjGetChat J) chatOk := by
  intro jchat
  unfold tgjGetChat chatOk
  split
  · rename_i h
    rw [hasKey_of_eq_none h]
    exact Or.inr ⟨_, rfl, rfl, by decide⟩
  · rename_i id h
    rw [hasKey_of_eq_some h, Bool.true_and]
    rcases tgjGetChatType_accepts (J := J) jchat with ⟨type, ht, hok⟩ | ⟨ret, ht, hok, hneg⟩
    · rw [ht]
      exact Or.inl ⟨_, rfl, hok⟩
    · rw [ht]
      exact Or.inr ⟨_, rfl, hok, hneg⟩

/-- An allocated structure is owned; where it cannot be filled, its block is freed. -/
theorem getAndAlloc_cases {α : Type} {get : JsonObject → Except Int α} {ok : JsonObject → Bool} (hget : Accepts get ok) (malloc : Bool)
    (jobj : JsonObject) (mem : Mem) :
    (∃ mem' p, getAndAlloc get malloc jobj mem = (mem', .ok p) ∧ (malloc && ok jobj) = true ∧ Ledger mem mem' [p.addr]) ∨
    ∃ mem' ret, getAndAlloc get malloc jobj mem = (mem', .error ret) ∧ (malloc && ok jobj) = false ∧ ret < 0 ∧
      Ledger mem mem' [] := by
  unfold getAndAlloc
  split
  · rename_i mem' h
    obtain ⟨rfl, rfl⟩ := Ledger.malloc_none h
    exact Or.inr ⟨_, _, rfl, rfl, by decide, Ledger.refl _⟩
  · rename_i mem' addr h
    obtain ⟨rfl, hled⟩ := Ledger.malloc h
    rcases hget jobj with ⟨val, hval, hok⟩ | ⟨ret, hret, hok, hneg⟩
    · rw [hval]
      exact Or.inl ⟨_, _, rfl, hok, hled⟩
    · rw [hret]
      exact Or.inr ⟨_, _, rfl, hok, hneg, hled.free⟩

/-- A structure that is not made leaves an error number. -/
theorem getAndAlloc_error {α : Type} {get : JsonObject → Except Int α} {ok : JsonObject → Bool} (hget : Accepts get ok) {malloc : Bool}
    {jobj : JsonObject} {mem mem' : Mem} {ret : Int} (h : getAndAlloc get malloc jobj mem = (mem', .error ret)) : ret < 0 := by
  rcases getAndAlloc_cases hget malloc jobj mem with ⟨_, _, h', -⟩ | ⟨_, _, h', -, hneg, -⟩
  · nomatch h.symm.trans h'
  · cases h.symm.trans h'
    exact hneg

/-! ## Messages and updates -/

/-- The entities that the parse of the message has allocated. -/
def parsedEntities (jmsg : JsonObject) (msg : TgMessage) : List Nat :=
  if hasKey jmsg "text" && hasKey jmsg "entities" then msg.entities.toList else []

/-- The blocks that a parsed message owns. -/
def parsedBlocks (jmsg : JsonObject) (msg : TgMessage) : List Nat :=
  (msg.fromUser.map Ptr.addr).toList ++ (msg.chat.map Ptr.addr).toList ++ parsedEntities jmsg msg

theorem tgjGetEntitiesAndAlloc_cases {malloc : Bool} {jent : JsonObject} {mem mem' : Mem} {r : Except Int (Nat × Int)}
    (h : tgjGetEntitiesAndAlloc malloc jent mem = some (mem', r)) :
    (∃ ent ret, r = .ok (ent, ret) ∧ entitiesOk malloc jent = true ∧ Ledger mem mem' [ent]) ∨
    ∃ ret, r = .error ret ∧ entitiesOk malloc jent = false ∧ ret < 0 ∧ Ledger mem mem' [] := by
  unfold tgjGetEntitiesAndAlloc at h
  split at h
  · nomatch h
  · rename_i elems harr
    have hok : entitiesOk malloc jent = (malloc && decide (0 ≤ intOfSize elems.length)) := by
      rw [entitiesOk, harr]
      rfl
    split at h
    · rename_i mem₁ hm
      obtain ⟨rfl, rfl⟩ := Ledger.malloc_none hm
      cases h
      exact Or.inr ⟨_, rfl, hok, by decide, Ledger.refl _⟩
    · rename_i mem₁ ent hm
      obtain ⟨rfl, hled⟩ := Ledger.malloc hm
      simp only [tgjGetMessageEntities, ge_iff_le] at h
      by_cases hpos : 0 ≤ intOfSize elems.length
      · rw [if_pos hpos] at h
        cases h
        exact Or.inl ⟨_, _, rfl, by simp [hok, hpos], hled⟩
      · rw [if_neg hpos] at h
        cases h
        exact Or.inr ⟨_, rfl, by simp [hok, hpos], Int.not_le.1 hpos, hled.free⟩

theorem tgjArrangeMessageVariant_cases {malloc : Bool} {msg msg' : TgMessage} {jmsg : JsonObject} {mem mem' : Mem} {ret : Int}
    (h : tgjArrangeMessageVariant J malloc msg jmsg mem = some (mem', msg', ret)) :
    msg'.fromUser = msg.fromUser ∧ msg'.chat = msg.chat ∧
      Settled mem mem' (variantOk malloc jmsg) ret (parsedEntities jmsg msg') := by
  unfold tgjArrangeMessageVariant at h
  split at h
  · rename_i text htext
    simp only at h
    split at h
    · rename_i hent
      cases h
      refine ⟨rfl, rfl, Or.inl ⟨rfl, ?_, ?_⟩⟩
      · rw [variantOk, hent, Option.all_none, Bool.or_true]
      · rw [parsedEntities, hasKey_of_eq_none hent, Bool.and_false]
        exact Ledger.refl _
    · rename_i jent hent
      have hok : variantOk malloc jmsg = entitiesOk malloc jent := by
        rw [variantOk, hasKey_of_eq_some htext, hent]
        rfl
      split at h
      · nomatch h
      · rename_i mem₁ ret₁ he
        cases h
        obtain ⟨ent, ret₂, hr, -⟩ | ⟨ret₂, hr, hno, hneg, hled⟩ := tgjGetEntitiesAndAlloc_cases he <;> cases hr
        exact ⟨rfl, rfl, Or.inr ⟨hneg, hok.trans hno, hled⟩⟩
      · rename_i mem₁ ent ret₁ he
        cases h
        obtain ⟨ent₂, ret₂, hr, hyes, hled⟩ | ⟨ret₂, hr, -⟩ := tgjGetEntitiesAndAlloc_cases he <;> cases hr
        refine ⟨rfl, rfl, Or.inl ⟨rfl, hok.trans hyes, ?_⟩⟩
        rw [parsedEntities, hasKey_of_eq_some htext, hasKey_of_eq_some hent]
        exact hled
  · rename_i htext
    cases h
    refine ⟨rfl, rfl, Or.inl ⟨rfl, ?_, ?_⟩⟩
    · rw [variantOk, hasKey_of_eq_none htext]
      rfl
    · rw [parsedEntities, hasKey_of_eq_none htext]
      exact Ledger.refl _

/-- From `err_free_from` on the user is freed. -/
theorem errFreeFrom_ledger {user : Ptr TgUser} {msg : TgMessage} {mem mem₁ : Mem} (ret : Int) (hmsg : msg.fromUser = some user)
    (hled : Ledger mem mem₁ [user.addr]) : Ledger mem (errFreeFrom msg ret mem₁).1 [] := by
  simp only [errFreeFrom, hmsg, Option.map_some]
  exact hled.free

/-- `tgj_get_message` once `from` is there. -/
theorem tgjGetMessageChat_cases {env : MessageEnv} {msg msg' : TgMessage} {user : Ptr TgUser} {jmsg : JsonObject} {mem mem₁ mem' : Mem}
    {ret : Int} (huser : msg.fromUser = some user) (hled : Ledger mem mem₁ [user.addr])
    (h : tgjGetMessageChat J env msg jmsg mem₁ = some (mem', msg', ret)) :
    (ret = 0 → msg'.fromUser.isSome = true ∧ msg'.chat.isSome = true) ∧
      Settled mem mem' ((jsonObjectObjectGetEx jmsg "chat").any (fun res => env.chat && chatOk res) && variantOk env.entities jmsg) ret
        (parsedBlocks jmsg msg') := by
  unfold tgjGetMessageChat at h
  split at h
  · rename_i hchat
    cases h
    exact ⟨fun e => absurd e (by decide), Or.inr ⟨by decide, by rw [hchat]; rfl, errFreeFrom_ledger (-ENOENT) huser hled⟩⟩
  · rename_i res hchat
    rw [hchat, Option.any_some]
    rcases getAndAlloc_cases (tgjGetChat_accepts (J := J)) env.chat res mem₁ with
      ⟨mem₂, chat, hg, hok, hled₂⟩ | ⟨mem₂, ret₂, hg, hok, hneg, hled₂⟩
    · rw [hok, Bool.true_and]
      rw [tgjGetChatAndAlloc, hg] at h
      simp only at h
      split at h
      · nomatch h
      · rename_i mem₃ msg₃ ret₃ hv
        obtain ⟨hf, hc, ⟨rfl, hvok, hled₃⟩ | ⟨hneg, hvok, hled₃⟩⟩ := tgjArrangeMessageVariant_cases hv
        · rw [if_neg (fun e => e rfl)] at h
          cases h
          refine ⟨fun _ => ⟨by rw [hf, huser]; rfl, by rw [hc]; rfl⟩, Or.inl ⟨rfl, hvok, ?_⟩⟩
          rw [parsedBlocks, hf, hc, huser]
          exact (hled.trans hled₂).trans hled₃
        · rw [if_pos (by omega)] at h
          cases h
          refine ⟨fun e => by omega, Or.inr ⟨hneg, hvok, ?_⟩⟩
          refine errFreeFrom_ledger ret (hf.trans huser) ?_
          rw [hc]
          exact (((hled.trans hled₂).trans hled₃).perm (List.Perm.swap _ _ _)).free
    · rw [hok, Bool.false_and]
      rw [tgjGetChatAndAlloc, hg] at h
      cases h
      exact ⟨fun e => by omega, Or.inr ⟨hneg, rfl, errFreeFrom_ledger ret huser (hled.trans hled₂)⟩⟩

theorem tgjGetMessage_cases {env : MessageEnv} {msg msg' : TgMessage} {jmsg : JsonObject} {mem mem' : Mem} {ret : Int}
    (h : tgjGetMessage J env msg jmsg mem = some (mem', msg', ret)) :
    (ret = 0 → msg'.fromUser.isSome = true ∧ msg'.chat.isSome = true) ∧
      Settled mem mem' (messageOk env jmsg) ret (parsedBlocks jmsg msg') := by
  unfold tgjGetMessage at h
  split at h
  · rename_i hid
    cases h
    exact ⟨fun e => absurd e (by decide), Or.inr ⟨by decide, by simp [messageOk, hasKey_of_eq_none hid], Ledger.refl _⟩⟩
  · rename_i id hid
    simp only at h
    split at h
    · rename_i hdate
      cases h
      exact ⟨fun e => absurd e (by decide), Or.inr ⟨by decide, by simp [messageOk, hasKey_of_eq_none hdate], Ledger.refl _⟩⟩
    · rename_i date hdate
      split at h
      · rename_i hfrom
        cases h
        exact ⟨fun e => absurd e (by decide), Or.inr ⟨by decide, by simp [messageOk, hfrom], Ledger.refl _⟩⟩
      · rename_i res hfrom
        have hok : messageOk env jmsg = ((env.user && userOk res) &&
            ((jsonObjectObjectGetEx jmsg "chat").any (fun res => env.chat && chatOk res) && variantOk env.entities jmsg)) := by
          simp [messageOk, hasKey_of_eq_some hid, hasKey_of_eq_some hdate, hfrom, Bool.and_assoc]
        rcases getAndAlloc_cases (tgjGetUser_accepts (J := J)) env.user res mem with
          ⟨mem₁, user, hg, huser, hled⟩ | ⟨mem₁, ret₁, hg, huser, hneg, hled⟩
        · rw [tgjGetUserAndAlloc, hg] at h
          rw [hok, huser, Bool.true_and]
          refine tgjGetMessageChat_cases ?_ hled h
          rfl
        · rw [tgjGetUserAndAlloc, hg] at h
          cases h
          rw [hok, huser, Bool.false_and]
          exact ⟨fun e => by omega, Or.inr ⟨hneg, rfl, hled⟩⟩

/-- The blocks that a parsed update owns. -/
def updateBlocks (jobj : JsonObject) (update : TgUpdate) : List Nat :=
  match jsonObjectObjectGetEx jobj "message" with
  | some jmsg => parsedBlocks jmsg update.message
  | none => []

/-- What `tgj_get_update` comes to: the type says whether there is a message, and the pointer to the JSON is left alone. -/
theorem tgjGetUpdate_cases {env : MessageEnv} {update update' : TgUpdate} {jobj : JsonObject} {mem mem' : Mem} {ret : Int}
    (h : tgjGetUpdate J env update jobj mem = some (mem', update', ret)) :
    update'.json = update.json ∧ Settled mem mem' (updateOk env jobj) ret (updateBlocks jobj update') ∧
      (ret = 0 → if hasKey jobj "message" then
        update'.type = .message ∧ update'.message.fromUser.isSome = true ∧ update'.message.chat.isSome = true
        else update'.type = .unknown) := by
  unfold tgjGetUpdate at h
  split at h
  · rename_i hid
    cases h
    exact ⟨rfl, Or.inr ⟨by decide, by simp [updateOk, hasKey_of_eq_none hid], Ledger.refl _⟩, fun e => absurd e (by decide)⟩
  · rename_i id hid
    simp only at h
    split at h
    · rename_i jmsg hmsg
      have hok : updateOk env jobj = messageOk env jmsg := by simp [updateOk, hasKey_of_eq_some hid, hmsg]
      split at h
      · nomatch h
      · rename_i mem₁ msg₁ ret₁ hm
        cases h
        obtain ⟨hptr, hset⟩ := tgjGetMessage_cases hm
        refine ⟨rfl, ?_, ?_⟩
        · rw [hok, updateBlocks, hmsg]
          exact hset
        · intro e
          rw [if_pos (hasKey_of_eq_some hmsg)]
          exact ⟨rfl, hptr e⟩
    · rename_i hmsg
      cases h
      refine ⟨rfl, Or.inl ⟨rfl, by simp [updateOk, hasKey_of_eq_some hid, hmsg], ?_⟩, ?_⟩
      · rw [updateBlocks, hmsg]
        exact Ledger.refl _
      · intro _
        rw [if_neg (by rw [hasKey_of_eq_none hmsg]; decide)]

/-- A call of `tgapi_parse_update_len` succeeds with its `tgj_get_update`. -/
theorem tgapiParseUpdateLen_eq_zero {tok : JsonTokener} {env : ParseEnv} {prior update : TgUpdate} {json : List UInt8} {len : Nat}
    {mem mem' : Mem} {jobj : JsonObject} (hparse : parseJson tok env.fuel env.tokenerNew json len = some (.ok jobj)) :
    tgapiParseUpdateLen J tok env prior json len mem = some (mem', update, 0) ↔
      tgjGetUpdate J (env.messages 0) { prior with json := jobj } jobj { mem with json := RefTree.new mem.json jobj } =
        some (mem', update, 0) := by
  rw [tgapiParseUpdateLen, hparse]
  simp only
  cases hget : tgjGetUpdate J (env.messages 0) { prior with json := jobj } jobj { mem with json := RefTree.new mem.json jobj } with
  | none => exact iff_of_false nofun nofun
  | some r =>
    obtain ⟨mem₁, update₁, ret⟩ := r
    by_cases hret : ret = 0
    · simp [hret]
    · refine iff_of_false (fun h => ?_) (fun h => ?_)
      · simp only at h
        rw [if_pos hret] at h
        cases h
        exact hret rfl
      · cases h
        exact hret rfl

/-! ## A small json-c -/

/-- json-c's scalars, for documents that have a number wherever a number is asked for, and so on. -/
def plainJsonC : JsonC where
  getUint64
    | .node _ (.int n) _ => UInt64.ofNat n.toNat
    | _ => 0
  getInt64
    | .node _ (.int n) _ => n
    | _ => 0
  getString
    | .node _ (.string s) _ => s
    | _ => ""
  getBoolean
    | .node _ (.boolean b) _ => b
    | _ => false

/-- A tokener that knows one text. -/
def textTokener (doc : List UInt8 × JsonObject) : JsonTokener where
  State := Unit
  new := ()
  parseEx st json _ := if json = doc.1 then (st, doc.2, .success) else (st, .nil, .error 0)

/-- Every allocation succeeds. -/
def plentyEnv : ParseEnv := { fuel := 1, tokenerNew := true, updates := true, messages := fun _ => ⟨true, true, true⟩ }

theorem parseJson_textTokener (doc : List UInt8 × JsonObject) (len : Nat) :
    parseJson (textTokener doc) plentyEnv.fuel plentyEnv.tokenerNew doc.1 len = some (.ok doc.2) := by
  simp [parseJson, parseLoop, textTokener, plentyEnv]

end GwBot

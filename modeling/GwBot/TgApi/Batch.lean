import GwBot.TgApi.Lifetime

/-!
# The release of a batch

`tgapi_parse_updates_len_max` takes a reference to each element that it parses, and frees the root. `tgapi_free_updates` drops those
references through the `json` of each update, which the parse of a batch never sets: it frees the container alone. A batch is released
as a whole only when none of its elements was parsed.
-/

namespace GwBot

open Lib

/-- Since `mem`, every block that was handed out has been freed once, and no node of the JSON is referred to, each having been freed
once. -/
structure BatchReleased (mem : Mem) (jobj : JsonObject) (mem' : Mem) : Prop where
  blocks : ∀ a, mem.next ≤ a → a < mem'.next → mem'.freed.count a = 1
  json : ∀ a ∈ jobj.addrs, mem'.json.refs a = 0 ∧ mem'.json.freed.count a = 1

/-- No update of the container has its pointer to the JSON set. -/
def NoJson (updates : List TgUpdate) : Prop := ∀ update ∈ updates, update.json = .nil

variable {J : JsonC} {messages : Nat → MessageEnv} {mem mem' : Mem} {updates updates' : List TgUpdate}

/-- The free of updates without JSON does nothing. -/
theorem tgapiFreeEach_noJson (h : NoJson updates) : tgapiFreeEach updates mem = mem := by
  induction updates with
  | nil => rfl
  | cons update updates ih =>
    have hone : tgapiFreeUpdate update mem = (mem, update) := by
      rw [tgapiFreeUpdate, h update List.mem_cons_self]
    rw [tgapiFreeEach, List.foldl_cons, hone]
    exact ih (fun u hu => h u (List.mem_cons_of_mem _ hu))

/-- A container that was just allocated is all zero. -/
theorem NoJson.zeros (len : Nat) : NoJson (List.replicate len .zero) := by
  intro update hu
  rw [List.eq_of_mem_replicate hu]
  rfl

theorem NoJson.getD (h : NoJson updates) (j : Nat) : (updates.getD j .zero).json = .nil := by
  rw [List.getD_eq_getElem?_getD]
  cases hj : updates[j]? with
  | none => rfl
  | some update => exact h update (List.mem_of_getElem? hj)

theorem NoJson.set (h : NoJson updates) (j : Nat) {update : TgUpdate} (hu : update.json = .nil) : NoJson (updates.set j update) := by
  intro u hm
  rcases List.mem_or_eq_of_mem_set hm with hm | rfl
  · exact h u hm
  · exact hu

/-- The step of the loop for an element that is not null. -/
theorem parseUpdates_cons {i j : Nat} {elem : JsonObject} {elems : List JsonObject} {b : Bool} (hnull : elem ≠ .nil)
    (h : parseUpdates J messages i (elem :: elems) j updates mem = some (mem', updates', b)) :
    ∃ mem₁ update ret, tgjGetUpdate J (messages i) (updates.getD j .zero) elem mem = some (mem₁, update, ret) ∧
      ((ret ≠ 0 ∧ parseUpdates J messages (i + 1) elems j (updates.set j update) mem₁ = some (mem', updates', b)) ∨
        (ret = 0 ∧ parseUpdates J messages (i + 1) elems (j + 1) (updates.set j update) (mem₁.jsonObjectGet elem) =
          some (mem', updates', b))) := by
  rw [parseUpdates] at h
  swap
  · exact hnull
  split at h
  · nomatch h
  · rename_i mem₁ update ret hget
    refine ⟨mem₁, update, ret, hget, ?_⟩
    simp only at h
    split at h
    · rename_i hret
      exact Or.inl ⟨hret, h⟩
    · rename_i hret
      exact Or.inr ⟨not_not.1 hret, h⟩

/-- That step, with what the parse of the element comes to. -/
theorem parseUpdates_settled {i j a : Nat} {label : JsonType} {cs elems : List JsonObject} {b : Bool}
    (h : parseUpdates J messages i (.node a label cs :: elems) j updates mem = some (mem', updates', b)) (hno : NoJson updates) :
    ∃ mem₁ update ret, Settled mem mem₁ (updateOk (messages i) (.node a label cs)) ret (updateBlocks (.node a label cs) update) ∧
      NoJson (updates.set j update) ∧
      ((ret ≠ 0 ∧ parseUpdates J messages (i + 1) elems j (updates.set j update) mem₁ = some (mem', updates', b)) ∨
        (ret = 0 ∧ parseUpdates J messages (i + 1) elems (j + 1) (updates.set j update)
          { mem₁ with json := mem₁.json.setRefs a (mem₁.json.refs a + 1) } = some (mem', updates', b))) := by
  have hnull : RefTree.node a label cs ≠ .nil := nofun
  obtain ⟨mem₁, update, ret, hget, hrest⟩ := parseUpdates_cons hnull h
  obtain ⟨hjson, hset, -⟩ := tgjGetUpdate_cases hget
  exact ⟨mem₁, update, ret, hset, hno.set j (hjson.trans (hno.getD j)), hrest⟩

/-- What the loop does to json-c's values: references are taken and none is dropped, and one is taken to each element parsed. -/
theorem parseUpdates_refs {elems : List JsonObject} {i j : Nat} (hno : NoJson updates)
    (h : parseUpdates J messages i elems j updates mem = some (mem', updates', false)) :
    NoJson updates' ∧ (∀ a, mem.json.refs a ≤ mem'.json.refs a) ∧
      ∀ k a label cs, elems[k]? = some (.node a label cs) → updateOk (messages (i + k)) (.node a label cs) = true →
        mem.json.refs a + 1 ≤ mem'.json.refs a := by
  induction elems generalizing i j updates mem with
  | nil =>
    cases h
    exact ⟨hno, fun a => Nat.le_refl _, fun k a label cs hk => nomatch hk⟩
  | cons elem elems ih =>
    cases elem with
    | nil => nomatch h
    | node a label cs =>
      obtain ⟨mem₁, update, ret, hset, hno₁, ⟨hret, h⟩ | ⟨hret, h⟩⟩ := parseUpdates_settled h hno
      · obtain ⟨h1, h2, h3⟩ := ih hno₁ h
        obtain ⟨hz, -⟩ | ⟨-, hnot, hled⟩ := hset
        · exact absurd hz hret
        · rw [hled.json] at h2 h3
          refine ⟨h1, h2, fun k b label' cs' hk hok => ?_⟩
          cases k with
          | zero =>
            cases hk
            rw [Nat.add_zero, hnot] at hok
            nomatch hok
          | succ k => exact h3 k b label' cs' hk (by rw [Nat.add_assoc, Nat.add_comm 1 k]; exact hok)
      · obtain ⟨h1, h2, h3⟩ := ih hno₁ h
        obtain ⟨-, -, hled⟩ | ⟨hneg, -⟩ := hset
        · simp only [hled.json, RefHeap.setRefs_refs] at h2 h3
          have hle : ∀ b, mem.json.refs b ≤ mem'.json.refs b := by
            intro b
            have := h2 b
            split at this
            · rename_i hb
              rw [hb] at this ⊢
              omega
            · exact this
          refine ⟨h1, hle, fun k b label' cs' hk hok => ?_⟩
          cases k with
          | zero =>
            cases hk
            have := h2 a
            rwa [if_pos rfl] at this
          | succ k =>
            have := h3 k b label' cs' hk (by rw [Nat.add_assoc, Nat.add_comm 1 k]; exact hok)
            split at this
            · rename_i hb
              rw [hb] at this ⊢
              omega
            · exact this
        · omega

/-- While no element is parsed, the loop keeps nothing. -/
theorem parseUpdates_ledger {elems : List JsonObject} {i j : Nat} (hno : NoJson updates)
    (hbad : ∀ k elem, elems[k]? = some elem → updateOk (messages (i + k)) elem = false)
    (h : parseUpdates J messages i elems j updates mem = some (mem', updates', false)) : Ledger mem mem' [] := by
  induction elems generalizing i j updates mem with
  | nil =>
    cases h
    exact Ledger.refl _
  | cons elem elems ih =>
    cases elem with
    | nil => nomatch h
    | node a label cs =>
      obtain ⟨mem₁, update, ret, hset, hno₁, hrest⟩ := parseUpdates_settled h hno
      obtain ⟨-, hok, -⟩ | ⟨hneg, -, hled⟩ := hset
      · exact absurd hok (by rw [show updateOk (messages i) _ = false from hbad 0 _ rfl]; decide)
      · obtain ⟨-, h⟩ | ⟨hret, -⟩ := hrest
        · refine hled.trans (ih hno₁ (fun k elem hk => ?_) h)
          rw [Nat.add_assoc, Nat.add_comm 1 k]
          exact hbad (k + 1) elem hk
        · omega

/-! ## The whole batch -/

theorem addrs_of_member {jobj res : JsonObject} {key : String} (h : jsonObjectObjectGetEx jobj key = some res) {a : Nat}
    (ha : a ∈ res.addrs) : a ∈ jobj.addrs := by
  unfold jsonObjectObjectGetEx at h
  split at h
  · obtain ⟨l₁, l₂, hl, -⟩ := List.lookup_eq_some_iff.1 h
    have hmem : (key, res) ∈ l₁ ++ (key, res) :: l₂ := List.mem_append_right _ List.mem_cons_self
    rw [← hl] at hmem
    exact List.mem_cons_of_mem _ (RefTree.mem_addrsList (List.of_mem_zip hmem).2 ha)
  · nomatch h

theorem addrs_of_element {result elem : JsonObject} {elems : List JsonObject} (h : jsonObjectArray result = some elems)
    (he : elem ∈ elems) {a : Nat} (ha : a ∈ elem.addrs) : a ∈ result.addrs := by
  unfold jsonObjectArray at h
  split at h
  · cases h
    exact List.mem_cons_of_mem _ (RefTree.mem_addrsList he ha)
  · nomatch h

variable {env : ParseEnv} {jobj result : JsonObject} {elems : List JsonObject} {maxUpdates : Nat} {batch : TgUpdates}

/-- The ends of the parse, once the text is JSON: there is no `result`, no memory for the container, or the loop has ended. -/
theorem parseResult_cases {stored : Option TgUpdates} {ret : Int} (h : parseResult J env jobj maxUpdates mem = some (mem', stored, ret)) :
    (ret < 0 ∧ stored = none ∧ mem' = (mem.jsonObjectPut jobj).1 ∧
      (jsonObjectObjectGetEx jobj "result" = none ∨ env.updates = false)) ∨
    ∃ result elems addr mem₁ mem₂ updates b, jsonObjectObjectGetEx jobj "result" = some result ∧ jsonObjectArray result = some elems ∧
      env.updates = true ∧ Ledger mem mem₁ [addr] ∧ ret = 0 ∧
      parseUpdates J env.messages 0 (elems.take maxUpdates) 0 (List.replicate (elems.take maxUpdates).length .zero) mem₁ =
        some (mem₂, updates, b) ∧
      stored = some ⟨addr, (elems.take maxUpdates).length, updates⟩ ∧
      mem' = ((if b then (tgapiFreeEach updates mem₂).free (some addr) else mem₂).jsonObjectPut jobj).1 := by
  unfold parseResult at h
  split at h
  · rename_i hresult
    cases h
    exact Or.inl ⟨by decide, rfl, rfl, Or.inl hresult⟩
  · rename_i result hresult
    split at h
    · nomatch h
    · rename_i elems helems
      have htake : elems.take (min elems.length maxUpdates) = elems.take maxUpdates := by
        rw [List.take_eq_take_iff]
        omega
      have hlen : min elems.length maxUpdates = (elems.take maxUpdates).length := by
        rw [List.length_take, Nat.min_comm]
      simp only [htake] at h
      rw [hlen] at h
      split at h
      · rename_i hm
        obtain ⟨hcalloc, rfl⟩ := Ledger.malloc_none hm
        cases h
        exact Or.inl ⟨by decide, rfl, rfl, Or.inr hcalloc⟩
      · rename_i mem₁ addr hm
        obtain ⟨hcalloc, hled⟩ := Ledger.malloc hm
        split at h
        · nomatch h
        · rename_i mem₂ updates hloop
          cases h
          exact Or.inr ⟨result, elems, addr, mem₁, mem₂, updates, false, hresult, helems, hcalloc, hled, rfl, hloop, rfl, rfl⟩
        · rename_i mem₂ updates hloop
          cases h
          exact Or.inr ⟨result, elems, addr, mem₁, mem₂, updates, true, hresult, helems, hcalloc, hled, rfl, hloop, rfl, rfl⟩

/-- A container that is stored has the entries that the loop leaves. -/
theorem parseResult_stored (hresult : jsonObjectObjectGetEx jobj "result" = some result) (helems : jsonObjectArray result = some elems)
    (h : parseResult J env jobj maxUpdates mem = some (mem', some batch, 0)) :
    ∃ mem₁ mem₂ b, Ledger mem mem₁ [batch.addr] ∧ batch.len = (elems.take maxUpdates).length ∧
      parseUpdates J env.messages 0 (elems.take maxUpdates) 0 (List.replicate batch.len .zero) mem₁ = some (mem₂, batch.updates, b) ∧
      mem' = ((if b then (tgapiFreeEach batch.updates mem₂).free (some batch.addr) else mem₂).jsonObjectPut jobj).1 := by
  obtain ⟨hneg, -⟩ | ⟨result', elems', addr, mem₁, mem₂, updates, b, hresult', helems', -, hled, -, hloop, hstored, rfl⟩ :=
    parseResult_cases h
  · exact absurd hneg (Int.lt_irrefl 0)
  · cases hresult.symm.trans hresult'
    cases helems.symm.trans helems'
    cases hstored
    exact ⟨mem₁, mem₂, b, hled, rfl, hloop, rfl⟩

/-- A live container comes from a loop that ran to its end, before the root was dropped. -/
theorem parseResult_live (hresult : jsonObjectObjectGetEx jobj "result" = some result)
    (helems : jsonObjectArray result = some elems) (h : parseResult J env jobj maxUpdates mem = some (mem', some batch, 0))
    (hlive : batch.addr ∉ mem'.freed) :
    ∃ mem₁ mem₂, Ledger mem mem₁ [batch.addr] ∧
      parseUpdates J env.messages 0 (elems.take maxUpdates) 0 (List.replicate batch.len .zero) mem₁ =
        some (mem₂, batch.updates, false) ∧ mem' = (mem₂.jsonObjectPut jobj).1 := by
  obtain ⟨mem₁, mem₂, b, hled, -, hloop, rfl⟩ := parseResult_stored hresult helems h
  cases b with
  | false => exact ⟨mem₁, mem₂, hled, hloop, rfl⟩
  | true => exact absurd (List.mem_append_right _ (List.mem_singleton.2 rfl)) hlive

/-- The free of a batch frees its container, and that is all. -/
theorem tgapiFreeUpdates_noJson (h : NoJson batch.updates) : tgapiFreeUpdates batch mem = mem.free (some batch.addr) := by
  rw [tgapiFreeUpdates, tgapiFreeEach_noJson]
  exact fun u hu => h u (List.mem_of_mem_take hu)

/-- The put of a root that nobody else refers to frees every node, once. -/
theorem put_new_released (hnew : RefTree.IsNew mem.json jobj) (hjson : mem'.json = RefTree.new mem.json jobj) {a : Nat}
    (ha : a ∈ jobj.addrs) : (mem'.jsonObjectPut jobj).1.json.refs a = 0 ∧ (mem'.jsonObjectPut jobj).1.json.freed.count a = 1 := by
  have hput : (mem'.jsonObjectPut jobj).1.json = (RefTree.new mem.json jobj).freeAll jobj.addrs := by
    rw [← RefTree.put_new hnew, ← hjson]
    rfl
  rw [hput]
  refine ⟨if_pos ha, ?_⟩
  show List.count a (mem.json.freed ++ jobj.addrs) = 1
  rw [List.count_append, List.count_eq_zero.2 (hnew.fresh a ha), Nat.zero_add, hnew.nodup.count]
  exact if_pos ha

/-- A batch that was parsed into a live container is released as a whole by `tgapi_free_updates`, the container, the blocks of its
messages and the JSON, exactly when none of the elements looked at is an update that the parser accepts. -/
theorem batch_released {tok : JsonTokener} {json : List UInt8} {len : Nat}
    (hparse : parseJson tok env.fuel env.tokenerNew json len = some (.ok jobj)) (hnew : RefTree.IsNew mem.json jobj)
    (hfreed : ∀ a ∈ mem.freed, a < mem.next) (hresult : jsonObjectObjectGetEx jobj "result" = some result)
    (helems : jsonObjectArray result = some elems)
    (h : tgapiParseUpdatesLenMax J tok env json len maxUpdates mem = some (mem', some batch, 0)) (hlive : batch.addr ∉ mem'.freed) :
    BatchReleased mem jobj (tgapiFreeUpdates batch mem') ↔
      ∀ i elem, (elems.take maxUpdates)[i]? = some elem → updateOk (env.messages i) elem = false := by
  rw [tgapiParseUpdatesLenMax, hparse] at h
  obtain ⟨mem₁, mem₂, hled, hloop, rfl⟩ := parseResult_live hresult helems h hlive
  obtain ⟨hno, hle, htaken⟩ := parseUpdates_refs (NoJson.zeros _) hloop
  rw [tgapiFreeUpdates_noJson hno]
  rw [hled.json] at hle htaken
  constructor
  · intro hrel i elem hi
    rw [← Bool.not_eq_true]
    intro hok
    obtain ⟨a, label, cs, rfl⟩ := root_of_hasKey (Bool.and_eq_true_iff.1 hok).1
    have hroot : a ∈ jobj.addrs :=
      addrs_of_member hresult (addrs_of_element helems (List.mem_of_mem_take (List.mem_of_getElem? hi)) List.mem_cons_self)
    -- one reference is the parent's, and one was taken: the put of the root drops one
    have htwo := htaken i a label cs hi (by rwa [Nat.zero_add])
    rw [RefTree.new_refs _ hroot] at htwo
    have hput := RefTree.refs_le_put_refs a mem₂.json jobj hnew.nodup
    have hzero := (hrel.json a hroot).1
    rw [Mem.free_json] at hzero
    simp only [Mem.jsonObjectPut] at hzero
    omega
  · intro hbad
    have hled₂ : Ledger mem₁ mem₂ [] := parseUpdates_ledger (NoJson.zeros _) (fun k elem hk => by rw [Nat.zero_add]; exact hbad k elem hk) hloop
    have hjson : mem₂.json = RefTree.new mem.json jobj := hled₂.json.trans hled.json
    have hall : Ledger _ (mem₂.free (some batch.addr)) [] := (hled.trans hled₂).free
    obtain ⟨-, -, l, hl, hcount⟩ := hall
    refine ⟨fun a ha hlt => ?_, fun a ha => ?_⟩
    · have hold : a ∉ mem.freed := fun hm => absurd (hfreed a hm) (Nat.not_lt.2 ha)
      have hc := hcount a
      rw [List.count_nil, if_pos ⟨ha, by simpa [Mem.jsonObjectPut] using hlt⟩] at hc
      have hf : ((mem₂.jsonObjectPut jobj).1.free (some batch.addr)).freed = mem.freed ++ l := hl
      rw [hf, List.count_append, List.count_eq_zero.2 hold, Nat.zero_add]
      exact hc
    · rw [Mem.free_json]
      exact put_new_released hnew hjson ha

/-! ## Two batches -/

/-- A response with these elements. -/
def response (text : String) (elems : List JsonObject) : List UInt8 × JsonObject :=
  (asciiBytes ("\x7b\"ok\":true,\"result\":[" ++ text ++ "]\x7d"),
    .node 20 (.object ["ok", "result"]) [.node 21 (.boolean true) [], .node 22 .array elems])

/-- A response whose one element is not an update. -/
def oddResponse : List UInt8 × JsonObject := response "\x7b\"message\":7\x7d" [.node 0 (.object ["message"]) [.node 1 (.int 7) []]]

/-- A response whose one element is an update with a message. -/
def messageResponse : List UInt8 × JsonObject := response messageText [messageUpdate.2]

theorem batch_released_small :
    ∃ mem batch, tgapiParseUpdatesLenMax plainJsonC (textTokener oddResponse) plentyEnv oddResponse.1 oddResponse.1.length 5 .empty =
      some (mem, some batch, 0) ∧ (BatchReleased .empty oddResponse.2 (tgapiFreeUpdates batch mem) ↔
        ∀ i elem, (([.node 0 (.object ["message"]) [.node 1 (.int 7) []]] : List JsonObject).take 5)[i]? = some elem →
          updateOk (plentyEnv.messages i) elem = false) := by
  have h : ∃ mem batch, tgapiParseUpdatesLenMax plainJsonC (textTokener oddResponse) plentyEnv oddResponse.1 oddResponse.1.length 5
      .empty = some (mem, some batch, 0) ∧ batch.addr ∉ mem.freed := by
    rw [tgapiParseUpdatesLenMax, parseJson_textTokener]
    exact ⟨_, _, rfl, by decide⟩
  obtain ⟨mem, batch, h, hlive⟩ := h
  exact ⟨mem, batch, h, batch_released (parseJson_textTokener _ _) ⟨by decide, by decide⟩ (by decide) rfl rfl h hlive⟩

/-- Of a batch of one message only the container is freed: its user, its chat and the reference to its JSON are leaked. -/
theorem parsed_message_leaked :
    ∃ mem batch, tgapiParseUpdatesLenMax plainJsonC (textTokener messageResponse) plentyEnv messageResponse.1 messageResponse.1.length
        5 .empty = some (mem, some batch, 0) ∧ batch.addr ∉ mem.freed ∧ (tgapiFreeUpdates batch mem).next = 3 ∧
      (tgapiFreeUpdates batch mem).freed = [batch.addr] ∧ (tgapiFreeUpdates batch mem).json.refs 0 = 1 ∧
      ¬BatchReleased .empty messageResponse.2 (tgapiFreeUpdates batch mem) := by
  rw [tgapiParseUpdatesLenMax, parseJson_textTokener]
  refine ⟨_, _, rfl, by decide, by decide, by decide, by decide, ?_⟩
  intro h
  have hzero := (h.json 0 (by decide)).1
  revert hzero
  decide

end GwBot

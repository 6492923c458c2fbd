import GwBot.TgApi.Batch
import Mathlib.Data.List.Forall2

/-!
# What a batch parse hands out

The loop of `tgapi_parse_updates_len_max` fills one entry for each element that it accepts, but `len` stays the number of elements looked
at: the container is the list of the accepted ones only when all are. An element that is null ends the loop by `out_clean`, which frees
the container and returns 0 all the same.
-/

namespace GwBot

open Lib

variable {J : JsonC} {messages : Nat → MessageEnv} {mem mem' : Mem} {updates updates' : List TgUpdate} {elems : List JsonObject}

/-! ## The entries -/

/-- The update is what `tgj_get_update` makes of the element of this index, in an entry that is all zero. -/
def IsParse (J : JsonC) (messages : Nat → MessageEnv) (p : JsonObject × Nat) (update : TgUpdate) : Prop :=
  ∃ mem mem', tgjGetUpdate J (messages p.2) .zero p.1 mem = some (mem', update, 0)

/-- The elements that `tgj_get_update` accepts, with their indices. -/
def accepted (messages : Nat → MessageEnv) (elems : List JsonObject) : List (JsonObject × Nat) :=
  elems.zipIdx.filter (fun p => updateOk (messages p.2) p.1)

/-- The container has the parses of the accepted elements among those looked at, in order, and nothing else. -/
structure KeepsAccepted (J : JsonC) (messages : Nat → MessageEnv) (elems : List JsonObject) (batch : TgUpdates) : Prop where
  len : batch.len = (accepted messages elems).length
  entries : List.Forall₂ (IsParse J messages) (accepted messages elems) (batch.updates.take batch.len)

/-- The loop over elements that are all accepted fills one entry after the other. -/
theorem parseUpdates_accepted {i j : Nat} (hok : ∀ k elem, elems[k]? = some elem → updateOk (messages (i + k)) elem = true)
    (hlen : updates.length = j + elems.length) (hzero : ∀ k, j ≤ k → updates.getD k .zero = .zero)
    (h : parseUpdates J messages i elems j updates mem = some (mem', updates', false)) :
    ∃ parsed, updates' = updates.take j ++ parsed ∧ List.Forall₂ (IsParse J messages) (elems.zipIdx i) parsed := by
  induction elems generalizing i j updates mem with
  | nil =>
    cases h
    refine ⟨[], ?_, List.Forall₂.nil⟩
    rw [List.append_nil, List.take_of_length_le (by simpa using Nat.le_of_eq hlen)]
  | cons elem elems ih =>
    have hok₀ : updateOk (messages i) elem = true := hok 0 elem rfl
    have hnull : elem ≠ .nil := by
      rintro rfl
      nomatch hok₀
    obtain ⟨mem₁, update, ret, hget, hrest⟩ := parseUpdates_cons hnull h
    rw [hzero j (Nat.le_refl j)] at hget
    obtain ⟨-, ⟨rfl, -⟩ | ⟨-, hno, -⟩, -⟩ := tgjGetUpdate_cases hget
    · obtain ⟨hne, -⟩ | ⟨-, h⟩ := hrest
      · exact absurd rfl hne
      · have hlt : j < updates.length := by
          rw [hlen, List.length_cons]
          omega
        have hok' : ∀ k e, elems[k]? = some e → updateOk (messages (i + 1 + k)) e = true := by
          intro k e hk
          rw [Nat.add_assoc, Nat.add_comm 1 k]
          exact hok (k + 1) e hk
        have hlen' : (updates.set j update).length = j + 1 + elems.length := by
          rw [List.length_set, hlen, List.length_cons]
          omega
        have hzero' : ∀ k, j + 1 ≤ k → (updates.set j update).getD k .zero = .zero := by
          intro k hk
          rw [List.getD_eq_getElem?_getD, List.getElem?_set_ne (by omega), ← List.getD_eq_getElem?_getD]
          exact hzero k (by omega)
        obtain ⟨parsed, rfl, hall⟩ := ih hok' hlen' hzero' h
        refine ⟨update :: parsed, ?_, List.Forall₂.cons ⟨mem, mem₁, hget⟩ hall⟩
        rw [List.take_add_one, List.take_set_of_le (Nat.le_refl j), List.getElem?_set_self hlt, List.append_assoc]
        rfl
    · exact absurd hok₀ (by rw [hno]; decide)

/-- All elements are accepted when as many are as there are. -/
theorem accepted_eq_zipIdx {elems : List JsonObject}
    (h : ∀ i elem, elems[i]? = some elem → updateOk (messages i) elem = true) : accepted messages elems = elems.zipIdx := by
  refine List.filter_eq_self.2 (fun p hp => ?_)
  obtain ⟨elem, i⟩ := p
  exact h i elem (List.mem_zipIdx_iff_getElem?.1 hp)

theorem ok_of_accepted_length {elems : List JsonObject} (h : (accepted messages elems).length = elems.length) {i : Nat}
    {elem : JsonObject} (hi : elems[i]? = some elem) : updateOk (messages i) elem = true := by
  have hall := List.length_filter_eq_length_iff.1 (h.trans List.length_zipIdx.symm)
  exact hall (elem, i) (List.mem_zipIdx_iff_getElem?.2 hi)

/-! ## The end of the loop -/

/-- The loop ends by `out_clean` when an element is null. -/
theorem parseUpdates_null {i j : Nat} {b : Bool} (h : parseUpdates J messages i elems j updates mem = some (mem', updates', b)) :
    b = true ↔ .nil ∈ elems := by
  induction elems generalizing i j updates mem with
  | nil =>
    cases h
    exact ⟨nofun, nofun⟩
  | cons elem elems ih =>
    cases elem with
    | nil =>
      cases h
      exact ⟨fun _ => List.mem_cons_self, fun _ => rfl⟩
    | node a label cs =>
      have hnull : RefTree.node a label cs ≠ .nil := nofun
      rw [List.mem_cons, or_iff_right hnull.symm]
      obtain ⟨mem₁, update, ret, -, ⟨-, h⟩ | ⟨-, h⟩⟩ := parseUpdates_cons hnull h
      · exact ih h
      · exact ih h

/-- The loop writes over entries and adds none. -/
theorem parseUpdates_length {i j : Nat} {b : Bool} (h : parseUpdates J messages i elems j updates mem = some (mem', updates', b)) :
    updates'.length = updates.length := by
  induction elems generalizing i j updates mem with
  | nil =>
    cases h
    rfl
  | cons elem elems ih =>
    cases elem with
    | nil =>
      cases h
      rfl
    | node a label cs =>
      have hnull : RefTree.node a label cs ≠ .nil := nofun
      obtain ⟨mem₁, update, ret, -, ⟨-, h⟩ | ⟨-, h⟩⟩ := parseUpdates_cons hnull h
      · exact (ih h).trans List.length_set
      · exact (ih h).trans List.length_set

/-- Only blocks that were handed out since have been freed since. -/
def FreesNew (mem mem' : Mem) : Prop :=
  mem.next ≤ mem'.next ∧ ∃ l, mem'.freed = mem.freed ++ l ∧ ∀ a ∈ l, mem.next ≤ a ∧ a < mem'.next

theorem FreesNew.trans {mem₁ mem₂ : Mem} (h₁ : FreesNew mem mem₁) (h₂ : FreesNew mem₁ mem₂) : FreesNew mem mem₂ := by
  obtain ⟨n1, l1, f1, c1⟩ := h₁
  obtain ⟨n2, l2, f2, c2⟩ := h₂
  refine ⟨Nat.le_trans n1 n2, l1 ++ l2, by rw [f2, f1, List.append_assoc], fun a ha => ?_⟩
  rcases List.mem_append.1 ha with ha | ha
  · exact ⟨(c1 a ha).1, Nat.lt_of_lt_of_le (c1 a ha).2 n2⟩
  · exact ⟨Nat.le_trans n1 (c2 a ha).1, (c2 a ha).2⟩

/-- One more of the new blocks is freed. -/
theorem FreesNew.free {addr : Nat} (h : FreesNew mem mem') (haddr : mem.next ≤ addr ∧ addr < mem'.next) :
    FreesNew mem (mem'.free (some addr)) := by
  obtain ⟨hnext, l, hl, hbound⟩ := h
  refine ⟨hnext, l ++ [addr], ?_, fun a ha => ?_⟩
  · rw [← List.append_assoc, ← hl]
    rfl
  · rcases List.mem_append.1 ha with ha | ha
    · exact hbound a ha
    · rw [List.mem_singleton.1 ha]
      exact haddr

theorem Ledger.freesNew {o : List Nat} (h : Ledger mem mem' o) : FreesNew mem mem' := by
  obtain ⟨n, -, l, f, c⟩ := h
  refine ⟨n, l, f, fun a ha => ?_⟩
  have hpos := List.count_pos_iff.2 ha
  have hc := c a
  split at hc <;> omega

/-- A block that was handed out before and is live stays so. -/
theorem FreesNew.not_freed {addr : Nat} (h : FreesNew mem mem') (hlt : addr < mem.next) (hlive : addr ∉ mem.freed) :
    addr ∉ mem'.freed := by
  obtain ⟨-, l, f, c⟩ := h
  rw [f]
  intro hm
  rcases List.mem_append.1 hm with hm | hm
  · exact hlive hm
  · exact absurd (c addr hm).1 (Nat.not_le.2 hlt)

/-- A block that is owned has been handed out. -/
theorem Ledger.owned_new {o : List Nat} (h : Ledger mem mem' o) : ∀ a ∈ o, mem.next ≤ a ∧ a < mem'.next := by
  obtain ⟨-, -, l, -, hcount⟩ := h
  intro a ha
  have hpos := List.count_pos_iff.2 ha
  have hc := hcount a
  split at hc <;> omega

/-- A block that is owned has been handed out since, and is live. -/
theorem Ledger.live {addr : Nat} {o : List Nat} (h : Ledger mem mem' (addr :: o)) (hfreed : ∀ a ∈ mem.freed, a < mem.next) :
    mem.next ≤ addr ∧ addr < mem'.next ∧ addr ∉ mem'.freed := by
  obtain ⟨hle, hlt⟩ := h.owned_new addr List.mem_cons_self
  refine ⟨hle, hlt, fun hm => ?_⟩
  obtain ⟨-, -, l, f, c⟩ := h
  have hc := c addr
  rw [List.count_cons_self, if_pos ⟨hle, hlt⟩] at hc
  rw [f] at hm
  rcases List.mem_append.1 hm with hm | hm
  · exact absurd (hfreed addr hm) (Nat.not_lt.2 hle)
  · have := List.count_pos_iff.2 hm
    omega

theorem Settled.freesNew {ok : Bool} {ret : Int} {o : List Nat} (h : Settled mem mem' ok ret o) : FreesNew mem mem' := by
  obtain ⟨-, -, h⟩ | ⟨-, -, h⟩ := h
  · exact h.freesNew
  · exact h.freesNew

/-- The loop frees only what it has allocated. -/
theorem parseUpdates_freesNew {i j : Nat} {b : Bool}
    (h : parseUpdates J messages i elems j updates mem = some (mem', updates', b)) : FreesNew mem mem' := by
  induction elems generalizing i j updates mem with
  | nil =>
    cases h
    exact (Ledger.refl _).freesNew
  | cons elem elems ih =>
    cases elem with
    | nil =>
      cases h
      exact (Ledger.refl _).freesNew
    | node a label cs =>
      have hnull : RefTree.node a label cs ≠ .nil := nofun
      obtain ⟨mem₁, update, ret, hget, hrest⟩ := parseUpdates_cons hnull h
      have hone := (tgjGetUpdate_cases hget).2.1.freesNew
      obtain ⟨-, h⟩ | ⟨-, h⟩ := hrest
      · exact hone.trans (ih h)
      · have hafter := ih h
        exact hone.trans hafter

/-- The loop sets no pointer to the JSON. -/
theorem parseUpdates_noJson {i j : Nat} {b : Bool} (hno : NoJson updates)
    (h : parseUpdates J messages i elems j updates mem = some (mem', updates', b)) : NoJson updates' := by
  induction elems generalizing i j updates mem with
  | nil =>
    cases h
    exact hno
  | cons elem elems ih =>
    cases elem with
    | nil =>
      cases h
      exact hno
    | node a label cs =>
      obtain ⟨mem₁, update, ret, -, hno₁, ⟨-, h⟩ | ⟨-, h⟩⟩ := parseUpdates_settled h hno
      · exact ih hno₁ h
      · exact ih hno₁ h

/-! ## The whole parse -/

variable {tok : JsonTokener} {env : ParseEnv} {json : List UInt8} {len maxUpdates : Nat} {jobj result : JsonObject} {batch : TgUpdates}
  {stored : Option TgUpdates} {ret : Int}

/-- A batch that is parsed from a text without null elements is the list of the accepted ones among those looked at exactly when all of
them are accepted. -/
theorem batch_keeps_accepted (hparse : parseJson tok env.fuel env.tokenerNew json len = some (.ok jobj))
    (hresult : jsonObjectObjectGetEx jobj "result" = some result) (helems : jsonObjectArray result = some elems)
    (hnull : ∀ elem ∈ elems, elem ≠ .nil)
    (h : tgapiParseUpdatesLenMax J tok env json len maxUpdates mem = some (mem', some batch, 0)) :
    KeepsAccepted J env.messages (elems.take maxUpdates) batch ↔
      ∀ i elem, (elems.take maxUpdates)[i]? = some elem → updateOk (env.messages i) elem = true := by
  rw [tgapiParseUpdatesLenMax, hparse] at h
  obtain ⟨mem₁, mem₂, b, -, hlen, hloop, -⟩ := parseResult_stored hresult helems h
  have hb : b = false := by
    cases b with
    | false => rfl
    | true => exact absurd rfl (hnull .nil (List.mem_of_mem_take ((parseUpdates_null hloop).1 rfl)))
  subst hb
  constructor
  · intro hkeeps i elem hi
    exact ok_of_accepted_length (hkeeps.len.symm.trans hlen) hi
  · intro hok
    have hacc := accepted_eq_zipIdx hok
    obtain ⟨parsed, hparsed, hall⟩ := parseUpdates_accepted (fun k elem hk => by rw [Nat.zero_add]; exact hok k elem hk) (by simp [hlen])
      (fun k _ => by simp [List.getD_eq_getElem?_getD, List.getElem?_replicate]; split <;> rfl) hloop
    rw [List.take_zero, List.nil_append] at hparsed
    have hsame := List.Forall₂.length_eq hall
    rw [List.length_zipIdx] at hsame
    refine ⟨?_, ?_⟩
    · rw [hacc, List.length_zipIdx, hlen]
    · rw [hacc, hparsed, List.take_of_length_le (Nat.le_of_eq (hsame.symm.trans hlen.symm))]
      exact hall

/-- Two elements, of which the first is an update. -/
def halfElems : List JsonObject :=
  [.node 2 (.object ["update_id"]) [.node 3 (.int 1) []], .node 0 (.object ["message"]) [.node 1 (.int 7) []]]

/-- The response with these elements. -/
def halfResponse : List UInt8 × JsonObject := response "\x7b\"update_id\":1\x7d,\x7b\"message\":7\x7d" halfElems

/-- When one is looked at, the container has that and nothing else. -/
theorem batch_keeps_accepted_small :
    ∃ mem batch, tgapiParseUpdatesLenMax plainJsonC (textTokener halfResponse) plentyEnv halfResponse.1 halfResponse.1.length 1 .empty =
      some (mem, some batch, 0) ∧ batch.updates.map TgUpdate.updateId = [1] ∧
      KeepsAccepted plainJsonC plentyEnv.messages (halfElems.take 1) batch := by
  have h : ∃ mem batch, tgapiParseUpdatesLenMax plainJsonC (textTokener halfResponse) plentyEnv halfResponse.1 halfResponse.1.length 1
      .empty = some (mem, some batch, 0) ∧ batch.updates.map TgUpdate.updateId = [1] := by
    rw [tgapiParseUpdatesLenMax, parseJson_textTokener]
    exact ⟨_, _, rfl, by decide⟩
  obtain ⟨mem, batch, h, hids⟩ := h
  refine ⟨mem, batch, h, hids, (batch_keeps_accepted (parseJson_textTokener _ _) rfl rfl ?_ h).2 ?_⟩
  · intro elem hm
    simp only [halfElems, List.mem_cons, List.not_mem_nil, or_false] at hm
    rcases hm with rfl | rfl <;> simp
  · intro i elem hi
    cases i with
    | zero =>
      cases hi
      rfl
    | succ i => cases hi

/-- When both are looked at, it has two entries, of which one is zero. -/
theorem rejected_update_kept :
    ∃ mem batch, tgapiParseUpdatesLenMax plainJsonC (textTokener halfResponse) plentyEnv halfResponse.1 halfResponse.1.length 5 .empty =
      some (mem, some batch, 0) ∧ batch.len = 2 ∧ batch.updates.map TgUpdate.updateId = [1, 0] ∧
      (accepted plentyEnv.messages (halfElems.take 5)).length = 1 ∧
      ¬KeepsAccepted plainJsonC plentyEnv.messages (halfElems.take 5) batch := by
  rw [tgapiParseUpdatesLenMax, parseJson_textTokener]
  refine ⟨_, _, rfl, by decide, by decide, by decide, fun h => ?_⟩
  exact absurd h.len (by decide)

/-! ## Dead containers -/

/-- The call has returned 0 just when it has handed out a container that is live; else it has handed out nothing, and whatever it
allocated, and the JSON, have been freed once. -/
structure HandsOutLive (mem : Mem) (jobj : JsonObject) (stored : Option TgUpdates) (mem' : Mem) (ret : Int) : Prop where
  live : ret = 0 ↔ ∃ batch, stored = some batch ∧ mem.next ≤ batch.addr ∧ batch.addr < mem'.next ∧ batch.addr ∉ mem'.freed
  failed : ret ≠ 0 → stored = none ∧ BatchReleased mem jobj mem'

/-- There is a `result`, and memory for the container, and one of the elements looked at is null. -/
def MeetsNull (env : ParseEnv) (jobj : JsonObject) (maxUpdates : Nat) : Prop :=
  env.updates = true ∧
    ∃ result elems, jsonObjectObjectGetEx jobj "result" = some result ∧ jsonObjectArray result = some elems ∧ .nil ∈ elems.take maxUpdates

/-- The parse of a batch hands out a container that is live, or fails and leaves nothing behind, exactly when it meets no null. -/
theorem batch_handed_out_live (hparse : parseJson tok env.fuel env.tokenerNew json len = some (.ok jobj))
    (hnew : RefTree.IsNew mem.json jobj) (hfreed : ∀ a ∈ mem.freed, a < mem.next)
    (h : tgapiParseUpdatesLenMax J tok env json len maxUpdates mem = some (mem', stored, ret)) :
    HandsOutLive mem jobj stored mem' ret ↔ ¬MeetsNull env jobj maxUpdates := by
  rw [tgapiParseUpdatesLenMax, hparse] at h
  obtain ⟨hneg, rfl, rfl, hwhy⟩ | ⟨result, elems, addr, mem₁, mem₂, updates, b, hresult, helems, hcalloc, hled, rfl, hloop, rfl, rfl⟩ :=
    parseResult_cases h
  · refine iff_of_true ⟨?_, fun _ => ⟨rfl, fun a ha hlt => absurd ha (Nat.not_le.2 hlt), fun a ha => ?_⟩⟩ ?_
    · exact iff_of_false (Int.ne_of_lt hneg) (by simp)
    · exact put_new_released hnew rfl ha
    · rintro ⟨hcalloc, result, elems, hresult, -⟩
      rcases hwhy with hwhy | hwhy
      · cases hresult.symm.trans hwhy
      · cases hcalloc.symm.trans hwhy
  · have hnull : MeetsNull env jobj maxUpdates ↔ b = true := by
      rw [parseUpdates_null hloop]
      constructor
      · rintro ⟨-, result', elems', hresult', helems', hm⟩
        cases hresult.symm.trans hresult'
        cases helems.symm.trans helems'
        exact hm
      · exact fun hm => ⟨hcalloc, result, elems, hresult, helems, hm⟩
    rw [hnull]
    cases b with
    | true =>
      refine iff_of_false (fun hout => ?_) (by decide)
      obtain ⟨batch, hbatch, -, -, hlive⟩ := hout.live.1 rfl
      cases hbatch
      exact hlive (List.mem_append_right _ (List.mem_singleton.2 rfl))
    | false =>
      refine iff_of_true ⟨iff_of_true rfl ⟨_, rfl, ?_⟩, fun hne => absurd rfl hne⟩ (by decide)
      obtain ⟨hle, hlt, hlive⟩ := hled.live hfreed
      have hnew₂ := parseUpdates_freesNew hloop
      exact ⟨hle, Nat.lt_of_lt_of_le hlt hnew₂.1, hnew₂.not_freed hlt hlive⟩

/-- A response whose one element is null. -/
def nullResponse : List UInt8 × JsonObject := response "null" [.nil]

/-- A response without null makes a live container. -/
theorem batch_handed_out_live_small :
    ∃ mem stored ret, tgapiParseUpdatesLenMax plainJsonC (textTokener halfResponse) plentyEnv halfResponse.1 halfResponse.1.length 5
      .empty = some (mem, stored, ret) ∧ (ret, stored.map TgUpdates.addr) = (0, some 0) ∧
      HandsOutLive .empty halfResponse.2 stored mem ret := by
  have h : ∃ mem stored ret, tgapiParseUpdatesLenMax plainJsonC (textTokener halfResponse) plentyEnv halfResponse.1
      halfResponse.1.length 5 .empty = some (mem, stored, ret) ∧ (ret, stored.map TgUpdates.addr) = (0, some 0) := by
    rw [tgapiParseUpdatesLenMax, parseJson_textTokener]
    exact ⟨_, _, _, rfl, by decide⟩
  obtain ⟨mem, stored, ret, h, hval⟩ := h
  refine ⟨mem, stored, ret, h, hval,
    (batch_handed_out_live (parseJson_textTokener _ _) ⟨by decide, by decide⟩ (by decide) h).2 ?_⟩
  rintro ⟨-, result, elems, hresult, helems, hm⟩
  cases hresult
  cases helems
  simp [halfElems] at hm

/-- A null element makes a call return 0 with a container that has been freed. -/
theorem dead_container_handed_out :
    ∃ mem batch, tgapiParseUpdatesLenMax plainJsonC (textTokener nullResponse) plentyEnv nullResponse.1 nullResponse.1.length 5 .empty =
      some (mem, some batch, 0) ∧ batch.addr ∈ mem.freed ∧ ¬HandsOutLive .empty nullResponse.2 (some batch) mem 0 := by
  rw [tgapiParseUpdatesLenMax, parseJson_textTokener]
  refine ⟨_, _, rfl, by decide, fun h => ?_⟩
  obtain ⟨batch, hbatch, -, -, hlive⟩ := h.live.1 rfl
  cases hbatch
  exact absurd hlive (by decide)

/-! ## The call -/

/-- `parse_json` fails with an error number. -/
theorem parseJson_error {tok : JsonTokener} {fuel : Nat} {tokenerNew : Bool} {json : List UInt8} {len : Nat} {ret : Int}
    (h : parseJson tok fuel tokenerNew json len = some (.error ret)) : ret < 0 := by
  unfold parseJson at h
  split at h
  · cases h
    decide
  · split at h
    · nomatch h
    · split at h <;> cases h
      decide

/-- A batch was handed out in a block of its own, which is freed at most once, with no pointer to the JSON in its entries. -/
structure HandedOut (mem mem' : Mem) (batch : TgUpdates) : Prop where
  noJson : NoJson batch.updates
  freesNew : FreesNew mem mem'
  le_addr : mem.next ≤ batch.addr
  addr_lt : batch.addr < mem'.next
  once : mem'.freed.count batch.addr ≤ 1

/-- A parse of a batch frees blocks of its own only, and stores nothing when it fails. -/
theorem tgapiParseUpdatesLenMax_freesNew (h : tgapiParseUpdatesLenMax J tok env json len maxUpdates mem = some (mem', stored, ret)) :
    FreesNew mem mem' ∧ (stored ≠ none → ret = 0) := by
  unfold tgapiParseUpdatesLenMax at h
  split at h
  · nomatch h
  · cases h
    exact ⟨(Ledger.refl mem).freesNew, fun hn => absurd rfl hn⟩
  · rename_i jobj _
    obtain ⟨-, rfl, rfl, -⟩ | ⟨result, elems, addr, mem₁, mem₂, updates, b, -, -, -, hled, rfl, hloop, rfl, rfl⟩ := parseResult_cases h
    · exact ⟨(Ledger.refl mem).freesNew, fun hn => absurd rfl hn⟩
    · have hold : FreesNew mem mem₂ := hled.freesNew.trans (parseUpdates_freesNew hloop)
      have hlt₂ : mem.next ≤ addr ∧ addr < mem₂.next := by
        obtain ⟨hle, hlt⟩ := hled.owned_new addr List.mem_cons_self
        exact ⟨hle, Nat.lt_of_lt_of_le hlt (parseUpdates_freesNew hloop).1⟩
      refine ⟨?_, fun _ => rfl⟩
      cases b with
      | false => exact hold
      | true =>
        rw [tgapiFreeEach_noJson (parseUpdates_noJson (NoJson.zeros _) hloop)]
        exact hold.free hlt₂

/-- A parse of a batch fails and leaves the blocks as they are, or it hands out a container. -/
theorem tgapiParseUpdatesLenMax_cases (hfreed : ∀ a ∈ mem.freed, a < mem.next)
    (h : tgapiParseUpdatesLenMax J tok env json len maxUpdates mem = some (mem', stored, ret)) :
    (ret < 0 ∧ stored = none ∧ mem'.next = mem.next ∧ mem'.freed = mem.freed) ∨
      ∃ batch, ret = 0 ∧ stored = some batch ∧ HandedOut mem mem' batch := by
  have hframe := (tgapiParseUpdatesLenMax_freesNew h).1
  unfold tgapiParseUpdatesLenMax at h
  split at h
  · nomatch h
  · rename_i ret' hparse
    cases h
    exact Or.inl ⟨parseJson_error hparse, rfl, rfl, rfl⟩
  · rename_i jobj _
    obtain ⟨hneg, rfl, rfl, -⟩ | ⟨result, elems, addr, mem₁, mem₂, updates, b, -, -, -, hled, rfl, hloop, rfl, rfl⟩ := parseResult_cases h
    · exact Or.inl ⟨hneg, rfl, rfl, rfl⟩
    · obtain ⟨hle, hlt, hlive⟩ := hled.live hfreed
      have hno := parseUpdates_noJson (NoJson.zeros _) hloop
      have hnew : FreesNew mem₁ mem₂ := parseUpdates_freesNew hloop
      have hlt₂ : addr < mem₂.next := Nat.lt_of_lt_of_le hlt hnew.1
      have hcount : mem₂.freed.count addr = 0 := List.count_eq_zero.2 (hnew.not_freed hlt hlive)
      refine Or.inr ⟨_, rfl, rfl, ?_⟩
      cases b with
      | false => exact ⟨hno, hframe, hle, hlt₂, Nat.le_trans (Nat.le_of_eq hcount) (Nat.zero_le 1)⟩
      | true =>
        rw [tgapiFreeEach_noJson hno] at hframe ⊢
        refine ⟨hno, hframe, hle, hlt₂, ?_⟩
        show List.count addr (mem₂.freed ++ [addr]) ≤ 1
        rw [List.count_append, hcount, List.count_singleton_self]

theorem tgapiCallGetUpdates_cases {curl : CurlHttpGet} (hfreed : ∀ a ∈ mem.freed, a < mem.next)
    (h : tgapiCallGetUpdates J tok env mem curl = some (mem', stored, ret)) :
    (ret < 0 ∧ stored = none ∧ mem'.next = mem.next ∧ mem'.freed = mem.freed) ∨
      ∃ batch, ret = 0 ∧ stored = some batch ∧ HandedOut mem mem' batch := by
  unfold tgapiCallGetUpdates at h
  split at h
  · cases h
    exact Or.inl ⟨by decide, rfl, rfl, rfl⟩
  · cases h
    exact Or.inl ⟨by decide, rfl, rfl, rfl⟩
  · nomatch h
  · exact tgapiParseUpdatesLenMax_cases hfreed h

/-- The response that the transfer leaves has no null among its elements. -/
def NoNullResponse (tok : JsonTokener) (env : ParseEnv) (curl : CurlHttpGet) : Prop :=
  ∀ data jobj result elems, curl = .done data → parseJson tok env.fuel env.tokenerNew (data ++ [0]) (data.length + 1) = some (.ok jobj) →
    jsonObjectObjectGetEx jobj "result" = some result → jsonObjectArray result = some elems → .nil ∉ elems

/-- A container that the call stores is of a response with elements, which the loop has gone over. -/
theorem response_of_stored {curl : CurlHttpGet} {batch : TgUpdates} (h : tgapiCallGetUpdates J tok env mem curl = some (mem', some batch, ret)) :
    ∃ data jobj result elems mem₁ mem₂ b, curl = .done data ∧
      parseJson tok env.fuel env.tokenerNew (data ++ [0]) (data.length + 1) = some (.ok jobj) ∧
      jsonObjectObjectGetEx jobj "result" = some result ∧ jsonObjectArray result = some elems ∧
      Ledger { mem with json := RefTree.new mem.json jobj } mem₁ [batch.addr] ∧
      parseUpdates J env.messages 0 (elems.take (2 ^ 64 - 1)) 0 (List.replicate (elems.take (2 ^ 64 - 1)).length .zero) mem₁ =
        some (mem₂, batch.updates, b) ∧
      mem' = ((if b then (tgapiFreeEach batch.updates mem₂).free (some batch.addr) else mem₂).jsonObjectPut jobj).1 := by
  unfold tgapiCallGetUpdates at h
  split at h
  · cases h
  · cases h
  · cases h
  · rename_i data _
    unfold tgapiParseUpdatesLen tgapiParseUpdatesLenMax at h
    split at h
    · cases h
    · cases h
    · rename_i jobj hparse
      obtain ⟨-, hstored, -⟩ | ⟨result, elems, addr, mem₁, mem₂, updates, b, hresult, helems, -, hled, -, hloop, hstored, hmem⟩ :=
        parseResult_cases h
      · cases hstored
      · cases hstored
        exact ⟨data, jobj, result, elems, mem₁, mem₂, b, rfl, hparse, hresult, helems, hled, hloop, hmem⟩

/-- Without a null the container that is stored is live. -/
theorem container_live {curl : CurlHttpGet} {batch : TgUpdates} (hnull : NoNullResponse tok env curl) (hfreed : ∀ a ∈ mem.freed, a < mem.next)
    (h : tgapiCallGetUpdates J tok env mem curl = some (mem', some batch, ret)) : batch.addr ∉ mem'.freed := by
  obtain ⟨data, jobj, result, elems, mem₁, mem₂, b, hcurl, hparse, hresult, helems, hled, hloop, rfl⟩ := response_of_stored h
  cases b with
  | false =>
    obtain ⟨-, hlt, hlive⟩ := hled.live hfreed
    exact (parseUpdates_freesNew hloop).not_freed hlt hlive
  | true =>
    have hmem := (parseUpdates_null hloop).1 rfl
    exact absurd (List.mem_of_mem_take hmem) (hnull data jobj result elems hcurl hparse hresult helems)

end GwBot

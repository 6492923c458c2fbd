import GwBot.TgApi.Outcome

/-!
# The ids in a batch

`tgj_get_update` writes `update_id` before anything that can fail, and a rejected element leaves its entry to the next one. So whatever is
rejected, each entry of the container has the id of an element or 0, and the id of the last element is in the last entry written.
-/

namespace GwBot

open Lib

/-- The `update_id` of an element, when it is an integer. -/
def elemId (elem : JsonObject) : Option Int :=
  match jsonObjectObjectGetEx elem "update_id" with
  | some (.node _ (.int n) _) => some n
  | _ => none

/-- json-c gives an integer that fits a `uint64_t` as it is. -/
def GetsInts (J : JsonC) : Prop :=
  ∀ a n cs, 0 ≤ n → n < 2 ^ 64 → J.getUint64 (.node a (.int n) cs) = UInt64.ofNat n.toNat

/-- The elements have these ids, which increase. -/
structure HasIds (elems : List JsonObject) (ids : List Int) : Prop where
  elems : elems.map elemId = ids.map some
  increasing : ids.Pairwise (· < ·)
  bounds : ∀ id ∈ ids, 1 ≤ id ∧ id ≤ 2 ^ 63 - 2

/-- The id in an entry. -/
def entryId (update : TgUpdate) : Int := update.updateId.toNat

variable {J : JsonC} {messages : Nat → MessageEnv} {mem mem' : Mem} {updates updates' : List TgUpdate} {elems : List JsonObject}
  {ids : List Int}

/-- The id is written whether the element is accepted or not. -/
theorem entryId_of_get (hJ : GetsInts J) {env : MessageEnv} {update update' : TgUpdate} {elem : JsonObject} {ret n : Int}
    (hid : elemId elem = some n) (hn : 0 ≤ n ∧ n < 2 ^ 64) (h : tgjGetUpdate J env update elem mem = some (mem', update', ret)) :
    entryId update' = n := by
  unfold elemId at hid
  split at hid
  · rename_i a m cs hres
    cases hid
    have hint : jsonObjectGetUint64 J (.node a (.int n) cs) = UInt64.ofNat n.toNat := hJ a n cs hn.1 hn.2
    have hlt : n.toNat < 2 ^ 64 := by omega
    have hget : entryId { update with updateId := jsonObjectGetUint64 J (.node a (.int n) cs) } = n := by
      rw [entryId, hint, UInt64.toNat_ofNat_of_lt' hlt]
      exact Int.toNat_of_nonneg hn.1
    rw [tgjGetUpdate, hres] at h
    simp only at h
    split at h
    · split at h
      · nomatch h
      · cases h
        exact hget
    · cases h
      exact hget
  · nomatch hid

/-- An element with an id is not null. -/
theorem ne_nil_of_elemId {elem : JsonObject} {n : Int} (h : elemId elem = some n) : elem ≠ .nil := by
  rintro rfl
  nomatch h

/-- Entries are what they were, or have the id of an element. -/
theorem parseUpdates_ids (hJ : GetsInts J) (hids : elems.map elemId = ids.map some) (hb : ∀ id ∈ ids, 0 ≤ id ∧ id < 2 ^ 64) {i j : Nat}
    {b : Bool} (h : parseUpdates J messages i elems j updates mem = some (mem', updates', b)) :
    ∀ update ∈ updates', update ∈ updates ∨ entryId update ∈ ids := by
  induction elems generalizing ids i j updates mem with
  | nil =>
    cases h
    exact fun update hm => Or.inl hm
  | cons elem elems ih =>
    cases ids with
    | nil => nomatch hids
    | cons n ids =>
      obtain ⟨hid, hids⟩ := List.cons.inj hids
      obtain ⟨mem₁, entry, ret, hget, hrest⟩ := parseUpdates_cons (ne_nil_of_elemId hid) h
      have hentry := entryId_of_get hJ hid (hb n List.mem_cons_self) hget
      have hih : ∀ update ∈ updates', update ∈ updates.set j entry ∨ entryId update ∈ ids := by
        obtain ⟨-, h⟩ | ⟨-, h⟩ := hrest
        · exact ih hids (fun id hm => hb id (List.mem_cons_of_mem _ hm)) h
        · exact ih hids (fun id hm => hb id (List.mem_cons_of_mem _ hm)) h
      intro update hm
      rcases hih update hm with hm | hm
      · rcases List.mem_or_eq_of_mem_set hm with hm | rfl
        · exact Or.inl hm
        · exact Or.inr (hentry ▸ List.mem_cons_self)
      · exact Or.inr (List.mem_cons_of_mem _ hm)

/-- The id of the last element is in an entry, accepted or not. -/
theorem parseUpdates_last (hJ : GetsInts J) (hids : elems.map elemId = ids.map some) (hb : ∀ id ∈ ids, 0 ≤ id ∧ id < 2 ^ 64) {i j : Nat}
    (hlen : j + elems.length ≤ updates.length) {b : Bool}
    (h : parseUpdates J messages i elems j updates mem = some (mem', updates', b)) {last : Int} (hlast : ids.getLast? = some last) :
    ∃ update ∈ updates', entryId update = last := by
  induction elems generalizing ids i j updates mem with
  | nil =>
    cases ids with
    | nil => nomatch hlast
    | cons n ids => nomatch hids
  | cons elem elems ih =>
    cases ids with
    | nil => nomatch hids
    | cons n ids =>
      obtain ⟨hid, hids⟩ := List.cons.inj hids
      obtain ⟨mem₁, entry, ret, hget, hrest⟩ := parseUpdates_cons (ne_nil_of_elemId hid) h
      have hentry := entryId_of_get hJ hid (hb n List.mem_cons_self) hget
      rw [List.length_cons] at hlen
      cases ids with
      | nil =>
        -- the last element: the entry it has been written to is not written again
        cases elems with
        | nil =>
          cases hlast
          have hm : entry ∈ updates.set j entry := List.mem_set (by omega) entry
          obtain ⟨-, h⟩ | ⟨-, h⟩ := hrest
          · cases h
            exact ⟨entry, hm, hentry⟩
          · cases h
            exact ⟨entry, hm, hentry⟩
        | cons elem' elems => nomatch hids
      | cons n' ids =>
        have hb' : ∀ id ∈ n' :: ids, 0 ≤ id ∧ id < 2 ^ 64 := fun id hm => hb id (List.mem_cons_of_mem _ hm)
        have hlast' : (n' :: ids).getLast? = some last := (List.getLast?_cons_cons ▸ hlast)
        obtain ⟨-, h⟩ | ⟨-, h⟩ := hrest
        · exact ih hids hb' (by rw [List.length_set]; omega) h hlast'
        · exact ih hids hb' (by rw [List.length_set]; omega) h hlast'

/-! ## The greatest id -/

/-- What `max_update_id` comes to when it passes over ids. -/
def maxOver (prev : Int) (ids : List Int) : Int := ids.foldl max prev

/-- What it is to be after a batch with these ids: the last of them, unless it was greater before. -/
def passed (prev : Int) (ids : List Int) : Int :=
  match ids.getLast? with
  | some last => max prev last
  | none => prev

theorem maxOver_cons (prev n : Int) (ids : List Int) : maxOver prev (n :: ids) = maxOver (max prev n) ids := rfl

theorem le_maxOver (prev : Int) (ids : List Int) : prev ≤ maxOver prev ids := by
  induction ids generalizing prev with
  | nil => exact Int.le_refl _
  | cons n ids ih => exact Int.le_trans (Int.le_max_left prev n) (ih (max prev n))

theorem maxOver_le {prev bound : Int} {ids : List Int} (hprev : prev ≤ bound) (hids : ∀ id ∈ ids, id ≤ bound) :
    maxOver prev ids ≤ bound := by
  induction ids generalizing prev with
  | nil => exact hprev
  | cons n ids ih => exact ih (Int.max_le.2 ⟨hprev, hids n List.mem_cons_self⟩) (fun id hm => hids id (List.mem_cons_of_mem _ hm))

theorem mem_le_maxOver {prev : Int} {ids : List Int} {id : Int} (hm : id ∈ ids) : id ≤ maxOver prev ids := by
  induction ids generalizing prev with
  | nil => nomatch hm
  | cons n ids ih =>
    rcases List.mem_cons.1 hm with rfl | hm
    · exact Int.le_trans (Int.le_max_right prev id) (le_maxOver _ ids)
    · exact ih hm

/-- Increasing ids are not above the last. -/
theorem HasIds.le_last (h : HasIds elems ids) {last : Int} (hlast : ids.getLast? = some last) : ∀ id ∈ ids, id ≤ last := by
  intro id hm
  obtain ⟨init, rfl⟩ := List.getLast?_eq_some_iff.1 hlast
  rcases List.mem_append.1 hm with hm | hm
  · exact Int.le_of_lt ((List.pairwise_append.1 h.increasing).2.2 id hm last (List.mem_singleton_self last))
  · exact Int.le_of_eq (List.mem_singleton.1 hm)

section Container

variable {tok : JsonTokener} {env : ParseEnv} {json : List UInt8} {len maxUpdates : Nat} {jobj result : JsonObject} {batch : TgUpdates}

/-- The entries of a container that was handed out are those that the loop leaves. -/
theorem container_of_parse (hparse : parseJson tok env.fuel env.tokenerNew json len = some (.ok jobj))
    (hresult : jsonObjectObjectGetEx jobj "result" = some result) (helems : jsonObjectArray result = some elems)
    (h : tgapiParseUpdatesLenMax J tok env json len maxUpdates mem = some (mem', some batch, 0)) :
    ∃ mem₁ mem₂ b, parseUpdates J env.messages 0 (elems.take maxUpdates) 0
      (List.replicate (elems.take maxUpdates).length .zero) mem₁ = some (mem₂, batch.updates.take batch.len, b) := by
  rw [tgapiParseUpdatesLenMax, hparse] at h
  obtain ⟨mem₁, mem₂, b, -, hlen, hloop, -⟩ := parseResult_stored hresult helems h
  have hsame := parseUpdates_length hloop
  rw [List.length_replicate] at hsame
  refine ⟨mem₁, mem₂, b, ?_⟩
  rw [List.take_of_length_le (Nat.le_of_eq hsame), ← hlen]
  exact hloop

/-- Ids that Telegram sends fit. -/
theorem HasIds.fits (h : HasIds elems ids) : ∀ id ∈ ids, 0 ≤ id ∧ id < 2 ^ 64 := by
  intro id hm
  have := h.bounds id hm
  omega

/-- Each entry has the id of an element, or 0. -/
theorem entries_ids (hJ : GetsInts J) (hparse : parseJson tok env.fuel env.tokenerNew json len = some (.ok jobj))
    (hresult : jsonObjectObjectGetEx jobj "result" = some result) (helems : jsonObjectArray result = some elems)
    (hids : HasIds (elems.take maxUpdates) ids)
    (h : tgapiParseUpdatesLenMax J tok env json len maxUpdates mem = some (mem', some batch, 0)) :
    ∀ update ∈ batch.updates.take batch.len, entryId update = 0 ∨ entryId update ∈ ids := by
  obtain ⟨mem₁, mem₂, b, hloop⟩ := container_of_parse hparse hresult helems h
  intro update hu
  rcases parseUpdates_ids hJ hids.elems hids.fits hloop update hu with hu | hu
  · rw [List.eq_of_mem_replicate hu]
    exact Or.inl rfl
  · exact Or.inr hu

/-- The container of a response with increasing ids makes `max_update_id` the last of them, whichever elements were rejected. -/
theorem maxOver_entries (hJ : GetsInts J) (hparse : parseJson tok env.fuel env.tokenerNew json len = some (.ok jobj))
    (hresult : jsonObjectObjectGetEx jobj "result" = some result) (helems : jsonObjectArray result = some elems)
    (hids : HasIds (elems.take maxUpdates) ids)
    (h : tgapiParseUpdatesLenMax J tok env json len maxUpdates mem = some (mem', some batch, 0)) {prev : Int} (hprev : 0 ≤ prev) :
    maxOver prev ((batch.updates.take batch.len).map entryId) = passed prev ids := by
  have hentry : ∀ id ∈ (batch.updates.take batch.len).map entryId, id = 0 ∨ id ∈ ids := by
    intro id hm
    obtain ⟨update, hu, rfl⟩ := List.mem_map.1 hm
    exact entries_ids hJ hparse hresult helems hids h update hu
  rw [passed]
  cases hlast : ids.getLast? with
  | none =>
    rw [List.getLast?_eq_none_iff] at hlast
    refine Int.le_antisymm (maxOver_le (Int.le_refl _) (fun id hm => ?_)) (le_maxOver _ _)
    rcases hentry id hm with rfl | hm
    · exact hprev
    · rw [hlast] at hm
      nomatch hm
  | some last =>
    refine Int.le_antisymm (maxOver_le (Int.le_max_left _ _) (fun id hm => ?_)) (Int.max_le.2 ⟨le_maxOver _ _, ?_⟩)
    · rcases hentry id hm with rfl | hm
      · exact Int.le_trans hprev (Int.le_max_left _ _)
      · exact Int.le_trans (hids.le_last hlast id hm) (Int.le_max_right _ _)
    · obtain ⟨mem₁, mem₂, b, hloop⟩ := container_of_parse hparse hresult helems h
      obtain ⟨update, hu, rfl⟩ := parseUpdates_last hJ hids.elems hids.fits (by simp) hloop hlast
      exact mem_le_maxOver (List.mem_map_of_mem hu)

end Container

end GwBot

import GwBot.TgApi.Ids
import Mathlib.Data.List.Basic

/-!
# The ids that come out of a response

Of a response with increasing ids, the container has those of the accepted elements, in order, and after them that of the last rejected one
if no element after it was accepted; the entries that were not written have 0.
-/

namespace GwBot

open Lib

/-- The ids in entries that were written. -/
def writtenIds (updates : List TgUpdate) : List Int := (updates.map entryId).filter (fun id => 0 < id)

theorem writtenIds_append (l l' : List TgUpdate) : writtenIds (l ++ l') = writtenIds l ++ writtenIds l' := by
  rw [writtenIds, List.map_append, List.filter_append]
  rfl

theorem writtenIds_singleton {update : TgUpdate} {n : Int} (h : entryId update = n) (hn : 0 < n) : writtenIds [update] = [n] := by
  rw [writtenIds, List.map_singleton, h]
  exact List.filter_cons_of_pos (decide_eq_true hn)

/-- Entries that were not written have no ids. -/
theorem writtenIds_zero {updates : List TgUpdate} (h : ∀ update ∈ updates, update = .zero) : writtenIds updates = [] := by
  refine List.filter_eq_nil_iff.2 (fun id hm => ?_)
  obtain ⟨update, hu, rfl⟩ := List.mem_map.1 hm
  rw [h update hu]
  decide

variable {J : JsonC} {messages : Nat → MessageEnv} {mem mem' : Mem} {updates updates' : List TgUpdate} {elems : List JsonObject}
  {ids : List Int} {wanted : Int → Bool}

/-- Elements whose id is wanted are accepted, those that are left from index `i` on. -/
def AcceptsWanted (wanted : Int → Bool) (messages : Nat → MessageEnv) (i : Nat) (elems : List JsonObject) : Prop :=
  ∀ k elem id, elems[k]? = some elem → elemId elem = some id → wanted id = true → updateOk (messages (i + k)) elem = true

theorem AcceptsWanted.tail {i : Nat} {elem : JsonObject} (h : AcceptsWanted wanted messages i (elem :: elems)) :
    AcceptsWanted wanted messages (i + 1) elems := by
  intro k e id hk hid hw
  rw [Nat.add_assoc, Nat.add_comm 1 k]
  exact h (k + 1) e id hk hid hw

/-- The entries from `j` on, when those after it have not been written. -/
theorem writtenIds_drop {j : Nat} (hzero : ∀ k, j < k → updates.getD k .zero = .zero) :
    writtenIds (updates.drop j) = writtenIds [updates.getD j .zero] := by
  have hnone : writtenIds (updates.drop (j + 1)) = [] := by
    refine writtenIds_zero (fun update hu => ?_)
    obtain ⟨k, hk⟩ := List.mem_iff_getElem?.1 hu
    rw [List.getElem?_drop] at hk
    have := hzero (j + 1 + k) (by omega)
    rwa [List.getD_eq_getElem?_getD, hk, Option.getD_some] at this
  rcases Nat.lt_or_ge j updates.length with hlt | hge
  · rw [List.drop_eq_getElem_cons hlt, ← List.singleton_append, writtenIds_append, hnone, List.append_nil, List.getD_eq_getElem?_getD,
      List.getElem?_eq_getElem hlt, Option.getD_some]
  · rw [List.drop_eq_nil_of_le hge, List.getD_eq_getElem?_getD, List.getElem?_eq_none hge, Option.getD_none]
    exact (writtenIds_zero (fun update hu => List.mem_singleton.1 hu)).symm

/-- Entries after `j` stay unwritten when entry `j` is written. -/
theorem getD_set_zero {j : Nat} (hzero : ∀ k, j < k → updates.getD k .zero = .zero) (update : TgUpdate) :
    ∀ k, j < k → (updates.set j update).getD k .zero = .zero := by
  intro k hk
  rw [List.getD_eq_getElem?_getD, List.getElem?_set_ne (Nat.ne_of_lt hk), ← List.getD_eq_getElem?_getD]
  exact hzero k hk

/-- What the loop makes of the elements that are left: after the entries already filled, the ids of the accepted elements, and of the last
one, in order. Entry `j` may have been written for an element that was rejected. -/
theorem parseUpdates_kept (hJ : GetsInts J) (hids : elems.map elemId = ids.map some) (hb : ∀ id ∈ ids, 0 < id ∧ id < 2 ^ 64) {i j : Nat}
    (hlen : j + elems.length ≤ updates.length) (hzero : ∀ k, j < k → updates.getD k .zero = .zero)
    (hacc : AcceptsWanted wanted messages i elems) {b : Bool}
    (h : parseUpdates J messages i elems j updates mem = some (mem', updates', b)) :
    ∃ kept, writtenIds updates' = writtenIds (updates.take j) ++ kept ∧
      kept.Sublist (writtenIds [updates.getD j .zero] ++ ids) ∧ (ids.filter wanted).Sublist kept ∧
      ∀ last, (writtenIds [updates.getD j .zero] ++ ids).getLast? = some last → last ∈ kept := by
  induction elems generalizing ids i j updates mem with
  | nil =>
    cases ids with
    | cons n ids => nomatch hids
    | nil =>
      cases h
      refine ⟨writtenIds (updates'.drop j), ?_, ?_, List.nil_sublist _, ?_⟩
      · rw [← writtenIds_append, List.take_append_drop]
      · rw [writtenIds_drop hzero, List.append_nil]
      · rw [writtenIds_drop hzero, List.append_nil]
        exact fun last hl => List.mem_of_getLast? hl
  | cons elem elems ih =>
    cases ids with
    | nil => nomatch hids
    | cons n ids =>
      obtain ⟨hid, hids⟩ := List.cons.inj hids
      obtain ⟨mem₁, entry, ret, hget, hrest⟩ := parseUpdates_cons (ne_nil_of_elemId hid) h
      have hn := hb n List.mem_cons_self
      have hentry := entryId_of_get hJ hid ⟨Int.le_of_lt hn.1, hn.2⟩ hget
      have hok := (tgjGetUpdate_cases hget).2.1.ret_eq_zero_iff
      rw [List.length_cons] at hlen
      have hlt : j < updates.length := by omega
      have hb' : ∀ id ∈ ids, 0 < id ∧ id < 2 ^ 64 := fun id hm => hb id (List.mem_cons_of_mem _ hm)
      have hset := getD_set_zero hzero entry
      obtain ⟨hret, h⟩ | ⟨-, h⟩ := hrest
      · -- rejected: its id is in entry `j`, where the next element goes
        obtain ⟨kept, hkept, hsub, hwanted, hlast⟩ := ih hids hb' (by rw [List.length_set]; omega) hset hacc.tail h
        have hj : (updates.set j entry).getD j .zero = entry := by
          rw [List.getD_eq_getElem?_getD, List.getElem?_set_self hlt, Option.getD_some]
        rw [hj, writtenIds_singleton hentry hn.1, List.singleton_append] at hsub hlast
        refine ⟨kept, ?_, hsub.trans (List.sublist_append_right _ _), ?_, fun last hl => hlast last ?_⟩
        · rw [hkept, List.take_set_of_le (Nat.le_refl j)]
        · have hnot : wanted n = false := by
            rw [← Bool.not_eq_true]
            exact fun hw => hret (hok.2 (hacc 0 elem n rfl hid hw))
          rw [List.filter_cons_of_neg (by rw [hnot]; exact Bool.false_ne_true)]
          exact hwanted
        · rw [List.getLast?_append, List.getLast?_cons] at hl
          rw [List.getLast?_cons]
          exact hl
      · -- accepted: entry `j` is filled
        obtain ⟨kept, hkept, hsub, hwanted, hlast⟩ := ih hids hb' (by rw [List.length_set]; omega)
          (fun k hk => hset k (by omega)) hacc.tail h
        have hnext : writtenIds [(updates.set j entry).getD (j + 1) .zero] = [] :=
          writtenIds_zero (fun update hu => by rw [List.mem_singleton.1 hu, hset (j + 1) (Nat.lt_succ_self j)])
        rw [hnext, List.nil_append] at hsub hlast
        refine ⟨n :: kept, ?_, (hsub.cons_cons n).trans (List.sublist_append_right _ _), ?_, fun last hl => ?_⟩
        · rw [hkept, List.take_add_one, List.take_set_of_le (Nat.le_refl j), List.getElem?_set_self hlt, Option.toList_some,
            writtenIds_append, writtenIds_singleton hentry hn.1, List.append_assoc, List.singleton_append]
        · rw [List.filter_cons]
          split
          · exact hwanted.cons_cons n
          · exact hwanted.cons n
        · rw [List.getLast?_append, List.getLast?_cons, Option.some_or] at hl
          cases hl' : ids.getLast? with
          | none =>
            rw [hl', Option.getD_none] at hl
            cases hl
            exact List.mem_cons_self
          | some last' =>
            rw [hl', Option.getD_some] at hl
            cases hl
            exact List.mem_cons_of_mem _ (hlast last hl')

section Container

variable {tok : JsonTokener} {env : ParseEnv} {json : List UInt8} {len maxUpdates : Nat} {jobj result : JsonObject} {batch : TgUpdates}

/-- The container has the ids of a part of the elements, in order, among them those that are wanted, and the last one. -/
theorem container_kept (hJ : GetsInts J) (hparse : parseJson tok env.fuel env.tokenerNew json len = some (.ok jobj))
    (hresult : jsonObjectObjectGetEx jobj "result" = some result) (helems : jsonObjectArray result = some elems)
    (hids : HasIds (elems.take maxUpdates) ids) (hacc : AcceptsWanted wanted env.messages 0 (elems.take maxUpdates))
    (h : tgapiParseUpdatesLenMax J tok env json len maxUpdates mem = some (mem', some batch, 0)) :
    (writtenIds (batch.updates.take batch.len)).Sublist ids ∧
      (ids.filter wanted).Sublist (writtenIds (batch.updates.take batch.len)) ∧
      ∀ last, ids.getLast? = some last → last ∈ writtenIds (batch.updates.take batch.len) := by
  obtain ⟨mem₁, mem₂, b, hloop⟩ := container_of_parse hparse hresult helems h
  have hzero : ∀ k, (List.replicate (elems.take maxUpdates).length TgUpdate.zero).getD k .zero = .zero := by
    intro k
    rw [List.getD_eq_getElem?_getD, List.getElem?_replicate]
    split <;> rfl
  have hb : ∀ id ∈ ids, 0 < id ∧ id < 2 ^ 64 := by
    intro id hm
    have := hids.bounds id hm
    omega
  obtain ⟨kept, hkept, hsub, hwanted, hlast⟩ := parseUpdates_kept hJ hids.elems hb (by simp) (fun k _ => hzero k) hacc hloop
  have hnone : writtenIds [(List.replicate (elems.take maxUpdates).length TgUpdate.zero).getD 0 .zero] = [] :=
    writtenIds_zero (fun update hu => by rw [List.mem_singleton.1 hu, hzero])
  rw [hnone, List.nil_append] at hsub hlast
  rw [hkept, List.take_zero]
  exact ⟨hsub, hwanted, hlast⟩

end Container

end GwBot

import GwBot.Lib.Machine
import Mathlib.Order.Lattice
import Mathlib.Data.List.Basic
import Mathlib.Algebra.Order.Ring.Int

/-!
# A feed that is read by a cursor

A source has items, each greater than the ones before. A reader asks for what is past its cursor, is sent a first part of that, keeps some
of it, at least what it wants, and sets its cursor to the last item sent. Whatever is sent at a time, it keeps no item twice, and it has
kept every item that it wants and that its cursor has passed.
-/

namespace GwBot.Lib

variable {α : Type} [LinearOrder α]

/-- The items up to the cursor, and those past it. -/
def itemsTo (source : List α) (cursor : α) : List α := source.filter (fun x => x ≤ cursor)

def itemsPast (source : List α) (cursor : α) : List α := source.filter (fun x => cursor < x)

/-- The cursor after these items. -/
def cursorAfter (cursor : α) (sent : List α) : α := sent.getLast?.getD cursor

variable {source : List α} {cursor : α}

theorem itemsTo_append_itemsPast (hs : source.Pairwise (· < ·)) (cursor : α) :
    itemsTo source cursor ++ itemsPast source cursor = source := by
  induction source with
  | nil => rfl
  | cons x xs ih =>
    obtain ⟨hx, hxs⟩ := List.pairwise_cons.1 hs
    unfold itemsTo itemsPast at *
    rw [List.filter_cons, List.filter_cons]
    by_cases hle : x ≤ cursor
    · rw [if_pos (decide_eq_true hle), if_neg (by simpa using hle), List.cons_append, ih hxs]
    · -- none of the items after it is up to the cursor
      have hlt := not_le.1 hle
      have hnone : xs.filter (fun x => x ≤ cursor) = [] :=
        List.filter_eq_nil_iff.2 (fun y hy => by simpa using lt_trans hlt (hx y hy))
      have hall : xs.filter (fun x => cursor < x) = xs :=
        List.filter_eq_self.2 (fun y hy => by simpa using lt_trans hlt (hx y hy))
      rw [if_neg (by simpa using hlt), if_pos (decide_eq_true hlt), hnone, hall, List.nil_append]

/-- What is sent comes between what was up to the cursor and what is still past it. -/
theorem items_split (hs : source.Pairwise (· < ·)) {pre post : List α} {x : α} (hp : itemsPast source cursor = pre ++ x :: post) :
    itemsTo source x = itemsTo source cursor ++ pre ++ [x] ∧ itemsPast source x = post := by
  have hsource : source = (itemsTo source cursor ++ pre ++ [x]) ++ post := by
    rw [List.append_assoc, List.append_assoc, List.singleton_append, ← hp, itemsTo_append_itemsPast hs]
  have hmem : x ∈ itemsPast source cursor := hp ▸ List.mem_append_right _ List.mem_cons_self
  have hcursor : cursor < x := by simpa using (List.mem_filter.1 hmem).2
  have hpast : (pre ++ x :: post).Pairwise (· < ·) := hp ▸ hs.filter _
  obtain ⟨-, hxpost, hpre⟩ := List.pairwise_append.1 hpast
  have hbefore : ∀ y ∈ itemsTo source cursor ++ pre ++ [x], y ≤ x := by
    intro y hy
    rw [List.append_assoc] at hy
    rcases List.mem_append.1 hy with hy | hy
    · have hle : y ≤ cursor := by simpa using (List.mem_filter.1 hy).2
      exact le_of_lt (lt_of_le_of_lt hle hcursor)
    · rcases List.mem_append.1 hy with hy | hy
      · exact le_of_lt (hpre y hy x List.mem_cons_self)
      · exact le_of_eq (List.mem_singleton.1 hy)
  have hafter : ∀ y ∈ post, x < y := (List.pairwise_cons.1 hxpost).1
  constructor
  · conv_lhs => rw [itemsTo, hsource]
    rw [List.filter_append, List.filter_eq_self.2 (fun y hy => decide_eq_true (hbefore y hy)),
      List.filter_eq_nil_iff.2 (fun y hy => by simpa using hafter y hy), List.append_nil]
  · conv_lhs => rw [itemsPast, hsource]
    rw [List.filter_append, List.filter_eq_nil_iff.2 (fun y hy => by simpa using hbefore y hy),
      List.filter_eq_self.2 (fun y hy => decide_eq_true (hafter y hy)), List.nil_append]

/-- The cursor passes what is sent, and nothing else. -/
theorem itemsTo_cursorAfter (hs : source.Pairwise (· < ·)) (n : Nat) :
    itemsTo source (cursorAfter cursor ((itemsPast source cursor).take n)) =
      itemsTo source cursor ++ (itemsPast source cursor).take n := by
  unfold cursorAfter
  cases hlast : ((itemsPast source cursor).take n).getLast? with
  | none => rw [List.getLast?_eq_none_iff.1 hlast, List.append_nil, Option.getD_none]
  | some x =>
    obtain ⟨pre, hpre⟩ := List.getLast?_eq_some_iff.1 hlast
    have hp : itemsPast source cursor = pre ++ x :: (itemsPast source cursor).drop n := by
      conv_lhs => rw [← List.take_append_drop n (itemsPast source cursor), hpre]
      rw [List.append_assoc, List.singleton_append]
    rw [hpre, Option.getD_some, (items_split hs hp).1, List.append_assoc]

/-! ## Reading -/

/-- What is kept of a first part of what is past the cursor: at least the items that are wanted, and the last one. -/
def Answer (source : List α) (wanted : α → Bool) (cursor : α) (kept : List α) : Prop :=
  ∃ n, kept.Sublist ((itemsPast source cursor).take n) ∧ (((itemsPast source cursor).take n).filter wanted).Sublist kept ∧
    ∀ last, ((itemsPast source cursor).take n).getLast? = some last → last ∈ kept

/-- The reader: its state is the cursor, and it logs what it keeps. -/
def feed (source : List α) (wanted : α → Bool) : Spec α α where
  Step cursor kept cursor' := ∃ n, kept.Sublist ((itemsPast source cursor).take n) ∧
    (((itemsPast source cursor).take n).filter wanted).Sublist kept ∧ cursor' = cursorAfter cursor ((itemsPast source cursor).take n)

variable {wanted : α → Bool}

/-- Nothing may be sent. -/
theorem Answer.nil : Answer source wanted cursor [] := ⟨0, by simp, by simp, by simp⟩

/-- A list that has not got the head of another is kept by its tail. -/
theorem sublist_of_cons_of_not_mem {β : Type} {x : β} {l l' : List β} (h : l.Sublist (x :: l')) (hx : x ∉ l) : l.Sublist l' := by
  rcases List.sublist_cons_iff.1 h with h | ⟨r, rfl, -⟩
  · exact h
  · exact absurd List.mem_cons_self hx

/-- Of an increasing list: nothing that is wanted is before the first item kept, and the rest is kept of what is after it. -/
theorem kept_after {pre post kept : List α} {x : α} (hincr : (pre ++ x :: post).Pairwise (· < ·)) (hkept : kept.Sublist post)
    (hwanted : ((pre ++ x :: post).filter wanted).Sublist (x :: kept)) :
    pre.filter wanted = [] ∧ (post.filter wanted).Sublist kept := by
  obtain ⟨-, hxpost, hpre⟩ := List.pairwise_append.1 hincr
  have hpost := (List.pairwise_cons.1 hxpost).1
  have hnone : pre.filter wanted = [] := by
    refine List.filter_eq_nil_iff.2 (fun y hy hw => ?_)
    have hm : y ∈ x :: kept := hwanted.subset (List.mem_filter.2 ⟨List.mem_append_left _ hy, hw⟩)
    rcases List.mem_cons.1 hm with rfl | hm
    · exact lt_irrefl _ (hpre y hy y List.mem_cons_self)
    · exact lt_irrefl _ (hpre y hy y (List.mem_cons_of_mem _ (hkept.subset hm)))
  refine ⟨hnone, ?_⟩
  rw [List.filter_append, hnone, List.nil_append, List.filter_cons] at hwanted
  split at hwanted
  · exact List.cons_sublist_cons.1 hwanted
  · exact sublist_of_cons_of_not_mem hwanted (fun hm => lt_irrefl _ (hpost x (List.mem_filter.1 hm).1))

/-- An answer is kept item by item, the cursor after each. -/
theorem Answer.next (hs : source.Pairwise (· < ·)) {x : α} {kept : List α} (h : Answer source wanted cursor (x :: kept)) :
    (feed source wanted).Step cursor [x] x ∧ cursor < x ∧ Answer source wanted x kept := by
  obtain ⟨n, hsent, hwanted, hlast⟩ := h
  obtain ⟨r, rest, hpart, hx, hrest⟩ := List.cons_sublist_iff.1 hsent
  obtain ⟨pre, mid, rfl⟩ := List.append_of_mem hx
  rw [List.append_assoc, List.cons_append] at hpart
  have hincr : (pre ++ x :: (mid ++ rest)).Pairwise (· < ·) := hpart ▸ ((hs.filter _).sublist (List.take_sublist _ _))
  have hkept : kept.Sublist (mid ++ rest) := hrest.trans (List.sublist_append_right _ _)
  rw [hpart] at hwanted hlast
  obtain ⟨hnone, hafter⟩ := kept_after hincr hkept hwanted
  have hpast : itemsPast source cursor = pre ++ x :: ((mid ++ rest) ++ (itemsPast source cursor).drop n) := by
    conv_lhs => rw [← List.take_append_drop n (itemsPast source cursor), hpart]
    rw [List.append_assoc, List.cons_append]
  have hmem : x ∈ itemsPast source cursor := hpast ▸ List.mem_append_right _ List.mem_cons_self
  refine ⟨⟨pre.length + 1, ?_, ?_, ?_⟩, by simpa using (List.mem_filter.1 hmem).2, (mid ++ rest).length, ?_, ?_, ?_⟩
  · rw [hpast, List.take_length_add_append]
    exact List.sublist_append_right pre [x]
  · rw [hpast, List.take_length_add_append, List.filter_append, hnone]
    exact List.filter_sublist
  · rw [hpast, List.take_length_add_append, cursorAfter]
    simp
  all_goals rw [(items_split hs hpast).2, List.take_left' rfl]
  · exact hkept
  · exact hafter
  · intro last hl
    have hm := hlast last (by rw [List.getLast?_append, List.getLast?_cons, hl]; simp)
    rcases List.mem_cons.1 hm with rfl | hm
    · -- the last item sent is not the one that is greater than all of them
      have hgt := (List.pairwise_cons.1 (List.pairwise_append.1 hincr).2.1).1 last (List.mem_of_getLast? hl)
      exact absurd hgt (lt_irrefl _)
    · exact hm

/-- What has been kept is in the source, up to the cursor, and what is wanted up to the cursor has been kept. -/
theorem feed_reach (hs : source.Pairwise (· < ·)) {cursor₀ : α} (h0 : itemsTo source cursor₀ = []) {log : List α}
    (h : (feed source wanted).Reach cursor₀ cursor log) :
    log.Sublist (itemsTo source cursor) ∧ ((itemsTo source cursor).filter wanted).Sublist log := by
  refine h.invariant (I := fun cursor log => log.Sublist (itemsTo source cursor) ∧ ((itemsTo source cursor).filter wanted).Sublist log)
    ?_ ?_
  · rw [h0]
    exact ⟨List.Sublist.refl _, List.Sublist.refl _⟩
  · rintro cursor log kept cursor' ⟨hlog, hwanted⟩ ⟨n, hkept, hsent, rfl⟩
    rw [itemsTo_cursorAfter hs, List.filter_append]
    exact ⟨hlog.append hkept, hwanted.append hsent⟩

end GwBot.Lib

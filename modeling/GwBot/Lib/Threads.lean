import Mathlib.Algebra.Order.Ring.Int
import Mathlib.Data.List.Basic
import Mathlib.Data.List.Forall2

/-!
# Pools of threads and condition variables

A pool is the list of the states of the threads of one kind. A thread that waits on a condition variable is asleep until it
is notified; `wake` is the notification (`Sleeper`). `broadcast` notifies every sleeper. `signal` notifies at least one sleeper
when there is one, of the scheduler's choosing. What the proofs use of both is `Woken`: each thread is as it was, or notified.
The counters that a program keeps beside a pool follow a count of its threads modulo 2^32 (`ofNat_succ`, `ofNat_pred`).
-/

namespace GwBot.Lib

/-- The thread states of one kind that may wait on a condition variable. -/
class Sleeper (τ : Type) where
  /-- The thread waits and no notification is pending for it. -/
  asleep : τ → Bool
  /-- The thread after a notification. -/
  wake : τ → τ
  wake_of_awake : ∀ x, asleep x = false → wake x = x
  asleep_wake : ∀ x, asleep (wake x) = false

open Sleeper

variable {τ : Type} [Sleeper τ]

/-- `cond_broadcast`: every sleeper is notified. -/
def broadcast (l : List τ) : List τ := l.map wake

/-- Notify the first sleeper. -/
def wakeFirst : List τ → List τ
  | [] => []
  | x :: xs => if asleep x then wake x :: xs else x :: wakeFirst xs

/-- `cond_signal`: the sleepers among the threads `ks` are notified, or the first sleeper when there is none among them. Every
way to notify at least one sleeper is a choice of `ks`. -/
def signal (ks : List Nat) (l : List τ) : List τ :=
  if ks.any (fun k => (l[k]?).any asleep) then l.mapIdx (fun k x => if ks.contains k then wake x else x)
  else wakeFirst l

/-- Each thread of `l'` is the one of `l`, perhaps notified. -/
def Woken (l l' : List τ) : Prop := List.Forall₂ (fun x x' => x' = x ∨ x' = wake x) l l'

namespace Woken

variable {l l' : List τ}

theorem refl (l : List τ) : Woken l l := by
  induction l with
  | nil => exact List.Forall₂.nil
  | cons x xs ih => exact List.Forall₂.cons (Or.inl rfl) ih

theorem length_eq (h : Woken l l') : l'.length = l.length := (List.Forall₂.length_eq h).symm

/-- What a notification does not change of a thread is unchanged in the pool. -/
theorem map_eq {β : Type} (f : τ → β) (hf : ∀ x, f (wake x) = f x) (h : Woken l l') : l'.map f = l.map f := by
  induction h with
  | nil => rfl
  | cons hx _ ih =>
    rw [List.map_cons, List.map_cons, ih]
    rcases hx with rfl | rfl
    · rfl
    · rw [hf]

theorem countP_eq (q : τ → Bool) (hq : ∀ x, q (wake x) = q x) (h : Woken l l') : l'.countP q = l.countP q := by
  induction h with
  | nil => rfl
  | cons hx _ ih =>
    rw [List.countP_cons, List.countP_cons, ih]
    rcases hx with rfl | rfl
    · rfl
    · rw [hq]

theorem getElem? (h : Woken l l') {k : Nat} {x' : τ} (hk : l'[k]? = some x') :
    ∃ x, l[k]? = some x ∧ (x' = x ∨ x' = wake x) := by
  induction h generalizing k with
  | nil => nomatch hk
  | @cons x y _ _ hx _ ih =>
    cases k with
    | zero =>
      simp only [List.getElem?_cons_zero, Option.some.injEq] at hk ⊢
      exact ⟨x, rfl, hk ▸ hx⟩
    | succ k =>
      simp only [List.getElem?_cons_succ] at hk ⊢
      exact ih hk

theorem getElem?_of (h : Woken l l') {k : Nat} {x : τ} (hk : l[k]? = some x) :
    ∃ x', l'[k]? = some x' ∧ (x' = x ∨ x' = wake x) := by
  induction h generalizing k with
  | nil => nomatch hk
  | @cons x y _ _ hx _ ih =>
    cases k with
    | zero =>
      simp only [List.getElem?_cons_zero, Option.some.injEq] at hk ⊢
      exact ⟨y, rfl, hk ▸ hx⟩
    | succ k =>
      simp only [List.getElem?_cons_succ] at hk ⊢
      exact ih hk

/-- What a thread keeps when it is notified, some thread still has after notifications. -/
theorem exists_mem {q : τ → Prop} (hq : ∀ x, q x → q (wake x)) (h : Woken l l') (hx : ∃ x ∈ l, q x) : ∃ x ∈ l', q x := by
  obtain ⟨x, hx, hqx⟩ := hx
  obtain ⟨k, hk⟩ := List.mem_iff_getElem?.1 hx
  obtain ⟨x', hk', rfl | rfl⟩ := h.getElem?_of hk
  · exact ⟨x', List.mem_of_getElem? hk', hqx⟩
  · exact ⟨wake x, List.mem_of_getElem? hk', hq x hqx⟩

/-- What a thread does not get by being notified, some thread had before notifications. -/
theorem exists_mem_of {q : τ → Prop} (hq : ∀ x, q (wake x) → q x) (h : Woken l l') (hx : ∃ x ∈ l', q x) : ∃ x ∈ l, q x := by
  obtain ⟨x', hx', hqx⟩ := hx
  obtain ⟨k, hk⟩ := List.mem_iff_getElem?.1 hx'
  obtain ⟨x, hk', rfl | rfl⟩ := h.getElem? hk
  · exact ⟨x', List.mem_of_getElem? hk', hqx⟩
  · exact ⟨x, List.mem_of_getElem? hk', hq x hqx⟩

/-- Whoever is asleep after notifications was so before them. -/
theorem mem_of_asleep (h : Woken l l') {x : τ} (hx : x ∈ l') (ha : asleep x = true) : x ∈ l := by
  obtain ⟨k, hk⟩ := List.mem_iff_getElem?.1 hx
  obtain ⟨y, hy, rfl | rfl⟩ := h.getElem? hk
  · exact List.mem_of_getElem? hy
  · exact absurd ((asleep_wake y).symm.trans ha) nofun

end Woken

/-! ## Broadcast and signal -/

theorem broadcast_woken (l : List τ) : Woken l (broadcast l) := by
  induction l with
  | nil => exact List.Forall₂.nil
  | cons x xs ih => exact List.Forall₂.cons (Or.inr rfl) ih

/-- A broadcast leaves nobody asleep. -/
theorem broadcast_awake (l : List τ) : ∀ x ∈ broadcast l, asleep x = false := by
  intro x hx
  obtain ⟨y, -, rfl⟩ := List.mem_map.1 hx
  exact asleep_wake y

theorem wakeFirst_woken (l : List τ) : Woken l (wakeFirst l) := by
  induction l with
  | nil => exact List.Forall₂.nil
  | cons x xs ih =>
    unfold wakeFirst
    split
    · exact List.Forall₂.cons (Or.inr rfl) (Woken.refl xs)
    · exact List.Forall₂.cons (Or.inl rfl) ih

theorem mapIdx_woken (p : Nat → Bool) (l : List τ) : Woken l (l.mapIdx (fun k x => if p k then wake x else x)) := by
  induction l generalizing p with
  | nil => exact List.Forall₂.nil
  | cons x xs ih =>
    rw [List.mapIdx_cons]
    refine List.Forall₂.cons ?_ (ih (fun k => p (k + 1)))
    split
    · exact Or.inr rfl
    · exact Or.inl rfl

theorem signal_woken (ks : List Nat) (l : List τ) : Woken l (signal ks l) := by
  unfold signal
  split
  · exact mapIdx_woken _ l
  · exact wakeFirst_woken l

theorem wakeFirst_wakes {l : List τ} (h : ∃ x ∈ l, asleep x = true) :
    ∃ (k : Nat) (x : τ), l[k]? = some x ∧ asleep x = true ∧ (wakeFirst l)[k]? = some (wake x) := by
  induction l with
  | nil => simp at h
  | cons x xs ih =>
    unfold wakeFirst
    by_cases hx : asleep x = true
    · rw [if_pos hx]
      exact ⟨0, x, rfl, hx, rfl⟩
    · rw [if_neg hx]
      obtain ⟨y, hy, hya⟩ := h
      rcases List.mem_cons.1 hy with rfl | hy
      · exact absurd hya hx
      · obtain ⟨k, z, h1, h2, h3⟩ := ih ⟨y, hy, hya⟩
        exact ⟨k + 1, z, h1, h2, h3⟩

/-- A signal notifies a sleeper when there is one. -/
theorem signal_wakes (ks : List Nat) {l : List τ} (h : ∃ x ∈ l, asleep x = true) :
    ∃ (k : Nat) (x : τ), l[k]? = some x ∧ asleep x = true ∧ (signal ks l)[k]? = some (wake x) := by
  unfold signal
  split
  · rename_i hany
    obtain ⟨k, hk, hka⟩ := List.any_eq_true.1 hany
    cases hx : l[k]? with
    | none => simp [hx] at hka
    | some x =>
      rw [hx] at hka
      refine ⟨k, x, hx, by simpa using hka, ?_⟩
      rw [List.getElem?_mapIdx, hx]
      simp [hk]
  · exact wakeFirst_wakes h

/-! ## Pools seen through a map -/

section Map

variable {σ : Type} [Sleeper σ] (f : σ → τ) (ha : ∀ x, asleep (f x) = asleep x) (hw : ∀ x, f (wake x) = wake (f x))
include hw

theorem broadcast_map (l : List σ) : (broadcast l).map f = broadcast (l.map f) := by
  unfold broadcast
  rw [List.map_map, List.map_map]
  exact List.map_congr_left (fun x _ => hw x)

include ha

theorem wakeFirst_map (l : List σ) : (wakeFirst l).map f = wakeFirst (l.map f) := by
  induction l with
  | nil => rfl
  | cons x xs ih =>
    rw [List.map_cons, wakeFirst, wakeFirst, ha]
    split
    · rw [List.map_cons, hw]
    · rw [List.map_cons, ih]

/-- A signal chooses among the threads by what a map keeps of them. -/
theorem signal_map (ks : List Nat) (l : List σ) : (signal ks l).map f = signal ks (l.map f) := by
  have hany : ks.any (fun k => ((l.map f)[k]?).any asleep) = ks.any (fun k => (l[k]?).any asleep) := by
    congr 1
    funext k
    cases h : l[k]? with
    | none => simp [h]
    | some x => simp [h, ha]
  unfold signal
  rw [hany]
  split
  · refine List.ext_getElem? (fun k => ?_)
    rw [List.getElem?_map, List.getElem?_mapIdx, List.getElem?_mapIdx, List.getElem?_map, Option.map_map, Option.map_map]
    congr 1
    funext x
    simp only [Function.comp_apply, apply_ite f, hw]
  · exact wakeFirst_map f ha hw l

end Map

/-! ## Counts of a pool -/

/-- A thread of a pool in which one has moved. -/
theorem getElem?_set_cases {β : Type} {l : List β} {i j : Nat} {y z : β} (h : (l.set i y)[j]? = some z) :
    (j = i ∧ z = y) ∨ (j ≠ i ∧ l[j]? = some z) := by
  by_cases hij : j = i
  · subst hij
    rw [List.getElem?_set_self (List.length_set ▸ (List.getElem?_eq_some_iff.1 h).1)] at h
    exact Or.inl ⟨rfl, (Option.some.inj h).symm⟩
  · rw [List.getElem?_set_ne (fun e => hij e.symm)] at h
    exact Or.inr ⟨hij, h⟩

/-- What a thread keeps when it moves is unchanged in the pool. -/
theorem map_set_same {β γ : Type} {l : List β} {k : Nat} {x y : β} (f : β → γ) (h : l[k]? = some x) (hf : f y = f x) :
    (l.set k y).map f = l.map f := by
  obtain ⟨hlt, rfl⟩ := List.getElem?_eq_some_iff.1 h
  rw [List.map_set, hf, ← List.getElem_map f (h := by rwa [List.length_map])]
  exact List.set_getElem_self _

/-- How a count changes when one thread moves. -/
theorem countP_set {β : Type} {l : List β} {k : Nat} {x y : β} (q : β → Bool) (h : l[k]? = some x) :
    (l.set k y).countP q + (if q x then 1 else 0) = l.countP q + (if q y then 1 else 0) := by
  induction l generalizing k with
  | nil => nomatch h
  | cons z zs ih =>
    cases k with
    | zero =>
      simp only [List.getElem?_cons_zero, Option.some.injEq] at h
      subst h
      simp only [List.set_cons_zero, List.countP_cons]
      omega
    | succ k =>
      simp only [List.getElem?_cons_succ] at h
      have := ih h
      simp only [List.set_cons_succ, List.countP_cons]
      omega

/-- A count over the pool follows a thread that moves between two states with the same answer. -/
theorem countP_set_same {β : Type} {l : List β} {k : Nat} {x y : β} (q : β → Bool) (h : l[k]? = some x) (hq : q y = q x) :
    (l.set k y).countP q = l.countP q := by
  have := countP_set (y := y) q h
  rw [hq] at this
  omega

theorem countP_pos_of_getElem? {β : Type} {l : List β} {k : Nat} {x : β} (q : β → Bool) (h : l[k]? = some x) (hq : q x = true) :
    0 < l.countP q :=
  List.countP_pos_iff.2 ⟨x, List.mem_of_getElem? h, hq⟩

/-- Two threads with a property count two. -/
theorem two_le_countP {β : Type} {l : List β} {i j : Nat} {x y : β} (q : β → Bool) (hij : i ≠ j) (hi : l[i]? = some x)
    (hj : l[j]? = some y) (hx : q x = true) (hy : q y = true) : 2 ≤ l.countP q := by
  induction l generalizing i j with
  | nil => nomatch hi
  | cons z zs ih =>
    cases i with
    | zero =>
      cases j with
      | zero => exact absurd rfl hij
      | succ j =>
        simp only [List.getElem?_cons_zero, Option.some.injEq] at hi
        subst hi
        have := countP_pos_of_getElem? q (l := zs) hj hy
        rw [List.countP_cons_of_pos hx]
        omega
    | succ i =>
      cases j with
      | zero =>
        simp only [List.getElem?_cons_zero, Option.some.injEq] at hj
        subst hj
        have := countP_pos_of_getElem? q (l := zs) hi hx
        rw [List.countP_cons_of_pos hy]
        omega
      | succ j =>
        have := ih (by omega) hi hj
        rw [List.countP_cons]
        omega

/-- Notifications put nobody to sleep. -/
theorem Woken.countP_asleep_le {l l' : List τ} (h : Woken l l') : l'.countP asleep ≤ l.countP asleep := by
  induction h with
  | nil => exact Nat.le_refl _
  | @cons x y _ _ hx _ ih =>
    rw [List.countP_cons, List.countP_cons]
    rcases hx with rfl | rfl
    · omega
    · rw [asleep_wake x, if_neg (by decide)]
      omega

/-- Where nobody is asleep a notification changes nothing. -/
theorem Woken.eq_of_awake {l l' : List τ} (h : Woken l l') (h0 : l.countP asleep = 0) : l' = l := by
  induction h with
  | nil => rfl
  | @cons x y _ _ hx _ ih =>
    rw [List.countP_cons] at h0
    have hawake : asleep x = false := by
      rw [← Bool.not_eq_true]
      intro hxa
      rw [if_pos hxa] at h0
      omega
    rw [ih (by omega)]
    rcases hx with rfl | rfl
    · rfl
    · rw [wake_of_awake x hawake]

/-- A notification of a sleeper leaves fewer of them. -/
theorem Woken.countP_asleep_lt {l l' : List τ} (h : Woken l l') {k : Nat} {x : τ} (hk : l[k]? = some x) (hx : asleep x = true)
    (hk' : l'[k]? = some (wake x)) : l'.countP asleep < l.countP asleep := by
  induction h generalizing k with
  | nil => nomatch hk
  | @cons y z _ _ hyz hrest ih =>
    rw [List.countP_cons, List.countP_cons]
    cases k with
    | zero =>
      simp only [List.getElem?_cons_zero, Option.some.injEq] at hk hk'
      subst hk hk'
      have := Woken.countP_asleep_le hrest
      rw [asleep_wake y, hx, if_neg (by decide), if_pos rfl]
      omega
    | succ k =>
      simp only [List.getElem?_cons_succ] at hk hk'
      have := ih hk hk'
      rcases hyz with rfl | rfl
      · omega
      · rw [asleep_wake y, if_neg (by decide)]
        omega

/-- A signal that finds a sleeper leaves fewer of them. -/
theorem signal_countP_asleep (ks : List Nat) {l : List τ} (h : 0 < l.countP asleep) :
    (signal ks l).countP asleep < l.countP asleep := by
  obtain ⟨k, x, hk, hx, hk'⟩ := signal_wakes ks (List.countP_pos_iff.1 h)
  exact (signal_woken ks l).countP_asleep_lt hk hx hk'

/-- When at most one thread has entered the wait, a signal leaves nobody asleep. -/
theorem signal_awake (ks : List Nat) {l : List τ} (q : τ → Bool) (hasleep : ∀ x, asleep x = true → q x = true)
    (h1 : l.countP q ≤ 1) : ∀ x ∈ signal ks l, asleep x = false := by
  intro x hx
  rw [← Bool.not_eq_true]
  intro hxa
  obtain ⟨i, hi⟩ := List.mem_iff_getElem?.1 hx
  have hw := signal_woken ks l
  obtain ⟨x', hi', rfl | rfl⟩ := hw.getElem? hi
  · obtain ⟨j, y, hj, hya, hj'⟩ := signal_wakes ks ⟨x, List.mem_of_getElem? hi', hxa⟩
    by_cases hij : i = j
    · subst hij
      cases hi.symm.trans hj'
      exact absurd ((asleep_wake y).symm.trans hxa) nofun
    · have := two_le_countP q hij hi' hj (hasleep x hxa) (hasleep y hya)
      omega
  · exact absurd ((asleep_wake x').symm.trans hxa) nofun

/-- The notification by a counter `n` of the threads in the wait: a signal for one, a broadcast for more. Unless the counter has
wrapped to a number that says too little, nobody is left asleep. -/
theorem notify_awake (ks : List Nat) {l : List τ} {n : UInt32} (q : τ → Bool) (hasleep : ∀ x, asleep x = true → q x = true)
    (hn : n = UInt32.ofNat (l.countP q)) (h1 : n > 1 ∨ l.countP q ≤ 1) :
    ∀ x ∈ (if n = 1 then signal ks l else if n > 1 then broadcast l else l), asleep x = false := by
  split
  · rename_i hone
    refine signal_awake ks q hasleep (h1.resolve_left (fun h2 => ?_))
    rw [hone] at h2
    exact absurd h2 (by decide)
  · rename_i hone
    split
    · exact broadcast_awake l
    · rename_i hmore
      -- the counter is zero, and so is the count
      have hle := h1.resolve_left hmore
      have hzero : l.countP q = 0 := by
        by_contra hpos
        have hcount : l.countP q = 1 := by omega
        rw [hcount] at hn
        exact hone hn
      intro x hx
      rw [← Bool.not_eq_true]
      exact fun hxa => List.countP_eq_zero.1 hzero x hx (hasleep x hxa)

/-! ## Counters beside a pool -/

theorem ofNat_succ (n : Nat) : UInt32.ofNat (n + 1) = UInt32.ofNat n + 1 := by
  rw [UInt32.ofNat_add]
  rfl

theorem ofNat_pred {n m : Nat} (h : n = m + 1) : UInt32.ofNat n - 1 = UInt32.ofNat m := by
  rw [h, ofNat_succ]
  simp

/-- The counter when a thread starts to count. -/
theorem counter_enter {β : Type} {l : List β} {k : Nat} {x y : β} {q : β → Bool} {n : UInt32} (h : l[k]? = some x)
    (hx : q x = false) (hy : q y = true) (hn : n = UInt32.ofNat (l.countP q)) :
    n + 1 = UInt32.ofNat ((l.set k y).countP q) := by
  have := countP_set (y := y) q h
  rw [hx, hy, if_neg (by decide), if_pos rfl, Nat.add_zero] at this
  rw [this, ofNat_succ, hn]

/-- The counter when a thread no longer counts. -/
theorem counter_leave {β : Type} {l : List β} {k : Nat} {x y : β} {q : β → Bool} {n : UInt32} (h : l[k]? = some x)
    (hx : q x = true) (hy : q y = false) (hn : n = UInt32.ofNat (l.countP q)) :
    n - 1 = UInt32.ofNat ((l.set k y).countP q) := by
  have := countP_set (y := y) q h
  rw [hx, hy, if_pos rfl, if_neg (by decide), Nat.add_zero] at this
  rw [hn]
  exact ofNat_pred this.symm

/-- A counter that follows a count below 2^32 is zero exactly when the count is. -/
theorem ofNat_eq_zero_iff {n : Nat} (h : n < 2 ^ 32) : UInt32.ofNat n = 0 ↔ n = 0 := by
  rw [← UInt32.toNat_inj, UInt32.toNat_ofNat_of_lt' h]
  rfl

end GwBot.Lib

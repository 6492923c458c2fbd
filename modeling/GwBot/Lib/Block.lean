import Mathlib.Data.List.Basic
import Mathlib.Data.List.Induction

/-!
# Blocks of the heap

A block that is used as an array of cells of one width: its size in bytes, and what its cells hold, `none` where nothing was stored
since the block was allocated or grew. Only a cell that lies inside of the block can be stored to.
-/

namespace GwBot.Lib

/-- A block of `size` bytes. -/
structure Block (α : Type) where
  size : Nat
  cells : Nat → Option α

namespace Block

variable {α : Type} {b b' : Block α} {width : Nat}

/-- `calloc(n, width)`. -/
def calloc (n width : Nat) : Block α := ⟨n * width, fun _ => none⟩

/-- `malloc(size)`. -/
def malloc (size : Nat) : Block α := ⟨size, fun _ => none⟩

/-- Cell `i` lies inside of the block. -/
def Inside (width : Nat) (b : Block α) (i : Nat) : Prop := (i + 1) * width ≤ b.size

instance (width : Nat) (b : Block α) (i : Nat) : Decidable (b.Inside width i) := inferInstanceAs (Decidable (_ ≤ _))

/-- A store to cell `i`; `none` when that is outside of the block. -/
def store (width : Nat) (b : Block α) (i : Nat) (x : α) : Option (Block α) :=
  if b.Inside width i then some { b with cells := fun j => if j = i then some x else b.cells j } else none

/-- `memcpy` to the cells from `i` on; `none` when one of them is outside of the block. -/
def copy (width : Nat) : Block α → Nat → List α → Option (Block α)
  | b, _, [] => some b
  | b, i, x :: xs =>
    match b.store width i x with
    | none => none
    | some b' => copy width b' (i + 1) xs

/-- `realloc` to `size` bytes: the cells that both blocks have keep what they hold. -/
def realloc (width : Nat) (b : Block α) (size : Nat) : Block α :=
  ⟨size, fun i => if (i + 1) * width ≤ size ∧ b.Inside width i then b.cells i else none⟩

/-- The block holds the elements of a list from its first cell on. -/
def Holds (b : Block α) (l : List α) : Prop := ∀ i x, l[i]? = some x → b.cells i = some x

theorem store_eq_some {i : Nat} {x : α} (h : b.store width i x = some b') :
    b.Inside width i ∧ b'.size = b.size ∧ ∀ j, b'.cells j = if j = i then some x else b.cells j := by
  unfold store at h
  split at h
  · rename_i hin
    cases h
    exact ⟨hin, rfl, fun _ => rfl⟩
  · nomatch h

/-- A store past the elements of a list appends to it. -/
theorem Holds.store {l : List α} (h : b.Holds l) {x : α} (hs : b.store width l.length x = some b') : b'.Holds (l ++ [x]) := by
  obtain ⟨-, -, hcells⟩ := store_eq_some hs
  intro i y hi
  rw [hcells]
  rcases Nat.lt_or_ge i l.length with hlt | hge
  · rw [List.getElem?_append_left hlt] at hi
    rw [if_neg (Nat.ne_of_lt hlt)]
    exact h i y hi
  · rw [List.getElem?_append_right hge] at hi
    obtain ⟨hlt, rfl⟩ := List.getElem?_eq_some_iff.1 hi
    have hi' : i = l.length := by
      rw [List.length_singleton] at hlt
      omega
    subst hi'
    simp

/-- A store to a cell that lies inside of the block. -/
theorem exists_store {i : Nat} (h : b.Inside width i) (x : α) : ∃ b', b.store width i x = some b' := ⟨_, if_pos h⟩

theorem Holds.of_append {l l' : List α} (h : b.Holds (l ++ l')) : b.Holds l := by
  intro i x hi
  exact h i x (by rw [List.getElem?_append_left (List.getElem?_eq_some_iff.1 hi).1, hi])

theorem copy_size {i : Nat} {xs : List α} (h : b.copy width i xs = some b') : b'.size = b.size := by
  induction xs generalizing b i with
  | nil =>
    cases h
    rfl
  | cons x xs ih =>
    rw [copy] at h
    split at h
    · nomatch h
    · rename_i b₁ hs
      exact (ih h).trans (store_eq_some hs).2.1

/-- A copy past the elements of a list appends to it. -/
theorem Holds.copy {l xs : List α} (h : b.Holds l) (hc : b.copy width l.length xs = some b') : b'.Holds (l ++ xs) := by
  induction xs generalizing b l with
  | nil =>
    cases hc
    rwa [List.append_nil]
  | cons x xs ih =>
    rw [Block.copy] at hc
    split at hc
    · nomatch hc
    · rename_i b₁ hs
      have := ih (h.store hs) (by rwa [List.length_append, List.length_singleton])
      rwa [List.append_assoc, List.singleton_append] at this

/-- A copy to cells that lie inside of the block. -/
theorem exists_copy {i : Nat} {xs : List α} (h : (i + xs.length) * width ≤ b.size) : ∃ b', b.copy width i xs = some b' := by
  induction xs generalizing b i with
  | nil => exact ⟨b, rfl⟩
  | cons x xs ih =>
    have hle : (i + 1) * width ≤ (i + (x :: xs).length) * width :=
      Nat.mul_le_mul_right _ (by rw [List.length_cons]; omega)
    obtain ⟨b₁, hs⟩ := exists_store (Nat.le_trans hle h) x
    have hsize := (store_eq_some hs).2.1
    have hnext : i + 1 + xs.length = i + (x :: xs).length := by
      rw [List.length_cons]
      omega
    obtain ⟨b', hb'⟩ := ih (b := b₁) (i := i + 1) (by rwa [hnext, hsize])
    exact ⟨b', by rw [Block.copy, hs]; exact hb'⟩

/-- What fits into both blocks is still held after a `realloc`. -/
theorem Holds.realloc {l : List α} (h : b.Holds l) {size : Nat} (hold : l.length * width ≤ b.size) (hnew : l.length * width ≤ size) :
    (b.realloc width size).Holds l := by
  intro i x hi
  have hlt : (i + 1) * width ≤ l.length * width := Nat.mul_le_mul_right _ (List.getElem?_eq_some_iff.1 hi).1
  show (if _ then _ else _) = _
  rw [if_pos ⟨Nat.le_trans hlt hnew, Nat.le_trans hlt hold⟩]
  exact h i x hi

/-- Reading the cells in order gives the list back. -/
theorem Holds.filterMap_range {l : List α} (h : b.Holds l) : (List.range l.length).filterMap b.cells = l := by
  induction l using List.reverseRecOn with
  | nil => rfl
  | append_singleton l x ih =>
    have hl : b.Holds l := h.of_append
    have hx : b.cells l.length = some x := h l.length x (by simp)
    rw [List.length_append, List.length_singleton, List.range_succ, List.filterMap_append, ih hl, List.filterMap_cons_some hx]
    rfl

end Block

end GwBot.Lib

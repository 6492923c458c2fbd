import Mathlib.Data.List.Basic

/-!
# Trees of reference-counted nodes

Each node has an address and a count of the references to it, and owns one reference to each of its children: `put` drops a
reference, and when that was the last one it frees the node, which drops those of the children. A node without an address is the
null pointer. What `put` does is said by three facts: it touches nothing outside of the tree (`put_refs_of_not_mem`), it drops at
most one reference to each node (`refs_le_put_refs`), and it frees a tree that nobody else refers to as a whole (`put_unshared`).
-/

namespace GwBot.Lib

/-- A tree of nodes with addresses; `nil` is the null pointer. -/
inductive RefTree (β : Type) where
  | nil
  | node (addr : Nat) (label : β) (children : List (RefTree β))

/-- The count of references of each node, and the addresses of the nodes freed so far, in order. -/
structure RefHeap where
  refs : Nat → Nat
  freed : List Nat

namespace RefHeap

/-- Set the count of one node. -/
def setRefs (h : RefHeap) (a n : Nat) : RefHeap := { h with refs := fun i => if i = a then n else h.refs i }

/-- A node whose last reference is dropped. -/
def free (h : RefHeap) (a : Nat) : RefHeap := { h.setRefs a 0 with freed := h.freed ++ [a] }

/-- Nodes that are freed together. -/
def freeAll (h : RefHeap) (l : List Nat) : RefHeap :=
  { refs := fun a => if a ∈ l then 0 else h.refs a, freed := h.freed ++ l }

@[simp] theorem setRefs_refs (h : RefHeap) (a n i : Nat) : (h.setRefs a n).refs i = if i = a then n else h.refs i := rfl

@[simp] theorem setRefs_freed (h : RefHeap) (a n : Nat) : (h.setRefs a n).freed = h.freed := rfl

@[simp] theorem free_refs (h : RefHeap) (a i : Nat) : (h.free a).refs i = if i = a then 0 else h.refs i := rfl

@[simp] theorem free_freed (h : RefHeap) (a : Nat) : (h.free a).freed = h.freed ++ [a] := rfl

end RefHeap

namespace RefTree

variable {β : Type}

/-- The null pointer. -/
def isNil : RefTree β → Bool
  | .nil => true
  | .node _ _ _ => false

/-- The address of the root. -/
def root? : RefTree β → Option Nat
  | .nil => none
  | .node a _ _ => some a

mutual
/-- The addresses of the nodes of a tree, each before those below it. -/
def addrs : RefTree β → List Nat
  | .nil => []
  | .node a _ cs => a :: addrsList cs
/-- The addresses of the nodes of some trees. -/
def addrsList : List (RefTree β) → List Nat
  | [] => []
  | c :: cs => addrs c ++ addrsList cs
end

/-- Take a reference. -/
def get (h : RefHeap) : RefTree β → RefHeap
  | .nil => h
  | .node a _ _ => h.setRefs a (h.refs a + 1)

mutual
/-- Drop a reference: true if that freed the node. To drop one of a node that has none is an error of the caller, and does nothing
here. -/
def put (h : RefHeap) : RefTree β → RefHeap × Bool
  | .nil => (h, false)
  | .node a _ cs => if h.refs a = 1 then (putList (h.free a) cs, true) else (h.setRefs a (h.refs a - 1), false)
/-- Drop one reference to each of some trees. -/
def putList (h : RefHeap) : List (RefTree β) → RefHeap
  | [] => h
  | c :: cs => putList (put h c).1 cs
end

/-- A new tree: each node has one reference, its parent's or the caller's. -/
def new (h : RefHeap) (t : RefTree β) : RefHeap := { h with refs := fun a => if a ∈ t.addrs then 1 else h.refs a }

/-- The nodes of the tree are distinct, and none has been freed before. -/
structure IsNew (h : RefHeap) (t : RefTree β) : Prop where
  nodup : t.addrs.Nodup
  fresh : ∀ a ∈ t.addrs, a ∉ h.freed

theorem mem_addrsList {a : Nat} {c : RefTree β} {cs : List (RefTree β)} (hc : c ∈ cs) (ha : a ∈ c.addrs) : a ∈ addrsList cs := by
  induction cs with
  | nil => nomatch hc
  | cons d ds ih =>
    rw [addrsList, List.mem_append]
    rcases List.mem_cons.1 hc with rfl | hc
    · exact Or.inl ha
    · exact Or.inr (ih hc)

/-! ## What `put` does -/

mutual
/-- Dropping a reference to a tree touches nothing outside of it. -/
theorem put_refs_of_not_mem {a : Nat} (h : RefHeap) : ∀ t : RefTree β, a ∉ t.addrs → (put h t).1.refs a = h.refs a
  | .nil, _ => rfl
  | .node b _ cs, ha => by
    rw [addrs, List.mem_cons, not_or] at ha
    rw [put]
    split
    · exact (putList_refs_of_not_mem _ cs ha.2).trans (if_neg ha.1)
    · exact if_neg ha.1
theorem putList_refs_of_not_mem {a : Nat} (h : RefHeap) :
    ∀ cs : List (RefTree β), a ∉ addrsList cs → (putList h cs).refs a = h.refs a
  | [], _ => rfl
  | c :: cs, ha => by
    rw [addrsList, List.mem_append, not_or] at ha
    rw [putList, putList_refs_of_not_mem _ cs ha.2, put_refs_of_not_mem h c ha.1]
end

mutual
/-- Of a tree without repeated nodes, each node loses at most one reference. -/
theorem refs_le_put_refs (a : Nat) (h : RefHeap) : ∀ t : RefTree β, t.addrs.Nodup → h.refs a ≤ (put h t).1.refs a + 1
  | .nil, _ => Nat.le_succ _
  | .node b _ cs, hnd => by
    rw [addrs, List.nodup_cons] at hnd
    rw [put]
    split
    · rename_i hb
      by_cases hab : a = b
      · rw [hab, hb]
        exact Nat.le_add_left 1 _
      · have hle := refs_le_putList_refs a (h.free b) cs hnd.2
        rwa [RefHeap.free_refs, if_neg hab] at hle
    · rw [RefHeap.setRefs_refs]
      split <;> rename_i hab
      · rw [hab]
        omega
      · exact Nat.le_succ _
theorem refs_le_putList_refs (a : Nat) (h : RefHeap) :
    ∀ cs : List (RefTree β), (addrsList cs).Nodup → h.refs a ≤ (putList h cs).refs a + 1
  | [], _ => Nat.le_succ _
  | c :: cs, hnd => by
    obtain ⟨h1, h2, hdis⟩ := List.nodup_append.1 hnd
    rw [putList]
    by_cases hac : a ∈ c.addrs
    · rw [putList_refs_of_not_mem _ cs (fun ha => hdis a hac a ha rfl)]
      exact refs_le_put_refs a h c h1
    · rw [← put_refs_of_not_mem h c hac]
      exact refs_le_putList_refs a _ cs h2
end

mutual
/-- A tree that nobody else refers to is freed as a whole, each node once. -/
theorem put_unshared (h : RefHeap) : ∀ t : RefTree β, t.addrs.Nodup → (∀ a ∈ t.addrs, h.refs a = 1) →
    (put h t).1 = h.freeAll t.addrs
  | .nil, _, _ => by simp [put, RefHeap.freeAll, addrs]
  | .node b _ cs, hnd, hone => by
    rw [addrs, List.nodup_cons] at hnd
    have hcs : ∀ a ∈ addrsList cs, (h.free b).refs a = 1 := by
      intro a ha
      rw [RefHeap.free_refs, if_neg (ne_of_mem_of_not_mem ha hnd.1)]
      exact hone a (List.mem_cons_of_mem _ ha)
    rw [put, if_pos (hone b List.mem_cons_self), putList_unshared _ cs hnd.2 hcs]
    simp only [RefHeap.freeAll, RefHeap.free_freed, RefHeap.free_refs, addrs, List.append_assoc, List.singleton_append,
      RefHeap.mk.injEq, and_true]
    funext a
    by_cases ha : a ∈ addrsList cs <;> by_cases hab : a = b <;> simp [ha, hab]
theorem putList_unshared (h : RefHeap) : ∀ cs : List (RefTree β), (addrsList cs).Nodup → (∀ a ∈ addrsList cs, h.refs a = 1) →
    putList h cs = h.freeAll (addrsList cs)
  | [], _, _ => by simp [putList, RefHeap.freeAll, addrsList]
  | c :: cs, hnd, hone => by
    obtain ⟨h1, h2, hdis⟩ := List.nodup_append.1 hnd
    have hc : ∀ a ∈ c.addrs, h.refs a = 1 := fun a ha => hone a (List.mem_append.2 (Or.inl ha))
    have hcs : ∀ a ∈ addrsList cs, (put h c).1.refs a = 1 := by
      intro a ha
      rw [put_refs_of_not_mem h c (fun hac => hdis a hac a ha rfl)]
      exact hone a (List.mem_append.2 (Or.inr ha))
    rw [putList, putList_unshared _ cs h2 hcs, put_unshared h c h1 hc]
    simp only [RefHeap.freeAll, addrsList, List.append_assoc, List.mem_append, RefHeap.mk.injEq, and_true]
    funext a
    by_cases ha : a ∈ addrsList cs <;> simp [ha]
end

/-- A reference that is not the last one is dropped, and that is all. -/
theorem put_shared {a : Nat} {label : β} {cs : List (RefTree β)} (h : RefHeap) (ha : h.refs a ≠ 1) :
    put h (.node a label cs) = (h.setRefs a (h.refs a - 1), false) :=
  if_neg ha

/-! ## New trees -/

@[simp] theorem new_freed (h : RefHeap) (t : RefTree β) : (new h t).freed = h.freed := rfl

theorem new_refs {t : RefTree β} {a : Nat} (h : RefHeap) (ha : a ∈ t.addrs) : (new h t).refs a = 1 := if_pos ha

/-- A new tree is freed as a whole by the drop of its one reference. -/
theorem put_new {h : RefHeap} {t : RefTree β} (ht : IsNew h t) : (put (new h t) t).1 = (new h t).freeAll t.addrs :=
  put_unshared _ t ht.nodup (fun _ ha => new_refs h ha)

end RefTree

end GwBot.Lib

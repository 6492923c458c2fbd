import Mathlib.Data.Nat.Basic
import Mathlib.Data.Nat.ModEq

/-!
# Free-running counters and the window between them

A ring of `mask + 1` slots, a power of two, is driven by two 32-bit counters that are never reduced: the consumer's `head` and
the producer's `tail`. The slot of a counter is its value masked. `occupancy head tail` is the number of entries between
them, whichever of the two has wrapped; `absDiff` is the other measure in use, the absolute difference of the raw values.
The two agree only while neither or both have wrapped (`absDiff_cases`), but a fullness test on `absDiff` is never too
permissive for a ring of at most 2^31 slots (`occupancy_lt_of_absDiff_lt`).
-/

namespace GwBot.Lib

/-- A mask of a power-of-two ring. -/
def IsMask (mask : UInt32) : Prop := ∃ k, mask.toNat + 1 = 2 ^ k

/-- The number of entries from `head` up to `tail`, modulo 2^32. -/
def occupancy (head tail : UInt32) : Nat := (tail - head).toNat

/-- `llabs((int64_t)a - (int64_t)b)` of two `uint32_t`. -/
def absDiff (a b : UInt32) : Nat := ((a.toNat : Int) - (b.toNat : Int)).natAbs

/-- The slot a counter points to. -/
def slotOf (mask i : UInt32) : Nat := (i &&& mask).toNat

/-- The `n` slots from `head` on, in order. -/
def entriesFrom {α : Type} (slots : Nat → α) (mask : UInt32) : UInt32 → Nat → List α
  | _, 0 => []
  | head, n + 1 => slots (slotOf mask head) :: entriesFrom slots mask (head + 1) n

/-- The entries of the window from `head` up to `tail`, oldest first. -/
def window {α : Type} (slots : Nat → α) (mask head tail : UInt32) : List α :=
  entriesFrom slots mask head (occupancy head tail)

/-- A write to one slot. -/
def writeSlot {α : Type} (slots : Nat → α) (i : Nat) (x : α) : Nat → α := fun j => if j = i then x else slots j

variable {α : Type} {slots : Nat → α} {mask head tail : UInt32}

/-! ## Counters -/

theorem occupancy_eq (head tail : UInt32) :
    occupancy head tail = if head.toNat ≤ tail.toNat then tail.toNat - head.toNat else 2 ^ 32 + tail.toNat - head.toNat := by
  have h1 := UInt32.toNat_lt head
  have h2 := UInt32.toNat_lt tail
  unfold occupancy
  rw [UInt32.toNat_sub]
  split <;> omega

theorem occupancy_lt (head tail : UInt32) : occupancy head tail < 2 ^ 32 := UInt32.toNat_lt _

@[simp] theorem occupancy_self (i : UInt32) : occupancy i i = 0 := by simp [occupancy]

/-- The window is empty exactly when the counters are equal. -/
theorem occupancy_eq_zero_iff : occupancy head tail = 0 ↔ head = tail := by
  constructor
  · intro h
    have h1 := UInt32.toNat_lt head
    have h2 := UInt32.toNat_lt tail
    rw [occupancy_eq] at h
    apply UInt32.toNat_inj.1
    split at h <;> omega
  · rintro rfl
    exact occupancy_self _

/-- The absolute difference is the occupancy, or its complement when the tail has wrapped and the head has not. -/
theorem absDiff_cases (head tail : UInt32) :
    absDiff tail head = if head.toNat ≤ tail.toNat then occupancy head tail else 2 ^ 32 - occupancy head tail := by
  have h1 := UInt32.toNat_lt head
  have h2 := UInt32.toNat_lt tail
  rw [occupancy_eq]
  unfold absDiff
  split <;> omega

theorem absDiff_comm (a b : UInt32) : absDiff a b = absDiff b a := by
  unfold absDiff
  omega

theorem absDiff_eq_zero_iff : absDiff tail head = 0 ↔ head = tail := by
  constructor
  · intro h
    apply UInt32.toNat_inj.1
    unfold absDiff at h
    omega
  · rintro rfl
    simp [absDiff]

/-- The fullness test on the absolute difference is never too permissive: in a ring of at most 2^31 slots that is not
overfull, passing it leaves a free slot. -/
theorem occupancy_lt_of_absDiff_lt {cap : Nat} (hcap : cap ≤ 2 ^ 31) (hocc : occupancy head tail ≤ cap)
    (h : absDiff tail head < cap) : occupancy head tail < cap := by
  rw [absDiff_cases] at h
  split at h <;> omega

/-- While neither or both counters have wrapped the test is exact. -/
theorem absDiff_eq_occupancy (h : head ≤ tail) : absDiff tail head = occupancy head tail := by
  rw [absDiff_cases, if_pos (UInt32.le_iff_toNat_le.1 h)]

/-- In a ring of at most 2^31 slots that is not overfull, the absolute difference is the occupancy in no other case, but for the one
occupancy that is its own complement. -/
theorem absDiff_eq_occupancy_iff (hocc : occupancy head tail ≤ 2 ^ 31) :
    absDiff tail head = occupancy head tail ↔ head ≤ tail ∨ occupancy head tail = 2 ^ 31 := by
  rw [absDiff_cases, UInt32.le_iff_toNat_le]
  split
  · exact iff_of_true rfl (Or.inl ‹_›)
  · omega

/-- The fullness test on the absolute difference is exact while neither or both counters have wrapped; otherwise it always says full. -/
theorem absDiff_full_iff {cap : Nat} (hcap : cap ≤ 2 ^ 31) (hocc : occupancy head tail ≤ cap) :
    (cap ≤ absDiff tail head ↔ occupancy head tail = cap) ↔ head ≤ tail ∨ occupancy head tail = cap := by
  rw [absDiff_cases, UInt32.le_iff_toNat_le]
  split <;> omega

theorem occupancy_push {cap : Nat} (hcap : cap ≤ 2 ^ 31) (h : occupancy head tail < cap) :
    occupancy head (tail + 1) = occupancy head tail + 1 := by
  have h1 := UInt32.toNat_lt head
  have h2 := UInt32.toNat_lt tail
  have h3 : (1 : UInt32).toNat = 1 := rfl
  unfold occupancy at *
  rw [UInt32.toNat_sub] at h
  rw [UInt32.toNat_sub, UInt32.toNat_sub, UInt32.toNat_add, h3]
  omega

theorem occupancy_pop (h : head ≠ tail) : occupancy head tail = occupancy (head + 1) tail + 1 := by
  have h1 := UInt32.toNat_lt head
  have h2 := UInt32.toNat_lt tail
  have h3 : (1 : UInt32).toNat = 1 := rfl
  have h4 : head.toNat ≠ tail.toNat := fun e => h (UInt32.toNat_inj.1 e)
  unfold occupancy
  rw [UInt32.toNat_sub, UInt32.toNat_sub, UInt32.toNat_add, h3]
  omega

/-- Advancing the head by as much as the window holds, or less. -/
theorem occupancy_advance {n : Nat} (hn : n ≤ occupancy head tail) :
    occupancy (head + UInt32.ofNat n) tail = occupancy head tail - n := by
  have h1 := UInt32.toNat_lt head
  have h2 := UInt32.toNat_lt tail
  have h3 : (UInt32.ofNat n).toNat = n := UInt32.toNat_ofNat_of_lt' (Nat.lt_of_le_of_lt hn (occupancy_lt _ _))
  unfold occupancy at *
  rw [UInt32.toNat_sub] at hn
  rw [UInt32.toNat_sub, UInt32.toNat_sub, UInt32.toNat_add, h3]
  omega

/-- The same, by a counter. -/
theorem occupancy_add_head {n : UInt32} (hn : n.toNat ≤ occupancy head tail) :
    occupancy (head + n) tail = occupancy head tail - n.toNat := by
  have := occupancy_advance hn
  rwa [UInt32.ofNat_toNat] at this

/-! ## Slots -/

theorem slotOf_eq {k : Nat} (hm : mask.toNat + 1 = 2 ^ k) (i : UInt32) : slotOf mask i = i.toNat % 2 ^ k := by
  have : mask.toNat = 2 ^ k - 1 := by omega
  unfold slotOf
  rw [UInt32.toNat_and, this, Nat.and_two_pow_sub_one_eq_mod]

/-- Two counters less than a ring apart have different slots. -/
theorem slotOf_ne (hm : IsMask mask) {i j : UInt32} (hne : i ≠ j) (h : occupancy i j < mask.toNat + 1) :
    slotOf mask i ≠ slotOf mask j := by
  obtain ⟨k, hk⟩ := hm
  have hm32 := UInt32.toNat_lt mask
  have hkle : k ≤ 32 := by
    rw [← Nat.pow_le_pow_iff_right (a := 2) (by decide)]
    omega
  have hd : 2 ^ k ∣ 2 ^ 32 := Nat.pow_dvd_pow 2 hkle
  have hpos : 0 < occupancy i j := Nat.pos_of_ne_zero (fun e => hne (occupancy_eq_zero_iff.1 e))
  have hj : j.toNat = (i.toNat + occupancy i j) % 2 ^ 32 := by
    have h1 := UInt32.toNat_lt i
    have h2 := UInt32.toNat_lt j
    rw [occupancy_eq]
    split <;> omega
  rw [slotOf_eq hk, slotOf_eq hk, hj, Nat.mod_mod_of_dvd _ hd]
  rw [hk] at h
  generalize occupancy i j = d at *
  generalize 2 ^ k = M at *
  intro e
  have hz : d % M = 0 := by
    have : i.toNat + 0 ≡ i.toNat + d [MOD M] := e
    exact (Nat.ModEq.add_left_cancel' i.toNat this).symm
  rw [Nat.mod_eq_of_lt h] at hz
  omega

/-- The slots of the window of a ring that is not full are not the slot of the tail. -/
theorem slotOf_ne_tail (hm : IsMask mask) {n : Nat} (hn : n < occupancy head tail) (h : occupancy head tail < mask.toNat + 1) :
    slotOf mask (head + UInt32.ofNat n) ≠ slotOf mask tail := by
  have hadv := occupancy_advance (Nat.le_of_lt hn)
  refine slotOf_ne hm ?_ (by omega)
  intro e
  rw [e, occupancy_self] at hadv
  omega

/-! ## The window -/

@[simp] theorem entriesFrom_length (slots : Nat → α) (mask head : UInt32) (n : Nat) :
    (entriesFrom slots mask head n).length = n := by
  induction n generalizing head with
  | zero => rfl
  | succ n ih => simp [entriesFrom, ih]

@[simp] theorem window_length (slots : Nat → α) (mask head tail : UInt32) :
    (window slots mask head tail).length = occupancy head tail := entriesFrom_length _ _ _ _

@[simp] theorem window_self (slots : Nat → α) (mask i : UInt32) : window slots mask i i = [] := by
  simp [window, entriesFrom]

/-- The oldest entry leaves the window when the head advances. -/
theorem window_pop (h : head ≠ tail) :
    window slots mask head tail = slots (slotOf mask head) :: window slots mask (head + 1) tail := by
  unfold window
  rw [occupancy_pop h]
  rfl

/-- An entry of the window is what its slot holds. -/
theorem entriesFrom_getElem? {n k : Nat} (h : k < n) :
    (entriesFrom slots mask head n)[k]? = some (slots (slotOf mask (head + UInt32.ofNat k))) := by
  induction n generalizing head k with
  | zero => omega
  | succ n ih =>
    cases k with
    | zero =>
      rw [show UInt32.ofNat 0 = 0 from rfl, UInt32.add_zero]
      rfl
    | succ k =>
      rw [entriesFrom, List.getElem?_cons_succ, ih (by omega), UInt32.ofNat_add, UInt32.add_assoc, UInt32.add_comm 1]
      rfl

theorem window_getElem? {k : Nat} (h : k < occupancy head tail) :
    (window slots mask head tail)[k]? = some (slots (slotOf mask (head + UInt32.ofNat k))) := entriesFrom_getElem? h

/-- The slots of a window have its entries. -/
theorem entriesFrom_eq_map (slots : Nat → α) (mask head : UInt32) (n : Nat) :
    entriesFrom slots mask head n = (entriesFrom id mask head n).map slots := by
  induction n generalizing head with
  | zero => rfl
  | succ n ih =>
    rw [entriesFrom, ih, entriesFrom, List.map_cons]
    rfl

/-- No more entries than a ring has slots are in different slots. -/
theorem entriesFrom_nodup (hm : IsMask mask) {n : Nat} (hn : n ≤ mask.toNat + 1) (head : UInt32) :
    (entriesFrom id mask head n).Nodup := by
  induction n generalizing head with
  | zero => exact List.nodup_nil
  | succ n ih =>
    rw [entriesFrom, List.nodup_cons]
    refine ⟨fun hmem => ?_, ih (by omega) _⟩
    obtain ⟨k, hk⟩ := List.mem_iff_getElem?.1 hmem
    have hlt : k < n := by simpa using (List.getElem?_eq_some_iff.1 hk).1
    rw [entriesFrom_getElem? hlt, Option.some.injEq] at hk
    have hocc : occupancy head (head + 1 + UInt32.ofNat k) = k + 1 := by
      have h1 := UInt32.toNat_lt mask
      have h2 := UInt32.toNat_lt head
      have h3 : (UInt32.ofNat k).toNat = k := UInt32.toNat_ofNat_of_lt' (show k < 2 ^ 32 by omega)
      have h4 : (1 : UInt32).toNat = 1 := rfl
      rw [occupancy_eq, UInt32.toNat_add, UInt32.toNat_add, h3, h4]
      split <;> omega
    refine slotOf_ne hm (fun e => ?_) (by omega) hk.symm
    rw [← e, occupancy_self] at hocc
    omega

/-- A write to a slot outside of a window leaves the window as it was. -/
theorem entriesFrom_writeSlot (hm : IsMask mask) (x : α) (n : Nat) (head tail : UInt32) (hn : n ≤ occupancy head tail)
    (h : occupancy head tail < mask.toNat + 1) :
    entriesFrom (writeSlot slots (slotOf mask tail) x) mask head n = entriesFrom slots mask head n := by
  induction n generalizing head with
  | zero => rfl
  | succ n ih =>
    have hne : head ≠ tail := fun e => by rw [e, occupancy_self] at hn; omega
    have hpop := occupancy_pop hne
    simp only [entriesFrom, writeSlot]
    rw [if_neg (slotOf_ne hm hne h)]
    congr 1
    exact ih (head + 1) (by omega) (by omega)

theorem entriesFrom_snoc (slots : Nat → α) (mask head tail : UInt32) (n : Nat) (hn : n = occupancy head tail) :
    entriesFrom slots mask head (n + 1) = entriesFrom slots mask head n ++ [slots (slotOf mask tail)] := by
  induction n generalizing head with
  | zero =>
    have : head = tail := occupancy_eq_zero_iff.1 hn.symm
    subst this
    rfl
  | succ n ih =>
    have hne : head ≠ tail := fun e => by rw [e, occupancy_self] at hn; omega
    have hpop := occupancy_pop hne
    rw [entriesFrom, ih (head + 1) (by omega)]
    rfl

/-- Advancing the tail appends what its slot holds. -/
theorem window_snoc {cap : Nat} (hcap : cap ≤ 2 ^ 31) (h : occupancy head tail < cap) (slots : Nat → α) (mask : UInt32) :
    window slots mask head (tail + 1) = window slots mask head tail ++ [slots (slotOf mask tail)] := by
  unfold window
  rw [occupancy_push hcap h, entriesFrom_snoc _ _ _ tail _ rfl]

/-- Writing the slot of the tail and advancing the tail appends the entry to the window, when a slot was free. -/
theorem window_push (slots : Nat → α) (hm : IsMask mask) (hcap : mask.toNat + 1 ≤ 2 ^ 31) (h : occupancy head tail < mask.toNat + 1)
    (x : α) :
    window (writeSlot slots (slotOf mask tail) x) mask head (tail + 1) = window slots mask head tail ++ [x] := by
  rw [window_snoc hcap h]
  unfold window
  rw [entriesFrom_writeSlot hm x _ head tail (Nat.le_refl _) h]
  simp [writeSlot]

/-- Advancing the head drops the oldest entries. -/
theorem entriesFrom_drop (slots : Nat → α) (mask head : UInt32) (n m : Nat) :
    entriesFrom slots mask (head + UInt32.ofNat n) m = (entriesFrom slots mask head (n + m)).drop n := by
  induction n generalizing head with
  | zero => simp
  | succ n ih =>
    rw [Nat.succ_add, entriesFrom, List.drop_succ_cons, ← ih, UInt32.ofNat_add, UInt32.add_assoc,
      UInt32.add_comm (UInt32.ofNat n)]
    rfl

theorem window_advance (slots : Nat → α) (mask : UInt32) {n : Nat} (hn : n ≤ occupancy head tail) :
    window slots mask (head + UInt32.ofNat n) tail = (window slots mask head tail).drop n := by
  unfold window
  rw [occupancy_advance hn, entriesFrom_drop, Nat.add_sub_cancel' hn]

/-- A write to the slot of the tail leaves the window as it was, when that slot was free. -/
theorem window_writeSlot (hm : IsMask mask) (h : occupancy head tail < mask.toNat + 1) (x : α) :
    window (writeSlot slots (slotOf mask tail) x) mask head tail = window slots mask head tail :=
  entriesFrom_writeSlot hm x _ head tail (Nat.le_refl _) h

end GwBot.Lib

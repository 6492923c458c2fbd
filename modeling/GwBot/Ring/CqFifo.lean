import GwBot.Ring.Sections

/-!
# The completion queue is a lossless FIFO

`Cq.Inv` ties the counters of the completion queue to what was posted and visited: the completions posted are those released by an
advance followed by the window, and the ones visited are those released followed by the part of the window that the walk has
passed. The fullness test compares absolute differences of wrapped counters, but it never passes when no slot is free.
-/

namespace GwBot

open Lib

variable {τ : Type}

/-- `u32_diff` is the distance of two counters. -/
theorem u32Diff_toNat (a b : UInt32) : (u32Diff a b).toNat = absDiff a b := by
  have h1 := UInt32.toNat_lt a
  have h2 := UInt32.toNat_lt b
  refine UInt32.toNat_ofNat_of_lt' ?_
  unfold absDiff
  show _ < 4294967296
  omega

/-- The completions posted so far, in order. -/
def postedOf (log : List (CqEvent τ)) : List GwRingCqe :=
  log.filterMap (fun e => match e with
    | .posted _ cqe => some cqe
    | _ => none)

/-- The completions visited so far, in order. -/
def visitedOf (log : List (CqEvent τ)) : List GwRingCqe :=
  log.filterMap (fun e => match e with
    | .visited cqe => some cqe
    | _ => none)

@[simp] theorem postedOf_nil : postedOf ([] : List (CqEvent τ)) = [] := rfl

@[simp] theorem postedOf_posted (thread : τ) (cqe : GwRingCqe) : postedOf [.posted thread cqe] = [cqe] := rfl

@[simp] theorem postedOf_visited (cqe : GwRingCqe) : postedOf [(.visited cqe : CqEvent τ)] = [] := rfl

@[simp] theorem visitedOf_nil : visitedOf ([] : List (CqEvent τ)) = [] := rfl

@[simp] theorem visitedOf_posted (thread : τ) (cqe : GwRingCqe) : visitedOf [.posted thread cqe] = [] := rfl

@[simp] theorem visitedOf_visited (cqe : GwRingCqe) : visitedOf [(.visited cqe : CqEvent τ)] = [cqe] := rfl

/-- What was posted in two logs. -/
theorem postedOf_append (l l' : List (CqEvent τ)) : postedOf (l ++ l') = postedOf l ++ postedOf l' := List.filterMap_append

theorem visitedOf_append (l l' : List (CqEvent τ)) : visitedOf (l ++ l') = visitedOf l ++ visitedOf l' := List.filterMap_append

/-- How many entries the walk has visited since the last advance. -/
def ReaderPc.nrVisited : ReaderPc → Nat
  | .walking _ n | .entry _ n | .body _ n | .advancing n => n.toNat
  | _ => 0

theorem ReaderPc.nrVisited_of_not_walking {pc : ReaderPc} (h : pc.isWalking = false) : pc.nrVisited = 0 := by
  cases pc <;> first | rfl | cases h

/-- A wake leaves the count of what was visited. -/
@[simp] theorem ReaderPc.nrVisited_wake (pc : ReaderPc) : pc.wake.nrVisited = pc.nrVisited := by
  cases pc <;> rfl

namespace Cq

variable (cq : Cq τ)

/-- `cq_mask + 1u`, the number of slots. -/
def cap : Nat := (cq.cqMask + 1).toNat

/-- The unconsumed completions, oldest first. -/
def unconsumed : List GwRingCqe := window cq.cqes cq.cqMask cq.cqHead cq.cqTail

/-- The number of unconsumed completions. -/
def nrUnconsumed : Nat := occupancy cq.cqHead cq.cqTail

/-- What the walk knows: its place is as many entries from `cq_head` as it has visited, and not past `cq_tail`. -/
def ReaderOk : Prop :=
  match cq.reader with
  | .walking head n => head = cq.cqHead + n ∧ n.toNat ≤ cq.nrUnconsumed
  | .entry head n => head = cq.cqHead + n ∧ n.toNat < cq.nrUnconsumed
  | .body head n => head + 1 = cq.cqHead + n ∧ n.toNat ≤ cq.nrUnconsumed
  | .advancing n => n.toNat ≤ cq.nrUnconsumed
  | _ => True

/-- What holds of a completion queue after `posted` and `visited` have been posted and visited. -/
structure Inv (cq : Cq τ) (posted visited : List GwRingCqe) : Prop where
  isMask : IsMask cq.cqMask
  cap_le : cq.cap ≤ 2 ^ 31
  nrUnconsumed_le : cq.nrUnconsumed ≤ cq.cap
  posting : ∀ p, cq.posting = some p → p.cqTail = cq.cqTail ∧ cq.nrUnconsumed < cq.cap ∧
    (p.stored = true → cq.cqes (slotOf cq.cqMask cq.cqTail) = p.cqe)
  reader : cq.ReaderOk
  books : ∃ released, posted = released ++ cq.unconsumed ∧ visited = released ++ cq.unconsumed.take cq.reader.nrVisited

/-- A ring with a slot has as many as its mask says. -/
theorem mask_succ_of_cap_pos (h : 0 < cq.cap) : cq.cqMask.toNat + 1 = cq.cap := by
  have hlt := UInt32.toNat_lt cq.cqMask
  unfold cap at *
  rw [UInt32.toNat_add, UInt32.toNat_one] at *
  omega

/-- The fullness test lets a poster through only when a slot is free. -/
theorem nrUnconsumed_lt_of_not_full (hcap : cq.cap ≤ 2 ^ 31) (hle : cq.nrUnconsumed ≤ cq.cap) (h : cq.isFull = false) :
    cq.nrUnconsumed < cq.cap := by
  refine occupancy_lt_of_absDiff_lt hcap hle ?_
  have hlt := of_decide_eq_false h
  rw [ge_iff_le, UInt32.le_iff_toNat_le, u32Diff_toNat] at hlt
  exact Nat.lt_of_not_le hlt

/-- What the walk knows stays true when completions are added. -/
theorem ReaderOk.grow {cq cq' : Cq τ} (h : cq.ReaderOk) (hr : cq'.reader = cq.reader) (hh : cq'.cqHead = cq.cqHead)
    (hle : cq.nrUnconsumed ≤ cq'.nrUnconsumed) : cq'.ReaderOk := by
  unfold ReaderOk at *
  rw [hr, hh]
  cases hp : cq.reader <;> simp only [hp] at h ⊢
  · exact ⟨h.1, Nat.le_trans h.2 hle⟩
  · exact ⟨h.1, Nat.lt_of_lt_of_le h.2 hle⟩
  · exact ⟨h.1, Nat.le_trans h.2 hle⟩
  · exact Nat.le_trans h hle

/-- Outside of a walk there is nothing to keep. -/
theorem ReaderOk.of_not_walking {cq : Cq τ} (h : cq.reader.isWalking = false) : cq.ReaderOk := by
  unfold ReaderOk
  cases hp : cq.reader <;> first | trivial | (rw [hp] at h; cases h)

/-- The walk has visited no more than there is. -/
theorem ReaderOk.nrVisited_le {cq : Cq τ} (h : cq.ReaderOk) : cq.reader.nrVisited ≤ cq.nrUnconsumed := by
  unfold ReaderOk at h
  cases hp : cq.reader <;> simp only [hp, ReaderPc.nrVisited] at h ⊢
  · exact Nat.zero_le _
  · exact Nat.zero_le _
  · exact Nat.zero_le _
  · exact h.2
  · exact Nat.le_of_lt h.2
  · exact h.2
  · exact h

namespace Inv

variable {cq cq' : Cq τ} {posted visited : List GwRingCqe}

/-- The consumer moves without visiting or releasing anything. -/
theorem setReader (h : Inv cq posted visited) (pc : ReaderPc) (hn : pc.nrVisited = cq.reader.nrVisited)
    (hr : ReaderOk { cq with reader := pc }) : Inv { cq with reader := pc } posted visited := by
  refine { h with reader := hr, books := ?_ }
  obtain ⟨released, h1, h2⟩ := h.books
  exact ⟨released, h1, h2.trans (by rw [← hn]; rfl)⟩

/-- What the invariant says of the place where the walk stands. -/
theorem walking (h : Inv cq posted visited) {head n : UInt32} (hr : cq.reader = .walking head n) :
    head = cq.cqHead + n ∧ n.toNat ≤ cq.nrUnconsumed := by
  have := h.reader
  rwa [ReaderOk, hr] at this

/-- The entry of the walk is a completion that has not been consumed. -/
theorem entry (h : Inv cq posted visited) {head n : UInt32} (hr : cq.reader = .entry head n) :
    head = cq.cqHead + n ∧ n.toNat < cq.nrUnconsumed := by
  have := h.reader
  rwa [ReaderOk, hr] at this

/-- `gw_ring_cq_advance` is called with no more than there are. -/
theorem advancing (h : Inv cq posted visited) {n : UInt32} (hr : cq.reader = .advancing n) : n.toNat ≤ cq.nrUnconsumed := by
  have := h.reader
  rwa [ReaderOk, hr] at this

/-- The count of the entries visited does not wrap. -/
theorem toNat_succ_visited (h : Inv cq posted visited) {head n : UInt32} (hr : cq.reader = .entry head n) :
    (n + 1).toNat = n.toNat + 1 := by
  have h1 := h.cap_le
  have h2 := h.nrUnconsumed_le
  have h3 := (h.entry hr).2
  rw [UInt32.toNat_add, UInt32.toNat_one]
  omega

/-- A notification of the consumer changes nothing that the invariant is about. -/
theorem wake (h : Inv cq posted visited) : Inv { cq with reader := cq.reader.wake } posted visited := by
  refine h.setReader _ cq.reader.nrVisited_wake ?_
  have hr := h.reader
  unfold ReaderOk at *
  cases hp : cq.reader <;> simp only [hp, ReaderPc.wake] at hr ⊢ <;> exact hr

theorem wakeUpWaitCqeCallers (h : Inv cq posted visited) : Inv cq.wakeUpWaitCqeCallers posted visited := by
  unfold Cq.wakeUpWaitCqeCallers
  split
  · exact h.wake
  · exact h

/-! ## The steps of a poster -/

theorem post (h : Inv cq posted visited) (hfull : cq.isFull = false) (thread : τ) (cqe : GwRingCqe) :
    Inv { cq with posting := some ⟨thread, cqe, cq.cqTail, false⟩ } posted visited := by
  have hlt := cq.nrUnconsumed_lt_of_not_full h.cap_le h.nrUnconsumed_le hfull
  refine { h with posting := ?_ }
  intro p hp
  cases hp
  exact ⟨rfl, hlt, nofun⟩

/-- The entry is stored in a slot that is not of the window. -/
theorem store (h : Inv cq posted visited) {thread : τ} {cqe : GwRingCqe} {cqTail : UInt32}
    (hp : cq.posting = some ⟨thread, cqe, cqTail, false⟩) :
    Inv { cq with cqes := writeSlot cq.cqes (slotOf cq.cqMask cqTail) cqe, posting := some ⟨thread, cqe, cqTail, true⟩ }
      posted visited := by
  obtain ⟨ht, hlt, -⟩ := h.posting _ hp
  obtain rfl : cqTail = cq.cqTail := ht
  have hcap := cq.mask_succ_of_cap_pos (Nat.lt_of_le_of_lt (Nat.zero_le _) hlt)
  have hw := @window_writeSlot _ cq.cqes _ _ _ h.isMask (hcap ▸ hlt) cqe
  refine { h with posting := ?_, books := ?_ }
  · intro p hp'
    cases hp'
    refine ⟨rfl, hlt, fun _ => ?_⟩
    simp [writeSlot]
  · obtain ⟨released, h1, h2⟩ := h.books
    refine ⟨released, ?_, ?_⟩
    · rw [h1]
      exact congrArg (released ++ ·) hw.symm
    · rw [h2]
      exact congrArg (fun w => released ++ List.take _ w) hw.symm

/-- The store of `cq_tail` appends the entry to the window. -/
theorem publish (h : Inv cq posted visited) {thread : τ} {cqe : GwRingCqe} {cqTail : UInt32}
    (hp : cq.posting = some ⟨thread, cqe, cqTail, true⟩) :
    Inv { cq with cqTail := cqTail + 1, posting := none : Cq τ }.wakeUpWaitCqeCallers (posted ++ [cqe]) visited := by
  obtain ⟨ht, hlt, hst⟩ := h.posting _ hp
  obtain rfl : cqTail = cq.cqTail := ht
  have hw := window_snoc h.cap_le hlt cq.cqes cq.cqMask
  rw [hst rfl] at hw
  have hocc := occupancy_push h.cap_le hlt
  refine wakeUpWaitCqeCallers ⟨h.isMask, h.cap_le, ?_, nofun, ?_, ?_⟩
  · show occupancy cq.cqHead (cq.cqTail + 1) ≤ cq.cap
    rw [hocc]
    exact hlt
  · refine h.reader.grow rfl rfl ?_
    show cq.nrUnconsumed ≤ occupancy cq.cqHead (cq.cqTail + 1)
    rw [hocc]
    exact Nat.le_succ _
  · obtain ⟨released, h1, h2⟩ := h.books
    have hvis : cq.reader.nrVisited ≤ cq.unconsumed.length :=
      h.reader.nrVisited_le.trans (Nat.le_of_eq (window_length _ _ _ _).symm)
    refine ⟨released, ?_, ?_⟩
    · rw [h1, List.append_assoc]
      exact congrArg (released ++ ·) hw.symm
    · rw [h2, ← List.take_append_of_le_length hvis]
      exact congrArg (fun w => released ++ List.take _ w) hw.symm

/-! ## The steps of the consumer -/

/-- What `gw_ring_wait_cqe` changes is outside of any walk. -/
theorem wait (h : Inv cq posted visited) (hr : cq.reader.isWalking = false) (flag : Bool) {pc : ReaderPc} (hpc : pc.isWalking = false) :
    Inv { cq with waitCqeCondFlag := flag, reader := pc } posted visited := by
  have h' : Inv { cq with waitCqeCondFlag := flag } posted visited := { h with }
  refine h'.setReader pc ?_ (ReaderOk.of_not_walking hpc)
  rw [ReaderPc.nrVisited_of_not_walking hpc]
  exact (ReaderPc.nrVisited_of_not_walking hr).symm

theorem forEach (h : Inv cq posted visited) (hr : cq.reader.isWalking = false) :
    Inv { cq with reader := .walking cq.cqHead 0 } posted visited :=
  h.setReader _ (ReaderPc.nrVisited_of_not_walking hr).symm ⟨by simp, Nat.zero_le _⟩

/-- The walk finds one more entry just when it has not visited all there is. -/
theorem loadEntry (h : Inv cq posted visited) {head n : UInt32} (hr : cq.reader = .walking head n) (hne : head ≠ cq.cqTail) :
    Inv { cq with reader := .entry head n } posted visited := by
  obtain ⟨hhead, hn⟩ := h.walking hr
  have hlt : n.toNat < cq.nrUnconsumed := by
    refine Nat.lt_of_le_of_ne hn (fun e => hne ?_)
    have hz : occupancy (cq.cqHead + n) cq.cqTail = cq.nrUnconsumed - n.toNat := occupancy_add_head hn
    rw [← e, Nat.sub_self, occupancy_eq_zero_iff] at hz
    exact hhead.trans hz
  exact h.setReader _ (by rw [hr]; rfl) ⟨hhead, hlt⟩

theorem loadEnd (h : Inv cq posted visited) {head n : UInt32} (hr : cq.reader = .walking head n) :
    Inv { cq with reader := .advancing n } posted visited :=
  h.setReader _ (by rw [hr]; rfl) (h.walking hr).2

/-- The entry visited is the next one of the window. -/
theorem visit (h : Inv cq posted visited) {head n : UInt32} (hr : cq.reader = .entry head n) :
    Inv { cq with reader := .body head (n + 1) } posted (visited ++ [cq.cqes (slotOf cq.cqMask head)]) := by
  obtain ⟨hhead, hn⟩ := h.entry hr
  have hnn := h.toNat_succ_visited hr
  refine { h with reader := ?_, books := ?_ }
  · exact ⟨by rw [hhead, UInt32.add_assoc], hnn ▸ hn⟩
  · obtain ⟨released, h1, h2⟩ := h.books
    refine ⟨released, h1, ?_⟩
    rw [hr] at h2
    show _ = released ++ cq.unconsumed.take (n + 1).toNat
    rw [hnn, List.take_add_one, h2, List.append_assoc]
    have hget := @window_getElem? _ cq.cqes cq.cqMask _ _ _ hn
    rw [UInt32.ofNat_toNat, ← hhead] at hget
    rw [unconsumed, hget]
    rfl

theorem next (h : Inv cq posted visited) {head n : UInt32} (hr : cq.reader = .body head n) (stop : Bool) :
    Inv { cq with reader := if stop then .advancing n else .walking (head + 1) n } posted visited := by
  obtain ⟨hhead, hn⟩ : head + 1 = cq.cqHead + n ∧ n.toNat ≤ cq.nrUnconsumed := by
    have := h.reader
    rwa [ReaderOk, hr] at this
  cases stop with
  | false => exact h.setReader (.walking (head + 1) n) (by rw [hr]; rfl) ⟨hhead, hn⟩
  | true => exact h.setReader (.advancing n) (by rw [hr]; rfl) hn

/-- An advance by no more than there is releases that much, visited or not. -/
theorem release (h : Inv cq posted visited) {n : UInt32} (hn : n.toNat ≤ cq.nrUnconsumed) {released : List GwRingCqe}
    (hposted : posted = released ++ cq.unconsumed) :
    Inv { cq.cqAdvance n with reader := .idle } posted (released ++ cq.unconsumed.take n.toNat) := by
  have hocc : occupancy (cq.cqHead + n) cq.cqTail = cq.nrUnconsumed - n.toNat := occupancy_add_head hn
  have hw : window cq.cqes cq.cqMask (cq.cqHead + n) cq.cqTail = cq.unconsumed.drop n.toNat := by
    have := window_advance cq.cqes cq.cqMask hn
    rwa [UInt32.ofNat_toNat] at this
  refine ⟨h.isMask, h.cap_le, ?_, ?_, trivial, ?_⟩
  · show occupancy (cq.cqHead + n) cq.cqTail ≤ cq.cap
    rw [hocc]
    exact Nat.le_trans (Nat.sub_le _ _) h.nrUnconsumed_le
  · intro p hp
    obtain ⟨h1, h2, h3⟩ := h.posting p hp
    refine ⟨h1, ?_, h3⟩
    show occupancy (cq.cqHead + n) cq.cqTail < cq.cap
    rw [hocc]
    exact Nat.lt_of_le_of_lt (Nat.sub_le _ _) h2
  · refine ⟨released ++ cq.unconsumed.take n.toNat, ?_, ?_⟩
    · rw [hposted, List.append_assoc]
      show _ = released ++ (_ ++ window cq.cqes cq.cqMask (cq.cqHead + n) cq.cqTail)
      rw [hw, List.take_append_drop]
    · exact (List.append_nil _).symm

/-- The advance releases exactly what the walk has visited. -/
theorem advance (h : Inv cq posted visited) {n : UInt32} (hr : cq.reader = .advancing n) :
    Inv { cq.cqAdvance n with reader := .idle } posted visited := by
  obtain ⟨released, h1, h2⟩ := h.books
  rw [hr] at h2
  rw [h2]
  exact h.release (h.advancing hr) h1

/-- Every step keeps the invariant. -/
theorem step (h : Inv cq posted visited) {a : Act τ} {ev : List (CqEvent τ)} (hs : cq.step a = some (cq', ev)) :
    Inv cq' (posted ++ postedOf ev) (visited ++ visitedOf ev) := by
  have hquiet : postedOf ev = [] → visitedOf ev = [] → Inv cq' posted visited →
      Inv cq' (posted ++ postedOf ev) (visited ++ visitedOf ev) := by
    intro h1 h2 h'
    rwa [h1, h2, List.append_nil, List.append_nil]
  cases step_cases hs with
  | refused _ _ => exact hquiet rfl rfl h
  | post _ hfull => exact hquiet rfl rfl (h.post hfull _ _)
  | store hp => exact hquiet rfl rfl (h.store hp)
  | publish hp => simpa using h.publish hp
  | wait _ hr hpc hev => rcases hev with rfl | ⟨ret, rfl⟩ <;> exact hquiet rfl rfl (h.wait hr _ hpc)
  | forEach hr => exact hquiet rfl rfl (h.forEach hr)
  | loadEntry hr hne => exact hquiet rfl rfl (h.loadEntry hr hne)
  | loadEnd hr _ => exact hquiet rfl rfl (h.loadEnd hr)
  | visit hr => simpa using h.visit hr
  | next hr => exact hquiet rfl rfl (h.next hr _)
  | advance hr => exact hquiet rfl rfl (h.advance hr)
  | spurious => exact hquiet rfl rfl h.wake
  | stop _ =>
    have h' : Inv { cq with shouldStop := true } posted visited := { h with }
    exact hquiet rfl rfl h'.wakeUpWaitCqeCallers

theorem of_run {C : Cq τ → Act τ → Prop} {cq₀ cq : Cq τ} {log : List (CqEvent τ)} (h0 : Inv cq₀ [] [])
    (h : (machine τ).Run C cq₀ cq log) : Inv cq (postedOf log) (visitedOf log) := by
  refine h.invariant (I := fun cq log => Inv cq (postedOf log) (visitedOf log)) h0 ?_
  intro s log a s' ev _ hi _ hs
  rw [postedOf_append, visitedOf_append]
  exact hi.step hs

end Inv

/-! ## Lossless, in order -/

/-- A fresh completion queue satisfies the invariant, also when the number of slots is too large for a `uint32_t`: then the fullness
test fails for ever. -/
theorem inv_init {max : UInt32} (hmax : ∃ k, 1 ≤ k ∧ k ≤ 31 ∧ max.toNat = 2 ^ k) :
    Inv (Cq.init (max * 2 - 1) : Cq τ) [] [] := by
  obtain ⟨k, -, hk, hpow⟩ := hmax
  have hmul : (max * 2).toNat = 2 ^ (k + 1) % 2 ^ 32 := by
    rw [UInt32.toNat_mul, hpow, Nat.pow_succ]
    rfl
  have hcap : (max * 2 - 1 + 1 : UInt32) = max * 2 := UInt32.sub_add_cancel _ _
  have hmask : (max * 2 - 1 : UInt32).toNat + 1 = 2 ^ (k + 1) ∧ (max * 2).toNat ≤ 2 ^ 31 := by
    rcases Nat.lt_or_ge k 31 with hlt | hge
    · have hle : 2 ^ (k + 1) ≤ 2 ^ 31 := Nat.pow_le_pow_right (by decide) (by omega)
      have hpos := Nat.two_pow_pos (k + 1)
      rw [Nat.mod_eq_of_lt (Nat.lt_of_le_of_lt hle (by decide))] at hmul
      rw [UInt32.toNat_sub, hmul, UInt32.toNat_one]
      omega
    · obtain rfl : k = 31 := by omega
      rw [UInt32.toNat_sub, hmul]
      exact ⟨rfl, Nat.zero_le _⟩
  refine ⟨⟨k + 1, hmask.1⟩, ?_, ?_, nofun, trivial, ⟨[], ?_, ?_⟩⟩
  · show (max * 2 - 1 + 1 : UInt32).toNat ≤ 2 ^ 31
    rw [hcap]
    exact hmask.2
  · show occupancy 0 0 ≤ _
    rw [occupancy_self]
    exact Nat.zero_le _
  · exact (window_self _ _ _).symm
  · show [] = [] ++ List.take 0 _
    rfl

/-- A step leaves the entries as they are, but for the one that the holder of the lock stores. -/
theorem step_cqes_cases {cq cq' : Cq τ} {a : Act τ} {ev : List (CqEvent τ)} (hs : cq.step a = some (cq', ev)) :
    cq'.cqes = cq.cqes ∨ ∃ p, cq.posting = some p ∧ cq'.cqes = writeSlot cq.cqes (slotOf cq.cqMask p.cqTail) p.cqe := by
  cases step_cases hs with
  | store hp => exact Or.inr ⟨_, hp, rfl⟩
  | _ => exact Or.inl rfl

/-- No step overwrites an entry that has been posted and not been released. -/
theorem step_cqes {cq cq' : Cq τ} {posted visited : List GwRingCqe} (h : Inv cq posted visited) {a : Act τ}
    {ev : List (CqEvent τ)} (hs : cq.step a = some (cq', ev)) {n : Nat} (hn : n < cq.nrUnconsumed) :
    cq'.cqes (slotOf cq.cqMask (cq.cqHead + UInt32.ofNat n)) = cq.cqes (slotOf cq.cqMask (cq.cqHead + UInt32.ofNat n)) := by
  rcases step_cqes_cases hs with he | ⟨p, hp, he⟩
  · rw [he]
  · obtain ⟨ht, hlt, -⟩ := h.posting p hp
    have hcap := cq.mask_succ_of_cap_pos (Nat.lt_of_le_of_lt (Nat.zero_le _) hlt)
    rw [he, ht, writeSlot, if_neg (slotOf_ne_tail h.isMask hn (hcap ▸ hlt))]

/-- The completion queue of a ring, with any number of threads that post and one that consumes: what the consumer has visited and what
is unconsumed and not visited yet is, in order, what has been posted; no step overwrites an entry between its post and its release;
and the unconsumed entries are never more than the slots. -/
theorem cqes_visited_in_order {size : UInt32} {env : GwRing.InitEnv} {ring : GwRing}
    (h0 : GwRing.gwRingInit size env = some (.ok ring)) {cq : Cq τ} {log : List (CqEvent τ)}
    (h : (machine τ).Reach (Cq.init ring.cq.cqMask) cq log) :
    visitedOf log ++ cq.unconsumed.drop cq.reader.nrVisited = postedOf log ∧
    (∀ a cq' ev, cq.step a = some (cq', ev) → ∀ n < cq.nrUnconsumed,
      cq'.cqes (slotOf cq.cqMask (cq.cqHead + UInt32.ofNat n)) = cq.cqes (slotOf cq.cqMask (cq.cqHead + UInt32.ofNat n))) ∧
    cq.nrUnconsumed ≤ (cq.cqMask + 1).toNat := by
  obtain ⟨max, -, hfresh⟩ := GwRing.gwRingInit_fresh h0
  rw [hfresh.cq] at h
  have hinv := Inv.of_run (inv_init hfresh.max_pow) h
  refine ⟨?_, ?_, hinv.nrUnconsumed_le⟩
  · obtain ⟨released, h1, h2⟩ := hinv.books
    rw [h1, h2, List.append_assoc, List.take_append_drop]
  · intro a cq' ev hs n hn
    exact step_cqes hinv hs hn

/-- Two threads post to a queue of four slots, and the consumer finds both completions in the order of the posts. -/
theorem cqes_visited_in_order_small : ∃ (ring : GwRing) (cq : Cq Bool) (log : List (CqEvent Bool)),
    GwRing.gwRingInit 2 ⟨true, true, 0, 0, 0, WorkqueueStruct.AllocEnv.ok⟩ = some (.ok ring) ∧
    (machine Bool).Reach (Cq.init ring.cq.cqMask) cq log ∧ visitedOf log = [⟨0, 5, 0, 1⟩, ⟨2, 6, 0, 2⟩] ∧
    visitedOf log ++ cq.unconsumed.drop cq.reader.nrVisited = postedOf log := by
  have hrun : ∃ ring : GwRing,
      GwRing.gwRingInit 2 ⟨true, true, 0, 0, 0, WorkqueueStruct.AllocEnv.ok⟩ = some (.ok ring) ∧
      ((machine Bool).exec (Cq.init ring.cq.cqMask)
        [.wait, .post true ⟨0, 5, 0, 1⟩, .store, .publish, .wait, .forEach, .loadHead, .post false ⟨2, 6, 0, 2⟩, .visit, .store,
          .next false, .publish, .loadHead, .visit, .next false, .loadHead, .advance]).map
        (fun r => visitedOf r.2) = some [⟨0, 5, 0, 1⟩, ⟨2, 6, 0, 2⟩] := by
    refine ⟨_, rfl, ?_⟩
    decide
  obtain ⟨ring, h0, he⟩ := hrun
  obtain ⟨cq, log, h, hval⟩ := Machine.exists_of_exec (fun (_ : Cq Bool) log => visitedOf log) he
  exact ⟨ring, cq, log, h0, h, hval, (cqes_visited_in_order h0 h).1⟩

end Cq

end GwBot

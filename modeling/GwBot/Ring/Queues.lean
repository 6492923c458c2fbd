import GwBot.Ring.Completion

/-!
# What flows through the two queues

The entries taken with `gw_ring_get_sqe` and not yet passed to `submit_sqe` are the window of the submission queue, and `submit_sqe` gets
them in the order in which they were taken. What was posted to the completion queue has been visited by the consumer or not.
-/

namespace GwBot

open Lib

/-- The entries passed to `submit_sqe` so far, in order. -/
def submittedSqes (log : List RingEvent) : List GwRingSqe :=
  (sqeLog log).filterMap (fun e => if e.kind = .submitted then some e.data.sqe else none)

theorem submittedSqes_append (l l' : List RingEvent) : submittedSqes (l ++ l') = submittedSqes l ++ submittedSqes l' := by
  rw [submittedSqes, sqeLog_append, List.filterMap_append]
  rfl

/-- The events count the entries of any kind. -/
theorem countP_submittedSqes (q : GwRingSqe → Bool) (log : List RingEvent) :
    (submittedSqes log).countP q = sqeCount .submitted (fun data => q data.sqe) log := by
  rw [submittedSqes, List.countP_filterMap]
  refine List.countP_congr (fun e _ => ?_)
  by_cases hk : e.kind = .submitted <;> simp [hk]

theorem submittedSqes_eq_nil {log : List RingEvent} (h : sqeCount .submitted (fun _ => true) log = 0) : submittedSqes log = [] := by
  rw [← List.length_eq_zero_iff, ← List.countP_true, countP_submittedSqes]
  exact h

namespace GwRing

variable {ring ring' : GwRing} {a : Act} {log ev : List RingEvent}

/-! ## The submission queue -/

/-- Where `submit_sqe` goes on: `gw_ring_submit` has its own copy of `sq_head` while it runs. -/
def sqFront (ring : GwRing) : UInt32 :=
  match ring.submit with
  | some s => s.sqHead
  | none => ring.sqHead

/-- The entries that were taken and not yet passed to `submit_sqe`, oldest first. -/
def sqWindow (ring : GwRing) : List GwRingSqe := window ring.sqes ring.sqMask ring.sqFront ring.sqTail

/-- What holds of the submission queue. -/
structure SqInv (ring : GwRing) : Prop where
  isMask : IsMask ring.sqMask
  cap_le : ring.sqMask.toNat + 1 ≤ 2 ^ 31
  window_le : occupancy ring.sqFront ring.sqTail ≤ ring.sqMask.toNat + 1
  submit : ∀ s, ring.submit = some s → s.sqTail = ring.sqTail

/-- A step that leaves the submission queue as it is. -/
theorem SqInv.same (h : SqInv ring) (h1 : ring'.sqes = ring.sqes) (h2 : ring'.sqMask = ring.sqMask) (h3 : ring'.sqFront = ring.sqFront)
    (h4 : ring'.sqTail = ring.sqTail) (h5 : ∀ s, ring'.submit = some s → s.sqTail = ring.sqTail) :
    SqInv ring' ∧ ring'.sqWindow = ring.sqWindow := by
  refine ⟨⟨h2 ▸ h.isMask, h2 ▸ h.cap_le, ?_, fun s hs => (h5 s hs).trans h4.symm⟩, ?_⟩
  · rw [h2, h3, h4]
    exact h.window_le
  · unfold sqWindow
    rw [h1, h2, h3, h4]

/-- `submit_sqe` gets the oldest entry. -/
theorem SqInv.pop (h : SqInv ring) {s s' : Submit} (hs : ring.submit = some s) (hne : s.sqHead ≠ s.sqTail)
    (h1 : ring'.sqes = ring.sqes) (h2 : ring'.sqMask = ring.sqMask) (h4 : ring'.sqTail = ring.sqTail)
    (hs' : ring'.submit = some s') (hh : s'.sqHead = s.sqHead + 1) (ht : s'.sqTail = s.sqTail) :
    SqInv ring' ∧ ring.sqWindow = (ring.nextData s).sqe :: ring'.sqWindow := by
  have hfront : ring.sqFront = s.sqHead := by rw [sqFront, hs]
  have hfront' : ring'.sqFront = s.sqHead + 1 := by
    rw [sqFront, hs']
    exact hh
  have htail := h.submit s hs
  rw [htail] at hne
  have hpop := occupancy_pop hne
  refine ⟨⟨h2 ▸ h.isMask, h2 ▸ h.cap_le, ?_, ?_⟩, ?_⟩
  · have hle := h.window_le
    rw [hfront] at hle
    rw [hfront', h2, h4]
    omega
  · intro t hst
    cases hs'.symm.trans hst
    rw [ht, h4, htail]
  · unfold sqWindow
    rw [hfront, hfront', h1, h2, h4, window_pop hne]
    rfl

/-- What a step does to the submission queue, other than to take an entry. -/
theorem StepCase.sq (h : SqInv ring) (hs : StepCase ring a ring' ev) (hget : a ≠ .getSqe) (hfill : ∀ slot sqe, a ≠ .fill slot sqe) :
    SqInv ring' ∧ ring.sqWindow = submittedSqes ev ++ ring'.sqWindow := by
  have hsame : sqeCount .submitted (fun _ => true) ev = 0 → ring'.sqes = ring.sqes → ring'.sqMask = ring.sqMask →
      ring'.sqFront = ring.sqFront → ring'.sqTail = ring.sqTail → (∀ s, ring'.submit = some s → s.sqTail = ring.sqTail) →
      SqInv ring' ∧ ring.sqWindow = submittedSqes ev ++ ring'.sqWindow := by
    intro h0 h1 h2 h3 h4 h5
    obtain ⟨hinv, hw⟩ := h.same h1 h2 h3 h4 h5
    exact ⟨hinv, by rw [submittedSqes_eq_nil h0, List.nil_append, hw]⟩
  have hmove : ∀ {s s' : Submit}, sqeCount .submitted (fun _ => true) ev = 0 → ring.submit = some s → ring'.submit = some s' →
      s'.sqHead = s.sqHead → s'.sqTail = s.sqTail → ring'.sqes = ring.sqes → ring'.sqMask = ring.sqMask →
      ring'.sqTail = ring.sqTail → SqInv ring' ∧ ring.sqWindow = submittedSqes ev ++ ring'.sqWindow := by
    intro s s' h0 hs hs' hh ht h1 h2 h4
    refine hsame h0 h1 h2 ?_ h4 ?_
    · rw [sqFront, sqFront, hs, hs']
      exact hh
    · intro t hst
      cases hs'.symm.trans hst
      exact ht.trans (h.submit s hs)
  have hkeep : sqeCount .submitted (fun _ => true) ev = 0 → ring'.sqes = ring.sqes → ring'.sqMask = ring.sqMask →
      ring'.sqHead = ring.sqHead → ring'.sqTail = ring.sqTail → ring'.submit = ring.submit →
      SqInv ring' ∧ ring.sqWindow = submittedSqes ev ++ ring'.sqWindow := by
    intro h0 h1 h2 h3 h4 h5
    refine hsame h0 h1 h2 ?_ h4 (fun s hs => h.submit s (h5.symm.trans hs))
    rw [sqFront, sqFront, h5, h3]
  cases hs with
  | getSqe _ => exact absurd rfl hget
  | fill slot sqe _ => exact absurd rfl (hfill slot sqe)
  | submitStart hsub _ =>
    refine hsame rfl rfl rfl (by rw [sqFront, sqFront, hsub]) rfl ?_
    intro s hs
    cases hs
    rfl
  | @submitEnd s malloc hsub _ _ => exact hsame rfl rfl rfl (by rw [sqFront, sqFront, hsub]) rfl nofun
  | nop malloc hsub _ hne _ => exact h.pop hsub hne rfl rfl rfl rfl rfl rfl
  | punt hsub _ hne _ _ => exact h.pop hsub hne rfl rfl rfl rfl rfl rfl
  | @unpunted s malloc hsub _ hne _ _ =>
    have hev : submittedSqes (sqeEvent .submitted (ring.nextData s) :: unpuntedEvents (ring.nextData s)) = [(ring.nextData s).sqe] := by
      have hnil : submittedSqes (unpuntedEvents (ring.nextData s)) = [] :=
        submittedSqes_eq_nil (by simp [sqeCount_unpuntedEvents])
      rw [show ∀ l : List RingEvent, sqeEvent .submitted (ring.nextData s) :: l = [sqeEvent .submitted (ring.nextData s)] ++ l from
        fun _ => rfl, submittedSqes_append, hnil]
      rfl
    rw [hev]
    exact h.pop hsub hne rfl rfl rfl rfl rfl rfl
  | queued malloc hsub _ _ _ => exact hmove rfl hsub rfl rfl rfl rfl rfl rfl
  | queueRefused malloc hsub _ _ _ => exact hmove (by simp [sqeCount_unpuntedEvents]) hsub rfl rfl rfl rfl rfl rfl
  | nopRefused hsub _ _ _ => exact hmove rfl hsub rfl rfl rfl rfl rfl rfl
  | nopPost hsub _ _ _ => exact hmove rfl hsub rfl rfl rfl rfl rfl rfl
  | nopPosted hsub _ _ _ => exact hmove rfl hsub rfl rfl rfl rfl rfl rfl
  | wq _ _ | execCall _ _ _ | execRet _ _ _ => exact hkeep (by simp [sqeCount_wqEvents]) rfl rfl rfl rfl rfl
  | exec _ he => exact hkeep (by cases he <;> rfl) rfl rfl rfl rfl rfl
  | reader _ _ => exact hkeep (sqeCount_map_cq _) rfl rfl rfl rfl rfl
  | _ => exact hkeep rfl rfl rfl rfl rfl rfl

/-- `gw_ring_get_sqe` does nothing when it returns `NULL`. -/
theorem gwRingGetSqe_none (h : ring.gwRingGetSqe.2 = none) : ring.gwRingGetSqe.1 = ring := by
  unfold gwRingGetSqe at *
  split at h
  · rename_i hfull
    rw [if_pos hfull]
  · nomatch h

theorem getSqe_step (h : ring.step .getSqe = some (ring', ev)) : ring.submit = none ∧ ring' = ring.gwRingGetSqe.1 ∧ ev = [] := by
  cases (step_cases h).2 with
  | getSqe hsub => exact ⟨hsub, rfl, rfl⟩
  | wq hb _ => nomatch hb

theorem fill_step {slot : Nat} {sqe : GwRingSqe} (h : ring.step (.fill slot sqe) = some (ring', ev)) :
    ring' = ring.fillSqe slot sqe ∧ ev = [] := by
  cases (step_cases h).2 with
  | fill _ _ _ => exact ⟨rfl, rfl⟩
  | wq hb _ => nomatch hb

/-- `gw_ring_get_sqe` gives the slot of the tail, of a queue that has room for it. -/
theorem SqInv.room (h : SqInv ring) (hsub : ring.submit = none) {slot : Nat} (hget : ring.gwRingGetSqe.2 = some slot) :
    occupancy ring.sqHead ring.sqTail < ring.sqMask.toNat + 1 ∧ ring.gwRingGetSqe.1 = { ring with sqTail := ring.sqTail + 1 } ∧
      slot = slotOf ring.sqMask ring.sqTail := by
  have hfront : ring.sqFront = ring.sqHead := by rw [sqFront, hsub]
  unfold gwRingGetSqe at *
  split at hget
  · nomatch hget
  · rename_i hroom
    cases hget
    refine ⟨occupancy_lt_of_absDiff_lt h.cap_le (hfront ▸ h.window_le) ?_, if_neg hroom ▸ rfl, rfl⟩
    have hmask : (ring.sqMask + 1).toNat = ring.sqMask.toNat + 1 := by
      have := h.cap_le
      rw [UInt32.toNat_add, UInt32.toNat_one]
      omega
    rw [ge_iff_le, UInt32.le_iff_toNat_le, u32Diff_toNat, hmask] at hroom
    rw [absDiff_comm]
    omega

/-- The entry that `gw_ring_get_sqe` returns is filled: it is the last of the window. -/
theorem SqInv.push (h : SqInv ring) (hsub : ring.submit = none) {slot : Nat} (hget : ring.gwRingGetSqe.2 = some slot) (sqe : GwRingSqe) :
    SqInv (ring.gwRingGetSqe.1.fillSqe slot sqe) ∧
      (ring.gwRingGetSqe.1.fillSqe slot sqe).sqWindow = ring.sqWindow ++ [sqe] := by
  have hfront : ring.sqFront = ring.sqHead := by rw [sqFront, hsub]
  obtain ⟨hlt, he, rfl⟩ := h.room hsub hget
  rw [he]
  have hfront' : sqFront (fillSqe { ring with sqTail := ring.sqTail + 1 } (slotOf ring.sqMask ring.sqTail) sqe) = ring.sqHead := by
    rw [sqFront, show (fillSqe { ring with sqTail := ring.sqTail + 1 } _ sqe).submit = ring.submit from rfl, hsub]
    rfl
  refine ⟨⟨h.isMask, h.cap_le, ?_, ?_⟩, ?_⟩
  · rw [hfront']
    show occupancy ring.sqHead (ring.sqTail + 1) ≤ _
    rw [occupancy_push h.cap_le hlt]
    exact hlt
  · intro s hs
    exact absurd (hsub.symm.trans hs) nofun
  · unfold sqWindow
    rw [hfront', hfront]
    exact window_push ring.sqes h.isMask h.cap_le hlt sqe

/-- An empty submission queue has an entry to give. -/
theorem SqInv.get_of_empty (h : SqInv ring) (hsub : ring.submit = none) (he : ring.sqWindow = []) :
    ∃ slot, ring.gwRingGetSqe.2 = some slot := by
  have hz : ring.sqHead = ring.sqTail := by
    have hlen := congrArg List.length he
    rw [sqWindow, window_length, sqFront, hsub] at hlen
    exact occupancy_eq_zero_iff.1 hlen
  have hroom : ¬u32Diff ring.sqHead ring.sqTail ≥ ring.sqMask + 1 := by
    have := h.cap_le
    rw [ge_iff_le, UInt32.le_iff_toNat_le, u32Diff_toNat, absDiff_eq_zero_iff.2 hz.symm, UInt32.toNat_add,
      UInt32.toNat_one]
    omega
  unfold gwRingGetSqe
  rw [if_neg hroom]
  exact ⟨_, rfl⟩

/-- The submission queue that `gw_ring_init` leaves is empty. -/
theorem Fresh.sqInv {max : UInt32} (h : ring.Fresh max) : SqInv ring ∧ ring.sqWindow = [] := by
  have hfront : ring.sqFront = ring.sqTail := by
    rw [sqFront, h.submit, h.sqTail]
    exact h.sqHead
  obtain ⟨k, hk1, hk, hpow⟩ := h.max_pow
  have hmask : ring.sqMask.toNat + 1 = 2 ^ k := by
    have hpos := Nat.two_pow_pos k
    rw [h.sqMask, UInt32.toNat_sub_of_le _ _ (UInt32.le_iff_toNat_le.2 (by rw [hpow]; exact hpos)), hpow]
    exact Nat.sub_add_cancel hpos
  refine ⟨⟨⟨k, hmask⟩, ?_, ?_, fun s hs => absurd (h.submit.symm.trans hs) nofun⟩, ?_⟩
  · rw [hmask]
    exact Nat.pow_le_pow_right (by decide) hk
  · rw [hfront, occupancy_self]
    exact Nat.zero_le _
  · rw [sqWindow, hfront]
    exact window_self _ _ _

/-! ## The completion queue -/

/-- A step of the ring is a step of its completion queue, one of the consumer only if it is one of the ring's, or none of its business,
unless it is an advance without a walk. -/
theorem StepCase.cq_step (h : StepCase ring a ring' ev) (ha : ∀ n, a ≠ .cqAdvance n) :
    (∃ b, ring.cq.step b = some (ring'.cq, cqLog ev) ∧ (b.isReader = true → a = .reader b)) ∨
      (ring'.cq = ring.cq ∧ cqLog ev = []) := by
  have hfull : ∀ (p : Poster) (cqe : GwRingCqe), ring.cq.posting = none → ring.cq.isFull = true →
      ring.cq.step (.post p cqe) = some (ring.cq, [.refused p cqe]) := by
    intro p cqe hp hf
    simp only [Cq.step, Cq.postCqe, hp, hf, if_true]
  have hroom : ∀ (p : Poster) (cqe : GwRingCqe), ring.cq.posting = none → ring.cq.isFull = false →
      ring.cq.step (.post p cqe) = some ({ ring.cq with posting := some ⟨p, cqe, ring.cq.cqTail, false⟩ }, []) := by
    intro p cqe hp hf
    simp [Cq.step, Cq.postCqe, hp, hf]
  cases h with
  | getSqe _ =>
    right
    unfold gwRingGetSqe
    split <;> exact ⟨rfl, rfl⟩
  | unpunted _ _ _ _ _ => exact Or.inr ⟨rfl, (wqLog_unpuntedEvents _).2⟩
  | queueRefused _ _ _ _ _ => exact Or.inr ⟨rfl, (wqLog_unpuntedEvents _).2⟩
  | wq _ _ | execCall _ _ _ | execRet _ _ _ => exact Or.inr ⟨rfl, cqLog_wqEvents _⟩
  | exec _ he => exact Or.inr ⟨rfl, (wqLog_execStep he).2⟩
  | nopRefused _ _ hp hf => exact Or.inl ⟨_, hfull _ _ hp hf, nofun⟩
  | nopPost _ _ hp hf => exact Or.inl ⟨_, hroom _ _ hp hf, nofun⟩
  | execRefused _ hp hf => exact Or.inl ⟨_, hfull _ _ hp hf, nofun⟩
  | execPost _ hp hf => exact Or.inl ⟨_, hroom _ _ hp hf, nofun⟩
  | store hs => exact Or.inl ⟨.store, hs, nofun⟩
  | nopPosted _ _ _ hs => exact Or.inl ⟨.publish, hs, nofun⟩
  | execPosted _ _ hs => exact Or.inl ⟨.publish, hs, nofun⟩
  | reader _ hs =>
    left
    rw [cqLog_map_cq]
    exact ⟨_, hs, fun _ => rfl⟩
  | cqAdvance n => exact absurd rfl (ha n)
  | destroy _ hp _ =>
    refine Or.inl ⟨.stop, ?_, nofun⟩
    simp only [Cq.step, hp, Option.isSome_none, Bool.false_eq_true, if_false]
    rfl
  | _ => exact Or.inr ⟨rfl, rfl⟩

/-- The completion queue of a ring whose consumer only advances at the end of a walk. -/
theorem cqInv_of_run {C : GwRing → Act → Prop} (hC : ∀ s a, C s a → ∀ n, a ≠ .cqAdvance n) {ring₀ : GwRing} {max : UInt32}
    (h0 : Fresh ring₀ max) (h : machine.Run C ring₀ ring log) :
    Cq.Inv ring.cq (postedOf (cqLog log)) (visitedOf (cqLog log)) := by
  have hrun : (Cq.machine Poster).Reach ring₀.cq ring.cq (cqLog log) :=
    h.project (fun ring => ring.cq) RingEvent.cq? (fun _ _ _ _ hc hs =>
      ((step_cases hs).2.cq_step (hC _ _ hc)).imp_left (fun ⟨b, hb, _⟩ => ⟨b, hb⟩))
  refine Cq.Inv.of_run ?_ hrun
  rw [h0.cq]
  exact Cq.inv_init h0.max_pow

end GwRing

/-- The posted completions that the walk has not come to. -/
def Cq.nrUnvisited {τ : Type} (cq : Cq τ) : Nat := cq.nrUnconsumed - cq.reader.nrVisited

/-- These completions, oldest first. -/
def Cq.unvisited {τ : Type} (cq : Cq τ) : List GwRingCqe := cq.unconsumed.drop cq.reader.nrVisited

namespace Cq.Inv

variable {τ : Type} {cq : Cq τ} {posted visited : List GwRingCqe}

/-- What was posted has been visited, or not yet. -/
theorem posted_eq (h : Inv cq posted visited) : posted = visited ++ cq.unvisited := by
  obtain ⟨released, h1, h2⟩ := h.books
  rw [h1, h2, Cq.unvisited, List.append_assoc, List.take_append_drop]

theorem unvisited_length (cq : Cq τ) : cq.unvisited.length = cq.nrUnvisited := by
  rw [Cq.unvisited, List.length_drop, Cq.unconsumed, window_length]
  rfl

/-- Only the consumer's visits visit, and they are what it has visited in this walk. -/
theorem step_visited (h : Inv cq posted visited) {cq' : Cq τ} {a : Cq.Act τ} {ev : List (CqEvent τ)} (hs : cq.step a = some (cq', ev)) :
    (a ≠ .visit → visitedOf ev = []) ∧
      (a ≠ .advance → cq'.reader.nrVisited = cq.reader.nrVisited + (visitedOf ev).length) ∧
      (a = .advance → cq'.reader.nrVisited = 0) := by
  have hstay : visitedOf ev = [] → cq'.reader.nrVisited = cq.reader.nrVisited → a ≠ .advance →
      (a ≠ .visit → visitedOf ev = []) ∧
        (a ≠ .advance → cq'.reader.nrVisited = cq.reader.nrVisited + (visitedOf ev).length) ∧
        (a = .advance → cq'.reader.nrVisited = 0) := by
    intro h1 h2 h3
    refine ⟨fun _ => h1, fun _ => ?_, fun e => absurd e h3⟩
    rw [h1, h2]
    rfl
  have hwake : ∀ c : Cq τ, c.wakeUpWaitCqeCallers.reader.nrVisited = c.reader.nrVisited := by
    intro c
    unfold Cq.wakeUpWaitCqeCallers
    split
    · exact ReaderPc.nrVisited_wake _
    · rfl
  cases Cq.step_cases hs with
  | refused _ _ | post _ _ | store _ => exact hstay rfl rfl (by simp)
  | publish _ | stop _ => exact hstay rfl (hwake _) (by simp)
  | wait _ hr hpc hev =>
    have hpc := (ReaderPc.nrVisited_of_not_walking hpc).trans (ReaderPc.nrVisited_of_not_walking hr).symm
    rcases hev with rfl | ⟨ret, rfl⟩ <;> exact hstay rfl hpc (by simp)
  | forEach hr => exact hstay rfl (ReaderPc.nrVisited_of_not_walking hr).symm (by simp)
  | loadEntry hr _ | loadEnd hr _ => exact hstay rfl (by rw [hr]; rfl) (by simp)
  | @visit head n hr =>
    refine ⟨fun e => absurd rfl e, fun _ => ?_, by simp⟩
    rw [hr]
    exact h.toNat_succ_visited hr
  | @next _ _ stop hr => exact hstay rfl (by rw [hr]; cases stop <;> rfl) (by simp)
  | advance _ => exact ⟨fun _ => rfl, fun e => absurd rfl e, fun _ => rfl⟩
  | spurious => exact hstay rfl (ReaderPc.nrVisited_wake _) (by simp)

/-- The unconsumed completions are those visited in this walk, and those not. -/
theorem nrUnconsumed_eq (h : Inv cq posted visited) : cq.nrUnconsumed = cq.nrUnvisited + cq.reader.nrVisited := by
  have := h.reader.nrVisited_le
  unfold Cq.nrUnvisited
  omega

end Cq.Inv

end GwBot

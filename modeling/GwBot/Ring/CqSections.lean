import GwBot.Ring.Cq

/-!
# What each step of the completion queue does

The case lemmas of the functions of the completion queue: `StepCase` says what every step leaves and logs, and under which guard it is
taken, so that nothing past this file unfolds the functions. What `gw_ring_wait_cqe` makes of what it finds is in `waitSection_cases`.
-/

namespace GwBot

open Lib

/-- In the loop of `gw_ring_for_each_cqe`, or past it and before `gw_ring_cq_advance`. -/
def ReaderPc.isWalking : ReaderPc → Bool
  | .idle | .sleeping _ | .returned _ _ => false
  | _ => true

namespace Cq

variable {τ : Type} {cq cq' : Cq τ} {ev : List (CqEvent τ)}

/-- The ends of a critical section of `gw_ring_wait_cqe`. -/
theorem waitSection_cases (cq : Cq τ) :
    (cq.shouldStop = true ∧ cq.waitSection.1 = { cq with reader := .returned (-EOWNERDEAD) none }) ∨
    (cq.shouldStop = false ∧ cq.cqHead ≠ cq.cqTail ∧ 0 < intOfU32 (u32Diff cq.cqTail cq.cqHead) ∧ cq.waitSection.1 =
      { cq with reader := .returned (intOfU32 (u32Diff cq.cqTail cq.cqHead)) (some (slotOf cq.cqMask cq.cqHead)) }) ∨
    (cq.shouldStop = false ∧ (cq.cqHead ≠ cq.cqTail → intOfU32 (u32Diff cq.cqTail cq.cqHead) ≤ 0) ∧ cq.waitSection.1 =
      { cq with waitCqeCondFlag := true, reader := .sleeping false }) := by
  unfold waitSection
  by_cases hstop : cq.shouldStop = true
  · rw [if_pos hstop]
    exact Or.inl ⟨hstop, rfl⟩
  · rw [if_neg hstop]
    rw [Bool.not_eq_true] at hstop
    unfold waitCqeOnce
    by_cases heq : cq.cqTail = cq.cqHead
    · rw [if_pos heq]
      exact Or.inr (Or.inr ⟨hstop, fun hne => absurd heq.symm hne, rfl⟩)
    · rw [if_neg heq]
      by_cases hpos : intOfU32 (u32Diff cq.cqTail cq.cqHead) > 0
      · refine Or.inr (Or.inl ⟨hstop, fun e => heq e.symm, hpos, ?_⟩)
        simp only [if_pos hpos]
      · refine Or.inr (Or.inr ⟨hstop, fun _ => Int.not_lt.1 hpos, ?_⟩)
        simp only [if_neg hpos]

/-- A critical section of `gw_ring_wait_cqe` logs its return, if it does return. -/
theorem waitSection_log (cq : Cq τ) : cq.waitSection.2 = [] ∨ ∃ ret, cq.waitSection.2 = [.waited ret] := by
  unfold waitSection
  split
  · exact Or.inr ⟨_, rfl⟩
  · dsimp only
    split
    · exact Or.inr ⟨_, rfl⟩
    · exact Or.inl rfl

/-- It changes the flag at most, and where the consumer stands, outside of any walk. -/
theorem waitSection_frame (cq : Cq τ) :
    ∃ flag pc, cq.waitSection.1 = { cq with waitCqeCondFlag := flag, reader := pc } ∧ pc.isWalking = false := by
  rcases cq.waitSection_cases with ⟨-, hw⟩ | ⟨-, -, -, hw⟩ | ⟨-, -, hw⟩ <;> rw [hw] <;> exact ⟨_, _, rfl, rfl⟩

/-- A call of `gw_ring_wait_cqe` starts its section from outside, or from its `cond_wait` with the flag cleared. -/
theorem waitCqe_cases (h : cq.waitCqe = some (cq', ev)) :
    cq.posting = none ∧ cq.reader.isWalking = false ∧ ∃ flag, (cq', ev) = { cq with waitCqeCondFlag := flag }.waitSection := by
  unfold waitCqe at h
  split at h
  · nomatch h
  · rename_i hp
    refine ⟨hp, ?_⟩
    split at h
    · rename_i hr
      exact ⟨by rw [hr]; rfl, cq.waitCqeCondFlag, (Option.some.inj h).symm⟩
    · rename_i hr
      exact ⟨by rw [hr]; rfl, cq.waitCqeCondFlag, (Option.some.inj h).symm⟩
    · rename_i hr
      exact ⟨by rw [hr]; rfl, false, (Option.some.inj h).symm⟩
    · nomatch h

/-- The ways a step goes, under the guard of each. -/
inductive StepCase (cq : Cq τ) : Act τ → Cq τ → List (CqEvent τ) → Prop where
  | refused {thread : τ} {cqe : GwRingCqe} : cq.posting = none → cq.isFull = true →
      StepCase cq (.post thread cqe) cq [.refused thread cqe]
  | post {thread : τ} {cqe : GwRingCqe} : cq.posting = none → cq.isFull = false →
      StepCase cq (.post thread cqe) { cq with posting := some ⟨thread, cqe, cq.cqTail, false⟩ } []
  | store {thread : τ} {cqe : GwRingCqe} {cqTail : UInt32} : cq.posting = some ⟨thread, cqe, cqTail, false⟩ →
      StepCase cq .store
        { cq with
          cqes := writeSlot cq.cqes (slotOf cq.cqMask cqTail) cqe
          posting := some ⟨thread, cqe, cqTail, true⟩ } []
  | publish {thread : τ} {cqe : GwRingCqe} {cqTail : UInt32} : cq.posting = some ⟨thread, cqe, cqTail, true⟩ →
      StepCase cq .publish { cq with cqTail := cqTail + 1, posting := none }.wakeUpWaitCqeCallers [.posted thread cqe]
  | wait {flag : Bool} {pc : ReaderPc} {ev : List (CqEvent τ)} : cq.posting = none → cq.reader.isWalking = false →
      pc.isWalking = false → (ev = [] ∨ ∃ ret, ev = [.waited ret]) →
      StepCase cq .wait { cq with waitCqeCondFlag := flag, reader := pc } ev
  | forEach : cq.reader.isWalking = false → StepCase cq .forEach { cq with reader := .walking cq.cqHead 0 } []
  | loadEntry {head n : UInt32} : cq.reader = .walking head n → head ≠ cq.cqTail →
      StepCase cq .loadHead { cq with reader := .entry head n } []
  | loadEnd {head n : UInt32} : cq.reader = .walking head n → head = cq.cqTail →
      StepCase cq .loadHead { cq with reader := .advancing n } []
  | visit {head n : UInt32} : cq.reader = .entry head n →
      StepCase cq .visit { cq with reader := .body head (n + 1) } [.visited (cq.cqes (slotOf cq.cqMask head))]
  | next {head n : UInt32} {stop : Bool} : cq.reader = .body head n →
      StepCase cq (.next stop) { cq with reader := if stop then .advancing n else .walking (head + 1) n } []
  | advance {n : UInt32} : cq.reader = .advancing n → StepCase cq .advance { cq.cqAdvance n with reader := .idle } []
  | spurious : StepCase cq .spurious { cq with reader := cq.reader.wake } []
  | stop : cq.posting = none → StepCase cq .stop cq.stop []

/-- `post_cqe` gets the lock: the queue is full, or the tail is read. -/
theorem postCqe_cases {thread : τ} {cqe : GwRingCqe} (h : cq.postCqe thread cqe = some (cq', ev)) :
    StepCase cq (.post thread cqe) cq' ev := by
  unfold postCqe at h
  split at h
  · nomatch h
  · rename_i hp
    split at h
    · rename_i hfull
      cases h
      exact StepCase.refused hp hfull
    · rename_i hfull
      cases h
      exact StepCase.post hp (Bool.not_eq_true _ ▸ hfull)

/-- Then the completion is stored. -/
theorem storeCqe_cases (h : cq.storeCqe = some (cq', ev)) : StepCase cq .store cq' ev := by
  unfold storeCqe at h
  split at h
  · rename_i hp
    cases h
    exact StepCase.store hp
  · nomatch h

/-- And the tail is advanced, and the consumer woken. -/
theorem publishCqe_cases (h : cq.publishCqe = some (cq', ev)) : StepCase cq .publish cq' ev := by
  unfold publishCqe at h
  split at h
  · rename_i hp
    cases h
    exact StepCase.publish hp
  · nomatch h

theorem forEachCqe_cases (h : cq.forEachCqe = some (cq', ev)) : StepCase cq .forEach cq' ev := by
  unfold forEachCqe at h
  split at h
  · rename_i hr
    cases h
    exact StepCase.forEach (by rw [hr]; rfl)
  · rename_i hr
    cases h
    exact StepCase.forEach (by rw [hr]; rfl)
  · nomatch h

/-- The walk loads its head: there is an entry, or it is at its end. -/
theorem loadHeadCqe_cases (h : cq.loadHeadCqe = some (cq', ev)) : StepCase cq .loadHead cq' ev := by
  unfold loadHeadCqe at h
  split at h
  · rename_i hr
    split at h
    · rename_i hne
      cases h
      exact StepCase.loadEntry hr hne
    · rename_i heq
      cases h
      exact StepCase.loadEnd hr (Decidable.not_not.1 heq)
  · nomatch h

/-- Every step, under the guard of each. -/
theorem step_cases {a : Act τ} (h : cq.step a = some (cq', ev)) : StepCase cq a cq' ev := by
  cases a with
  | post thread cqe => exact postCqe_cases h
  | store => exact storeCqe_cases h
  | publish => exact publishCqe_cases h
  | wait =>
    obtain ⟨hp, hr, flag, he⟩ := waitCqe_cases h
    obtain ⟨flag', pc, hw, hpc⟩ := waitSection_frame { cq with waitCqeCondFlag := flag }
    have hcq : cq' = { cq with waitCqeCondFlag := flag }.waitSection.1 := congrArg Prod.fst he
    have hev : ev = { cq with waitCqeCondFlag := flag }.waitSection.2 := congrArg Prod.snd he
    rw [hcq, hw, hev]
    exact StepCase.wait hp hr hpc (waitSection_log _)
  | forEach => exact forEachCqe_cases h
  | loadHead => exact loadHeadCqe_cases h
  | visit =>
    change cq.visitCqe = _ at h
    unfold visitCqe at h
    split at h <;> cases h
    exact StepCase.visit ‹_›
  | next stop =>
    change cq.nextCqe stop = _ at h
    unfold nextCqe at h
    split at h <;> cases h
    exact StepCase.next ‹_›
  | advance =>
    change cq.advance = _ at h
    unfold Cq.advance at h
    split at h <;> cases h
    exact StepCase.advance ‹_›
  | spurious =>
    cases h
    exact StepCase.spurious
  | stop =>
    change (if _ then _ else _) = _ at h
    split at h
    · nomatch h
    · rename_i hp
      cases h
      exact StepCase.stop (by simpa using hp)

end Cq

end GwBot

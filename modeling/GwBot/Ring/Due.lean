import GwBot.Ring.Queues

/-!
# What the ring still owes

What was submitted is posted, dropped by a worker, not counted, outstanding, or in the hands of `submit_sqe`, so the entries that were
prepared are those whose completion the consumer has visited, those that were lost, and those that are still due.
-/

namespace GwBot

open Lib

namespace GwRing

variable {ring ring' : GwRing} {a : Act} {log ev : List RingEvent}

/-! ## What a step leaves as it is -/

/-- The masks are those of `gw_ring_init`. -/
theorem StepCase.masks (hs : StepCase ring a ring' ev) : ring'.sqMask = ring.sqMask ∧ ring'.cq.cqMask = ring.cq.cqMask := by
  cases hs with
  | getSqe _ =>
    unfold gwRingGetSqe
    split <;> exact ⟨rfl, rfl⟩
  | store hs =>
    obtain ⟨-, -, -, -, -, hmask⟩ := storeCqe_frame hs
    exact ⟨rfl, hmask⟩
  | nopPosted _ _ _ hs | execPosted _ _ hs =>
    cases Cq.publishCqe_cases hs
    exact ⟨rfl, rfl⟩
  | reader hb hs => exact ⟨rfl, (reader_frame hb hs).2.2.2.1⟩
  | _ => exact ⟨rfl, rfl⟩

theorem masks_of_run {C : GwRing → Act → Prop} {ring₀ : GwRing} {max : UInt32} (h0 : Fresh ring₀ max)
    (h : machine.Run C ring₀ ring log) : ring.sqMask = max - 1 ∧ ring.cq.cqMask = max * 2 - 1 := by
  refine h.stateInv (I := fun ring => ring.sqMask = max - 1 ∧ ring.cq.cqMask = max * 2 - 1) ?_ ?_
  · exact ⟨h0.sqMask, by rw [h0.cq]; rfl⟩
  · intro s log a s' ev _ hi _ hs
    obtain ⟨h1, h2⟩ := (step_cases hs).2.masks
    exact ⟨h1.trans hi.1, h2.trans hi.2⟩

/-- A thread gets into `gw_ring_submit` only by calling it. -/
theorem StepCase.submit_none (hs : StepCase ring a ring' ev) (ha : a ≠ .submit) (h : ring.submit = none) : ring'.submit = none := by
  cases hs with
  | getSqe _ =>
    unfold gwRingGetSqe
    split <;> exact h
  | submitStopped _ _ => exact h
  | submitStart _ _ => exact absurd rfl ha
  | submitEnd _ _ _ _ => rfl
  | nop _ hsub _ _ _ | punt hsub _ _ _ _ | unpunted hsub _ _ _ _ | queued _ hsub _ _ _ | queueRefused _ hsub _ _ _
  | nopRefused hsub _ _ _ | nopPost hsub _ _ _ | nopPosted hsub _ _ _ => exact absurd (h.symm.trans hsub) nofun
  | _ => exact h

/-! ## What is still due -/

/-- The submissions with `p` that `submit_sqe` has in hand, but for one whose work has been accepted. -/
def inHand (ring : GwRing) (p : WqSqeData → Bool) : Nat :=
  handCount p ring.submit - queueCount ring.wq.callers true p ring.submit

/-- A submission is posted, dropped by a worker, not counted, outstanding, or in hand. -/
theorem submitted_of_run {C : GwRing → Act → Prop} (hC : ∀ s a, C s a → a ≠ .destroy) {ring₀ : GwRing} {max : UInt32}
    (h0 : Fresh ring₀ max) (h : machine.Run C ring₀ ring log) (p : WqSqeData → Bool) :
    sqeCount .submitted p log = sqeCount .posted p log + sqeCount .dropped p log + sqeCount .uncounted p log +
      ring.outstanding p + ring.inHand p := by
  have h1 := counted_of_run hC h0 h p
  have h2 := (Books.of_run h0 h p).submitted
  have h3 := queueCount_le (p := p) ring.wq.callers ring.submit
  unfold inHand
  omega

/-- No more submissions than works that may be pending and workers are outstanding. -/
theorem outstanding_le {C : GwRing → Act → Prop} {ring₀ : GwRing} {max : UInt32} (h0 : Fresh ring₀ max)
    (h : machine.Run C ring₀ ring log) (p : WqSqeData → Bool) : ring.outstanding p ≤ 4096 + 1024 := by
  have hk := Known.of_run h0 h
  have hattr := WorkqueueStruct.attr_of_run (wq_run h)
  have hpending : JobQueue.pendingCount (isWorkOf p) ring.wq.view ≤ 4096 := by
    calc JobQueue.pendingCount (isWorkOf p) ring.wq.view
        ≤ ring.wq.pendingWorks.length := List.countP_le_length
      _ = occupancy ring.wq.head ring.wq.tail := window_length _ _ _ _
      _ ≤ ring.wq.attr.maxPendingWorks.toNat := hk.wq.occupancy_le
      _ = 4096 := by rw [hattr, h0.attr.2.2]; rfl
  have hheld : JobQueue.heldCount (isWorkOf p) ring.wq.view ≤ 1024 := by
    calc JobQueue.heldCount (isWorkOf p) ring.wq.view
        ≤ (ring.wq.workers.map (·.pc.held)).length := JobQueue.heldCount_le _ _
      _ = ring.wq.attr.maxThreads.toNat := (List.length_map _).trans hk.wq.length
      _ = 1024 := by rw [hattr, h0.attr.1]; rfl
  have hexec := execCount_le_running (p := p) hk.inv ExecPc.isUnposted
  unfold JobQueue.heldCount at hheld
  unfold outstanding
  omega

/-! ## By operation -/

/-- The submissions of the operations `q`. -/
def dataOf (q : UInt8 → Bool) (data : WqSqeData) : Bool := q data.sqe.op

/-- The entries of the operations `q` that were prepared and whose completions the consumer has not come to: in the submission queue, in
`submit_sqe`, with the workqueue, or in the completion queue. -/
def due (ring : GwRing) (q : UInt8 → Bool) : Nat :=
  ring.sqWindow.countP (fun sqe => q sqe.op) + ring.inHand (dataOf q) + ring.outstanding (dataOf q) +
    ring.cq.unvisited.countP (fun cqe => q cqe.op)

/-- The submissions of the operations `q` that never complete. -/
def lost (q : UInt8 → Bool) (log : List RingEvent) : Nat :=
  sqeCount .dropped (dataOf q) log + sqeCount .uncounted (dataOf q) log

/-- The caller's functions other than `gw_ring_destroy`, and an advance only at the end of a walk. -/
def Serving (_ : GwRing) (a : Act) : Prop := a ≠ .destroy ∧ ∀ n, a ≠ .cqAdvance n

/-- What was prepared has been visited, is due, or was lost. -/
theorem due_of_run {ring₀ : GwRing} {max : UInt32} (h0 : Fresh ring₀ max) (h : machine.Run Serving ring₀ ring log) (q : UInt8 → Bool) :
    (submittedSqes log ++ ring.sqWindow).countP (fun sqe => q sqe.op) =
      (visitedOf (cqLog log)).countP (fun cqe => q cqe.op) + ring.due q + lost q log := by
  have h1 := submitted_of_run (fun _ _ hc => hc.1) h0 h (dataOf q)
  have h2 := (Tally.of_run h0 h).posted_countP (q := fun cqe => q cqe.op) (p := dataOf q) (fun _ _ => rfl)
  rw [(cqInv_of_run (fun _ _ hc => hc.2) h0 h).posted_eq, List.countP_append] at h2
  rw [List.countP_append, countP_submittedSqes (fun sqe => q sqe.op)]
  unfold due lost
  change sqeCount .submitted (dataOf q) log + _ = _
  omega

/-- The unconsumed completions are due, or visited in this walk. -/
theorem nrUnconsumed_le {ring₀ : GwRing} {max : UInt32} (h0 : Fresh ring₀ max) (h : machine.Run Serving ring₀ ring log) :
    ring.cq.nrUnconsumed ≤ ring.due (fun _ => true) + ring.cq.reader.nrVisited := by
  have hunvisited : ring.cq.nrUnvisited ≤ ring.due (fun _ => true) := by
    rw [← Cq.Inv.unvisited_length, ← List.countP_true]
    exact Nat.le_add_left _ _
  have := (cqInv_of_run (fun _ _ hc => hc.2) h0 h).nrUnconsumed_eq
  omega

/-- Only the consumer's visits visit, and what it has visited in this walk it releases at its end. -/
theorem visited_of_step {ring₀ : GwRing} {max : UInt32} (h0 : Fresh ring₀ max) (h : machine.Run Serving ring₀ ring log)
    (hc : Serving ring a) (hs : ring.step a = some (ring', ev)) :
    (a ≠ .reader .visit → visitedOf (cqLog ev) = []) ∧
      (a ≠ .reader .advance →
        ring'.cq.reader.nrVisited = ring.cq.reader.nrVisited + (visitedOf (cqLog ev)).length) ∧
      (a = .reader .advance → ring'.cq.reader.nrVisited = 0) := by
  have hcq := cqInv_of_run (fun _ _ hc => hc.2) h0 h
  have hcase := (step_cases hs).2
  refine ⟨fun ha => ?_, fun ha => ?_, ?_⟩
  · rcases hcase.cq_step hc.2 with ⟨b, hb, hread⟩ | ⟨-, hnil⟩
    · refine (hcq.step_visited hb).1 ?_
      rintro rfl
      exact ha (hread rfl)
    · rw [hnil]
      rfl
  · rcases hcase.cq_step hc.2 with ⟨b, hb, hread⟩ | ⟨hsame, hnil⟩
    · refine (hcq.step_visited hb).2.1 ?_
      rintro rfl
      exact ha (hread rfl)
    · rw [hsame, hnil]
      rfl
  · rintro rfl
    cases hcase with
    | wq hb _ => nomatch hb
    | reader _ hadv => exact (hcq.step_visited hadv).2.2 rfl

/-- When the walk finds no more entry, every posted completion has been visited. -/
theorem unvisited_of_loadHead {ring₀ : GwRing} {max : UInt32} (h0 : Fresh ring₀ max) (h : machine.Run Serving ring₀ ring log)
    (hs : ring.step (.reader .loadHead) = some (ring', ev)) (hend : ∀ head n, ring'.cq.reader ≠ .entry head n) :
    ring'.cq.unvisited = [] := by
  have hinv := cqInv_of_run (fun _ _ hc => hc.2) h0 h
  cases (step_cases hs).2 with
  | wq hb _ => cases hb
  | @reader _ cq' _ _ hload =>
    cases Cq.loadHeadCqe_cases hload with
    | loadEntry _ _ => exact absurd rfl (hend _ _)
    | @loadEnd head n hp heq =>
      obtain ⟨hhead, hn⟩ := hinv.walking hp
      have hz : occupancy (ring.cq.cqHead + n) ring.cq.cqTail = ring.cq.nrUnconsumed - n.toNat := occupancy_add_head hn
      rw [← hhead, heq, occupancy_self] at hz
      rw [← List.length_eq_zero_iff, Cq.Inv.unvisited_length]
      exact hz.symm

/-- A posted completion is that of a submitted entry. -/
theorem submitted_of_posted {ring₀ : GwRing} {max : UInt32} (h0 : Fresh ring₀ max) (h : machine.Run Serving ring₀ ring log)
    {cqe : GwRingCqe} (hm : cqe ∈ postedOf (cqLog log)) : ∃ sqe ∈ submittedSqes log, ∃ res, cqe = sqe.cqe res := by
  have htally := Tally.of_run h0 h
  rw [htally.posted] at hm
  obtain ⟨⟨kind, data, c⟩, he, hc⟩ := List.mem_filterMap.1 hm
  have hkind : kind = .posted ∧ c = some cqe := by
    cases kind with
    | posted => exact ⟨rfl, hc⟩
    | _ => nomatch hc
  obtain ⟨rfl, rfl⟩ := hkind
  obtain ⟨res, hres⟩ := htally.own data _ (mem_sqeLog.1 he)
  have hpos := sqeCount_pos_of_mem (mem_sqeLog.1 he)
  have hsub := submitted_of_run (fun _ _ hc => hc.1) h0 h (· == data)
  obtain ⟨e, he', hp⟩ := List.countP_pos_iff.1 (show 0 < sqeCount .submitted (· == data) log by omega)
  simp only [Bool.and_eq_true, beq_iff_eq] at hp
  refine ⟨data.sqe, List.mem_filterMap.2 ⟨e, he', ?_⟩, res, Option.some.inj hres⟩
  rw [if_pos hp.1, hp.2]

end GwRing

end GwBot

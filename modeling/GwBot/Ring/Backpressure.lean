import GwBot.Ring.Client
import GwBot.Ring.WaitCqe

/-!
# The back-pressure of the two queues

`gw_ring_get_sqe` and `post_cqe` test for a full queue by the absolute difference of two free-running counters. That is the number of
entries in the queue while neither or both have wrapped; with only the tail wrapped it is 2^32 less that number, and both functions
refuse with room to spare (`ring_refuses_with_room`). In a ring of more than 2^30 entries `cq_mask + 1u` is zero besides, and `post_cqe`
refuses for ever. `RingUse` counts beside the ring what the queues ought to hold.
-/

namespace GwBot

open Lib

/-! ## What the consumer consumes -/

namespace Cq

variable {τ : Type} {cq cq' : Cq τ} {ev : List (CqEvent τ)}

/-- The completions that a step of the consumer gives back. -/
def consumes (cq : Cq τ) : Act τ → Nat
  | .advance => cq.reader.nrVisited
  | _ => 0

theorem isFull_iff (cq : Cq τ) : cq.isFull = true ↔ cq.cap ≤ absDiff cq.cqTail cq.cqHead := by
  unfold isFull cap
  rw [decide_eq_true_iff, ge_iff_le, UInt32.le_iff_toNat_le, u32Diff_toNat]

/-- `post_cqe` refuses exactly when its test says full. -/
theorem refuses_iff (hp : cq.posting = none) (thread : τ) (cqe : GwRingCqe) :
    cq.postCqe thread cqe = some (cq, [.refused thread cqe]) ↔ cq.cap ≤ absDiff cq.cqTail cq.cqHead := by
  rw [← cq.isFull_iff]
  unfold postCqe
  rw [hp]
  by_cases hfull : cq.isFull = true
  · simp [hfull]
  · rw [Bool.not_eq_true] at hfull
    simp [hfull]

/-- What is unconsumed grows with what is posted and shrinks with what is consumed. -/
theorem Inv.step_nrUnconsumed {posted visited : List GwRingCqe} (h : Inv cq posted visited) {a : Act τ}
    (hs : cq.step a = some (cq', ev)) : cq'.nrUnconsumed + cq.consumes a = cq.nrUnconsumed + (postedOf ev).length := by
  cases step_cases hs with
  | @publish _ _ cqTail hp =>
    obtain ⟨ht, hlt, -⟩ := h.posting _ hp
    obtain rfl : cqTail = cq.cqTail := ht
    exact occupancy_push h.cap_le hlt
  | wait _ _ _ hev => rcases hev with rfl | ⟨ret, rfl⟩ <;> rfl
  | @advance n hr =>
    have hn : cq.consumes .advance = n.toNat := by rw [consumes, hr]; rfl
    have hle : n.toNat ≤ occupancy cq.cqHead cq.cqTail := h.advancing hr
    have hocc : occupancy (cq.cqHead + n) cq.cqTail = occupancy cq.cqHead cq.cqTail - n.toNat := occupancy_add_head hle
    rw [hn]
    show occupancy (cq.cqHead + n) cq.cqTail + n.toNat = occupancy cq.cqHead cq.cqTail + 0
    omega
  | _ => rfl

end Cq

/-! ## What the queues ought to hold -/

/-- A ring, the number of entries that `gw_ring_get_sqe` has given, and the number of completions that the consumer has consumed. -/
structure RingUse where
  ring : GwRing
  gotten : Nat
  consumed : Nat

namespace RingUse

open GwRing

/-- The entries that a step takes. -/
def gets (s : RingUse) : Act → Nat
  | .getSqe => if s.ring.gwRingGetSqe.2.isSome then 1 else 0
  | _ => 0

/-- The completions that a step consumes. -/
def consumes (s : RingUse) : Act → Nat
  | .reader a => s.ring.cq.consumes a
  | .cqAdvance n => n.toNat
  | _ => 0

/-- A step of the ring, with the books. -/
def step (s : RingUse) (a : Act) : Option (RingUse × List RingEvent) :=
  (s.ring.step a).map (fun r => (⟨r.1, s.gotten + s.gets a, s.consumed + s.consumes a⟩, r.2))

def machine : Machine RingUse Act RingEvent := ⟨step⟩

/-- A ring nobody has used. -/
def init (ring : GwRing) : RingUse := ⟨ring, 0, 0⟩

/-- What the consumer observes: without a walk it advances over no more completions than there are. -/
def ConsumesPosted (s : RingUse) : Act → Prop
  | .cqAdvance n => n.toNat ≤ s.ring.cq.nrUnconsumed
  | _ => True

instance (s : RingUse) (a : Act) : Decidable (s.ConsumesPosted a) :=
  match a with
  | .cqAdvance _ => inferInstanceAs (Decidable (_ ≤ _))
  | .getSqe | .fill _ _ | .submit | .submitNext _ | .queuer _ _ | .postStart _ | .postStore | .postPublish | .worker _ _ | .run _
  | .exec _ _ | .reader _ | .destroy | .destroyWq _ | .join | .destroyEnd | .spuriousWorker _ | .spuriousQueuer _ =>
    inferInstanceAs (Decidable True)

/-- The entries taken and not yet passed to `submit_sqe` fill the submission queue. -/
def SqFull (s : RingUse) (log : List RingEvent) : Prop :=
  s.gotten = (submittedSqes log).length + (s.ring.sqMask.toNat + 1)

/-- The completions posted and not yet consumed fill the completion queue. -/
def CqFull (s : RingUse) (log : List RingEvent) : Prop :=
  (postedOf (cqLog log)).length = s.consumed + (s.ring.cq.cqMask.toNat + 1)

/-- Back-pressure is exact: whoever gets the lock is refused exactly when the queue is full. -/
structure ExactBackpressure (s : RingUse) (log : List RingEvent) : Prop where
  sq : s.ring.submit = none → (s.ring.gwRingGetSqe.2 = none ↔ s.SqFull log)
  cq : s.ring.cq.posting = none → ∀ p cqe, (s.ring.cq.postCqe p cqe = some (s.ring.cq, [.refused p cqe]) ↔ s.CqFull log)

/-- Where it is so: neither or both counters of a queue have wrapped, and `cq_mask + 1u` has not; or the queue is full. -/
structure CountersFit (s : RingUse) (log : List RingEvent) : Prop where
  sq : s.ring.submit = none → s.ring.sqHead ≤ s.ring.sqTail ∨ s.SqFull log
  cq : s.ring.cq.posting = none → (s.ring.cq.cqHead ≤ s.ring.cq.cqTail ∧ s.ring.cq.cqMask + 1 ≠ 0) ∨ s.CqFull log

/-- The books and the counters. -/
structure Inv (s : RingUse) (log : List RingEvent) : Prop where
  sq : SqInv s.ring
  gotten : s.gotten = (submittedSqes log).length + occupancy s.ring.sqFront s.ring.sqTail
  cq : ∃ visited, Cq.Inv s.ring.cq (postedOf (cqLog log)) visited
  posted : (postedOf (cqLog log)).length = s.consumed + s.ring.cq.nrUnconsumed

variable {s s' : RingUse} {a : Act} {log ev : List RingEvent}

theorem step_ring (hs : s.step a = some (s', ev)) : ∃ ring', s.ring.step a = some (ring', ev) ∧
    s' = ⟨ring', s.gotten + s.gets a, s.consumed + s.consumes a⟩ := by
  obtain ⟨⟨ring', ev'⟩, hring, he⟩ := Option.map_eq_some_iff.1 hs
  cases he
  exact ⟨ring', hring, rfl⟩

/-- Without a walk the consumer advances between two of its calls. -/
theorem cqAdvance_step {ring ring' : GwRing} {n : UInt32} (h : ring.step (.cqAdvance n) = some (ring', ev)) :
    (ring.cq.reader = .idle ∨ ∃ ret slot, ring.cq.reader = .returned ret slot) ∧
      ring' = { ring with cq := ring.cq.cqAdvance n } ∧ ev = [] := by
  unfold GwRing.step at h
  split at h
  · nomatch h
  · simp only at h
    split at h
    · rename_i hr
      cases h
      exact ⟨Or.inl hr, rfl, rfl⟩
    · rename_i hr
      cases h
      exact ⟨Or.inr ⟨_, _, hr⟩, rfl, rfl⟩
    · nomatch h

namespace Inv

theorem step_sq (h : Inv s log) (hs : s.step a = some (s', ev)) :
    SqInv s'.ring ∧ s'.gotten = (submittedSqes (log ++ ev)).length + occupancy s'.ring.sqFront s'.ring.sqTail := by
  obtain ⟨ring', hring, rfl⟩ := step_ring hs
  have hgotten := h.gotten
  rw [submittedSqes_append, List.length_append]
  by_cases hget : a = .getSqe
  · subst hget
    obtain ⟨hsub, rfl, rfl⟩ := getSqe_step hring
    cases hslot : s.ring.gwRingGetSqe.2 with
    | none =>
      show SqInv s.ring.gwRingGetSqe.1 ∧ s.gotten + s.gets .getSqe = _ + 0 + occupancy s.ring.gwRingGetSqe.1.sqFront
        s.ring.gwRingGetSqe.1.sqTail
      rw [gwRingGetSqe_none hslot, gets, hslot]
      exact ⟨h.sq, hgotten⟩
    | some slot =>
      obtain ⟨hlt, hring', -⟩ := h.sq.room hsub hslot
      refine ⟨(h.sq.get hsub hslot).1, ?_⟩
      have hfront : ∀ r : GwRing, r.submit = none → r.sqFront = r.sqHead := fun r hr => by rw [sqFront, hr]
      rw [hfront _ hsub] at hgotten
      show s.gotten + s.gets .getSqe = _ + 0 + occupancy s.ring.gwRingGetSqe.1.sqFront s.ring.gwRingGetSqe.1.sqTail
      rw [hfront _ (h.sq.get hsub hslot).2.1, gets, hslot, hring']
      show s.gotten + 1 = _ + 0 + occupancy s.ring.sqHead (s.ring.sqTail + 1)
      rw [occupancy_push h.sq.cap_le hlt]
      omega
  · have hgets : s.gets a = 0 := by cases a <;> first | rfl | exact absurd rfl hget
    show SqInv ring' ∧ s.gotten + s.gets a = _ + occupancy ring'.sqFront ring'.sqTail
    rw [hgets]
    by_cases hfill : ∃ slot sqe, a = .fill slot sqe
    · obtain ⟨slot, sqe, rfl⟩ := hfill
      obtain ⟨rfl, rfl⟩ := fill_step hring
      exact ⟨⟨h.sq.isMask, h.sq.cap_le, h.sq.window_le, h.sq.submit⟩, hgotten⟩
    · obtain ⟨hinv, hw⟩ := (step_cases hring).2.sq h.sq hget (fun slot sqe e => hfill ⟨slot, sqe, e⟩)
      refine ⟨hinv, ?_⟩
      have hlen := congrArg List.length hw
      rw [List.length_append, sqWindow, sqWindow, window_length, window_length] at hlen
      omega

theorem step_cq (h : Inv s log) (hc : s.ConsumesPosted a) (hs : s.step a = some (s', ev)) :
    (∃ visited, Cq.Inv s'.ring.cq (postedOf (cqLog (log ++ ev))) visited) ∧
      (postedOf (cqLog (log ++ ev))).length = s'.consumed + s'.ring.cq.nrUnconsumed := by
  obtain ⟨ring', hring, rfl⟩ := step_ring hs
  obtain ⟨visited, hinv⟩ := h.cq
  have hposted := h.posted
  rw [cqLog_append, postedOf_append]
  have hcq : ∀ b, s.ring.cq.step b = some (ring'.cq, cqLog ev) → s.consumes a = s.ring.cq.consumes b →
      (∃ visited, Cq.Inv ring'.cq (postedOf (cqLog log) ++ postedOf (cqLog ev)) visited) ∧
      (postedOf (cqLog log) ++ postedOf (cqLog ev)).length = s.consumed + s.consumes a + ring'.cq.nrUnconsumed := by
    intro b hb hconsumes
    have hnr := hinv.step_nrUnconsumed hb
    refine ⟨⟨_, hinv.step hb⟩, ?_⟩
    rw [List.length_append]
    omega
  cases a with
  | cqAdvance n =>
    obtain ⟨hr, rfl, rfl⟩ := cqAdvance_step hring
    obtain ⟨released, h1, -⟩ := hinv.books
    have hn : n.toNat ≤ s.ring.cq.nrUnconsumed := hc
    have hrel := hinv.release hn h1
    have hocc : occupancy (s.ring.cq.cqHead + n) s.ring.cq.cqTail = s.ring.cq.nrUnconsumed - n.toNat := occupancy_add_head hn
    rw [show postedOf (cqLog []) = [] from rfl, List.append_nil]
    refine ⟨⟨released ++ s.ring.cq.unconsumed.take n.toNat, ?_⟩, ?_⟩
    · rcases hr with hr | ⟨ret, slot, hr⟩
      · have hset := hrel.setReader .idle rfl trivial
        rw [← hr] at hset
        exact hset
      · have hset := hrel.setReader (.returned ret slot) rfl trivial
        rw [← hr] at hset
        exact hset
    · show _ = s.consumed + n.toNat + occupancy (s.ring.cq.cqHead + n) s.ring.cq.cqTail
      have hle : n.toNat ≤ occupancy s.ring.cq.cqHead s.ring.cq.cqTail := hn
      have hall : s.ring.cq.nrUnconsumed = occupancy s.ring.cq.cqHead s.ring.cq.cqTail := rfl
      omega
  | reader b =>
    cases (step_cases hring).2 with
    | reader _ hb =>
      refine hcq b ?_ rfl
      rw [cqLog_map_cq]
      exact hb
    | wq hb _ => nomatch hb
  | _ =>
    -- not a step of the consumer: it consumes nothing
    rcases (step_cases hring).2.cq_step nofun with ⟨b, hb, hreader⟩ | ⟨hsame, hnone⟩
    · refine hcq b hb ?_
      cases b with
      | advance => exact absurd (hreader rfl) nofun
      | _ => rfl
    · show (∃ visited, Cq.Inv ring'.cq _ visited) ∧ _ = s.consumed + 0 + ring'.cq.nrUnconsumed
      rw [hsame, hnone, postedOf_nil, List.append_nil]
      exact ⟨⟨visited, hinv⟩, hposted⟩

theorem step (h : Inv s log) (hc : s.ConsumesPosted a) (hs : s.step a = some (s', ev)) : Inv s' (log ++ ev) where
  sq := (h.step_sq hs).1
  gotten := (h.step_sq hs).2
  cq := (h.step_cq hc hs).1
  posted := (h.step_cq hc hs).2

theorem of_fresh {ring : GwRing} {max : UInt32} (h0 : Fresh ring max) : Inv (init ring) [] where
  sq := h0.sqInv.1
  gotten := by
    have hlen := congrArg List.length h0.sqInv.2
    rw [sqWindow, window_length] at hlen
    show 0 = 0 + occupancy ring.sqFront ring.sqTail
    rw [hlen]
    rfl
  cq := by
    refine ⟨[], ?_⟩
    show Cq.Inv ring.cq [] []
    rw [h0.cq]
    exact Cq.inv_init h0.max_pow
  posted := by
    show 0 = 0 + ring.cq.nrUnconsumed
    rw [h0.cq, Cq.nrUnconsumed, Cq.init, occupancy_self]

theorem of_run {ring : GwRing} {max : UInt32} (h0 : Fresh ring max) (h : machine.Run ConsumesPosted (init ring) s log) : Inv s log := by
  refine h.invariant (of_fresh h0) ?_
  intro s log a s' ev _ hi hc hs
  exact hi.step hc hs

/-- The test of `gw_ring_get_sqe` against the books. -/
theorem sq_iff (h : Inv s log) (hsub : s.ring.submit = none) :
    (s.ring.gwRingGetSqe.2 = none ↔ s.SqFull log) ↔ s.ring.sqHead ≤ s.ring.sqTail ∨ s.SqFull log := by
  have hfront : s.ring.sqFront = s.ring.sqHead := by rw [sqFront, hsub]
  have hgotten := h.gotten
  have hle := h.sq.window_le
  rw [hfront] at hgotten hle
  have hfull : s.SqFull log ↔ occupancy s.ring.sqHead s.ring.sqTail = s.ring.sqMask.toNat + 1 := by
    unfold SqFull
    omega
  have hmask : (s.ring.sqMask + 1).toNat = s.ring.sqMask.toNat + 1 := by
    have := h.sq.cap_le
    rw [UInt32.toNat_add, UInt32.toNat_one]
    omega
  have htest : s.ring.gwRingGetSqe.2 = none ↔ s.ring.sqMask.toNat + 1 ≤ absDiff s.ring.sqTail s.ring.sqHead := by
    rw [absDiff_comm, ← u32Diff_toNat, ← hmask, ← UInt32.le_iff_toNat_le]
    unfold gwRingGetSqe
    split
    · exact iff_of_true rfl ‹_›
    · exact iff_of_false (by simp) ‹_›
  rw [hfull, htest]
  exact absDiff_full_iff h.sq.cap_le hle

/-- The test of `post_cqe` against the books. -/
theorem cq_iff (h : Inv s log) (hp : s.ring.cq.posting = none) (p : Poster) (cqe : GwRingCqe) :
    (s.ring.cq.postCqe p cqe = some (s.ring.cq, [.refused p cqe]) ↔ s.CqFull log) ↔
      (s.ring.cq.cqHead ≤ s.ring.cq.cqTail ∧ s.ring.cq.cqMask + 1 ≠ 0) ∨ s.CqFull log := by
  obtain ⟨visited, hinv⟩ := h.cq
  have hposted := h.posted
  have hle := hinv.nrUnconsumed_le
  rw [Cq.refuses_iff hp]
  by_cases hcap : 0 < s.ring.cq.cap
  · have hmask := s.ring.cq.mask_succ_of_cap_pos hcap
    have hne : s.ring.cq.cqMask + 1 ≠ 0 := by
      intro e
      rw [Cq.cap, e] at hcap
      exact Nat.lt_irrefl 0 hcap
    have hfull : s.CqFull log ↔ occupancy s.ring.cq.cqHead s.ring.cq.cqTail = s.ring.cq.cap := by
      unfold CqFull
      rw [hmask, hposted, Cq.nrUnconsumed]
      omega
    rw [hfull, absDiff_full_iff hinv.cap_le hle]
    simp only [hne, ne_eq, not_false_eq_true, and_true]
  · -- `cq_mask + 1u` has wrapped: every completion is refused, and none is ever unconsumed
    have hzero : s.ring.cq.cap = 0 := Nat.eq_zero_of_not_pos hcap
    have hwrap : s.ring.cq.cqMask + 1 = 0 := UInt32.toNat_inj.1 hzero
    have hnot : ¬s.CqFull log := by
      unfold CqFull
      rw [hposted]
      omega
    simp only [hzero, hwrap, hnot, Nat.zero_le, ne_eq, not_true_eq_false, and_false, or_self, iff_false]

theorem exactBackpressure_iff (h : Inv s log) : ExactBackpressure s log ↔ CountersFit s log := by
  constructor
  · intro hexact
    exact ⟨fun hsub => (h.sq_iff hsub).1 (hexact.sq hsub),
      fun hp => (h.cq_iff hp .submitter default).1 (hexact.cq hp .submitter default)⟩
  · intro hfit
    exact ⟨fun hsub => (h.sq_iff hsub).2 (hfit.sq hsub), fun hp p cqe => (h.cq_iff hp p cqe).2 (hfit.cq hp)⟩

end Inv

/-- In any run of a ring whose consumer advances over no more than there is, back-pressure is exact in just the states in which the
counters fit. -/
theorem backpressure_exact_iff {size : UInt32} {env : InitEnv} {ring : GwRing} (h0 : gwRingInit size env = some (.ok ring))
    (h : machine.Run ConsumesPosted (init ring) s log) : ExactBackpressure s log ↔ CountersFit s log := by
  obtain ⟨max, -, hfresh⟩ := gwRingInit_fresh h0
  exact (Inv.of_run hfresh h).exactBackpressure_iff

/-- The two entries of a ring have been taken, and no third is given. -/
theorem backpressure_exact_iff_small : ∃ (ring : GwRing) (s : RingUse) (log : List RingEvent),
    gwRingInit 2 ⟨true, true, 0, 0, 0, WorkqueueStruct.AllocEnv.ok⟩ = some (.ok ring) ∧
    machine.Run ConsumesPosted (init ring) s log ∧ s.gotten = 2 ∧ s.ring.gwRingGetSqe.2 = none ∧ ExactBackpressure s log := by
  have hrun : ∃ ring : GwRing, gwRingInit 2 ⟨true, true, 0, 0, 0, WorkqueueStruct.AllocEnv.ok⟩ = some (.ok ring) ∧
      (machine.execIf ConsumesPosted (init ring) [.getSqe, .getSqe, .getSqe]).map
        (fun r => (r.1.gotten, r.1.ring.gwRingGetSqe.2, r.1.ring.sqHead, r.1.ring.sqTail, r.1.ring.cq.cqHead, r.1.ring.cq.cqTail,
          r.1.ring.cq.cqMask)) = some (2, none, 0, 2, 0, 0, 3) := ⟨_, rfl, rfl⟩
  obtain ⟨ring, h0, he⟩ := hrun
  obtain ⟨s, log, h, hval⟩ := Machine.exists_of_exec
    (fun (s : RingUse) _ => (s.gotten, s.ring.gwRingGetSqe.2, s.ring.sqHead, s.ring.sqTail, s.ring.cq.cqHead, s.ring.cq.cqTail,
      s.ring.cq.cqMask)) he
  simp only [Prod.mk.injEq] at hval
  obtain ⟨hgotten, hnull, hsqHead, hsqTail, hcqHead, hcqTail, hmask⟩ := hval
  refine ⟨ring, s, log, h0, h, hgotten, hnull, (backpressure_exact_iff h0 h).2 ⟨fun _ => Or.inl ?_, fun _ => Or.inl ⟨?_, ?_⟩⟩⟩
  · rw [hsqHead, hsqTail]
    decide
  · rw [hcqHead, hcqTail]
    decide
  · rw [hmask]
    decide

/-! ## Rings with room that refuse -/

/-- An entry of a `GW_RING_OP_NOP`. -/
def nopSqe : GwRingSqe := { (default : GwRingSqe) with op := GW_RING_OP_NOP }

/-- A ring of two entries whose submissions have all been completed, with both counters of the submission queue and `cq_tail` at `n`. -/
def drained (wq : WorkqueueStruct SqeFn WqSqeData) (execs : List (Option Exec)) (n cqHead : UInt32) (sqes : Nat → GwRingSqe)
    (cqes : Nat → GwRingCqe) (ret : Int) (count consumed : Nat) : RingUse :=
  { ring :=
      { sqHead := n, sqTail := n, sqMask := 1, sqes := sqes
        cq := { Cq.init 3 with cqHead := cqHead, cqTail := n, cqes := cqes }
        wq := wq, submit := none, submitRet := ret, execs := execs, nrSubmitted := count, destroying := false }
    gotten := count, consumed := consumed }

/-- A `GW_RING_OP_NOP` is submitted and its completion posted. -/
def nopRound (n : UInt32) : List Act :=
  [.getSqe, .fill (slotOf 1 n) nopSqe, .submit, .submitNext true, .postStart .submitter, .postStore, .postPublish, .submitNext true]

theorem exec_nopRound (wq : WorkqueueStruct SqeFn WqSqeData) (hidle : wq.destroyer = .idle) (execs : List (Option Exec)) (n : UInt32)
    (sqes : Nat → GwRingSqe) (cqes : Nat → GwRingCqe) (ret : Int) (count : Nat) :
    (machine.execIf ConsumesPosted (drained wq execs n n sqes cqes ret count count) (nopRound n)).map (fun r => r.1) =
      some (drained wq execs (n + 1) n (writeSlot sqes (slotOf 1 n) nopSqe) (writeSlot cqes (slotOf 3 n) (nopSqe.cqe 0)) 1 (count + 1)
        count) := by
  have hzero : u32Diff n n = 0 := by
    rw [← UInt32.toNat_inj, u32Diff_toNat, absDiff_eq_zero_iff.2 rfl]
    rfl
  simp [Machine.execIf, machine, ConsumesPosted, step, nopRound, drained, GwRing.step, hidle, gwRingGetSqe, hzero, gets, consumes, fillSqe,
    submitStart, submitNext, submitSqe, Cq.init, writeSlot, nopSqe, postStart, Cq.postCqe, Cq.isFull, postStore, Cq.storeCqe, postPublish,
    Cq.publishCqe, Cq.wakeUpWaitCqeCallers, submitSqeReturned, submitEnd]

/-- The consumer consumes the completion. -/
theorem exec_cqAdvance (wq : WorkqueueStruct SqeFn WqSqeData) (hidle : wq.destroyer = .idle) (execs : List (Option Exec)) (n : UInt32)
    (sqes : Nat → GwRingSqe) (cqes : Nat → GwRingCqe) (ret : Int) (count consumed : Nat) :
    (machine.execIf ConsumesPosted (drained wq execs (n + 1) n sqes cqes ret count consumed) [.cqAdvance 1]).map (fun r => r.1) =
      some (drained wq execs (n + 1) (n + 1) sqes cqes ret count (consumed + 1)) := by
  have hone : 1 ≤ occupancy n (n + 1) := by
    rw [occupancy, UInt32.add_comm, UInt32.add_sub_cancel]
    decide
  simp [Machine.execIf, machine, ConsumesPosted, step, drained, GwRing.step, hidle, gets, consumes, Cq.init, Cq.cqAdvance, Cq.nrUnconsumed,
    hone]

/-- Rounds take the counters anywhere. -/
theorem reach_drained : ∃ ring : GwRing,
    gwRingInit 2 ⟨true, true, 0, 0, 0, WorkqueueStruct.AllocEnv.ok⟩ = some (.ok ring) ∧ ring.wq.destroyer = .idle ∧
    ∀ n, ∃ sqes cqes ret log, machine.Run ConsumesPosted (init ring)
      (drained ring.wq ring.execs (UInt32.ofNat n) (UInt32.ofNat n) sqes cqes ret n n) log := by
  have hfirst : ∃ ring : GwRing, gwRingInit 2 ⟨true, true, 0, 0, 0, WorkqueueStruct.AllocEnv.ok⟩ = some (.ok ring) ∧
      ring.wq.destroyer = .idle ∧
      init ring = drained ring.wq ring.execs 0 0 (fun _ => default) (fun _ => default) 0 0 0 := ⟨_, rfl, rfl, rfl⟩
  obtain ⟨ring, h0, hidle, hinit⟩ := hfirst
  refine ⟨ring, h0, hidle, fun n => ?_⟩
  induction n with
  | zero =>
    refine ⟨fun _ => default, fun _ => default, 0, [], ?_⟩
    rw [hinit]
    exact Machine.Run.init
  | succ n ih =>
    obtain ⟨sqes, cqes, ret, log, h⟩ := ih
    obtain ⟨⟨s₁, ev₁⟩, h1, rfl⟩ := Option.map_eq_some_iff.1
      (exec_nopRound ring.wq hidle ring.execs (UInt32.ofNat n) sqes cqes ret n)
    obtain ⟨⟨s₂, ev₂⟩, h2, rfl⟩ := Option.map_eq_some_iff.1
      (exec_cqAdvance ring.wq hidle ring.execs (UInt32.ofNat n) (writeSlot sqes (slotOf 1 (UInt32.ofNat n)) nopSqe)
        (writeSlot cqes (slotOf 3 (UInt32.ofNat n)) (nopSqe.cqe 0)) 1 (n + 1) n)
    rw [ofNat_succ]
    exact ⟨_, _, _, _, Machine.Run.append_exec _ (Machine.Run.append_exec _ h h1) h2⟩

/-- A ring of two entries and four completions, after 2^32 - 1 submissions of `GW_RING_OP_NOP` one at a time. With the next entry taken,
or the next completion posted, the tail has wrapped to 0 and the head has not: one entry is outstanding and `gw_ring_get_sqe` returns
`NULL`, or one completion is unconsumed and `post_cqe` drops the next. -/
theorem ring_refuses_with_room : ∃ ring : GwRing,
    gwRingInit 2 ⟨true, true, 0, 0, 0, WorkqueueStruct.AllocEnv.ok⟩ = some (.ok ring) ∧
    (∃ s log, machine.Run ConsumesPosted (init ring) s log ∧ s.ring.submit = none ∧ s.ring.sqMask = 1 ∧
      s.gotten = (submittedSqes log).length + 1 ∧ s.ring.gwRingGetSqe.2 = none ∧ ¬ExactBackpressure s log) ∧
    ∃ s log, machine.Run ConsumesPosted (init ring) s log ∧ s.ring.cq.posting = none ∧ s.ring.cq.cqMask = 3 ∧
      (postedOf (cqLog log)).length = s.consumed + 1 ∧
      (∀ p cqe, s.ring.cq.postCqe p cqe = some (s.ring.cq, [.refused p cqe])) ∧ ¬ExactBackpressure s log := by
  obtain ⟨ring, h0, hidle, hreach⟩ := reach_drained
  obtain ⟨max, -, hfresh⟩ := gwRingInit_fresh h0
  obtain ⟨sqes, cqes, ret, log, h⟩ := hreach 4294967295
  refine ⟨ring, h0, ?_, ?_⟩
  · have hexec : (machine.execIf ConsumesPosted (drained ring.wq ring.execs 4294967295 4294967295 sqes cqes ret 4294967295 4294967295)
        [.getSqe]).map (fun r => (r.1.ring.submit, r.1.ring.sqMask, r.1.ring.sqHead, r.1.ring.sqTail, r.1.ring.gwRingGetSqe.2)) =
        some (none, 1, 4294967295, 0, none) := by
      have hzero : u32Diff 4294967295 4294967295 = 0 := by decide
      have hwrap : (2 : UInt32) ≤ u32Diff 4294967295 0 := by decide
      simp [Machine.execIf, machine, ConsumesPosted, step, drained, GwRing.step, hidle, gwRingGetSqe, hzero, hwrap]
    obtain ⟨⟨s, ev⟩, hs, hval⟩ := Option.map_eq_some_iff.1 hexec
    simp only [Prod.mk.injEq] at hval
    obtain ⟨hsub, hmask, hhead, htail, hnull⟩ := hval
    have hrun := Machine.Run.append_exec _ h hs
    have hinv := Inv.of_run hfresh hrun
    have hgotten := hinv.gotten
    rw [show s.ring.sqFront = s.ring.sqHead by rw [sqFront, hsub], hhead, htail,
      show occupancy 4294967295 0 = 1 by decide] at hgotten
    refine ⟨s, log ++ ev, hrun, hsub, hmask, hgotten, hnull, fun hexact => ?_⟩
    have := (hexact.sq hsub).1 hnull
    rw [SqFull, hgotten, hmask] at this
    exact absurd (Nat.add_left_cancel this) (by decide)
  · obtain ⟨⟨s, ev⟩, hs, hval⟩ := Option.map_eq_some_iff.1
      (exec_nopRound ring.wq hidle ring.execs 4294967295 sqes cqes ret 4294967295)
    have hfields : (s.ring.cq.posting, s.ring.cq.cqMask, s.ring.cq.cqHead, s.ring.cq.cqTail) = (none, 3, 4294967295, 0) := by
      rw [show s = _ from hval]
      rfl
    simp only [Prod.mk.injEq] at hfields
    obtain ⟨hp, hmask, hhead, htail⟩ := hfields
    have hrun := Machine.Run.append_exec _ h hs
    have hposted := (Inv.of_run hfresh hrun).posted
    rw [Cq.nrUnconsumed, hhead, htail, show occupancy 4294967295 0 = 1 by decide] at hposted
    have hrefuses : ∀ p cqe, s.ring.cq.postCqe p cqe = some (s.ring.cq, [.refused p cqe]) := by
      intro p cqe
      rw [Cq.refuses_iff hp, Cq.cap, hmask, hhead, htail]
      decide
    refine ⟨s, log ++ ev, hrun, hp, hmask, hposted, hrefuses, fun hexact => ?_⟩
    have := (hexact.cq hp .submitter default).1 (hrefuses _ _)
    rw [CqFull, hposted, hmask] at this
    exact absurd (Nat.add_left_cancel this) (by decide)

end RingUse

end GwBot

import GwBot.Ring.Due

/-!
# The caller of the submission queue

One thread takes entries with `gw_ring_get_sqe`, fills each before it goes on, and hands them over with `gw_ring_submit`, on a ring that
nobody destroys. Between two of its calls the slots it has been given are those of the window of the submission queue
(`SqCaller.Inv`), and a call of `gw_ring_submit` passes on the window as it finds it and leaves it empty.
-/

namespace GwBot

open Lib

/-- An entry that the caller has taken, and what it has filled it with. -/
structure SqEntry where
  slot : Nat
  sqe : GwRingSqe
  deriving DecidableEq, Repr

/-- A ring and the thread that calls `gw_ring_get_sqe` and `gw_ring_submit`: the entries it has filled that no `gw_ring_submit` has
handed over, and the slot of the one that it has taken and not filled yet. -/
structure SqCaller where
  ring : GwRing
  entries : List SqEntry
  filling : Option Nat

/-- A step of the ring that is not one of its caller's functions: inside `gw_ring_submit`, or of another thread, which does not destroy
the ring. -/
def GwRing.Act.isOther : GwRing.Act → Bool
  | .getSqe | .fill _ _ | .submit | .destroy => false
  | _ => true

namespace SqCaller

/-- The steps of the caller, and those of the ring. -/
inductive Act where
  | getSqe
  | fill (sqe : GwRingSqe)
  | submit
  | ring (a : GwRing.Act)
  deriving DecidableEq, Repr

/-- The slots of the outstanding entries, in the order in which they were taken. -/
def slots (c : SqCaller) : List Nat := c.entries.map (·.slot) ++ c.filling.toList

/-- A step of the caller. When its `gw_ring_submit` returns no entry is outstanding. -/
def step (c : SqCaller) : Act → Option (SqCaller × List RingEvent)
  | .getSqe =>
    if c.filling.isSome then none
    else (c.ring.step .getSqe).map (fun r => ({ c with ring := r.1, filling := c.ring.gwRingGetSqe.2 }, r.2))
  | .fill sqe =>
    match c.filling with
    | none => none
    | some slot =>
      (c.ring.step (.fill slot sqe)).map (fun r => (⟨r.1, c.entries ++ [⟨slot, sqe⟩], none⟩, r.2))
  | .submit => if c.filling.isSome then none else (c.ring.step .submit).map (fun r => ({ c with ring := r.1 }, r.2))
  | .ring a =>
    if a.isOther then
      (c.ring.step a).map (fun r =>
        ({ c with ring := r.1, entries := if c.ring.submit.isSome && r.1.submit.isNone then [] else c.entries }, r.2))
    else none

/-- The caller as a machine. -/
def machine : Machine SqCaller Act RingEvent := ⟨step⟩

/-- The caller of a ring that `gw_ring_init` has set up. -/
def init (ring : GwRing) : SqCaller := ⟨ring, [], none⟩

end SqCaller

/-! ## What the steps of the ring do to the submission queue -/

namespace GwRing

variable {ring ring' : GwRing} {a : Act} {ev : List RingEvent}

/-- Outside of `gw_ring_submit` only the caller's functions touch the submission queue. -/
theorem StepCase.sq_same (hs : StepCase ring a ring' ev) (ha : a.isOther = true) (hsub : ring.submit = none) :
    ring'.submit = none ∧ ring'.sqes = ring.sqes ∧ ring'.sqHead = ring.sqHead ∧ ring'.sqTail = ring.sqTail := by
  cases hs with
  | getSqe _ | fill _ _ _ | submitStopped _ _ | submitStart _ _ | destroy _ _ _ => nomatch ha
  | submitEnd _ h _ _ | nop _ h _ _ _ | punt h _ _ _ _ | unpunted h _ _ _ _ | queued _ h _ _ _ | queueRefused _ h _ _ _
  | nopRefused h _ _ _ | nopPost h _ _ _ | nopPosted h _ _ _ => exact absurd (hsub.symm.trans h) nofun
  | _ => exact ⟨hsub, rfl, rfl, rfl⟩

/-- `gw_ring_submit` returns with the submission queue empty. -/
theorem StepCase.sqWindow_of_end (h : SqInv ring) (hs : StepCase ring a ring' ev) (hsub : ring.submit.isSome = true)
    (hend : ring'.submit = none) : ring'.sqWindow = [] := by
  obtain ⟨t, ht⟩ := Option.isSome_iff_exists.1 hsub
  cases hs with
  | @submitEnd s malloc hs _ heq =>
    have hfront : sqFront { ring with sqHead := s.sqHead, submit := none, submitRet := s.ret } = ring.sqTail :=
      heq.trans (h.submit s hs)
    rw [sqWindow, hfront]
    exact window_self _ _ _
  | getSqe h | fill _ _ h | submitStopped h _ | submitStart h _ | destroy h _ _ => cases h.symm.trans ht
  | nop _ _ _ _ _ | punt _ _ _ _ _ | unpunted _ _ _ _ _ | queued _ _ _ _ _ | queueRefused _ _ _ _ _ | nopRefused _ _ _ _
  | nopPost _ _ _ _ | nopPosted _ _ _ _ => cases hend
  | _ => cases hend.symm.trans ht

/-- Only `gw_ring_destroy` stops the ring. -/
theorem StepCase.shouldStop (hs : StepCase ring a ring' ev) (ha : a ≠ .destroy) : ring'.cq.shouldStop = ring.cq.shouldStop := by
  cases hs with
  | getSqe _ =>
    unfold gwRingGetSqe
    split <;> rfl
  | store hs =>
    obtain ⟨-, -, -, hstop, -⟩ := storeCqe_frame hs
    exact hstop
  | nopPosted _ _ _ hs | execPosted _ _ hs => exact (publishCqe_frame hs).2
  | reader hb hs => exact (reader_frame hb hs).2.1
  | destroy _ _ _ => exact absurd rfl ha
  | _ => rfl

/-- What `gw_ring_get_sqe` gives is the slot after the window, which now has one more. -/
theorem SqInv.get (h : SqInv ring) (hsub : ring.submit = none) {slot : Nat} (hget : ring.gwRingGetSqe.2 = some slot) :
    SqInv ring.gwRingGetSqe.1 ∧ ring.gwRingGetSqe.1.submit = none ∧ ring.gwRingGetSqe.1.sqes = ring.sqes ∧
      window id ring.gwRingGetSqe.1.sqMask ring.gwRingGetSqe.1.sqHead ring.gwRingGetSqe.1.sqTail =
        window id ring.sqMask ring.sqHead ring.sqTail ++ [slot] := by
  have hpush := (h.push hsub hget default).1
  obtain ⟨hlt, he, rfl⟩ := h.room hsub hget
  refine ⟨⟨hpush.isMask, hpush.cap_le, hpush.window_le, hpush.submit⟩, ?_⟩
  rw [he]
  exact ⟨hsub, rfl, window_snoc h.cap_le hlt id ring.sqMask⟩

end GwRing

namespace SqCaller

variable {c c' : SqCaller} {a : Act} {log ev : List RingEvent}

/-! ## The outstanding entries -/

/-- What holds of the caller: outside of `gw_ring_submit` it has been given the slots of the window and has filled them but for the last
one; and whenever it has outstanding entries, in `gw_ring_submit` too, they are in different slots and not more than there are. -/
structure Inv (c : SqCaller) : Prop where
  sq : c.ring.SqInv
  running : c.ring.cq.shouldStop = false
  filled : c.ring.submit.isSome = true → c.filling = none
  window : c.ring.submit = none → c.slots = window id c.ring.sqMask c.ring.sqHead c.ring.sqTail
  contents : c.ring.submit = none → ∀ e ∈ c.entries, c.ring.sqes e.slot = e.sqe
  distinct : c.slots.Nodup
  length : c.slots.length ≤ c.ring.sqMask.toNat + 1

namespace Inv

/-- The slots of the window are different. -/
theorem of_window (hsq : c.ring.SqInv) (hrunning : c.ring.cq.shouldStop = false) (hsub : c.ring.submit = none)
    (hwindow : c.slots = Lib.window id c.ring.sqMask c.ring.sqHead c.ring.sqTail)
    (hcontents : ∀ e ∈ c.entries, c.ring.sqes e.slot = e.sqe) : Inv c := by
  have hfront : c.ring.sqFront = c.ring.sqHead := by rw [GwRing.sqFront, hsub]
  have hle : occupancy c.ring.sqHead c.ring.sqTail ≤ c.ring.sqMask.toNat + 1 := hfront ▸ hsq.window_le
  refine ⟨hsq, hrunning, fun h => ?_, fun _ => hwindow, fun _ => hcontents, ?_, ?_⟩
  · rw [hsub] at h
    cases h
  · rw [hwindow]
    exact entriesFrom_nodup hsq.isMask hle _
  · rw [hwindow, window_length]
    exact hle

/-- `gw_ring_get_sqe` gives a slot that is not outstanding, or `NULL`. -/
theorem getSqe (h : Inv c) (hs : c.step .getSqe = some (c', ev)) : Inv c' := by
  simp only [step] at hs
  split at hs
  · nomatch hs
  · rename_i hfilling
    obtain ⟨⟨ring', e⟩, hget, h2⟩ := Option.map_eq_some_iff.1 hs
    cases h2
    obtain ⟨hsub, rfl, -⟩ := GwRing.getSqe_step hget
    have hfilling := Option.not_isSome_iff_eq_none.1 hfilling
    have hslots := h.window hsub
    rw [SqCaller.slots, hfilling, Option.toList_none, List.append_nil] at hslots
    cases hslot : c.ring.gwRingGetSqe.2 with
    | none =>
      rw [GwRing.gwRingGetSqe_none hslot]
      refine of_window h.sq h.running hsub ?_ (h.contents hsub)
      rw [SqCaller.slots, Option.toList_none, List.append_nil]
      exact hslots
    | some slot =>
      obtain ⟨hsq, hsub', hsqes, hwindow⟩ := h.sq.get hsub hslot
      refine of_window hsq ?_ hsub' ?_ ?_
      · exact (GwRing.StepCase.shouldStop (GwRing.StepCase.getSqe hsub) nofun).trans h.running
      · rw [hwindow, SqCaller.slots, hslots]
        rfl
      · intro e he
        exact (congrFun hsqes e.slot).trans (h.contents hsub e he)

/-- Filling an entry leaves the others as they are. -/
theorem fill (h : Inv c) {sqe : GwRingSqe} (hs : c.step (.fill sqe) = some (c', ev)) : Inv c' := by
  simp only [step] at hs
  split at hs
  · nomatch hs
  · rename_i slot hfilling
    obtain ⟨⟨ring', e⟩, hfill, h2⟩ := Option.map_eq_some_iff.1 hs
    cases h2
    obtain ⟨rfl, -⟩ := GwRing.fill_step hfill
    have hsub : c.ring.submit = none := by
      by_contra hsub
      exact absurd ((h.filled (Option.isSome_iff_ne_none.2 hsub)).symm.trans hfilling) nofun
    have hdistinct := h.distinct
    rw [SqCaller.slots, hfilling] at hdistinct
    refine of_window ⟨h.sq.isMask, h.sq.cap_le, h.sq.window_le, h.sq.submit⟩ h.running hsub ?_ ?_
    · refine Eq.trans ?_ (h.window hsub)
      simp [SqCaller.slots, hfilling]
    · intro e he
      change writeSlot c.ring.sqes slot sqe e.slot = e.sqe
      rcases List.mem_append.1 he with he | he
      · have hne : e.slot ≠ slot :=
          (List.nodup_append.1 hdistinct).2.2 _ (List.mem_map_of_mem he) _ List.mem_cons_self
        rw [writeSlot, if_neg hne]
        exact h.contents hsub e he
      · obtain rfl := List.mem_singleton.1 he
        exact if_pos rfl

/-- The start of `gw_ring_submit` hands nothing over yet. -/
theorem submit (h : Inv c) (hs : c.step .submit = some (c', ev)) : Inv c' := by
  simp only [step] at hs
  split at hs
  · nomatch hs
  · rename_i hfilling
    obtain ⟨⟨ring', e⟩, hsubmit, h2⟩ := Option.map_eq_some_iff.1 hs
    cases h2
    have hcase := (GwRing.step_cases hsubmit).2
    obtain ⟨hsq, -⟩ := hcase.sq h.sq nofun nofun
    have hmask := hcase.masks.1
    cases hcase with
    | submitStopped _ hstop => exact absurd (h.running.symm.trans hstop) nofun
    | submitStart hsub _ =>
      exact ⟨hsq, h.running, fun _ => Option.not_isSome_iff_eq_none.1 hfilling, nofun, nofun, h.distinct, h.length⟩
    | wq hb _ => nomatch hb

/-- Inside `gw_ring_submit`, and in other threads. -/
theorem ring (h : Inv c) {b : GwRing.Act} (hs : c.step (.ring b) = some (c', ev)) : Inv c' := by
  simp only [step] at hs
  split at hs
  · rename_i hother
    obtain ⟨⟨ring', e⟩, hstep, h2⟩ := Option.map_eq_some_iff.1 hs
    cases h2
    have hcase := (GwRing.step_cases hstep).2
    have hget : b ≠ .getSqe := by rintro rfl; cases hother
    have hfill : ∀ slot sqe, b ≠ .fill slot sqe := by rintro slot sqe rfl; cases hother
    have hdestroy : b ≠ .destroy := by rintro rfl; cases hother
    obtain ⟨hsq, -⟩ := hcase.sq h.sq hget hfill
    have hrunning := (hcase.shouldStop hdestroy).trans h.running
    have hmask := hcase.masks.1
    cases hsub : c.ring.submit with
    | none =>
      obtain ⟨hsub', hsqes, hhead, htail⟩ := hcase.sq_same hother hsub
      refine of_window hsq hrunning hsub' ?_ ?_
      · simp only [Option.isSome_none, Bool.false_and, Bool.false_eq_true, if_false, hmask, hhead, htail]
        exact h.window hsub
      · simp only [Option.isSome_none, Bool.false_and, Bool.false_eq_true, if_false, hsqes]
        exact h.contents hsub
    | some s =>
      have hfilling := h.filled (by rw [hsub]; rfl)
      cases hsub' : ring'.submit with
      | none =>
        have hempty := hcase.sqWindow_of_end h.sq (by rw [hsub]; rfl) hsub'
        have hfront : ring'.sqFront = ring'.sqHead := by rw [GwRing.sqFront, hsub']
        refine of_window hsq hrunning hsub' ?_ (by simp)
        have hlen := congrArg List.length hempty
        rw [GwRing.sqWindow, window_length, hfront] at hlen
        change List.map _ [] ++ c.filling.toList = entriesFrom _ _ _ (occupancy _ _)
        rw [hlen, hfilling]
        rfl
      | some s' =>
        refine ⟨hsq, hrunning, fun _ => hfilling, ?_, ?_, h.distinct, ?_⟩
        · exact fun hnone => absurd (hsub'.symm.trans hnone) (by simp)
        · exact fun hnone => absurd (hsub'.symm.trans hnone) (by simp)
        · exact hmask ▸ h.length
  · cases hs

theorem of_run {C : SqCaller → Act → Prop} {ring₀ : GwRing} {max : UInt32} (h0 : ring₀.Fresh max)
    (h : machine.Run C (init ring₀) c log) : Inv c := by
  obtain ⟨hsq, hempty⟩ := h0.sqInv
  refine h.stateInv ?_ ?_
  · refine of_window hsq (by rw [init, h0.cq]; rfl) h0.submit ?_ nofun
    rw [init, h0.sqHead, h0.sqTail, window_self]
    rfl
  · intro c log a c' ev _ hi _ hs
    cases a with
    | getSqe => exact hi.getSqe hs
    | fill sqe => exact hi.fill hs
    | submit => exact hi.submit hs
    | ring b => exact hi.ring hs

end Inv

/-! ## What is handed over -/

/-- Outside of `gw_ring_submit`, and with no entry left to fill, the submission queue holds what the caller has filled in. -/
theorem Inv.sqWindow (h : Inv c) (hsub : c.ring.submit = none) (hfilling : c.filling = none) :
    c.ring.sqWindow = c.entries.map (·.sqe) := by
  have hslots := h.window hsub
  rw [slots, hfilling, Option.toList_none, List.append_nil] at hslots
  rw [GwRing.sqWindow, GwRing.sqFront, hsub]
  change entriesFrom c.ring.sqes _ _ _ = _
  rw [entriesFrom_eq_map]
  change (Lib.window id _ _ _).map _ = _
  rw [← hslots, List.map_map]
  exact List.map_congr_left (fun e he => h.contents hsub e he)

/-- While `gw_ring_submit` runs the caller takes no other step than those of the ring. -/
theorem step_of_submitting (hsub : c.ring.submit.isSome = true) (hs : c.step a = some (c', ev)) :
    ∃ b, c.ring.step b = some (c'.ring, ev) ∧ b ≠ .getSqe ∧ ∀ slot sqe, b ≠ .fill slot sqe := by
  obtain ⟨s, hsome⟩ := Option.isSome_iff_exists.1 hsub
  cases a with
  | getSqe =>
    simp only [step] at hs
    split at hs
    · nomatch hs
    · obtain ⟨r, hget, -⟩ := Option.map_eq_some_iff.1 hs
      exact absurd ((GwRing.getSqe_step hget).1.symm.trans hsome) nofun
  | fill sqe =>
    simp only [step] at hs
    split at hs
    · nomatch hs
    · obtain ⟨⟨ring', e⟩, hfill, -⟩ := Option.map_eq_some_iff.1 hs
      cases (GwRing.step_cases hfill).2 with
      | fill _ _ hnone => exact absurd (hnone.symm.trans hsome) nofun
      | wq hb _ => nomatch hb
  | submit =>
    simp only [step] at hs
    split at hs
    · nomatch hs
    · obtain ⟨⟨ring', e⟩, hsubmit, -⟩ := Option.map_eq_some_iff.1 hs
      cases (GwRing.step_cases hsubmit).2 with
      | submitStopped hnone _ => exact absurd (hnone.symm.trans hsome) nofun
      | submitStart hnone _ => exact absurd (hnone.symm.trans hsome) nofun
      | wq hb _ => nomatch hb
  | ring b =>
    simp only [step] at hs
    split at hs
    · rename_i hother
      obtain ⟨⟨ring', e⟩, hstep, h2⟩ := Option.map_eq_some_iff.1 hs
      cases h2
      refine ⟨b, hstep, ?_, ?_⟩
      · rintro rfl
        nomatch hother
      · rintro slot sqe rfl
        nomatch hother
    · nomatch hs

/-- A call of `gw_ring_submit` passes the outstanding entries to `submit_sqe`, each once and in the order in which they were taken, and
when it has returned there is an entry to take. -/
theorem Inv.submitted {c₁ c₂ : SqCaller} {seg : List RingEvent} (h : Inv c) (hs : c.step .submit = some (c₁, ev))
    (hrun : machine.Run (fun c _ => c.ring.submit.isSome = true) c₁ c₂ seg) (hend : c₂.ring.submit = none) :
    submittedSqes (ev ++ seg) = c.entries.map (·.sqe) ∧ ∃ slot, c₂.ring.gwRingGetSqe.2 = some slot := by
  have h₁ := h.submit hs
  have hstart : c₁.ring.submit.isSome = true ∧ submittedSqes ev ++ c₁.ring.sqWindow = c.entries.map (·.sqe) := by
    simp only [step] at hs
    split at hs
    · nomatch hs
    · rename_i hfilling
      obtain ⟨⟨ring', e⟩, hsubmit, h2⟩ := Option.map_eq_some_iff.1 hs
      cases h2
      have hcase := (GwRing.step_cases hsubmit).2
      have hwindow := (hcase.sq h.sq nofun nofun).2
      cases hcase with
      | submitStopped _ hstop => exact absurd (h.running.symm.trans hstop) nofun
      | submitStart hsub _ =>
        exact ⟨rfl, hwindow.symm.trans (h.sqWindow hsub (Option.not_isSome_iff_eq_none.1 hfilling))⟩
      | wq hb _ => nomatch hb
  -- what has been passed on and what is still in the queue are the entries, until the queue is found empty
  have hinv : c₂.ring.SqInv ∧ (c₂.ring.submit = none → c₂.ring.sqWindow = []) ∧
      submittedSqes (ev ++ seg) ++ c₂.ring.sqWindow = c.entries.map (·.sqe) := by
    refine hrun.invariant (I := fun c' seg => c'.ring.SqInv ∧ (c'.ring.submit = none → c'.ring.sqWindow = []) ∧
      submittedSqes (ev ++ seg) ++ c'.ring.sqWindow = c.entries.map (·.sqe)) ?_ ?_
    · refine ⟨h₁.sq, fun hnone => ?_, by rw [List.append_nil]; exact hstart.2⟩
      rw [hnone] at hstart
      nomatch hstart.1
    · intro c' seg a c'' e _ hi hsub hstep
      obtain ⟨b, hb, hget, hfill⟩ := step_of_submitting hsub hstep
      have hcase := (GwRing.step_cases hb).2
      obtain ⟨hsq, hwindow⟩ := hcase.sq hi.1 hget hfill
      refine ⟨hsq, hcase.sqWindow_of_end hi.1 hsub, ?_⟩
      rw [← hi.2.2, hwindow, ← List.append_assoc ev, submittedSqes_append (ev ++ seg), List.append_assoc]
  obtain ⟨hsq, hempty, hpassed⟩ := hinv
  rw [hempty hend, List.append_nil] at hpassed
  exact ⟨hpassed, hsq.get_of_empty hend (hempty hend)⟩

end SqCaller

end GwBot

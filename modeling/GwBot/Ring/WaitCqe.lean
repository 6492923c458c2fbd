import GwBot.Ring.CqFifo

/-!
# Waiting for completions

Any number of threads call `gw_ring_wait_cqe` while others post, one walks over the completions and one may destroy the ring. A call is
told the number of unconsumed completions as an `int` made of an absolute difference of the raw counters, which is that number exactly
while `cq_tail` has not wrapped past `cq_head` and the number is below 2^31 (`intOfU32_u32Diff_iff`). Otherwise it is negative, and the
call sleeps on a queue that is not empty.
-/

namespace GwBot

open Lib

/-- The consumer is in `cond_wait` with no notification pending. -/
def ReaderPc.asleep : ReaderPc → Bool
  | .sleeping false => true
  | _ => false

instance : Sleeper ReaderPc where
  asleep := ReaderPc.asleep
  wake := ReaderPc.wake
  wake_of_awake pc h := by
    cases pc with
    | sleeping b => cases b <;> first | rfl | nomatch h
    | _ => rfl
  asleep_wake pc := by cases pc <;> rfl

/-- The completion queue and the threads that call `gw_ring_wait_cqe`, the one that walks among them; `cq.reader` is where the walk
stands. -/
structure CqCallers (τ : Type) where
  cq : Cq τ
  callers : List ReaderPc

/-- The steps that call `wake_up_wait_cqe_callers`. -/
def Cq.Act.notifies {τ : Type} : Cq.Act τ → Bool
  | .publish | .stop => true
  | _ => false

/-- The call of `gw_ring_wait_cqe` by the thread that walks. -/
def Cq.Act.isWait {τ : Type} : Cq.Act τ → Bool
  | .wait => true
  | _ => false

namespace CqCallers

variable {τ : Type}

/-- The steps of the completion queue, and those of the threads that wait. -/
inductive Act (τ : Type) where
  | cq (a : Cq.Act τ)
  /-- Another thread comes. -/
  | thread
  /-- Thread `i` calls `gw_ring_wait_cqe`, or comes back from its `cond_wait`. -/
  | wait (i : Nat)
  | spurious (i : Nat)
  deriving DecidableEq, Repr

/-- A step. A thread that waits does what the consumer does in `gw_ring_wait_cqe`. -/
def step (s : CqCallers τ) : Act τ → Option (CqCallers τ × List (CqEvent τ))
  | .cq a =>
    if a.isWait then none
    else
      (s.cq.step a).map (fun r =>
        (⟨r.1, if a.notifies && s.cq.waitCqeCondFlag then broadcast s.callers else s.callers⟩, r.2))
  | .thread => some ({ s with callers := s.callers ++ [.idle] }, [])
  | .wait i =>
    match s.callers[i]? with
    | none => none
    | some pc =>
      (Cq.waitCqe { s.cq with reader := pc }).map (fun r =>
        (⟨{ r.1 with reader := s.cq.reader }, s.callers.set i r.1.reader⟩, r.2))
  | .spurious i => some ({ s with callers := s.callers.modify i Sleeper.wake }, [])

/-- The completion queue with its callers as a machine. -/
def machine (τ : Type) : Machine (CqCallers τ) (Act τ) (CqEvent τ) := ⟨step⟩

/-- Nobody waits yet. -/
def init (cq : Cq τ) : CqCallers τ := ⟨cq, []⟩

end CqCallers

/-! ## What a caller is told -/

/-- The number that a call returns is the number of unconsumed completions exactly while `cq_tail` has not wrapped past `cq_head` and the
number fits an `int`. -/
theorem intOfU32_u32Diff_iff {head tail : UInt32} (h : 0 < occupancy head tail) (hcap : occupancy head tail ≤ 2 ^ 31) :
    intOfU32 (u32Diff tail head) = occupancy head tail ↔ head ≤ tail ∧ occupancy head tail < 2 ^ 31 := by
  unfold intOfU32
  rw [u32Diff_toNat, absDiff_cases, UInt32.le_iff_toNat_le]
  by_cases hle : head.toNat ≤ tail.toNat
  · rw [if_pos hle]
    split <;> omega
  · rw [if_neg hle]
    split <;> omega

namespace Cq

variable {τ : Type} {cq cq' : Cq τ} {ev : List (CqEvent τ)}

/-- A call sees what there is. -/
def CountFits (cq : Cq τ) : Prop := cq.cqHead ≤ cq.cqTail ∧ cq.nrUnconsumed < 2 ^ 31

instance (cq : Cq τ) : Decidable cq.CountFits := inferInstanceAs (Decidable (_ ∧ _))

/-- What a step that notifies nobody leaves as it is, the walk's advance of an empty queue included. -/
theorem step_quiet {posted visited : List GwRingCqe} (h : Inv cq posted visited) {a : Act τ} (hs : cq.step a = some (cq', ev))
    (hwait : a.isWait = false) (ha : a.notifies = false) :
    cq'.waitCqeCondFlag = cq.waitCqeCondFlag ∧ cq'.shouldStop = cq.shouldStop ∧ cq'.cqTail = cq.cqTail ∧
      (cq.cqHead = cq.cqTail → cq'.cqHead = cq.cqHead) := by
  cases step_cases hs with
  | publish _ | stop _ => cases ha
  | wait _ _ _ _ => cases hwait
  | @advance n hr =>
    refine ⟨rfl, rfl, rfl, fun he => ?_⟩
    have hn : n.toNat ≤ occupancy cq.cqHead cq.cqTail := h.advancing hr
    rw [he, occupancy_self, Nat.le_zero] at hn
    obtain rfl : n = 0 := UInt32.toNat_inj.1 hn
    exact UInt32.add_zero _
  | _ => exact ⟨rfl, rfl, rfl, fun _ => rfl⟩

end Cq

namespace CqCallers

variable {τ : Type} {s s' : CqCallers τ} {a : Act τ} {log ev : List (CqEvent τ)}

/-- A step of the completion queue, with what it does to the callers. -/
theorem cq_step {b : Cq.Act τ} (hs : s.step (.cq b) = some (s', ev)) : b.isWait = false ∧ s.cq.step b = some (s'.cq, ev) ∧
    s'.callers = if b.notifies && s.cq.waitCqeCondFlag then broadcast s.callers else s.callers := by
  change (if _ then _ else _) = _ at hs
  split at hs
  · nomatch hs
  · rename_i hwait
    obtain ⟨⟨cq', e⟩, hstep, h2⟩ := Option.map_eq_some_iff.1 hs
    cases h2
    exact ⟨Bool.not_eq_true _ ▸ hwait, hstep, rfl⟩

/-- The ends of a critical section of thread `i` in `gw_ring_wait_cqe`: it is told to stop, told a number, or sleeps. -/
theorem wait_cases {i : Nat} (hs : s.step (.wait i) = some (s', ev)) :
    (∃ pc, s.callers[i]? = some pc) ∧ postedOf ev = [] ∧ visitedOf ev = [] ∧
    ∃ flag pc', s' = ⟨{ s.cq with waitCqeCondFlag := flag }, s.callers.set i pc'⟩ ∧
      ((s.cq.shouldStop = true ∧ pc' = .returned (-EOWNERDEAD) none) ∨
        (s.cq.shouldStop = false ∧ s.cq.cqHead ≠ s.cq.cqTail ∧ 0 < intOfU32 (u32Diff s.cq.cqTail s.cq.cqHead) ∧
          pc' = .returned (intOfU32 (u32Diff s.cq.cqTail s.cq.cqHead)) (some (slotOf s.cq.cqMask s.cq.cqHead))) ∨
        (s.cq.shouldStop = false ∧ (s.cq.cqHead ≠ s.cq.cqTail → intOfU32 (u32Diff s.cq.cqTail s.cq.cqHead) ≤ 0) ∧
          flag = true ∧ pc' = .sleeping false)) := by
  change (match s.callers[i]? with | none => none | some pc => _) = _ at hs
  split at hs
  · nomatch hs
  · rename_i pc hpc
    refine ⟨⟨pc, hpc⟩, ?_⟩
    obtain ⟨⟨cq', e⟩, hwait, h2⟩ := Option.map_eq_some_iff.1 hs
    cases h2
    obtain ⟨-, -, flag, he⟩ := Cq.waitCqe_cases hwait
    obtain rfl := congrArg Prod.fst he
    obtain rfl := congrArg Prod.snd he
    have hlog := Cq.waitSection_log { s.cq with reader := pc, waitCqeCondFlag := flag }
    refine ⟨?_, ?_, ?_⟩
    · rcases hlog with hev | ⟨ret, hev⟩ <;> rw [hev] <;> rfl
    · rcases hlog with hev | ⟨ret, hev⟩ <;> rw [hev] <;> rfl
    rcases Cq.waitSection_cases { s.cq with reader := pc, waitCqeCondFlag := flag } with
      ⟨hstop, hw⟩ | ⟨hstop, hne, hpos, hw⟩ | ⟨hstop, hneg, hw⟩
    · refine ⟨flag, _, ?_, Or.inl ⟨hstop, rfl⟩⟩
      rw [hw]
    · refine ⟨flag, _, ?_, Or.inr (Or.inl ⟨hstop, hne, hpos, rfl⟩)⟩
      rw [hw]
    · refine ⟨true, _, ?_, Or.inr (Or.inr ⟨hstop, hneg, rfl, rfl⟩)⟩
      rw [hw]

/-- The counters are as the walk and the posters leave them, whoever waits. -/
theorem inv_step {posted visited : List GwRingCqe} (h : Cq.Inv s.cq posted visited) (hs : s.step a = some (s', ev)) :
    Cq.Inv s'.cq (posted ++ postedOf ev) (visited ++ visitedOf ev) := by
  cases a with
  | cq b => exact h.step (cq_step hs).2.1
  | thread =>
    cases hs
    simpa [postedOf, visitedOf] using h
  | wait i =>
    obtain ⟨-, hposted, hvisited, flag, pc', rfl, -⟩ := wait_cases hs
    rw [hposted, hvisited, List.append_nil, List.append_nil]
    exact { h with }
  | spurious i =>
    cases hs
    simpa [postedOf, visitedOf] using h

theorem inv_of_run {C : CqCallers τ → Act τ → Prop} {cq₀ : Cq τ} (h0 : Cq.Inv cq₀ [] []) (h : (machine τ).Run C (init cq₀) s log) :
    Cq.Inv s.cq (postedOf log) (visitedOf log) := by
  refine h.invariant (I := fun s log => Cq.Inv s.cq (postedOf log) (visitedOf log)) h0 ?_
  intro s log a s' ev _ hi _ hs
  rw [postedOf_append, visitedOf_append]
  exact inv_step hi hs

/-! ## Who sleeps -/

/-- A thread that is asleep with no notification pending has the flag set for it, an empty queue, and a ring that does not stop. -/
def SleepsOnEmpty (s : CqCallers τ) : Prop :=
  ∀ pc ∈ s.callers, pc.asleep = true → s.cq.waitCqeCondFlag = true ∧ s.cq.cqHead = s.cq.cqTail ∧ s.cq.shouldStop = false

/-- What a run has to observe: whenever a thread looks at the queue of a ring that does not stop, `cq_tail` has not wrapped past `cq_head`
and fewer than 2^31 completions are unconsumed. -/
def SeesAll (s : CqCallers τ) : Act τ → Prop
  | .wait _ => s.cq.shouldStop = false → s.cq.CountFits
  | _ => True

instance (s : CqCallers τ) (a : Act τ) : Decidable (s.SeesAll a) := by
  unfold SeesAll
  split <;> infer_instance

namespace SleepsOnEmpty

/-- Nobody sleeps on a queue that is not empty, or of a ring that stops. -/
theorem awake (h : SleepsOnEmpty s) (hend : s.cq.cqHead ≠ s.cq.cqTail ∨ s.cq.shouldStop = true) :
    ∀ pc ∈ s.callers, pc.asleep = false := by
  intro pc hpc
  rw [← Bool.not_eq_true]
  intro hasleep
  obtain ⟨-, hempty, hstop⟩ := h pc hpc hasleep
  exact hend.elim (fun hne => hne hempty) (fun hst => absurd (hstop.symm.trans hst) nofun)

theorem of_awake (h : ∀ pc ∈ s.callers, pc.asleep = false) : SleepsOnEmpty s :=
  fun pc hpc hasleep => absurd ((h pc hpc).symm.trans hasleep) nofun

/-- A notification by the flag leaves nobody asleep. -/
theorem notify (h : SleepsOnEmpty s) :
    ∀ pc ∈ (if s.cq.waitCqeCondFlag then broadcast s.callers else s.callers), pc.asleep = false := by
  split
  · exact broadcast_awake s.callers
  · rename_i hflag
    intro pc hpc
    rw [← Bool.not_eq_true]
    exact fun hasleep => hflag (h pc hpc hasleep).1

/-- A thread that looks at the queue and sees what there is goes to sleep only when it is empty. -/
theorem wait (h : SleepsOnEmpty s) {posted visited : List GwRingCqe} (hi : Cq.Inv s.cq posted visited) {i : Nat}
    (hc : s.SeesAll (.wait i)) (hs : s.step (.wait i) = some (s', ev)) : SleepsOnEmpty s' := by
  obtain ⟨-, -, -, flag, pc', rfl, hcases⟩ := wait_cases hs
  have hset : ∀ pc ∈ s.callers.set i pc', pc ∈ s.callers ∨ pc = pc' := fun pc hpc => List.mem_or_eq_of_mem_set hpc
  rcases hcases with ⟨hstop, rfl⟩ | ⟨-, hne, -, rfl⟩ | ⟨hstop, hneg, rfl, rfl⟩
  · refine of_awake (fun pc hpc => ?_)
    rcases hset pc hpc with hpc | rfl
    · exact h.awake (Or.inr hstop) pc hpc
    · rfl
  · refine of_awake (fun pc hpc => ?_)
    rcases hset pc hpc with hpc | rfl
    · exact h.awake (Or.inl hne) pc hpc
    · rfl
  · have hempty : s.cq.cqHead = s.cq.cqTail := by
      by_contra hne
      have hpos : 0 < occupancy s.cq.cqHead s.cq.cqTail :=
        Nat.pos_of_ne_zero (fun e => hne (occupancy_eq_zero_iff.1 e))
      have hfits := (intOfU32_u32Diff_iff hpos (Nat.le_trans hi.nrUnconsumed_le hi.cap_le)).2 (hc hstop)
      have := hneg hne
      omega
    exact fun pc hpc hasleep => ⟨rfl, hempty, hstop⟩

/-- Every step that observes the condition keeps it. -/
theorem step (h : SleepsOnEmpty s) {posted visited : List GwRingCqe} (hi : Cq.Inv s.cq posted visited) (hc : s.SeesAll a)
    (hs : s.step a = some (s', ev)) : SleepsOnEmpty s' := by
  cases a with
  | cq b =>
    obtain ⟨hwait, hstep, hcallers⟩ := cq_step hs
    cases hb : b.notifies with
    | true =>
      rw [hb, Bool.true_and] at hcallers
      exact of_awake (hcallers ▸ h.notify)
    | false =>
      rw [hb, Bool.false_and, if_neg nofun] at hcallers
      obtain ⟨hflag, hstop, htail, hhead⟩ := Cq.step_quiet hi hstep hwait hb
      intro pc hpc hasleep
      obtain ⟨h1, h2, h3⟩ := h pc (hcallers ▸ hpc) hasleep
      exact ⟨hflag.trans h1, (hhead h2).trans (h2.trans htail.symm), hstop.trans h3⟩
  | thread =>
    cases hs
    intro pc hpc hasleep
    rcases List.mem_append.1 hpc with hpc | hpc
    · exact h pc hpc hasleep
    · rw [List.mem_singleton.1 hpc] at hasleep
      nomatch hasleep
  | wait i => exact h.wait hi hc hs
  | spurious i =>
    cases hs
    exact fun pc hpc hasleep => h pc ((modify_woken _ i).mem_of_asleep hpc hasleep) hasleep

end SleepsOnEmpty

/-! ## Past the wrap of `cq_tail` -/

/-- A queue of four slots that nothing is in, with its counters at `head`. -/
def drained (head : UInt32) (cqes : Nat → GwRingCqe) : CqCallers Unit :=
  init { Cq.init 3 with cqHead := head, cqTail := head, cqes := cqes }

/-- One completion is posted, visited and released. -/
def round : List (Act Unit) :=
  [.cq (.post () default), .cq .store, .cq .publish, .cq .forEach, .cq .loadHead, .cq .visit, .cq (.next false), .cq .loadHead, .cq .advance]

theorem u32Diff_self (a : UInt32) : u32Diff a a = 0 := by
  rw [← UInt32.toNat_inj, u32Diff_toNat]
  simp [absDiff]

/-- A round moves both counters on by one. -/
theorem exec_round (head : UInt32) (cqes : Nat → GwRingCqe) :
    (machine Unit).exec (drained head cqes) round =
      some (drained (head + 1) (writeSlot cqes (slotOf 3 head) default), [.posted () default, .visited default]) := by
  simp [Machine.execIf, machine, round, drained, init, step, Cq.step, Cq.Act.isWait, Cq.Act.notifies, Cq.postCqe, Cq.isFull, Cq.init,
    u32Diff_self, Cq.storeCqe, Cq.publishCqe, Cq.wakeUpWaitCqeCallers, Cq.forEachCqe, Cq.loadHeadCqe, Cq.visitCqe, Cq.nextCqe, Cq.advance,
    Cq.cqAdvance, writeSlot]

/-- Rounds take the counters anywhere. -/
theorem reach_drained (n : Nat) : ∃ cqes log, (machine Unit).Reach (init (Cq.init 3)) (drained (UInt32.ofNat n) cqes) log := by
  induction n with
  | zero => exact ⟨_, [], Machine.Run.init⟩
  | succ n ih =>
    obtain ⟨cqes, log, h⟩ := ih
    rw [UInt32.ofNat_add]
    exact ⟨_, _, Machine.Run.append_exec round h (exec_round _ cqes)⟩

/-- After 2^32 - 1 completions a further one is posted and makes `cq_tail` wrap to 0, and a thread that calls `gw_ring_wait_cqe` falls
asleep beside it. -/
theorem wait_cqe_sleeps_on_completion : ∃ (ring : GwRing) (s : CqCallers Unit) (log : List (CqEvent Unit)),
    GwRing.gwRingInit 2 ⟨true, true, 0, 0, 0, WorkqueueStruct.AllocEnv.ok⟩ = some (.ok ring) ∧
    (machine Unit).Reach (init (Cq.init ring.cq.cqMask)) s log ∧
    (s.cq.cqHead, s.cq.cqTail, s.cq.shouldStop, s.cq.nrUnconsumed, s.callers) = (4294967295, 0, false, 1, [.sleeping false]) := by
  obtain ⟨cqes, log, h⟩ := reach_drained 4294967295
  have hexec : ((machine Unit).exec (drained 4294967295 cqes)
      [.cq (.post () default), .cq .store, .cq .publish, .thread, .wait 0]).map
      (fun r => (r.1.cq.cqHead, r.1.cq.cqTail, r.1.cq.shouldStop, r.1.cq.nrUnconsumed, r.1.callers)) =
      some (4294967295, 0, false, 1, [.sleeping false]) := by
    have hdiff : intOfU32 (u32Diff 0 4294967295) = -1 := by decide
    simp [Machine.execIf, machine, drained, init, step, Cq.step, Cq.Act.isWait, Cq.Act.notifies, Cq.postCqe, Cq.isFull, Cq.init,
      u32Diff_self, Cq.storeCqe, Cq.publishCqe, Cq.wakeUpWaitCqeCallers, Cq.waitCqe, Cq.waitSection, Cq.waitCqeOnce, hdiff,
      Cq.nrUnconsumed, occupancy, UInt32.size]
  obtain ⟨⟨s, ev⟩, hs, hval⟩ := Option.map_eq_some_iff.1 hexec
  exact ⟨_, s, log ++ ev, rfl, Machine.Run.append_exec _ h hs, hval⟩

/-! ## What a call sees -/

/-- The calls of `gw_ring_wait_cqe` on a ring of any size, from any number of threads. One that looks at a queue with unconsumed
completions, of a ring that does not stop, returns their number and the slot of the oldest exactly when `cq_tail` has not wrapped past
`cq_head` and the number is below 2^31; and in a run in which that is so whenever a call looks, none is left asleep while the queue is
not empty or the ring stops. -/
theorem wait_cqe_sees_completions {size : UInt32} {env : GwRing.InitEnv} {ring : GwRing}
    (h0 : GwRing.gwRingInit size env = some (.ok ring)) :
    (∀ (s : CqCallers τ) log, (machine τ).Reach (init (Cq.init ring.cq.cqMask)) s log →
      ∀ i s' ev, s.step (.wait i) = some (s', ev) → s.cq.shouldStop = false → 0 < s.cq.nrUnconsumed →
      (s'.callers[i]? = some (.returned s.cq.nrUnconsumed (some (slotOf s.cq.cqMask s.cq.cqHead))) ↔ s.cq.CountFits)) ∧
    (∀ (s : CqCallers τ) log, (machine τ).Run SeesAll (init (Cq.init ring.cq.cqMask)) s log → ∀ i : Nat,
      s.callers[i]? = some (.sleeping false) → s.cq.nrUnconsumed = 0 ∧ s.cq.shouldStop = false) := by
  obtain ⟨max, -, hfresh⟩ := GwRing.gwRingInit_fresh h0
  have hinit : Cq.Inv (Cq.init ring.cq.cqMask : Cq τ) [] [] := by
    rw [hfresh.cq]
    exact Cq.inv_init hfresh.max_pow
  refine ⟨fun s log h i s' ev hs hstop hpos => ?_, fun s log h i hi => ?_⟩
  · have hinv := inv_of_run hinit h
    have hiff := intOfU32_u32Diff_iff hpos (Nat.le_trans hinv.nrUnconsumed_le hinv.cap_le)
    obtain ⟨⟨pc, hpc⟩, -, -, flag, pc', rfl, hcases⟩ := wait_cases hs
    have hget : (s.callers.set i pc')[i]? = some pc' := List.getElem?_set_self (List.getElem?_eq_some_iff.1 hpc).1
    rw [hget, Option.some.injEq, Cq.CountFits, Cq.nrUnconsumed, ← hiff]
    rcases hcases with ⟨hst, -⟩ | ⟨-, -, -, rfl⟩ | ⟨-, hneg, -, rfl⟩
    · exact absurd (hstop.symm.trans hst) nofun
    · constructor
      · intro he
        exact (ReaderPc.returned.inj he).1
      · intro he
        rw [he]
    · refine ⟨nofun, fun he => ?_⟩
      have hne : s.cq.cqHead ≠ s.cq.cqTail := fun e => by
        rw [Cq.nrUnconsumed, e, occupancy_self] at hpos
        exact absurd hpos (Nat.lt_irrefl 0)
      have := hneg hne
      rw [he] at this
      have hpos' : 0 < occupancy s.cq.cqHead s.cq.cqTail := hpos
      omega
  · have hsleeps : SleepsOnEmpty s := by
      refine h.stateInv (I := SleepsOnEmpty) (by simp [SleepsOnEmpty, init]) ?_
      intro s log a s' ev hr hi hc hs
      exact hi.step (inv_of_run hinit hr) hc hs
    obtain ⟨-, hempty, hstop⟩ := hsleeps _ (List.mem_of_getElem? hi) rfl
    exact ⟨occupancy_eq_zero_iff.2 hempty, hstop⟩

/-- On a queue of four slots one thread sleeps until a completion is posted and is told of it, and another falls asleep when it has been
released. -/
theorem wait_cqe_sees_completions_small : ∃ (ring : GwRing) (s : CqCallers Unit) (log : List (CqEvent Unit)),
    GwRing.gwRingInit 2 ⟨true, true, 0, 0, 0, WorkqueueStruct.AllocEnv.ok⟩ = some (.ok ring) ∧
    (machine Unit).Run SeesAll (init (Cq.init ring.cq.cqMask)) s log ∧
    s.callers = [.returned 1 (some 0), .sleeping false] ∧ s.cq.nrUnconsumed = 0 ∧ s.cq.shouldStop = false := by
  have hrun : ∃ ring : GwRing, GwRing.gwRingInit 2 ⟨true, true, 0, 0, 0, WorkqueueStruct.AllocEnv.ok⟩ = some (.ok ring) ∧
      ((machine Unit).execIf SeesAll (init (Cq.init ring.cq.cqMask))
        (.thread :: .thread :: .wait 0 :: round.take 3 ++ .wait 0 :: round.drop 3 ++ [.wait 1])).map (fun r => r.1.callers) =
        some [.returned 1 (some 0), .sleeping false] := by
    refine ⟨_, rfl, ?_⟩
    decide
  obtain ⟨ring, h0, he⟩ := hrun
  obtain ⟨s, log, h, hval⟩ := Machine.exists_of_exec (fun (s : CqCallers Unit) _ => s.callers) he
  exact ⟨ring, s, log, h0, h, hval, (wait_cqe_sees_completions h0).2 s log h 1 (by rw [hval]; rfl)⟩

end CqCallers

end GwBot

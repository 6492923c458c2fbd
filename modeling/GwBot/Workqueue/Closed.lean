import GwBot.Workqueue.WaitAll

/-!
# The queue is closed while somebody waits for it to drain

`wait_all_work_done` blocks the queue for as long as it waits, by a flag that all its calls share: each sets it when it takes the lock
for the first time, and each clears it when it returns. The first of two calls to return so opens the queue while the other one still
waits, and a work is accepted (`queue_opened_while_waiting`). The flag is right for as long as the call that returns is the last one.
-/

namespace GwBot

open Lib

variable {F A : Type}

namespace WorkqueueStruct

variable {wq wq' : WorkqueueStruct F A}

/-! ## The law -/

/-- A call of `wait_all_work_done` has taken the lock and has not returned. -/
def HasWaiter (wq : WorkqueueStruct F A) : Prop := ∃ pc ∈ wq.waiters, pc.isSleeping = true

/-- While a call of `wait_all_work_done` waits, on a queue that does not stop, no work is accepted: none makes `tail` advance. -/
def ClosedWhileWaiting (wq : WorkqueueStruct F A) : Prop :=
  wq.shouldStop = false → wq.HasWaiter →
    ∀ work ks threadCreate, (wq.tryQueueWorkLocked work ks threadCreate).1.tail = wq.tail

/-- What a run has to observe: a call that finds nothing pending and nothing running leaves no other call behind. -/
def LastToLeave (wq : WorkqueueStruct F A) : Act F A → Prop
  | .waiter i => wq.shouldStop = false → wq.countPendingWorks = 0 → wq.nrRunningWorkers = 0 →
      ∀ pc ∈ wq.waiters.eraseIdx i, pc.isSleeping = false
  | _ => True

instance (wq : WorkqueueStruct F A) (a : Act F A) : Decidable (wq.LastToLeave a) :=
  match a with
  | .waiter _ => inferInstanceAs (Decidable (_ → _ → _ → _))
  | .queueWork _ _ _ | .queuer _ _ _ | .waitAll | .worker _ _ | .run _ | .destroy _ | .join | .destroyEnd | .spuriousWorker _
  | .spuriousQueuer _ | .spuriousWaiter _ => inferInstanceAs (Decidable True)

theorem succ_ne_self (x : UInt32) : x + 1 ≠ x := by
  intro h
  have hnat := congrArg UInt32.toNat h
  rw [UInt32.toNat_add, show (1 : UInt32).toNat = 1 from rfl] at hnat
  have := x.toNat_lt
  omega

/-- `try_queue_work_locked` advances `tail` when it accepts the work, and only then. -/
theorem tryQueueWorkLocked_tail_iff (wq : WorkqueueStruct F A) :
    (∀ work ks threadCreate, (wq.tryQueueWorkLocked work ks threadCreate).1.tail = wq.tail) ↔ wq.accepts = false := by
  rw [← Bool.not_eq_true]
  constructor
  · intro h hacc
    have hadvance := h default [] 0
    rcases wq.tryQueueWorkLocked_cases default [] 0 with ⟨hs, -⟩ | ⟨-, hfull, -⟩ | ⟨-, -, -, l, he, -⟩
    · exact absurd ((wq.accepts_iff.1 hacc).1.symm.trans hs) nofun
    · rcases hfull with hb | hfull
      · exact absurd ((wq.accepts_iff.1 hacc).2.1.symm.trans hb) nofun
      · exact absurd (wq.accepts_iff.1 hacc).2.2 (Nat.not_lt_of_le hfull)
    · rw [he] at hadvance
      exact succ_ne_self wq.tail hadvance
  · intro hno work ks threadCreate
    rcases wq.tryQueueWorkLocked_cases work ks threadCreate with ⟨-, he⟩ | ⟨-, -, he⟩ | ⟨hs, hb, hroom, -⟩
    · rw [he]
    · rw [he]
    · exact absurd (wq.accepts_iff.2 ⟨hs, hb, hroom⟩) hno

/-! ## The flag -/

/-- The flag is set while a call waits, on a queue that does not stop. -/
def BlockedWhileWaiting (wq : WorkqueueStruct F A) : Prop := wq.shouldStop = false → wq.HasWaiter → wq.queueIsBlocked = true

theorem HasWaiter.of_woken (hw : Woken wq.waiters wq'.waiters) (h : wq'.HasWaiter) : wq.HasWaiter :=
  hw.exists_mem_of (fun pc hsleep => pc.isSleeping_wake.symm.trans hsleep) h

/-- What a step does to the flag and to the calls of `wait_all_work_done`: a critical section of one of them, or nothing but that calls
come or are notified. -/
theorem step_waiters {a : Act F A} {ev : List (WqEvent F A)} (hs : wq.step a = some (wq', ev)) :
    (∃ i pc, a = .waiter i ∧ wq.waiters[i]? = some pc ∧ wq.waiterSection i pc = some (wq', ev)) ∨
    (wq.LastToLeave a ∧ wq'.queueIsBlocked = wq.queueIsBlocked ∧ (wq'.shouldStop = false → wq.shouldStop = false) ∧
      (wq'.HasWaiter → wq.HasWaiter)) := by
  obtain ⟨r, rfl, rfl, hc⟩ := wq.step_result hs
  cases hc with
  | queueWork func arg deleter => exact Or.inr ⟨trivial, rfl, id, id⟩
  | queuer _ hr =>
    obtain ⟨-, nQ, -, hcases⟩ := wq.queuerSection_cases hr
    rcases hcases with ⟨-, rfl⟩ | ⟨-, -, rfl⟩ | ⟨-, -, -, l, rfl, -⟩ <;> exact Or.inr ⟨trivial, rfl, id, id⟩
  | waitAll =>
    refine Or.inr ⟨trivial, rfl, id, ?_⟩
    rintro ⟨pc, hpc, hsleep⟩
    rcases List.mem_append.1 hpc with hpc | hpc
    · exact ⟨pc, hpc, hsleep⟩
    · rw [List.mem_singleton.1 hpc] at hsleep
      nomatch hsleep
  | waiter hi hr => exact Or.inl ⟨_, _, rfl, hi, hr⟩
  | worker _ hr =>
    right
    obtain ⟨w, h1, rfl⟩ := Option.map_eq_some_iff.1 hr
    have hw : w.queueIsBlocked = wq.queueIsBlocked ∧ w.shouldStop = wq.shouldStop ∧ w.waiters = wq.waiters := by
      rcases wq.workerResume_cases h1 with ⟨-, rfl⟩ | ⟨-, rfl⟩ | ⟨-, rfl⟩ <;> exact ⟨rfl, rfl, rfl⟩
    obtain ⟨hb, hstop, hwaiters⟩ := hw
    have hwaiter : w.HasWaiter → wq.HasWaiter := HasWaiter.of_woken (by rw [hwaiters]; exact Woken.refl _)
    rcases w.workerLoop_cases _ with ⟨-, -, he⟩ | ⟨-, -, he⟩ | ⟨-, -, he⟩ <;> rw [he]
    · exact ⟨trivial, hb, fun h => hstop ▸ h, hwaiter⟩
    · exact ⟨trivial, hb, fun h => hstop ▸ h, hwaiter⟩
    · refine ⟨trivial, hb, fun h => hstop ▸ h, fun h => hwaiter (h.of_woken ?_)⟩
      show Woken w.waiters (if w.waitAllIsWaiting then broadcast w.waiters else w.waiters)
      split
      · exact broadcast_woken _
      · exact Woken.refl _
  | run _ hr =>
    obtain ⟨st, work, pc, -, he, -⟩ := wq.workerRun_cases hr
    rw [he]
    exact Or.inr ⟨trivial, rfl, id, id⟩
  | destroy ks _ =>
    rw [wq.destroySection_eq]
    exact Or.inr ⟨trivial, rfl, nofun, HasWaiter.of_woken (by
      show Woken wq.waiters (if wq.waitAllIsWaiting then broadcast wq.waiters else wq.waiters)
      split
      · exact broadcast_woken _
      · exact Woken.refl _)⟩
  | join _ hr =>
    rcases wq.joinRound_cases hr with ⟨-, rfl⟩ | ⟨t, -, -, rfl⟩ <;> exact Or.inr ⟨trivial, rfl, id, id⟩
  | destroyEnd _ => exact Or.inr ⟨trivial, rfl, id, id⟩
  | spuriousWorker k => exact Or.inr ⟨trivial, rfl, id, id⟩
  | spuriousQueuer i => exact Or.inr ⟨trivial, rfl, id, id⟩
  | spuriousWaiter i => exact Or.inr ⟨trivial, rfl, id, HasWaiter.of_woken (modify_woken _ i)⟩

/-- The calls that are left when call `i` returns. -/
theorem hasWaiter_returned_iff {l : List CallPc} {i : Nat} {pc : CallPc} (hi : l[i]? = some pc) (ret : Int) :
    (∃ x ∈ l.set i (.returned ret), x.isSleeping = true) ↔ ∃ x ∈ l.eraseIdx i, x.isSleeping = true := by
  have hlt := (List.getElem?_eq_some_iff.1 hi).1
  rw [← List.eraseIdx_set_eq (a := .returned ret)]
  constructor
  · rintro ⟨x, hx, hsleep⟩
    obtain ⟨j, hj⟩ := List.mem_iff_getElem?.1 hx
    refine ⟨x, List.mem_eraseIdx_iff_getElem?.2 ⟨j, ?_, hj⟩, hsleep⟩
    rintro rfl
    rw [List.getElem?_set_self hlt] at hj
    cases hj
    nomatch hsleep
  · rintro ⟨x, hx, hsleep⟩
    exact ⟨x, List.mem_of_mem_eraseIdx hx, hsleep⟩

/-- A critical section of a call of `wait_all_work_done` leaves the flag right exactly when the call does not return before another. -/
theorem waiterSection_blocked_iff (h : BlockedWhileWaiting wq) {i : Nat} {pc : CallPc} (hi : wq.waiters[i]? = some pc)
    {r : WorkqueueStruct F A × List (WqEvent F A)} (hr : wq.waiterSection i pc = some r) :
    BlockedWhileWaiting r.1 ↔ wq.LastToLeave (.waiter i) := by
  have hround : ∀ w : WorkqueueStruct F A, w.waiters = wq.waiters → w.shouldStop = wq.shouldStop →
      w.countPendingWorks = wq.countPendingWorks → w.nrRunningWorkers = wq.nrRunningWorkers →
      (wq.shouldStop = false → w.queueIsBlocked = true) →
      (BlockedWhileWaiting (w.waitAllRound i).1 ↔ wq.LastToLeave (.waiter i)) := by
    intro w hwaiters hstop hcount hrunning hblocked
    rcases w.waitAllRound_cases i with ⟨hwork, hgo, he⟩ | ⟨hend, he⟩ <;> rw [he]
    · refine iff_of_true (fun hs _ => hblocked (hstop.symm.trans hs)) (fun _ h0 h1 => ?_)
      rw [hcount, hrunning] at hwork
      exact hwork.elim (fun hpos => absurd h0 (Nat.pos_iff_ne_zero.1 hpos)) (fun hne => absurd h1 hne)
    · have hleft : ({ w with queueIsBlocked := false, waiters := w.waiters.set i (.returned 0) } : WorkqueueStruct F A).HasWaiter ↔
          ∃ x ∈ wq.waiters.eraseIdx i, x.isSleeping = true := by
        rw [← hasWaiter_returned_iff hi 0, ← hwaiters]
        rfl
      constructor
      · intro hlaw hs _ _ pc hpc
        rw [← Bool.not_eq_true]
        exact fun hsleep => nomatch hlaw (hstop.trans hs) (hleft.2 ⟨pc, hpc, hsleep⟩)
      · intro hlast hs hwaiter
        have hs' : wq.shouldStop = false := hstop.symm.trans hs
        rcases hend with ⟨h0, h1⟩ | hstop'
        · obtain ⟨x, hx, hsleep⟩ := hleft.1 hwaiter
          exact absurd ((hlast hs' (hcount.symm.trans h0) (hrunning.symm.trans h1) x hx).symm.trans hsleep) nofun
        · exact absurd ((hs : w.shouldStop = false).symm.trans hstop') nofun
  rcases wq.waiterSection_cases hr with ⟨-, he, -⟩ | ⟨hp, he⟩ <;> rw [he]
  · exact hround { wq with queueIsBlocked := true } rfl rfl rfl rfl (fun _ => rfl)
  · refine hround { wq with waitAllIsWaiting := false } rfl rfl rfl rfl (fun hs => h hs ⟨pc, List.mem_of_getElem? hi, ?_⟩)
    rw [hp]
    rfl

/-- A step leaves the flag right exactly when it meets the condition. -/
theorem BlockedWhileWaiting.step_iff (h : BlockedWhileWaiting wq) {a : Act F A} {ev : List (WqEvent F A)}
    (hs : wq.step a = some (wq', ev)) : BlockedWhileWaiting wq' ↔ wq.LastToLeave a := by
  rcases step_waiters hs with ⟨i, pc, rfl, hi, hr⟩ | ⟨hlast, hb, hstop, hwaiter⟩
  · exact waiterSection_blocked_iff h hi hr
  · exact iff_of_true (fun hs' hw => hb.trans (h (hstop hs') (hwaiter hw))) hlast

theorem BlockedWhileWaiting.of_run {wq₀ : WorkqueueStruct F A} {log : List (WqEvent F A)} (h0 : Fresh wq₀)
    (h : (machine F A).Run LastToLeave wq₀ wq log) : BlockedWhileWaiting wq := by
  refine h.stateInv ?_ (fun _ _ _ _ _ _ hb hc hs => (hb.step_iff hs).2 hc)
  rintro - ⟨pc, hpc, -⟩
  rw [h0.waiters] at hpc
  nomatch hpc

/-! ## What the flag is for -/

theorem BlockedWhileWaiting.closed (h : BlockedWhileWaiting wq) : ClosedWhileWaiting wq := by
  intro hs hw
  rw [wq.tryQueueWorkLocked_tail_iff, ← Bool.not_eq_true, wq.accepts_iff]
  rintro ⟨-, hb, -⟩
  exact absurd ((h hs hw).symm.trans hb) nofun

/-- A queue with nothing pending is closed by the flag alone. -/
theorem ClosedWhileWaiting.blocked (h : ClosedWhileWaiting wq) (h0 : wq.countPendingWorks = 0) : BlockedWhileWaiting wq := by
  intro hs hw
  have hno := wq.tryQueueWorkLocked_tail_iff.1 (h hs hw)
  rw [← Bool.not_eq_true, wq.accepts_iff] at hno
  by_contra hb
  refine hno ⟨hs, Bool.not_eq_true _ ▸ hb, ?_⟩
  rw [h0]
  exact wq.attr.maxPendingWorks_pos

/-- Only a work that is accepted makes `tail` advance. -/
theorem step_tail {a : Act F A} {ev : List (WqEvent F A)} (hs : wq.step a = some (wq', ev)) :
    wq'.tail = wq.tail ∨ wq.accepts = true := by
  obtain ⟨r, rfl, rfl, hc⟩ := wq.step_result hs
  cases hc with
  | queuer _ hr =>
    rcases wq.queuerSection_workers hr with ⟨-, -, -, htail⟩ | ⟨hacc, -⟩
    · exact Or.inl htail
    · exact Or.inr hacc
  | waiter _ hr =>
    obtain ⟨blocked, waiting, waiters, he, -⟩ := wq.waiterSection_frame hr
    rw [he]
    exact Or.inl rfl
  | worker _ hr =>
    left
    obtain ⟨w, h1, rfl⟩ := Option.map_eq_some_iff.1 hr
    have hw : w.tail = wq.tail := by
      rcases wq.workerResume_cases h1 with ⟨-, rfl⟩ | ⟨-, rfl⟩ | ⟨-, rfl⟩ <;> rfl
    rcases w.workerLoop_cases _ with ⟨-, -, he⟩ | ⟨-, -, he⟩ | ⟨-, -, he⟩ <;> rw [he] <;> exact hw
  | run _ hr =>
    obtain ⟨st, work, pc, -, he, -⟩ := wq.workerRun_cases hr
    rw [he]
    exact Or.inl rfl
  | destroy ks _ =>
    rw [wq.destroySection_eq]
    exact Or.inl rfl
  | join _ hr =>
    rcases wq.joinRound_cases hr with ⟨-, rfl⟩ | ⟨t, -, -, rfl⟩ <;> exact Or.inl rfl
  | _ => exact Or.inl rfl

theorem ClosedWhileWaiting.step_tail (h : ClosedWhileWaiting wq) (hstop : wq.shouldStop = false) (hw : wq.HasWaiter) {a : Act F A}
    {ev : List (WqEvent F A)} (hs : wq.step a = some (wq', ev)) : wq'.tail = wq.tail := by
  have hno := wq.tryQueueWorkLocked_tail_iff.1 (h hstop hw)
  rcases WorkqueueStruct.step_tail hs with htail | hacc
  · exact htail
  · exact absurd (hno.symm.trans hacc) nofun

/-- In a run in which no call of `wait_all_work_done` that finds nothing left to wait for leaves another call behind, no work is accepted
while a call waits; and the first one that does opens the queue. -/
theorem queue_closed_while_waiting {attrArg : WorkqueueAttr} {env : AllocEnv} {wq₀ : WorkqueueStruct F A} {log : List (WqEvent F A)}
    (h0 : allocWorkqueue attrArg env = some (.ok wq₀)) (h : (machine F A).Run LastToLeave wq₀ wq log) :
    ClosedWhileWaiting wq ∧
    ∀ a wq' ev, wq.step a = some (wq', ev) →
      (wq.shouldStop = false → wq.HasWaiter → wq'.tail = wq.tail) ∧ (ClosedWhileWaiting wq' ↔ wq.LastToLeave a) := by
  have hblocked := BlockedWhileWaiting.of_run (allocWorkqueue_fresh h0) h
  refine ⟨hblocked.closed, fun a wq' ev hs => ⟨fun hstop hw => hblocked.closed.step_tail hstop hw hs, fun hclosed => ?_,
    fun hc => ((hblocked.step_iff hs).2 hc).closed⟩⟩
  rcases step_waiters hs with ⟨i, pc, rfl, -, hr⟩ | ⟨hlast, -⟩
  · intro hstop hcount hrunning
    obtain ⟨blocked, waiting, waiters, he, -⟩ := wq.waiterSection_frame hr
    have hcount' : wq'.countPendingWorks = 0 := by
      change wq' = _ at he
      rw [he]
      exact hcount
    exact (hblocked.step_iff hs).1 (hclosed.blocked hcount') hstop hcount hrunning
  · exact hlast

/-- One call waits for a work that runs, and a second one comes when the first has returned. -/
theorem queue_closed_while_waiting_small : ∃ (wq₀ wq : WorkqueueStruct Unit Unit) (log : List (WqEvent Unit Unit)),
    allocWorkqueue smallAttr AllocEnv.ok = some (.ok wq₀) ∧ (machine Unit Unit).Run LastToLeave wq₀ wq log ∧
    wq.shouldStop = false ∧ wq.waiters = [.returned 0, .sleeping false] ∧ ClosedWhileWaiting wq := by
  have hrun : ∃ wq₀ : WorkqueueStruct Unit Unit, allocWorkqueue smallAttr AllocEnv.ok = some (.ok wq₀) ∧
      ((machine Unit Unit).execIf LastToLeave wq₀
        [.worker 0 [], .queueWork none none none, .queuer 0 [] 0, .worker 0 [], .waitAll, .waiter 0, .run 0, .run 0, .worker 0 [],
          .waiter 0, .queueWork none none none, .queuer 1 [] 0, .waitAll, .waiter 1]).map
        (fun r => (r.1.shouldStop, r.1.waiters)) = some (false, [.returned 0, .sleeping false]) := by
    refine ⟨_, rfl, ?_⟩
    decide
  obtain ⟨wq₀, h0, he⟩ := hrun
  obtain ⟨wq, log, h, hval⟩ := Machine.exists_of_exec
    (fun (wq : WorkqueueStruct Unit Unit) _ => (wq.shouldStop, wq.waiters)) he
  obtain ⟨hstop, hwaiters⟩ := Prod.mk.inj hval
  exact ⟨wq₀, wq, log, h0, h, hstop, hwaiters, (queue_closed_while_waiting h0 h).1⟩

/-- Two calls wait for a work that runs. The first of them returns, and before the other one gets the lock a work is accepted. -/
theorem queue_opened_while_waiting : ∃ (wq₀ wq wq' : WorkqueueStruct Unit Unit) (log ev : List (WqEvent Unit Unit)),
    allocWorkqueue smallAttr AllocEnv.ok = some (.ok wq₀) ∧ (machine Unit Unit).Reach wq₀ wq log ∧
    wq.shouldStop = false ∧ wq.waiters = [.returned 0, .sleeping true] ∧ .waitEnter 1 ∈ log ∧ .waitReturn 1 ∉ log ∧
    wq.step (.queuer 1 [] 0) = some (wq', ev) ∧ ev = [.job ⟨.accept, ⟨none, none, none, 1⟩⟩] ∧ wq'.tail = wq.tail + 1 ∧
    ¬ClosedWhileWaiting wq := by
  have hrun : ∃ wq₀ : WorkqueueStruct Unit Unit, allocWorkqueue smallAttr AllocEnv.ok = some (.ok wq₀) ∧
      ((machine Unit Unit).exec wq₀
        [.worker 0 [], .queueWork none none none, .queuer 0 [] 0, .worker 0 [], .waitAll, .waitAll, .waiter 0, .waiter 1, .run 0,
          .run 0, .worker 0 [], .waiter 0, .queueWork none none none]).map
        (fun r => (decide (r.1.shouldStop = false ∧ r.1.waiters = [.returned 0, .sleeping true] ∧ .waitEnter 1 ∈ r.2 ∧
            .waitReturn 1 ∉ r.2), (r.1.step (.queuer 1 [] 0)).map (fun r' => (r'.2, decide (r'.1.tail = r.1.tail + 1))))) =
        some (true, some ([.job ⟨.accept, ⟨none, none, none, 1⟩⟩], true)) := by
    refine ⟨_, rfl, ?_⟩
    decide
  obtain ⟨wq₀, h0, he⟩ := hrun
  obtain ⟨wq, log, h, hval⟩ := Machine.exists_of_exec
    (fun (wq : WorkqueueStruct Unit Unit) (log : List (WqEvent Unit Unit)) =>
      (decide (wq.shouldStop = false ∧ wq.waiters = [.returned 0, .sleeping true] ∧ .waitEnter 1 ∈ log ∧ .waitReturn 1 ∉ log),
        (wq.step (.queuer 1 [] 0)).map (fun r => (r.2, decide (r.1.tail = wq.tail + 1))))) he
  simp only [Prod.mk.injEq, decide_eq_true_eq] at hval
  obtain ⟨⟨hstop, hwaiters, henter, hreturn⟩, hstep⟩ := hval
  obtain ⟨⟨wq', ev⟩, hs, hval'⟩ := Option.map_eq_some_iff.1 hstep
  obtain ⟨rfl, hadvance⟩ := Prod.mk.inj hval'
  have htail : wq'.tail = wq.tail + 1 := of_decide_eq_true hadvance
  refine ⟨wq₀, wq, wq', log, _, h0, h, hstop, hwaiters, henter, hreturn, hs, rfl, htail, fun hclosed => ?_⟩
  have hsame := hclosed.step_tail hstop ⟨.sleeping true, by rw [hwaiters]; decide, rfl⟩ hs
  exact succ_ne_self _ (htail.symm.trans hsame)

end WorkqueueStruct

end GwBot

import GwBot.Workqueue.ExactlyOnce

/-!
# Worker slots and the threads behind them

`arm_spawn_worker` claims a slot before it creates the thread, and nobody looks at what `thread_create` returns: when it fails the slot
stays claimed, no later spawn takes it, and `join_all_workers` joins a thread that does not exist (`slot_claimed_without_thread`). As
long as every `thread_create` that a call of `queue_work` comes to succeeds, the claimed slots are those with a thread.
-/

namespace GwBot

open Lib

variable {F A : Type}

/-- A thread was created for the slot, whatever has become of it. -/
def WorkerPc.created : WorkerPc F A → Bool
  | .noThread => false
  | _ => true

@[simp] theorem WorkerPc.created_wake (pc : WorkerPc F A) : pc.wake.created = pc.created := by
  cases pc <;> rfl

theorem WorkerPc.created_eq_true {pc : WorkerPc F A} (h : pc ≠ .noThread) : pc.created = true := by
  cases pc with
  | noThread => exact absurd rfl h
  | _ => rfl

/-- The joins of slot `i` in a log. -/
def joinsOf (i : Nat) (log : List (WqEvent F A)) : Nat :=
  log.countP (fun e => match e with | .join j => j == i | _ => false)

@[simp] theorem joinsOf_nil (i : Nat) : joinsOf (F := F) (A := A) i [] = 0 := rfl

theorem joinsOf_append (i : Nat) (l l' : List (WqEvent F A)) : joinsOf i (l ++ l') = joinsOf i l + joinsOf i l' :=
  List.countP_append

@[simp] theorem joinsOf_join (i j : Nat) : joinsOf (F := F) (A := A) i [.join j] = if j = i then 1 else 0 := by
  simp [joinsOf, List.countP_cons]

/-- What happens to the works joins nothing. -/
theorem joinsOf_map_job (i : Nat) (l : List (JobEvent (WorkStruct F A))) : joinsOf i (l.map .job) = 0 := by
  unfold joinsOf
  rw [List.countP_eq_zero]
  intro e he
  obtain ⟨x, -, rfl⟩ := List.mem_map.1 he
  simp

namespace WorkqueueStruct

variable {wq wq' : WorkqueueStruct F A}

/-! ## The law of the slots -/

/-- A thread was created for slot `i`. -/
def hasCreated (wq : WorkqueueStruct F A) (i : Nat) : Bool := wq.workers[i]?.any (fun t => t.pc.created)

/-- The slots match the threads: a slot is claimed exactly when a thread was created for it, no slot is free only when there are
`max_threads` threads, and `join_all_workers` has joined each thread whose slot it has passed once, and no slot without a thread. -/
structure SlotsMatch (wq : WorkqueueStruct F A) (log : List (WqEvent F A)) : Prop where
  claimed : ∀ t ∈ wq.workers, t.wq = t.pc.created
  full : wq.getFreeWorkerSlot = none → wq.workers.countP (fun t => t.pc.created) = wq.attr.maxThreads.toNat
  joins : ∀ i, joinsOf i log = if wq.hasCreated i && wq.hasJoined i then 1 else 0

/-- `try_queue_work_locked` would come to `thread_create`. -/
def spawns (wq : WorkqueueStruct F A) : Bool :=
  wq.accepts && wq.nrSleepingWorkers == 0 && wq.getFreeWorkerSlot.isSome

/-- What a run has to observe: a `thread_create` that a call of `queue_work` comes to succeeds. -/
def SpawnSucceeds (wq : WorkqueueStruct F A) : Act F A → Prop
  | .queuer _ _ threadCreate => wq.spawns = true → threadCreate = 0
  | _ => True

instance (wq : WorkqueueStruct F A) (a : Act F A) : Decidable (wq.SpawnSucceeds a) :=
  match a with
  | .queuer _ _ _ => inferInstanceAs (Decidable (_ → _))
  | .queueWork _ _ _ | .waitAll | .waiter _ | .worker _ _ | .run _ | .destroy _ | .join | .destroyEnd | .spuriousWorker _
  | .spuriousQueuer _ | .spuriousWaiter _ => inferInstanceAs (Decidable True)

/-! ## The claimed slots -/

namespace SlotsMatch

/-- Notifications claim no slot and create no thread. -/
theorem claimed_woken {l l' : List (WorkerThread F A)} (hw : Woken l l') (h : ∀ t ∈ l, t.wq = t.pc.created) :
    ∀ t ∈ l', t.wq = t.pc.created := by
  intro t ht
  obtain ⟨k, hk⟩ := List.mem_iff_getElem?.1 ht
  obtain ⟨x, hx, rfl | rfl⟩ := hw.getElem? hk
  · exact h t (List.mem_of_getElem? hx)
  · simpa using h x (List.mem_of_getElem? hx)

theorem claimed_set {l : List (WorkerThread F A)} {k : Nat} {t : WorkerThread F A} (h : ∀ t ∈ l, t.wq = t.pc.created)
    (ht : t.wq = t.pc.created) : ∀ x ∈ l.set k t, x.wq = x.pc.created := by
  intro x hx
  rcases List.mem_or_eq_of_mem_set hx with hx | rfl
  · exact h x hx
  · exact ht

/-- A step claims a slot only for a thread that it creates, when `thread_create` succeeds. -/
theorem claimed_step (h : ∀ t ∈ wq.workers, t.wq = t.pc.created) {a : Act F A} (hc : wq.SpawnSucceeds a)
    {ev : List (WqEvent F A)} (hs : wq.step a = some (wq', ev)) : ∀ t ∈ wq'.workers, t.wq = t.pc.created := by
  cases step_table hs with
  | woken hw => exact claimed_woken hw h
  | armed ha hacc harm =>
    subst ha
    generalize wq'.workers = l at harm
    cases harm with
    | full => exact h
    | spawn h0 hk =>
      refine claimed_set h ?_
      rw [if_pos (hc (by simp [spawns, hacc, h0, hk]))]
      rfl
    | signal => exact claimed_woken (signal_woken _ _) h
  | @move k t pc hk hgone hne he =>
    rw [he]
    have hwas : t.pc.created = true := WorkerPc.created_eq_true (fun e => by rw [e] at hgone; nomatch hgone)
    refine claimed_set h ?_
    show t.wq = pc.created
    rw [h t (List.mem_of_getElem? hk), hwas, WorkerPc.created_eq_true hne]

/-- Without a work that is stored no thread is created. -/
theorem created_step {a : Act F A} {ev : List (WqEvent F A)} (hs : wq.step a = some (wq', ev)) :
    wq'.workers.map (fun t => t.pc.created) = wq.workers.map (fun t => t.pc.created) ∨ wq.accepts = true := by
  cases step_table hs with
  | woken hw => exact Or.inl (hw.map_eq _ (fun t => t.pc.created_wake))
  | armed _ hacc _ => exact Or.inr hacc
  | @move k t pc hk hgone hne he =>
    left
    rw [he]
    refine map_set_same _ hk ?_
    show pc.created = t.pc.created
    rw [WorkerPc.created_eq_true hne]
    exact (WorkerPc.created_eq_true (fun e => by rw [e] at hgone; nomatch hgone)).symm

theorem hasCreated_eq (wq : WorkqueueStruct F A) (i : Nat) :
    wq.hasCreated i = ((wq.workers.map (fun t => t.pc.created))[i]?).any id := by
  unfold hasCreated
  rw [List.getElem?_map]
  cases wq.workers[i]? <;> rfl

/-- When every slot is claimed and the claimed slots are those with a thread, there are `max_threads` threads. -/
theorem full_of_claimed (hi : Inv wq) (h : ∀ t ∈ wq.workers, t.wq = t.pc.created) (hfull : wq.getFreeWorkerSlot = none) :
    wq.workers.countP (fun t => t.pc.created) = wq.attr.maxThreads.toNat := by
  rw [← hi.length, List.countP_eq_length]
  intro t ht
  have := List.findIdx?_eq_none_iff.1 hfull t ht
  rw [← h t ht]
  simpa using this

/-! ## The joins -/

/-- Where a slot is claimed only for a thread, the joins pass it. -/
theorem afterJoin_of_claimed {t : WorkerThread F A} (ht : t.wq = t.pc.created) (i : Nat) : afterJoin t i = .joining (i + 1) := by
  unfold afterJoin
  split
  · rename_i hwq hp
    rw [hwq, hp] at ht
    cases ht
  · rfl

/-- Only `join_all_workers` joins. -/
theorem step_joinsOf {a : Act F A} {ev : List (WqEvent F A)} (hs : wq.step a = some (wq', ev)) :
    (∀ i, joinsOf i ev = 0) ∨ ∃ j, wq.destroyer = .joining j ∧ wq.joinRound j = some (wq', ev) := by
  obtain ⟨r, rfl, rfl, hc⟩ := wq.step_result hs
  cases hc with
  | queuer _ hr =>
    left
    obtain ⟨-, nQ, -, hcases⟩ := wq.queuerSection_cases hr
    rcases hcases with ⟨-, rfl⟩ | ⟨-, -, rfl⟩ | ⟨-, -, -, l, rfl, -⟩ <;> exact fun i => rfl
  | waiter _ hr =>
    left
    have hround : ∀ (w : WorkqueueStruct F A) (j i : Nat), joinsOf i (w.waitAllRound j).2 = 0 := by
      intro w j i
      rcases w.waitAllRound_cases j with ⟨-, -, he⟩ | ⟨-, he⟩ <;> rw [he] <;> rfl
    intro i
    rcases wq.waiterSection_cases hr with ⟨-, -, he⟩ | ⟨-, he⟩
    · rw [he]
      exact hround _ _ i
    · rw [he]
      exact hround _ _ i
  | worker _ hr =>
    left
    obtain ⟨w, -, rfl⟩ := Option.map_eq_some_iff.1 hr
    intro i
    rcases w.workerLoop_cases _ with ⟨-, -, he⟩ | ⟨-, -, he⟩ | ⟨-, -, he⟩ <;> rw [he] <;> rfl
  | run _ hr =>
    left
    obtain ⟨st, work, pc, -, -, -, hev | ⟨kind, -, hev⟩⟩ := wq.workerRun_cases hr <;> rw [hev] <;> exact fun i => rfl
  | destroy ks _ =>
    left
    rw [wq.destroySection_eq]
    exact fun i => joinsOf_map_job i _
  | join hd hr => exact Or.inr ⟨_, hd, hr⟩
  | _ => exact Or.inl (fun i => rfl)

/-- A round of `join_all_workers` keeps the books of the joins. -/
theorem joins_joinRound (h : ∀ t ∈ wq.workers, t.wq = t.pc.created) {log ev : List (WqEvent F A)}
    (hj : ∀ i, joinsOf i log = if wq.hasCreated i && wq.hasJoined i then 1 else 0) {j : Nat} (hd : wq.destroyer = .joining j)
    (hr : wq.joinRound j = some (wq', ev)) (i : Nat) :
    joinsOf i (log ++ ev) = if wq'.hasCreated i && wq'.hasJoined i then 1 else 0 := by
  have hpassed : wq.hasJoined i = decide (i < j) := by
    unfold hasJoined
    rw [hd]
  rw [joinsOf_append, hj, hpassed]
  rcases wq.joinRound_cases hr with ⟨hnone, he⟩ | ⟨t, ht, -, he⟩
  · obtain ⟨rfl, rfl⟩ := Prod.mk.inj he
    -- the end of the table: every slot there is has been passed
    have hend : wq.hasCreated i = true → i < j := by
      intro hc
      obtain ⟨x, hx, -⟩ := (Option.any_eq_true _ _).1 hc
      exact Nat.lt_of_lt_of_le (List.getElem?_eq_some_iff.1 hx).1 (List.getElem?_eq_none_iff.1 hnone)
    show (if wq.hasCreated i && decide (i < j) then 1 else 0) + 0 = if wq.hasCreated i && true then 1 else 0
    cases hc : wq.hasCreated i with
    | false => rfl
    | true => simp [hend hc]
  · rw [afterJoin_of_claimed (h t (List.mem_of_getElem? ht))] at he
    obtain ⟨rfl, rfl⟩ := Prod.mk.inj he
    have hcreated : wq.hasCreated j = t.wq := by
      rw [hasCreated, ht, Option.any_some]
      exact (h t (List.mem_of_getElem? ht)).symm
    show _ = if wq.hasCreated i && decide (i < j + 1) then 1 else 0
    rcases Nat.lt_trichotomy i j with hlt | rfl | hgt
    · have hne : ¬j = i := by omega
      have hlt' : i < j + 1 := by omega
      cases t.wq <;> simp [hlt, hlt', hne]
    · rw [hcreated]
      cases t.wq <;> simp
    · have h1 : ¬i < j := by omega
      have h2 : ¬i < j + 1 := by omega
      have h3 : ¬j = i := by omega
      cases t.wq <;> simp [h1, h2, h3]

/-- Every step keeps the books of the joins: outside of `join_all_workers` nothing is joined, and once it has begun no thread is
created. -/
theorem joins_step (hi : Inv wq) (h : ∀ t ∈ wq.workers, t.wq = t.pc.created) {log ev : List (WqEvent F A)}
    (hj : ∀ i, joinsOf i log = if wq.hasCreated i && wq.hasJoined i then 1 else 0) {a : Act F A}
    (hs : wq.step a = some (wq', ev)) (i : Nat) :
    joinsOf i (log ++ ev) = if wq'.hasCreated i && wq'.hasJoined i then 1 else 0 := by
  rcases step_joinsOf hs with hquiet | ⟨j, hd, hr⟩
  · have hkeep : wq'.hasJoined i = wq.hasJoined i →
        joinsOf i (log ++ ev) = if wq'.hasCreated i && wq'.hasJoined i then 1 else 0 := by
      intro hsame
      rw [joinsOf_append, hquiet, hj, hsame, Nat.add_zero]
      rcases created_step hs with hmap | hacc
      · rw [hasCreated_eq, hasCreated_eq, hmap]
      · -- a work is stored, so the queue does not stop and nothing has been joined
        have hidle : wq.hasJoined i = false := by
          have hstop := (wq.accepts_iff.1 hacc).1
          have := hasJoined_of_not_stopped hi hstop hs i
          rwa [hsame] at this
        rw [hidle, Bool.and_false, Bool.and_false]
    obtain ⟨-, hc⟩ := wq.step_cases hs
    rcases hc.kept with hkept | ⟨ks, hd, he⟩ | ⟨j, hd, hr⟩ | ⟨hd, he⟩
    · exact hkeep (by rw [hasJoined, hasJoined, hkept.destroyer])
    · refine hkeep ?_
      rw [wq.destroySection_eq] at he
      obtain ⟨rfl, -⟩ := Prod.mk.inj he
      simp [hasJoined, hd]
    · exact joins_joinRound h hj hd hr i
    · obtain ⟨rfl, -⟩ := Prod.mk.inj he
      exact hkeep (by simp [hasJoined, hd])
  · exact joins_joinRound h hj hd hr i

theorem step (hi : Inv wq) (hi' : Inv wq') {log ev : List (WqEvent F A)} (h : SlotsMatch wq log) {a : Act F A}
    (hc : wq.SpawnSucceeds a) (hs : wq.step a = some (wq', ev)) : SlotsMatch wq' (log ++ ev) where
  claimed := claimed_step h.claimed hc hs
  full := full_of_claimed hi' (claimed_step h.claimed hc hs)
  joins := joins_step hi h.claimed h.joins hs

/-- A `thread_create` that fails leaves a claimed slot without a thread. -/
theorem not_of_failed_spawn {a : Act F A} (hc : ¬wq.SpawnSucceeds a) {log ev : List (WqEvent F A)}
    (hs : wq.step a = some (wq', ev)) : ¬SlotsMatch wq' log := by
  intro h
  obtain ⟨r, rfl, rfl, hcase⟩ := wq.step_result hs
  cases hcase with
  | @queuer i ks threadCreate c r hi hr =>
    simp only [SpawnSucceeds, Classical.not_imp] at hc
    obtain ⟨hspawns, hfail⟩ := hc
    simp only [spawns, Bool.and_eq_true, beq_iff_eq, Option.isSome_iff_exists] at hspawns
    obtain ⟨⟨hacc, h0⟩, k, hk⟩ := hspawns
    rcases wq.queuerSection_workers hr with ⟨hno, -⟩ | ⟨-, -, -, harm⟩
    · exact absurd (hacc.symm.trans hno) nofun
    · have hclaimed := h.claimed
      generalize r.1.workers = l at harm hclaimed
      cases harm with
      | full _ hk' => exact absurd (hk'.symm.trans hk) nofun
      | @spawn k' _ hk' =>
        obtain ⟨t, ht, -⟩ := wq.getFreeWorkerSlot_some hk'
        have := hclaimed _ (List.mem_of_getElem? (List.getElem?_set_self (List.getElem?_eq_some_iff.1 ht).1))
        rw [if_neg hfail] at this
        nomatch this
      | signal hne => exact hne h0
  | _ => exact hc trivial

/-- The condition is exact, step by step. -/
theorem step_iff (hi : Inv wq) {log ev : List (WqEvent F A)} (h : SlotsMatch wq log) {a : Act F A}
    (hs : wq.step a = some (wq', ev)) : SlotsMatch wq' (log ++ ev) ↔ wq.SpawnSucceeds a :=
  ⟨fun h' => by
    by_contra hc
    exact not_of_failed_spawn hc hs h', fun hc => h.step hi (hi.step hs) hc hs⟩

theorem of_fresh (h : Fresh wq) : SlotsMatch wq [] := by
  have hclaimed : ∀ t ∈ wq.workers, t.wq = t.pc.created := by
    intro t ht
    rcases h.mem_workers ht with rfl | rfl <;> rfl
  refine ⟨hclaimed, full_of_claimed h.inv hclaimed, fun i => ?_⟩
  rw [hasJoined, h.destroyer, Bool.and_false]
  rfl

theorem of_run {wq₀ : WorkqueueStruct F A} {log : List (WqEvent F A)} (h0 : Fresh wq₀)
    (h : (machine F A).Run SpawnSucceeds wq₀ wq log) : SlotsMatch wq log := by
  refine h.invariant (of_fresh h0) ?_
  intro s log a s' ev hr hm hc hs
  have hi := Inv.of_run h0 hr
  exact hm.step hi (hi.step hs) hc hs

end SlotsMatch

/-- In a run in which every `thread_create` of a call of `queue_work` succeeds, the slots match the threads in every state; and the
first one that fails ends that. -/
theorem slots_match_threads {attrArg : WorkqueueAttr} {env : AllocEnv} {wq₀ wq : WorkqueueStruct F A} {log : List (WqEvent F A)}
    (h0 : allocWorkqueue attrArg env = some (.ok wq₀)) (h : (machine F A).Run SpawnSucceeds wq₀ wq log) :
    SlotsMatch wq log ∧
    ∀ a wq' ev, wq.step a = some (wq', ev) → (SlotsMatch wq' (log ++ ev) ↔ wq.SpawnSucceeds a) := by
  have hfresh := allocWorkqueue_fresh h0
  have hm := SlotsMatch.of_run hfresh h
  exact ⟨hm, fun a wq' ev hs => hm.step_iff (Inv.of_run hfresh h) hs⟩

/-- A lazily created worker runs a work and is joined. -/
theorem slots_match_threads_small : ∃ (wq₀ wq : WorkqueueStruct Unit Unit) (log : List (WqEvent Unit Unit)),
    allocWorkqueue ⟨1, 2, 0, 2⟩ AllocEnv.ok = some (.ok wq₀) ∧ (machine Unit Unit).Run SpawnSucceeds wq₀ wq log ∧
    wq.workers.map (·.wq) = [true, false] ∧ (joinsOf 0 log, joinsOf 1 log) = (1, 0) ∧ SlotsMatch wq log := by
  have hrun : ∃ wq₀ : WorkqueueStruct Unit Unit, allocWorkqueue ⟨1, 2, 0, 2⟩ AllocEnv.ok = some (.ok wq₀) ∧
      ((machine Unit Unit).execIf SpawnSucceeds wq₀
        [.queueWork none none none, .queuer 0 [] 0, .worker 0 [], .run 0, .run 0, .worker 0 [], .destroy [], .worker 0 [], .join,
          .join, .join]).map (fun r => (r.1.workers.map (·.wq), joinsOf 0 r.2, joinsOf 1 r.2)) = some ([true, false], 1, 0) := by
    refine ⟨_, rfl, ?_⟩
    decide
  obtain ⟨wq₀, h0, he⟩ := hrun
  obtain ⟨wq, log, h, hval⟩ := Machine.exists_of_exec
    (fun (wq : WorkqueueStruct Unit Unit) log => (wq.workers.map (·.wq), joinsOf 0 log, joinsOf 1 log)) he
  obtain ⟨hw, hj⟩ := Prod.mk.inj hval
  exact ⟨wq₀, wq, log, h0, h, hw, hj, (slots_match_threads h0 h).1⟩

/-- The only slot is claimed for a thread that could not be created: it stays claimed, and `destroy_workqueue` joins it. -/
theorem slot_claimed_without_thread : ∃ (wq₀ wq : WorkqueueStruct Unit Unit) (log : List (WqEvent Unit Unit)),
    allocWorkqueue ⟨1, 1, 0, 2⟩ AllocEnv.ok = some (.ok wq₀) ∧ (machine Unit Unit).Reach wq₀ wq log ∧
    wq.workers = [⟨true, .noThread⟩] ∧ wq.getFreeWorkerSlot = none ∧ joinsOf 0 log = 1 ∧ ¬SlotsMatch wq log := by
  have hrun : ∃ wq₀ : WorkqueueStruct Unit Unit, allocWorkqueue ⟨1, 1, 0, 2⟩ AllocEnv.ok = some (.ok wq₀) ∧
      ((machine Unit Unit).exec wq₀
        [.queueWork none none none, .queuer 0 [] (-EAGAIN), .destroy [], .join]).map
        (fun r => (r.1.workers, r.1.getFreeWorkerSlot, joinsOf 0 r.2)) = some ([⟨true, .noThread⟩], none, 1) := by
    refine ⟨_, rfl, ?_⟩
    decide
  obtain ⟨wq₀, h0, he⟩ := hrun
  obtain ⟨wq, log, h, hval⟩ := Machine.exists_of_exec
    (fun (wq : WorkqueueStruct Unit Unit) log => (wq.workers, wq.getFreeWorkerSlot, joinsOf 0 log)) he
  simp only [Prod.mk.injEq] at hval
  obtain ⟨hw, hfree, hj⟩ := hval
  refine ⟨wq₀, wq, log, h0, h, hw, hfree, hj, fun hm => ?_⟩
  have := hm.claimed ⟨true, .noThread⟩ (by rw [hw]; exact List.mem_singleton.2 rfl)
  nomatch this

end WorkqueueStruct

end GwBot

import GwBot.Ring.Drain
import GwBot.Ring.WaitCqe
import GwBot.Workqueue.Closed

/-!
# What is left for the ring to do

A measure of a ring that every step inside `gw_ring_submit` or of a worker takes down: it weighs the entries in the submission queue, the
call of `gw_ring_submit`, the works and the workers, and the completions that the consumer has not visited. And while a thread is in
`gw_ring_submit`, or a worker is awake, one of these steps can be taken.
-/

namespace GwBot

open Lib

/-- What a work that is accepted adds: itself, and the workers that `arm_worker` notifies for it. A step of the workqueue counts double,
since it may notify the call of `queue_work`. -/
def acceptCost : Nat := 2 * (19 + 1024)

/-- What an entry of the submission queue weighs. -/
def submitCost : Nat := acceptCost + 4

/-- What is left of a call of `queue_work`. -/
def CallPc.stepsLeft : CallPc → Nat
  | .entering => acceptCost + 2
  | .sleeping true => acceptCost + 1
  | .sleeping false => acceptCost
  | .returned _ => 0

/-- What is left of a call of `gw_ring_submit`, but for the entries; `callers` are the calls of `queue_work`. -/
def submitStepsLeft (callers : List (QueueCall SqeFn WqSqeData)) : Option Submit → Nat
  | none => 0
  | some s =>
    match s.pc with
    | .loop => 1
    | .posting _ => 20
    | .inPost _ => 15
    | .queueing _ call => 2 + ((callers[call]?).map (fun c => c.pc.stepsLeft)).getD 0

/-- A notification that the consumer has got and not seen yet. -/
def ReaderPc.woken : ReaderPc → Nat
  | .sleeping true => 1
  | _ => 0

theorem CallPc.stepsLeft_wake (pc : CallPc) : pc.wake.stepsLeft ≤ pc.stepsLeft + 1 := by
  cases pc with
  | sleeping b => cases b <;> exact Nat.le_add_left _ _
  | _ => exact Nat.le_succ _

theorem submitStepsLeft_woken {callers callers' : List (QueueCall SqeFn WqSqeData)} (h : Woken callers callers')
    (s : Option Submit) : submitStepsLeft callers' s ≤ submitStepsLeft callers s + 1 := by
  cases s with
  | none => exact Nat.zero_le 1
  | some s =>
    obtain ⟨sqHead, sqTail, ret, pc⟩ := s
    cases pc with
    | queueing data call =>
      simp only [submitStepsLeft]
      cases hc : callers[call]? with
      | none =>
        have hnone : callers'[call]? = none := by
          rw [List.getElem?_eq_none_iff, h.length_eq]
          exact List.getElem?_eq_none_iff.1 hc
        rw [hnone]
        exact Nat.le_succ _
      | some c =>
        obtain ⟨c', hc', rfl | rfl⟩ := h.getElem?_of hc
        · rw [hc']
          exact Nat.le_succ _
        · rw [hc', Option.map_some, Option.map_some, Option.getD_some, Option.getD_some, QueueCall.wake_pc]
          have := c.pc.stepsLeft_wake
          omega
    | _ => exact Nat.le_succ _

namespace GwRing

variable {ring ring' ring₀ : GwRing} {a : Act} {log ev : List RingEvent} {max : UInt32}

/-- A step inside `gw_ring_submit`, or of a worker. -/
def Act.isService : Act → Bool
  | .submitNext _ | .queuer _ _ | .postStart _ | .postStore | .postPublish | .worker _ _ | .run _ | .exec _ _ => true
  | _ => false

/-- A wake without a notification. -/
def Act.isSpurious : Act → Bool
  | .spuriousWorker _ | .spuriousQueuer _ | .reader .spurious => true
  | _ => false

/-- What is left for `gw_ring_submit` and the workers, but for the entries of the submission queue. -/
def workLeft (ring : GwRing) : Nat := submitStepsLeft ring.wq.callers ring.submit + 2 * ring.stepsLeft 8

/-- The `post_cqe` of a worker is one of the worker's steps. -/
theorem workLeft_of_worker (hs : StepCase ring a ring' ev) (ha : a.isWorker = true) (hi : Inv ring)
    (hnop : a = .postPublish → ∀ p, ring.cq.posting = some p → p.thread ≠ .submitter)
    (hsub : submitStepsLeft ring'.wq.callers ring'.submit ≤ submitStepsLeft ring.wq.callers ring.submit + 1) :
    ring'.workLeft + 15 * nrPosted ev < ring.workLeft := by
  have hless := hs.stepsLeft_lt 8 ha hi hnop
  unfold workLeft
  omega

/-- A critical section of the call of `queue_work` that the submitter is in. -/
theorem workLeft_queuer (hw : ring.wq.Inv) (hlen : ring.wq.workers.length = 1024) {s : Submit} {data : WqSqeData} {call : Nat}
    (hsub : ring.submit = some s) (hpc : s.pc = .queueing data call) {ks : List Nat} {threadCreate : Int}
    {wq' : WorkqueueStruct SqeFn WqSqeData} {e : List (WqEvent SqeFn WqSqeData)}
    (hs : ring.wq.step (.queuer call ks threadCreate) = some (wq', e)) : { ring with wq := wq' }.workLeft < ring.workLeft := by
  obtain ⟨c, pc, hc, hawake, hcallers, hcases⟩ := WorkqueueStruct.stepsLeft_queuer 19 hw hs
  have hget : wq'.callers[call]? = some ⟨c.work, pc⟩ := by
    rw [hcallers]
    exact List.getElem?_set_self (List.getElem?_eq_some_iff.1 hc).1
  have hbefore : acceptCost + 3 ≤ submitStepsLeft ring.wq.callers ring.submit := by
    simp only [hsub, submitStepsLeft, hpc, hc, Option.map_some, Option.getD_some]
    rcases hawake with hp | hp <;> rw [hp] <;> simp only [CallPc.stepsLeft] <;> omega
  have hafter : submitStepsLeft wq'.callers ring.submit = 2 + pc.stepsLeft := by
    simp only [hsub, submitStepsLeft, hpc, hget, Option.map_some, Option.getD_some]
  show submitStepsLeft wq'.callers ring.submit + 2 * stepsLeft 8 { ring with wq := wq' } <
    submitStepsLeft ring.wq.callers ring.submit + 2 * ring.stepsLeft 8
  unfold stepsLeft
  show _ + 2 * (wq'.stepsLeft 19 + poolWeight (execStepsLeft 8) ring.execs + postStepsLeft ring.cq.posting) <
    _ + 2 * (ring.wq.stepsLeft 19 + poolWeight (execStepsLeft 8) ring.execs + postStepsLeft ring.cq.posting)
  rcases hcases with ⟨⟨ret, rfl⟩, hle⟩ | ⟨rfl, heq⟩
  · have hz : CallPc.stepsLeft (.returned ret) = 0 := rfl
    unfold acceptCost at hbefore
    omega
  · have hz : CallPc.stepsLeft (.sleeping false) = acceptCost := rfl
    omega

/-- The submitter goes on by itself: only its own part changes, and the entry that it takes. -/
theorem workLeft_of_submit (hwq : ring'.wq = ring.wq) (hexecs : ring'.execs = ring.execs) (hcq : ring'.cq = ring.cq)
    (hposted : nrPosted ev = 0) {n : Nat} (hcount : (submittedSqes ev).length = n)
    (hsub : submitStepsLeft ring.wq.callers ring'.submit < submitStepsLeft ring.wq.callers ring.submit + submitCost * n) :
    ring'.workLeft + 15 * nrPosted ev < ring.workLeft + submitCost * (submittedSqes ev).length := by
  have hsame : ring'.stepsLeft 8 = ring.stepsLeft 8 := by
    unfold stepsLeft
    rw [hwq, hexecs, hcq]
  unfold workLeft
  rw [hwq, hsame, hposted, hcount]
  omega

/-- What is left of the submitter that stands at `pc`. -/
theorem submitStepsLeft_eq (callers : List (QueueCall SqeFn WqSqeData)) {s : Submit} {pc : SubmitPc} (hsub : ring.submit = some s)
    (hpc : s.pc = pc) : submitStepsLeft callers ring.submit = submitStepsLeft callers (some { s with pc := pc }) := by
  rw [hsub, ← hpc]

/-- Every step inside `gw_ring_submit`, and every step of a worker, leaves less to do, but for what an entry that is passed to
`submit_sqe` weighs; and a completion that is posted takes more with it. -/
theorem StepCase.workLeft_lt (hs : StepCase ring a ring' ev) (ha : a.isService = true) (hi : Inv ring) (hw : ring.wq.Inv)
    (hlen : ring.wq.workers.length = 1024) :
    ring'.workLeft + 15 * nrPosted ev < ring.workLeft + submitCost * (submittedSqes ev).length := by
  have hworker : a.isWorker = true → (a = .postPublish → ∀ p, ring.cq.posting = some p → p.thread ≠ .submitter) →
      submitStepsLeft ring'.wq.callers ring'.submit ≤ submitStepsLeft ring.wq.callers ring.submit + 1 →
      ring'.workLeft + 15 * nrPosted ev < ring.workLeft + submitCost * (submittedSqes ev).length :=
    fun h1 h2 h3 => Nat.lt_add_right _ (workLeft_of_worker hs h1 hi h2 h3)
  cases hs with
  | @submitEnd s malloc hsub hpc _ =>
    have hone := submitStepsLeft_eq ring.wq.callers hsub hpc
    refine workLeft_of_submit (n := 0) rfl rfl rfl rfl rfl ?_
    rw [hone]
    exact Nat.zero_lt_one
  | @nop s malloc hsub hpc _ _ =>
    have hone := submitStepsLeft_eq ring.wq.callers hsub hpc
    refine workLeft_of_submit (n := 1) rfl rfl rfl rfl rfl ?_
    rw [hone]
    show 20 < 1 + submitCost * 1
    decide
  | @punt s wq' hsub hpc _ _ hq =>
    have hone := submitStepsLeft_eq ring.wq.callers hsub hpc
    obtain ⟨r, rfl, -, hc⟩ := ring.wq.step_result hq
    cases hc
    have hget : (ring.wq.callers ++ [⟨⟨some SqeFn.exec, some (ring.nextData s), some SqeFn.delete, ring.wq.callers.length⟩,
        CallPc.entering⟩])[ring.wq.callers.length]? = some ⟨⟨some SqeFn.exec, some (ring.nextData s), some SqeFn.delete,
          ring.wq.callers.length⟩, CallPc.entering⟩ := by
      rw [List.getElem?_append_right (Nat.le_refl _), Nat.sub_self]
      rfl
    show submitStepsLeft (_ ++ _) (some _) + 2 * ring.stepsLeft 8 + 15 * 0 <
      submitStepsLeft ring.wq.callers ring.submit + 2 * ring.stepsLeft 8 + submitCost * 1
    rw [hone]
    simp only [submitStepsLeft, hget, Option.map_some, Option.getD_some, CallPc.stepsLeft, submitCost]
    omega
  | @unpunted s malloc hsub hpc _ _ _ =>
    have hone := submitStepsLeft_eq ring.wq.callers hsub hpc
    have hposted : nrPosted (sqeEvent .submitted (ring.nextData s) :: unpuntedEvents (ring.nextData s)) = 0 := by
      unfold unpuntedEvents
      split <;> rfl
    have hcount : submittedSqes (sqeEvent .submitted (ring.nextData s) :: unpuntedEvents (ring.nextData s)) =
        [(ring.nextData s).sqe] := by
      unfold unpuntedEvents
      split <;> rfl
    refine workLeft_of_submit (n := 1) rfl rfl rfl hposted (congrArg List.length hcount) ?_
    rw [hone]
    show 1 < 1 + submitCost * 1
    decide
  | @queued s data call work ret malloc hsub hpc hc _ =>
    have hone := submitStepsLeft_eq ring.wq.callers hsub hpc
    refine workLeft_of_submit (n := 0) rfl rfl rfl rfl rfl ?_
    rw [hone]
    simp only [submitStepsLeft, hc, Option.map_some, Option.getD_some, CallPc.stepsLeft]
    decide
  | @queueRefused s data call work ret malloc hsub hpc hc _ =>
    have hone := submitStepsLeft_eq ring.wq.callers hsub hpc
    have hposted : nrPosted (sqeEvent .queueRefused data :: sqeEvent .freeData data :: unpuntedEvents data) = 0 := by
      unfold unpuntedEvents
      split <;> rfl
    have hcount : submittedSqes (sqeEvent .queueRefused data :: sqeEvent .freeData data :: unpuntedEvents data) = [] := by
      unfold unpuntedEvents
      split <;> rfl
    refine workLeft_of_submit (n := 0) rfl rfl rfl hposted (congrArg List.length hcount) ?_
    rw [hone]
    simp only [submitStepsLeft, hc, Option.map_some, Option.getD_some, CallPc.stepsLeft]
    decide
  | @wq _ b wq' e hb hstep =>
    cases hb with
    | queuer ks threadCreate hsub hpc =>
      rw [nrPosted_wqEvents]
      exact Nat.lt_add_right _ (workLeft_queuer hw hlen hsub hpc hstep)
    | worker k ks =>
      exact hworker rfl nofun (submitStepsLeft_woken (WorkqueueStruct.worker_jobs hstep).1 _)
    | run _ _ _ =>
      obtain ⟨-, -, -, hcallers, -⟩ := WorkqueueStruct.run_jobs hstep
      exact hworker rfl nofun (hcallers ▸ Nat.le_succ _)
    | _ => nomatch ha
  | execCall _ _ hstep | execRet _ _ hstep =>
    obtain ⟨-, -, -, hcallers, -⟩ := WorkqueueStruct.run_jobs hstep
    exact hworker rfl nofun (hcallers ▸ Nat.le_succ _)
  | exec _ _ | execRefused _ _ _ | execPost _ _ _ | store _ => exact hworker rfl nofun (Nat.le_succ _)
  | execPosted _ hp _ =>
    refine hworker rfl (fun _ p hp' => ?_) (Nat.le_succ _)
    cases hp.symm.trans hp'
    nofun
  | @nopRefused s data hsub hpc _ _ =>
    have hone := submitStepsLeft_eq ring.wq.callers hsub hpc
    refine workLeft_of_submit (n := 0) rfl rfl rfl rfl rfl ?_
    rw [hone]
    show 1 < 20
    decide
  | @nopPost s data hsub hpc hp _ =>
    have hone := submitStepsLeft_eq ring.wq.callers hsub hpc
    show 15 + 2 * (ring.wq.stepsLeft 19 + poolWeight (execStepsLeft 8) ring.execs + 2) + 15 * 0 <
      submitStepsLeft ring.wq.callers ring.submit +
        2 * (ring.wq.stepsLeft 19 + poolWeight (execStepsLeft 8) ring.execs + postStepsLeft ring.cq.posting) + submitCost * 0
    rw [hone, hp]
    show _ < 20 + 2 * (_ + 0) + _
    omega
  | @nopPosted s data cqe cqTail cq' hsub hpc hp hpub =>
    have hone := submitStepsLeft_eq ring.wq.callers hsub hpc
    have hfree := (publishCqe_frame hpub).1
    show 1 + 2 * (ring.wq.stepsLeft 19 + poolWeight (execStepsLeft 8) ring.execs + postStepsLeft cq'.posting) + 15 * 1 <
      submitStepsLeft ring.wq.callers ring.submit +
        2 * (ring.wq.stepsLeft 19 + poolWeight (execStepsLeft 8) ring.execs + postStepsLeft ring.cq.posting) + submitCost * 0
    rw [hone, hp, hfree]
    show 1 + 2 * (_ + 0) + _ < 15 + 2 * (_ + 1) + _
    omega
  | _ => nomatch ha

/-- What a wake without a notification adds. -/
theorem StepCase.workLeft_spurious (hs : StepCase ring a ring' ev) (ha : a.isSpurious = true) :
    ring'.workLeft ≤ ring.workLeft + 2 ∧ ev = [] ∧ ring'.submit = ring.submit := by
  cases hs with
  | @wq _ b wq' e hb hstep =>
    cases hb with
    | spuriousWorker k =>
      obtain ⟨hle, hcallers⟩ := WorkqueueStruct.stepsLeft_spuriousWorker 19 hstep
      have hnil : e = [] := by
        cases (ring.wq.step_cases hstep).2
        rfl
      refine ⟨?_, by rw [hnil]; rfl, rfl⟩
      show submitStepsLeft wq'.callers ring.submit +
        2 * (wq'.stepsLeft 19 + poolWeight (execStepsLeft 8) ring.execs + postStepsLeft ring.cq.posting) ≤
        submitStepsLeft ring.wq.callers ring.submit +
          2 * (ring.wq.stepsLeft 19 + poolWeight (execStepsLeft 8) ring.execs + postStepsLeft ring.cq.posting) + 2
      rw [hcallers]
      omega
    | spuriousQueuer i =>
      cases (ring.wq.step_cases hstep).2
      have hle := submitStepsLeft_woken (modify_woken ring.wq.callers i) ring.submit
      refine ⟨?_, rfl, rfl⟩
      show submitStepsLeft (ring.wq.callers.modify i Sleeper.wake) ring.submit + 2 * ring.stepsLeft 8 ≤
        submitStepsLeft ring.wq.callers ring.submit + 2 * ring.stepsLeft 8 + 2
      omega
    | _ => nomatch ha
  | @reader b cq' e _ hstep =>
    cases b with
    | spurious =>
      cases hstep
      exact ⟨Nat.le_add_right _ _, rfl, rfl⟩
    | _ => nomatch ha
  | _ => nomatch ha

/-! ## Completions -/

/-- The completions posted and not visited change by those that a step posts and visits. -/
theorem nrUnvisited_of_step (h0 : Fresh ring₀ max) (h : machine.Run Serving ring₀ ring log) (hc : Serving ring a)
    (hs : ring.step a = some (ring', ev)) :
    ring'.cq.nrUnvisited + (visitedOf (cqLog ev)).length = ring.cq.nrUnvisited + nrPosted ev := by
  have hbefore := congrArg List.length (cqInv_of_run (fun _ _ hc => hc.2) h0 h).posted_eq
  have hafter := congrArg List.length (cqInv_of_run (fun _ _ hc => hc.2) h0 (h.step a hc hs)).posted_eq
  rw [cqLog_append, postedOf_append, visitedOf_append] at hafter
  rw [List.length_append, Cq.Inv.unvisited_length] at hbefore
  rw [List.length_append, List.length_append, List.length_append, Cq.Inv.unvisited_length] at hafter
  unfold nrPosted
  omega

theorem ReaderPc.woken_wake (pc : ReaderPc) : pc.wake.woken ≤ pc.woken + 1 := by
  cases pc with
  | sleeping b => exact Nat.le_add_left _ _
  | _ => exact Nat.le_succ _

/-- The consumer stays where it is, and is notified only of a completion that is posted. -/
theorem StepCase.reader_of_service (hs : StepCase ring a ring' ev) (ha : a.isService = true) :
    (ring'.cq.reader = ring.cq.reader ∨ ring'.cq.reader = ring.cq.reader.wake) ∧
      ring'.cq.reader.woken ≤ ring.cq.reader.woken + nrPosted ev := by
  have hpub : ∀ {cq' : Cq Poster} {thread : Poster} {cqe : GwRingCqe},
      ring.cq.publishCqe = some (cq', [.posted thread cqe]) →
      (cq'.reader = ring.cq.reader ∨ cq'.reader = ring.cq.reader.wake) ∧ cq'.reader.woken ≤ ring.cq.reader.woken + 1 := by
    intro cq' thread cqe h
    cases Cq.publishCqe_cases h with
    | publish _ =>
      show ((if ring.cq.waitCqeCondFlag then ring.cq.reader.wake else ring.cq.reader) = _ ∨
        (if ring.cq.waitCqeCondFlag then ring.cq.reader.wake else ring.cq.reader) = _) ∧
        (if ring.cq.waitCqeCondFlag then ring.cq.reader.wake else ring.cq.reader : ReaderPc).woken ≤ _
      split
      · exact ⟨Or.inr rfl, ReaderPc.woken_wake _⟩
      · exact ⟨Or.inl rfl, Nat.le_succ _⟩
  cases hs with
  | nopPosted _ _ _ h | execPosted _ _ h => exact hpub h
  | store h =>
    cases Cq.storeCqe_cases h
    exact ⟨Or.inl rfl, Nat.le_add_right _ _⟩
  | reader _ _ => nomatch ha
  | cqAdvance _ => nomatch ha
  | destroy _ _ _ => nomatch ha
  | getSqe _ => nomatch ha
  | _ => exact ⟨Or.inl rfl, Nat.le_add_right _ _⟩

/-! ## The consumer asleep -/

/-- While the consumer is asleep with no notification pending, the flag is set for it, the completion queue is empty, and the ring does not
stop. -/
def ReaderAwaits (cq : Cq Poster) : Prop :=
  cq.reader.asleep = true → cq.waitCqeCondFlag = true ∧ cq.cqHead = cq.cqTail ∧ cq.shouldStop = false

theorem ReaderPc.asleep_wake (pc : ReaderPc) : pc.wake.asleep = false := by
  cases pc <;> rfl

/-- A notification by the flag leaves it awake. -/
theorem ReaderAwaits.wakeUp {cq : Cq Poster} (h : ReaderAwaits cq) :
    (if cq.waitCqeCondFlag then cq.reader.wake else cq.reader : ReaderPc).asleep = false := by
  split
  · exact ReaderPc.asleep_wake _
  · rename_i hflag
    rw [← Bool.not_eq_true]
    exact fun hasleep => hflag (h hasleep).1

/-- The consumer goes to sleep only on an empty queue when it sees what there is. -/
theorem ReaderAwaits.step {cq cq' : Cq Poster} (h : ReaderAwaits cq) {posted visited : List GwRingCqe} (hi : Cq.Inv cq posted visited)
    {b : Cq.Act Poster} (hc : b = .wait → cq.CountFits) {e : List (CqEvent Poster)} (hs : cq.step b = some (cq', e)) :
    ReaderAwaits cq' := by
  have hawake : cq'.reader.asleep = false → ReaderAwaits cq' := fun h1 h2 => absurd (h1.symm.trans h2) nofun
  by_cases hw : b = .wait
  · subst hw
    obtain ⟨-, -, flag, he⟩ := Cq.waitCqe_cases hs
    have hcq : cq' = _ := congrArg Prod.fst he
    rcases Cq.waitSection_cases { cq with waitCqeCondFlag := flag } with ⟨-, h1⟩ | ⟨-, -, -, h1⟩ | ⟨hstop, hneg, h1⟩
    · exact hawake (by rw [hcq, h1]; rfl)
    · exact hawake (by rw [hcq, h1]; rfl)
    · have hempty : cq.cqHead = cq.cqTail := by
        by_contra hne
        have hpos : 0 < occupancy cq.cqHead cq.cqTail := Nat.pos_of_ne_zero (fun e => hne (occupancy_eq_zero_iff.1 e))
        have hfits := (intOfU32_u32Diff_iff hpos (Nat.le_trans hi.nrUnconsumed_le hi.cap_le)).2 (hc rfl)
        have hle : intOfU32 (u32Diff cq.cqTail cq.cqHead) ≤ 0 := hneg hne
        omega
      rw [hcq, h1]
      exact fun _ => ⟨rfl, hempty, hstop⟩
  · cases Cq.step_cases hs with
    | wait _ _ _ _ => exact absurd rfl hw
    | publish _ | stop _ => exact hawake h.wakeUp
    | refused _ _ | post _ _ | store _ => exact h
    | forEach _ | loadEntry _ _ | loadEnd _ _ | visit _ | advance _ => exact hawake rfl
    | @next _ _ stop _ =>
      refine hawake ?_
      cases stop <;> rfl
    | spurious => exact hawake (ReaderPc.asleep_wake _)

/-- What a step of the ring does to it. -/
theorem StepCase.readerAwaits (hs : StepCase ring a ring' ev) (h : ReaderAwaits ring.cq) {posted visited : List GwRingCqe}
    (hi : Cq.Inv ring.cq posted visited) (hc : a = .reader .wait → ring.cq.CountFits) (ha : ∀ n, a ≠ .cqAdvance n) :
    ReaderAwaits ring'.cq := by
  rcases hs.cq_step ha with ⟨b, hb, hread⟩ | ⟨hsame, -⟩
  · refine h.step hi ?_ hb
    rintro rfl
    exact hc (hread rfl)
  · rwa [hsame]

/-! ## The measure of the ring -/

/-- What is left for the ring to do, when a completion that the consumer has yet to visit weighs 14. -/
def toGo (ring : GwRing) : Nat :=
  submitCost * ring.sqWindow.length + ring.workLeft + 14 * ring.cq.nrUnvisited + ring.cq.reader.woken

/-- Every step inside `gw_ring_submit` or of a worker leaves less. -/
theorem toGo_service (h0 : Fresh ring₀ max) (h : machine.Run Serving ring₀ ring log) (hsq : SqInv ring) (hc : Serving ring a)
    (hs : ring.step a = some (ring', ev)) (ha : a.isService = true) :
    ring'.toGo < ring.toGo ∧ (ring'.cq.reader = ring.cq.reader ∨ ring'.cq.reader = ring.cq.reader.wake) := by
  have hcase := (step_cases hs).2
  have hk := Known.of_run h0 h
  have hlen : ring.wq.workers.length = 1024 := by
    rw [hk.wq.length, WorkqueueStruct.attr_of_run (wq_run h), h0.attr.1]
    rfl
  have hwork := hcase.workLeft_lt ha hk.inv hk.wq hlen
  obtain ⟨hmove, hreader⟩ := hcase.reader_of_service ha
  have hunvisited := nrUnvisited_of_step h0 h hc hs
  have hwindow := congrArg List.length (hcase.sq hsq (by rintro rfl; nomatch ha) (by rintro slot sqe rfl; nomatch ha)).2
  rw [List.length_append] at hwindow
  refine ⟨?_, hmove⟩
  unfold toGo
  rw [hwindow, Nat.mul_add]
  omega

/-- A wake without a notification adds two steps at most. -/
theorem toGo_spurious (h0 : Fresh ring₀ max) (h : machine.Run Serving ring₀ ring log) (hsq : SqInv ring) (hc : Serving ring a)
    (hs : ring.step a = some (ring', ev)) (ha : a.isSpurious = true) :
    ring'.toGo ≤ ring.toGo + 2 ∧ (ring'.cq.reader = ring.cq.reader ∨ ring'.cq.reader = ring.cq.reader.wake) := by
  have hcase := (step_cases hs).2
  obtain ⟨hwork, hev, -⟩ := hcase.workLeft_spurious ha
  have hunvisited := nrUnvisited_of_step h0 h hc hs
  have hwindow := congrArg List.length (hcase.sq hsq (by rintro rfl; nomatch ha) (by rintro slot sqe rfl; nomatch ha)).2
  rw [hev] at hunvisited hwindow
  have hreader : (ring'.cq.reader = ring.cq.reader ∨ ring'.cq.reader = ring.cq.reader.wake) ∧
      (ring'.cq.reader.woken + ring'.workLeft ≤ ring.cq.reader.woken + ring.workLeft + 2) := by
    cases hcase with
    | wq hb _ => exact ⟨Or.inl rfl, by show ring.cq.reader.woken + _ ≤ _; omega⟩
    | @reader b cq' e _ hstep =>
      cases b with
      | spurious =>
        cases hstep
        have := ReaderPc.woken_wake ring.cq.reader
        exact ⟨Or.inr rfl, by show ring.cq.reader.wake.woken + ring.workLeft ≤ _; omega⟩
      | _ => nomatch ha
    | _ => nomatch ha
  refine ⟨?_, hreader.1⟩
  have hvisited : (visitedOf (cqLog ([] : List RingEvent))).length = 0 := rfl
  have hnil : (submittedSqes []).length = 0 := rfl
  rw [List.length_append, hnil, Nat.zero_add] at hwindow
  unfold toGo
  rw [hwindow]
  simp only [nrPosted_nil] at hunvisited
  omega

/-! ## Nobody is stuck -/

/-- A worker's critical section does not leave the call of `queue_work` that the submitter is in asleep for good. -/
def WakesSubmitter (ring : GwRing) : Act → Prop
  | .worker k ks => ring.wq.WakesCallers (.worker k ks)
  | _ => True

instance (ring : GwRing) (a : Act) : Decidable (ring.WakesSubmitter a) := by
  unfold WakesSubmitter
  split <;> infer_instance

/-- What keeps the ring going: a call of `queue_work` that sleeps is going to be notified, and whoever is in the middle of `post_cqe` holds
`cq_lock`. -/
structure Going (ring : GwRing) : Prop where
  notified : WorkqueueStruct.Notified ring.wq
  unblocked : ring.wq.queueIsBlocked = false
  worker : PostersHoldLock ring
  submitter : ∀ s data, ring.submit = some s → s.pc = .inPost data → ∃ p, ring.cq.posting = some p ∧ p.thread = .submitter

/-- A step of the workqueue that no `wait_all_work_done` takes. -/
theorem unblocked_step {wq wq' : WorkqueueStruct SqeFn WqSqeData} {b : WorkqueueStruct.Act SqeFn WqSqeData}
    {e : List (WqEvent SqeFn WqSqeData)} (hs : wq.step b = some (wq', e)) (hb : ∀ i, b ≠ .waiter i) (h : wq.queueIsBlocked = false) :
    wq'.queueIsBlocked = false := by
  rcases WorkqueueStruct.step_waiters hs with ⟨i, -, rfl, -⟩ | ⟨-, hsame, -⟩
  · exact absurd rfl (hb i)
  · exact hsame.trans h

/-- What the steps of the ring do to the calls of `queue_work`. -/
theorem Going.step_wq (h : Going ring) (hw : ring.wq.Inv) (hs : StepCase ring a ring' ev) (hc : ring.WakesSubmitter a)
    (ha : ∀ ks, a ≠ .destroyWq ks) : WorkqueueStruct.Notified ring'.wq ∧ ring'.wq.queueIsBlocked = false := by
  have hstep : ∀ {b : WorkqueueStruct.Act SqeFn WqSqeData} {wq' : WorkqueueStruct SqeFn WqSqeData} {e : List (WqEvent SqeFn WqSqeData)},
      ring.wq.step b = some (wq', e) → ring.wq.WakesCallers b → (∀ i, b ≠ .waiter i) →
      WorkqueueStruct.Notified wq' ∧ wq'.queueIsBlocked = false :=
    fun hq hwakes hb => ⟨h.notified.step hw hwakes hq, unblocked_step hq hb h.unblocked⟩
  cases hs with
  | getSqe _ =>
    unfold gwRingGetSqe
    split <;> exact ⟨h.notified, h.unblocked⟩
  | punt _ _ _ _ hq => exact hstep hq trivial nofun
  | wq hb hq =>
    cases hb with
    | worker k ks => exact hstep hq hc nofun
    | destroyWq ks _ => exact absurd rfl (ha ks)
    | queuer _ _ _ _ | run _ _ _ | join | destroyEnd | spuriousWorker _ | spuriousQueuer _ => exact hstep hq trivial nofun
  | execCall _ _ hq | execRet _ _ hq => exact hstep hq trivial nofun
  | _ => exact ⟨h.notified, h.unblocked⟩

/-- What they do to the submitter in `post_cqe`. -/
theorem Going.step_submitter (h : Going ring) (hs : StepCase ring a ring' ev) :
    ∀ s data, ring'.submit = some s → s.pc = .inPost data → ∃ p, ring'.cq.posting = some p ∧ p.thread = .submitter := by
  cases hs with
  | getSqe _ =>
    unfold gwRingGetSqe
    split <;> exact h.submitter
  | submitStart _ _ | nop _ _ _ _ _ | punt _ _ _ _ _ | unpunted _ _ _ _ _ | queued _ _ _ _ _ | queueRefused _ _ _ _ _
  | nopRefused _ _ _ _ | nopPosted _ _ _ _ =>
    rintro s data hsub hpc
    cases hsub
    nomatch hpc
  | submitEnd _ _ _ _ => exact nofun
  | nopPost _ _ _ _ => exact fun _ _ _ _ => ⟨_, rfl, rfl⟩
  | execPost _ hp _ =>
    intro s data hsub hpc
    obtain ⟨p, hp', -⟩ := h.submitter s data hsub hpc
    exact absurd (hp.symm.trans hp') nofun
  | execPosted _ hp _ =>
    intro s data hsub hpc
    obtain ⟨p, hp', ht⟩ := h.submitter s data hsub hpc
    cases hp.symm.trans hp'
    nomatch ht
  | store hs =>
    obtain ⟨p, hp, hp', -⟩ := storeCqe_frame hs
    intro s data hsub hpc
    obtain ⟨q, hq, hqt⟩ := h.submitter s data hsub hpc
    cases hp.symm.trans hq
    exact ⟨_, hp', hqt⟩
  | reader hb hs =>
    obtain ⟨hp, -⟩ := reader_frame hb hs
    intro s data hsub hpc
    obtain ⟨p, hp', ht⟩ := h.submitter s data hsub hpc
    exact ⟨p, hp.trans hp', ht⟩
  | _ => exact h.submitter

theorem Going.step (h : Going ring) (hw : ring.wq.Inv) (hs : StepCase ring a ring' ev) (hc : ring.WakesSubmitter a)
    (ha : ∀ ks, a ≠ .destroyWq ks) : Going ring' := by
  obtain ⟨hnotified, hunblocked⟩ := h.step_wq hw hs hc ha
  exact ⟨hnotified, hunblocked, h.worker.step hs, h.step_submitter hs⟩

theorem Fresh.going (h : Fresh ring max) : Going ring := by
  refine ⟨?_, h.wq.queueIsBlocked, PostersHoldLock.of_run (C := fun _ _ => True) h Machine.Run.init, ?_⟩
  · have hnone : ¬ring.wq.CallerAsleep := by
      rintro ⟨c, hc, -⟩
      rw [h.wq.callers] at hc
      nomatch hc
    exact ⟨fun hU => absurd hU hnone, fun hU => absurd hU hnone⟩
  · intro s data hsub
    exact absurd (h.submit.symm.trans hsub) nofun

/-- The submitter has a step to take, or a worker has one. -/
theorem exists_step_of_submit (hd : ring.wq.destroyer ≠ .done) (hg : Going ring) (hk : Known ring log)
    (halive : WorkqueueStruct.Alive ring.wq) (hthread : WorkqueueStruct.HasThread ring.wq.workers) {s : Submit}
    (hsub : ring.submit = some s) :
    (∃ a : Act, a.isService = true ∧ ring.step a ≠ none) ∨ ∃ t ∈ ring.wq.workers, t.pc.isAwake = true := by
  have hpost : ∀ q, ring.cq.posting = some q → ∃ a : Act, a.isService = true ∧ ring.step a ≠ none := by
    intro q hq
    rcases exists_post_step hd hk.inv hq with h | h
    · exact ⟨_, rfl, h⟩
    · exact ⟨_, rfl, h⟩
  obtain ⟨sqHead, sqTail, ret, pc⟩ := s
  cases pc with
  | loop =>
    refine Or.inl ⟨.submitNext true, rfl, ?_⟩
    simp only [step, if_neg hd, submitNext, hsub]
    split
    · simp only [submitSqe, ne_eq, Option.map_eq_none_iff]
      split
      · simp
      · split
        · simp only [puntToIoWq, WorkqueueStruct.step, if_neg hd]
          simp
        · simp
    · simp
  | posting data =>
    left
    cases hq : ring.cq.posting with
    | none =>
      refine ⟨.postStart .submitter, rfl, ?_⟩
      simp only [step, if_neg hd, postStart, hsub, ne_eq, Option.map_eq_none_iff, Cq.postCqe, hq]
      split <;> simp
    | some q => exact hpost q hq
  | inPost data =>
    obtain ⟨q, hq, -⟩ := hg.submitter _ data hsub rfl
    exact Or.inl (hpost q hq)
  | queueing data call =>
    obtain ⟨cpc, hc⟩ := hk.inv.queueing _ data call hsub rfl
    cases cpc with
    | entering =>
      refine Or.inl ⟨.queuer [] 0, rfl, ?_⟩
      simp only [step, if_neg hd, hsub, wqStep, WorkqueueStruct.step, hc, WorkqueueStruct.queuerSection]
      simp
    | returned cret =>
      refine Or.inl ⟨.submitNext true, rfl, ?_⟩
      simp only [step, if_neg hd, submitNext, hsub, hc]
      simp
    | sleeping notified =>
      cases notified with
      | true =>
        refine Or.inl ⟨.queuer [] 0, rfl, ?_⟩
        simp only [step, if_neg hd, hsub, wqStep, WorkqueueStruct.step, hc, WorkqueueStruct.queuerSection]
        simp
      | false =>
        have hrunning : 0 < ring.wq.workers.countP (fun t => t.pc.isRunning) → ∃ t ∈ ring.wq.workers, t.pc.isAwake = true := by
          intro hpos
          obtain ⟨t, ht, hrun⟩ := List.countP_pos_iff.1 hpos
          exact ⟨t, ht, WorkerPc.isAwake_of_isRunning hrun⟩
        right
        rcases hg.notified.awaited ⟨_, List.mem_of_getElem? hc, rfl⟩ with ⟨hstop, hblocked | hne | hpos⟩ | htwo
        · exact absurd (hg.unblocked.symm.trans hblocked) Bool.false_ne_true
        · exact halive hstop hthread hne
        · exact hrunning hpos
        · exact hrunning (Nat.lt_of_lt_of_le Nat.zero_lt_two htwo)

end GwRing

end GwBot

import GwBot.Bot.Invariant

/-!
# The completion of a poll finds room

Between two drains of the completion queue the main thread queues the updates of a batch, as many as there are, and module handles may
pile up in it meanwhile. But it prepares a poll after them, and while that is in the submission queue none is with a worker; when it is
submitted, the completion queue has been drained, so no more is due than the submission queue, the pending works and the workers hold.
-/

namespace GwBot

open Lib

namespace GwRing

theorem lost_append (q : UInt8 → Bool) (l l' : List RingEvent) : lost q (l ++ l') = lost q l + lost q l' := by
  unfold lost
  rw [sqeCount_append, sqeCount_append]
  omega

/-- Nothing is passed to `submit_sqe` outside of `gw_ring_submit`. -/
theorem StepCase.submittedSqes_nil {ring ring' : GwRing} {a : Act} {ev : List RingEvent} (hs : StepCase ring a ring' ev)
    (h : ring.submit = none) : submittedSqes ev = [] := by
  cases hs with
  | nop _ hsub _ _ _ | punt hsub _ _ _ _ | unpunted hsub _ _ _ _ | queued _ hsub _ _ _ | queueRefused _ hsub _ _ _
  | nopRefused hsub _ _ _ | nopPost hsub _ _ _ | nopPosted hsub _ _ _ => exact absurd (h.symm.trans hsub) nofun
  | wq _ _ | execCall _ _ _ | execRet _ _ _ => exact submittedSqes_eq_nil (by simp [sqeCount_wqEvents])
  | exec _ he => exact submittedSqes_eq_nil (by cases he <;> rfl)
  | reader _ _ => exact submittedSqes_eq_nil (sqeCount_map_cq _)
  | _ => rfl

/-- What is due, and what the main thread has visited and not released. -/
def load (ring : GwRing) : Nat := ring.due (fun _ => true) + ring.cq.reader.nrVisited

/-- A poll is in the submission queue. -/
def PollQueued (ring : GwRing) : Prop := 0 < ring.sqWindow.countP (fun sqe => isPoll sqe.op)

end GwRing

namespace TgBotCtx

variable {bot bot' : TgBotCtx} {a : Act} {log ev : List BotEvent} {C : TgBotCtx → Act → Prop} {max : UInt32} {bot₀ : TgBotCtx}

/-! ## What is due -/

/-- What was prepared has been visited, is due, or was lost. -/
theorem prepared_eq (h0 : Started bot₀ max) (h : machine.Run C bot₀ bot log) (q : UInt8 → Bool) :
    (preparedOf log).countP (fun sqe => q sqe.op) =
      (visitedIn log).countP (fun cqe => q cqe.op) + bot.ring.due q + GwRing.lost q (ringLog log) := by
  rw [(Inv.of_run h0 h).prepared]
  exact GwRing.due_of_run h0.ring (ring_run h) q

/-- And so in each step. -/
theorem due_step (h0 : Started bot₀ max) (h : machine.Run C bot₀ bot log) (hc : C bot a) (hs : bot.step a = some (bot', ev))
    (q : UInt8 → Bool) :
    (visitedIn ev).countP (fun cqe => q cqe.op) + bot'.ring.due q + GwRing.lost q (ringLog ev) =
      bot.ring.due q + (preparedOf ev).countP (fun sqe => q sqe.op) := by
  have h1 := prepared_eq h0 h q
  have h2 := prepared_eq h0 (h.step a hc hs) q
  rw [preparedOf_append, List.countP_append, visitedIn_append, List.countP_append, ringLog_append, GwRing.lost_append] at h2
  omega

/-- One poll is due, lost, or owed by the main thread. -/
theorem polls_eq (h0 : Started bot₀ max) (h : machine.Run C bot₀ bot log) :
    bot.ring.due isPoll + GwRing.lost isPoll (ringLog log) + bot.pc.nrOwed = 1 := by
  have h1 := prepared_eq h0 h isPoll
  have h2 := (Inv.of_run h0 h).polls
  omega

/-! ## How much is due -/

/-- What the submission queue of `run_tg_bot`, the pending works and the workers hold. -/
def maxDue : Nat := 8192 + 4096 + 1024

/-- How much can be due where the main thread stands. While it owes a poll, other than the first, there is no bound. -/
def Room (pc : MainPc) (ring : GwRing) : Prop :=
  match pc with
  | .getSqe (.poll none) _ | .submitFull (.poll none) | .inSubmitFull (.poll none) => ring.load = 0
  | .loop | .inSubmit | .waiting | .forEach _ => ring.load ≤ maxDue
  | .walking _ | .entry | .processed _ | .returned _ => ring.PollQueued ∨ ring.load ≤ maxDue
  | .advance ret => (ring.PollQueued ∧ (ring.due (fun _ => true) ≤ maxDue ∨ ret ≠ 0)) ∨ ring.load ≤ maxDue
  | _ => True

/-- What a step of the ring, other than to take an entry, does to what is due. -/
theorem drains (h0 : Started bot₀ max) (h : machine.Run C bot₀ bot log) (hc : C bot a) {b : GwRing.Act} {e : List RingEvent}
    (hs : bot.step a = some (bot', e.map .ring)) (hstep : bot.ring.step b = some (bot'.ring, e)) (hserv : GwRing.Serving bot.ring b)
    (hget : b ≠ .getSqe) (hfill : ∀ slot sqe, b ≠ .fill slot sqe) :
    bot'.ring.due (fun _ => true) ≤ bot.ring.due (fun _ => true) ∧
      (b ≠ .reader .advance → bot'.ring.load ≤ bot.ring.load) ∧
      (b = .reader .advance → bot'.ring.load = bot'.ring.due (fun _ => true)) ∧
      (bot.ring.submit = none → bot.ring.PollQueued → bot'.ring.PollQueued) := by
  have hdue := due_step h0 h hc hs (fun _ => true)
  rw [preparedOf_map_ring, List.countP_true, List.countP_nil, visitedIn, ringLog_map_ring] at hdue
  obtain ⟨-, hwalk, hend⟩ := GwRing.visited_of_step h0.ring (ring_run h) hserv hstep
  refine ⟨by omega, fun hb => ?_, fun hb => ?_, fun hsub hq => ?_⟩
  · have := hwalk hb
    unfold GwRing.load
    omega
  · rw [GwRing.load, hend hb]
    rfl
  · have hcase := (GwRing.step_cases hstep).2
    have hw := (hcase.sq (Inv.of_run h0 h).sq hget hfill).2
    rw [hcase.submittedSqes_nil hsub, List.nil_append] at hw
    unfold GwRing.PollQueued
    rwa [← hw]

/-- The room where the main thread stands stays when the ring takes a step. -/
theorem Room.drain {pc : MainPc} {ring ring' : GwRing} (h : Room pc ring)
    (hdue : ring'.due (fun _ => true) ≤ ring.due (fun _ => true)) (hload : ring'.load ≤ ring.load)
    (hq : pc.isSubmitting = false → ring.PollQueued → ring'.PollQueued) : Room pc ring' := by
  unfold Room at *
  split at h
  · exact Nat.le_zero.1 (h ▸ hload)
  · exact Nat.le_zero.1 (h ▸ hload)
  · exact Nat.le_zero.1 (h ▸ hload)
  · exact hload.trans h
  · exact hload.trans h
  · exact hload.trans h
  · exact hload.trans h
  · exact h.imp (hq rfl) hload.trans
  · exact h.imp (hq rfl) hload.trans
  · exact h.imp (hq rfl) hload.trans
  · exact h.imp (hq rfl) hload.trans
  · exact h.imp (fun h => ⟨hq rfl h.1, h.2.imp_left hdue.trans⟩) hload.trans
  · trivial

/-- When every posted completion has been visited, what is due is in the submission queue, pending, or with a worker. -/
theorem due_le (h0 : Started bot₀ 8192) (h : machine.Run C bot₀ bot log) (hsub : bot.ring.submit = none)
    (hu : bot.ring.cq.unvisited = []) : bot.ring.due (fun _ => true) ≤ maxDue := by
  have hrun := ring_run h
  have hwindow : bot.ring.sqWindow.countP (fun _ => true) ≤ 8192 := by
    calc bot.ring.sqWindow.countP (fun _ => true)
        ≤ bot.ring.sqWindow.length := List.countP_le_length
      _ = occupancy bot.ring.sqFront bot.ring.sqTail := window_length _ _ _ _
      _ ≤ bot.ring.sqMask.toNat + 1 := (Inv.of_run h0 h).sq.window_le
      _ = 8192 := by rw [(GwRing.masks_of_run h0.ring hrun).1]; rfl
  have hhand : bot.ring.inHand (GwRing.dataOf (fun _ => true)) = 0 := by
    rw [GwRing.inHand, hsub]
    exact Nat.zero_sub _
  have hout := GwRing.outstanding_le h0.ring hrun (GwRing.dataOf (fun _ => true))
  show bot.ring.sqWindow.countP (fun _ => true) + _ + _ + _ ≤ 8192 + 4096 + 1024
  rw [hu, hhand, List.countP_nil]
  omega

/-- Where `process_cqe` leaves the main thread. -/
theorem processCqe_cases (bot : TgBotCtx) (cqe : GwRingCqe) :
    (∃ ret, bot.processCqe cqe = .getSqe (.poll (some ret)) false) ∨ (∃ rest res, bot.processCqe cqe = .updates rest res ∧
      bot.updates = some rest) ∨ bot.processCqe cqe = .processed 0 := by
  unfold processCqe
  split
  · split
    · unfold processTgApiUpdates
      split
      · exact Or.inl ⟨_, rfl⟩
      · split
        · exact Or.inl ⟨_, rfl⟩
        · exact Or.inr (Or.inl ⟨_, _, rfl, ‹_›⟩)
    · exact Or.inr (Or.inr rfl)
  · exact Or.inr (Or.inr rfl)

/-- The poll is prepared after the updates of its batch, so it is in the submission queue when the walk goes on; the first one is alone. -/
theorem Room.prepare (h0 : Started bot₀ max) (h : machine.Run C bot₀ bot log) (hc : C bot .main) {prep : Prep} {slot : Nat}
    {sqe : GwRingSqe} (hs : bot.step .main = some (bot', [.prepared sqe])) (hring : bot'.ring = bot.ring.gwRingGetSqe.1.fillSqe slot sqe)
    (hsub : bot.ring.submit = none) (hslot : bot.ring.gwRingGetSqe.2 = some slot) {bot₁ : TgBotCtx} {x : GwRingSqe}
    (hsqe : sqe = bot₁.prepSqe x prep) (hroom : prep = .poll none → bot.ring.load = 0) : Room (prepNext prep) bot'.ring := by
  have hdue := due_step h0 h hc hs (fun _ => true)
  have hcq : bot'.ring.cq = bot.ring.cq := by
    rw [hring]
    unfold GwRing.gwRingGetSqe
    split <;> rfl
  cases prep with
  | handle up rest res => trivial
  | poll ret =>
    cases ret with
    | none =>
      have hload := hroom rfl
      have hone : ([sqe] : List GwRingSqe).countP (fun _ => true) = 1 := rfl
      change _ + _ + _ = _ + ([sqe] : List GwRingSqe).countP (fun _ => true) at hdue
      show bot'.ring.load ≤ maxDue
      unfold GwRing.load maxDue at *
      rw [hcq]
      omega
    | some ret =>
      left
      have hw := ((Inv.of_run h0 h).sq.push hsub hslot sqe).2
      unfold GwRing.PollQueued
      rw [hring, hw, List.countP_append, hsqe]
      exact Nat.lt_of_lt_of_le Nat.zero_lt_one (Nat.le_add_left _ _)

theorem Room.step (h0 : Started bot₀ 8192) (h : machine.Run C bot₀ bot log) (hroom : Room bot.pc bot.ring) (hc : C bot a)
    (hs : bot.step a = some (bot', ev)) : Room bot'.pc bot'.ring := by
  cases step_cases hs with
  | @full prep again hat _ =>
    rw [hat] at hroom
    cases again
    · cases prep with
      | poll ret => cases ret <;> exact hroom
      | handle up rest res => trivial
    · trivial
  | prepare hat hsub hslot _ _ hsqe =>
    refine Room.prepare h0 h hc hs rfl hsub hslot hsqe ?_
    rintro rfl
    rw [hat] at hroom
    exact hroom
  | own ho =>
    cases ho with
    | @submittedFull prep hat _ =>
      rw [hat] at hroom
      cases prep with
      | poll ret => cases ret <;> exact hroom
      | handle up rest res => trivial
    | submitted hat _ =>
      rw [hat] at hroom
      show Room (if _ then _ else _) bot.ring
      split
      · exact Or.inr hroom
      · exact hroom
    | updatesEnd _ => trivial
    | update _ => trivial
  | @call b ring' pc e hcall hstep =>
    obtain ⟨hserv, hget, hfill⟩ := hcall.serving
    obtain ⟨hdue, hload, hend, hq⟩ := drains h0 h hc hs hstep hserv hget hfill
    have hsub := (Inv.of_run h0 h).submit
    cases hcall with
    | @submitFull prep _ hat =>
      rw [hat] at hroom
      have hload := hload nofun
      cases prep with
      | poll ret =>
        cases ret with
        | none => exact Nat.le_zero.1 (hroom ▸ hload)
        | some ret => trivial
      | handle up rest res => trivial
    | submit _ hat | sleeps _ hat =>
      rw [hat] at hroom
      exact (hload nofun).trans hroom
    | waited _ hat _ =>
      rw [hat] at hroom
      have hload := (hload nofun).trans hroom
      show Room (if _ then _ else _) ring'
      split
      · exact Or.inr hload
      · exact hload
    | forEach _ hat =>
      rw [hat] at hroom
      exact Or.inr ((hload nofun).trans hroom)
    | loadHead _ hat =>
      rw [hat] at hroom hsub
      exact hroom.imp (hq (hsub rfl)) (hload nofun).trans
    | loadEnd _ hat hno =>
      rw [hat] at hroom hsub
      have hunvisited := GwRing.unvisited_of_loadHead h0.ring (ring_run h) hstep hno
      have hsub' := (GwRing.step_cases hstep).2.submit_none nofun (hsub rfl)
      exact hroom.imp (fun h' => ⟨hq (hsub rfl) h', Or.inl (due_le h0 (h.step _ hc hs) hsub' hunvisited)⟩) (hload nofun).trans
    | visit cqe hat =>
      rw [hat] at hroom hsub
      show Room (bot.processCqe cqe) ring'
      rcases processCqe_cases bot cqe with ⟨ret, hpc⟩ | ⟨rest, res, hpc, -⟩ | hpc
      · rw [hpc]
        trivial
      · rw [hpc]
        trivial
      · rw [hpc]
        exact hroom.imp (hq (hsub rfl)) (hload nofun).trans
    | @next ret _ hat =>
      rw [hat] at hroom hsub
      have hload := hload nofun
      show Room (if _ then _ else _) ring'
      split
      · rename_i hret
        exact hroom.imp (fun h' => ⟨hq (hsub rfl) h', Or.inr hret⟩) hload.trans
      · exact hroom.imp (hq (hsub rfl)) hload.trans
    | @advance ret _ hat =>
      rw [hat] at hroom hsub
      have hend : ring'.load ≤ bot.ring.due (fun _ => true) := (Nat.le_of_eq (hend rfl)).trans hdue
      have hle : bot.ring.due (fun _ => true) ≤ bot.ring.load := Nat.le_add_right _ _
      show Room (if _ then _ else _) ring'
      split
      · exact hroom.imp (fun h' => hq (hsub rfl) h'.1) (fun h' => hend.trans (hle.trans h'))
      · rename_i hret
        rcases hroom with ⟨-, h' | h'⟩ | h'
        · exact hend.trans h'
        · exact absurd h' hret
        · exact hend.trans (hle.trans h')
  | @inner b ring' e hin hstep =>
    obtain ⟨hserv, hget, hfill⟩ := serving_of_isInner bot.ring hin
    obtain ⟨hdue, hload, -, hq⟩ := drains h0 h hc hs hstep hserv hget hfill
    refine hroom.drain hdue (hload ?_) (fun hpc => hq ((Inv.of_run h0 h).submit hpc))
    rintro rfl
    nomatch hin
  | exec hstep =>
    obtain ⟨hdue, hload, -, hq⟩ := drains h0 h hc hs hstep ⟨nofun, nofun⟩ nofun nofun
    exact hroom.drain hdue (hload nofun) (fun hpc => hq ((Inv.of_run h0 h).submit hpc))

theorem Room.of_run (h0 : Started bot₀ 8192) (h : machine.Run C bot₀ bot log) : Room bot.pc bot.ring := by
  refine h.stateInv (I := fun bot => Room bot.pc bot.ring) ?_ (fun _ _ _ _ _ hr hi hc hs => hi.step h0 hr hc hs)
  have hnone : machine.Run C bot₀ bot₀ [] := Machine.Run.init
  have hdue := prepared_eq h0 hnone (fun _ => true)
  have hreader : bot₀.ring.cq.reader.nrVisited = 0 := by rw [h0.ring.cq]; rfl
  rw [h0.pc]
  show bot₀.ring.load = 0
  rw [preparedOf_nil, List.countP_nil] at hdue
  unfold GwRing.load
  omega

/-! ## The completion of a poll -/

/-- While the main thread owes no poll and none is in the submission queue, no more is due than `maxDue`. -/
theorem Room.load_le {pc : MainPc} {ring : GwRing} (h : Room pc ring) (howed : pc.nrOwed = 0) (hq : ¬ring.PollQueued) :
    ring.load ≤ maxDue := by
  cases pc with
  | getSqe _ _ | submitFull _ | inSubmitFull _ | updates _ _ | crashed => nomatch howed
  | loop | inSubmit | waiting | forEach _ => exact h
  | walking _ | entry | processed _ | returned _ => exact Or.resolve_left h hq
  | advance ret => exact Or.resolve_left h (fun h' => hq h'.1)

/-- While a worker has yet to post the completion of a poll, there are no more than `maxDue` unconsumed completions. -/
theorem nrUnconsumed_le_of_poll (h0 : Started bot₀ 8192) (h : machine.Run C bot₀ bot log) {k : Nat} {e : Exec}
    (hk : bot.ring.execs[k]? = some (some e)) (hop : isPoll e.data.sqe.op = true) (hpc : e.pc.isUnposted = true) :
    bot.ring.cq.nrUnconsumed ≤ maxDue := by
  have hpolls := polls_eq h0 h
  have hexec : 0 < execCount ExecPc.isUnposted (GwRing.dataOf isPoll) bot.ring.execs :=
    List.countP_pos_iff.2 ⟨_, List.mem_of_getElem? hk, Bool.and_eq_true_iff.2 ⟨hpc, hop⟩⟩
  have hdue : bot.ring.sqWindow.countP (fun sqe => isPoll sqe.op) +
      execCount ExecPc.isUnposted (GwRing.dataOf isPoll) bot.ring.execs ≤ bot.ring.due isPoll := by
    unfold GwRing.due GwRing.outstanding
    omega
  have hq : ¬bot.ring.PollQueued := by
    unfold GwRing.PollQueued
    omega
  calc bot.ring.cq.nrUnconsumed
      ≤ bot.ring.load := GwRing.nrUnconsumed_le h0.ring (ring_run h)
    _ ≤ maxDue := (Room.of_run h0 h).load_le (by omega) hq

/-- The bot starts with the ring of `gw_ring_init`. -/
theorem started_init {env : GwRing.InitEnv} {ring₀ : GwRing} (h0 : GwRing.gwRingInit 8192 env = some (.ok ring₀))
    (addr tctxP updatesP : Nat) : Started (init addr tctxP updatesP ring₀) 8192 := by
  obtain ⟨max, hmax, hfresh⟩ := GwRing.gwRingInit_fresh h0
  obtain rfl : (8192 : UInt32) = max := Option.some.inj hmax
  exact ⟨hfresh, rfl⟩

/-- Whenever a worker is about to post the completion of a `getUpdates`, the completion queue has room for it, whatever batches the bot
has got and whatever other completions were refused. -/
theorem poll_completion_finds_room {env : GwRing.InitEnv} {ring₀ : GwRing} (h0 : GwRing.gwRingInit 8192 env = some (.ok ring₀))
    (addr tctxP updatesP : Nat) (h : machine.Reach (init addr tctxP updatesP ring₀) bot log) {k : Nat} {e : Exec}
    (hk : bot.ring.execs[k]? = some (some e)) (hop : e.data.sqe.op = GW_RING_OP_TG_API_CALL) (hpc : e.pc.isUnposted = true) :
    bot.ring.cq.nrUnconsumed < bot.ring.cq.cap ∧ bot.ring.cq.cap = 2 * 8192 := by
  have hstart := started_init h0 addr tctxP updatesP
  have hle := nrUnconsumed_le_of_poll hstart h hk (beq_iff_eq.2 hop) hpc
  have hcap : bot.ring.cq.cap = 2 * 8192 := by
    rw [Cq.cap, (GwRing.masks_of_run hstart.ring (ring_run h)).2]
    rfl
  rw [hcap]
  exact ⟨Nat.lt_of_le_of_lt hle (by decide), rfl⟩

/-- The main thread submits the first poll, and worker 0 comes back from `tgapi_call_get_updates` with the updates `batch`. -/
def firstPoll (batch : List BatchUpdate) : List Act :=
  [.main, .main, .ring (.submitNext true), .ring (.queuer [] 0), .ring (.submitNext true), .ring (.submitNext true), .main,
    .ring (.worker 0 []), .ring (.run 0), .exec 0 0 [], .exec 0 0 batch]

/-- It gets one update. The main thread queues its handler and the next poll, and worker 0 runs both: it posts the completion of the handler,
which nobody consumes, and comes back from `tgapi_call_get_updates`. -/
def secondPoll : List Act :=
  firstPoll [⟨7, 5⟩] ++ [.ring (.postStart (.worker 0)), .ring .postStore, .ring .postPublish] ++ List.replicate 12 .main ++
    [.ring (.submitNext true), .ring (.queuer [] 0), .ring (.submitNext true), .ring (.submitNext true), .ring (.queuer [] 0),
      .ring (.submitNext true), .ring (.submitNext true), .main] ++
    List.replicate 3 (.ring (.run 0)) ++ [.ring (.worker 0 []), .ring (.run 0), .exec 0 0 [], .exec 0 0 []] ++
    [.ring (.postStart (.worker 0)), .ring .postStore, .ring .postPublish] ++
    List.replicate 3 (.ring (.run 0)) ++ [.ring (.worker 0 []), .ring (.run 0), .exec 0 0 [], .exec 0 0 []]

/-- There, the completion queue holds that of the handler, and has room for that of the poll. -/
theorem poll_completion_finds_room_second : ∃ (ring₀ : GwRing) (bot : TgBotCtx) (log : List BotEvent) (e : Exec),
    GwRing.gwRingInit 8192 GwRing.InitEnv.ok = some (.ok ring₀) ∧ machine.Reach (init 1 2 3 ring₀) bot log ∧
    bot.ring.execs[0]? = some (some e) ∧ e.pc = .posting 0 ∧ e.data.sqe.op = GW_RING_OP_TG_API_CALL ∧ bot.ring.cq.nrUnconsumed = 1 ∧
    bot.ring.cq.nrUnconsumed < bot.ring.cq.cap ∧ bot.ring.cq.cap = 2 * 8192 := by
  have hrun : ∃ ring₀ : GwRing, GwRing.gwRingInit 8192 GwRing.InitEnv.ok = some (.ok ring₀) ∧
      (machine.exec (init 1 2 3 ring₀) secondPoll).map (fun r => (r.1.ring.cq.nrUnconsumed, (r.1.ring.execs[0]?.bind id).map
        (fun e => (e.pc, e.data.sqe.op)))) = some (1, some (.posting 0, GW_RING_OP_TG_API_CALL)) := by
    refine ⟨_, rfl, ?_⟩
    decide +kernel
  obtain ⟨ring₀, h0, he⟩ := hrun
  obtain ⟨bot, log, h, hval⟩ := Machine.exists_of_exec (fun (bot : TgBotCtx) _ => (bot.ring.cq.nrUnconsumed,
    (bot.ring.execs[0]?.bind id).map (fun e => (e.pc, e.data.sqe.op)))) he
  obtain ⟨hone, hval⟩ := Prod.mk.injEq _ _ _ _ ▸ hval
  obtain ⟨e, hk, he⟩ := Option.map_eq_some_iff.1 hval
  obtain ⟨x, hx, rfl⟩ := Option.bind_eq_some_iff.1 hk
  obtain ⟨hpc, hop⟩ := Prod.mk.injEq _ _ _ _ ▸ he
  exact ⟨ring₀, bot, log, e, h0, h, hx, hpc, hop, hone, poll_completion_finds_room h0 1 2 3 h hx hop (by rw [hpc]; rfl)⟩

end TgBotCtx

end GwBot

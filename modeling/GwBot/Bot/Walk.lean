import GwBot.Bot.Entries
import GwBot.Bot.Room
import GwBot.Ring.Progress

/-!
# Where the main thread stands in the completion queue

The main thread is the consumer of its ring, and what it does next with the completion queue is what the queue expects of it. It starts a
walk only when there is something to visit, so no walk is empty; and when it waits it has submitted all that it had prepared.
-/

namespace GwBot

open Lib

/-- The parts of a round of `run_tg_bot_loop`, as far as the completion queue is concerned. -/
inductive WalkStage where
  | outside
  | waiting
  | returned
  | walking
  | entry
  | body
  | advancing
  | gone
  deriving DecidableEq, Repr

/-- Where the consumer stands in each. -/
def WalkStage.allows : WalkStage → ReaderPc → Bool
  | .outside, .idle | .waiting, .idle | .waiting, .sleeping _ | .returned, .returned _ _ | .walking, .walking _ _ => true
  | .entry, .entry _ _ | .advancing, .advancing _ | .gone, _ => true
  | .body, .body _ n => n != 0
  | _, _ => false

/-- The first poll is prepared before the loop, everything else in the body of a walk. -/
def Prep.stage : Prep → WalkStage
  | .poll none => .outside
  | _ => .body

/-- Where the main thread is in a round. -/
def MainPc.stage : MainPc → WalkStage
  | .getSqe prep _ | .submitFull prep | .inSubmitFull prep => prep.stage
  | .loop | .inSubmit => .outside
  | .waiting => .waiting
  | .forEach _ => .returned
  | .walking _ => .walking
  | .entry => .entry
  | .updates _ _ | .processed _ => .body
  | .advance _ => .advancing
  | .returned _ | .crashed => .gone

/-- A walk is about to start, or has not visited anything yet. -/
def MainPc.startsWalk (reader : ReaderPc) : MainPc → Bool
  | .forEach _ => true
  | .walking _ | .entry => reader.nrVisited == 0
  | _ => false

/-- In the `gw_ring_submit` of the loop, or past it and before the walk. -/
def MainPc.isPastSubmit : MainPc → Bool
  | .inSubmit | .waiting => true
  | _ => false

/-- A wake leaves the consumer where it may be. -/
theorem WalkStage.allows_wake {stage : WalkStage} {reader : ReaderPc} (h : stage.allows reader = true) :
    stage.allows reader.wake = true := by
  cases reader with
  | sleeping _ => cases stage <;> first | rfl | nomatch h
  | _ => exact h

theorem MainPc.startsWalk_wake (reader : ReaderPc) (pc : MainPc) : pc.startsWalk reader.wake = pc.startsWalk reader := by
  cases pc <;> first | rfl | exact congrArg (· == 0) (ReaderPc.nrVisited_wake reader)

/-- What `process_cqe` does is in the body of the walk. -/
theorem stage_processCqe (bot : TgBotCtx) (cqe : GwRingCqe) (reader : ReaderPc) :
    (bot.processCqe cqe).stage = .body ∧ (bot.processCqe cqe).startsWalk reader = false ∧ (bot.processCqe cqe).isPastSubmit = false := by
  rcases TgBotCtx.processCqe_cases bot cqe with ⟨ret, hp⟩ | ⟨rest, res, hp, -⟩ | hp <;> rw [hp] <;> exact ⟨rfl, rfl, rfl⟩

/-- When an entry has been prepared, the main thread is where it was. -/
theorem stage_prepNext (prep : Prep) (reader : ReaderPc) :
    (TgBotCtx.prepNext prep).stage = prep.stage ∧ (TgBotCtx.prepNext prep).startsWalk reader = false ∧
      (TgBotCtx.prepNext prep).isPastSubmit = false := by
  cases prep with
  | poll ret => cases ret <;> exact ⟨rfl, rfl, rfl⟩
  | handle up rest res => exact ⟨rfl, rfl, rfl⟩

namespace GwRing

variable {ring ring' : GwRing} {a : Act} {ev : List RingEvent}

/-- A submission queue that is empty outside of `gw_ring_submit` stays so in the steps that take no entry. -/
theorem sqWindow_empty_step (hsq : SqInv ring) (hs : ring.step a = some (ring', ev)) (hget : a ≠ .getSqe)
    (hfill : ∀ slot sqe, a ≠ .fill slot sqe) (h : ring.submit = none → ring.sqWindow = []) (hend : ring'.submit = none) :
    ring'.sqWindow = [] := by
  have hcase := (step_cases hs).2
  cases hsub : ring.submit with
  | none =>
    have hwindow := (hcase.sq hsq hget hfill).2
    rw [h hsub] at hwindow
    exact (List.append_eq_nil_iff.1 hwindow.symm).2
  | some s => exact hcase.sqWindow_of_end hsq (by rw [hsub]; rfl) hend

/-- A step of the consumer is one of its completion queue. -/
theorem reader_step {b : Cq.Act Poster} (hs : ring.step (.reader b) = some (ring', ev)) :
    ∃ e, ring.cq.step b = some (ring'.cq, e) ∧ ev = e.map .cq ∧ ring' = { ring with cq := ring'.cq } := by
  cases (step_cases hs).2 with
  | wq hb _ => nomatch hb
  | reader _ hcq => exact ⟨_, hcq, rfl, rfl⟩

/-! ### Where the consumer is after each of its steps -/

/-- A critical section of `gw_ring_wait_cqe` returns when there is something to visit, and sleeps when there is not. -/
theorem reader_wait (hrunning : ring.cq.shouldStop = false) (hs : ring.step (.reader .wait) = some (ring', ev)) :
    (∃ ret slot, 0 < ret ∧ ring'.cq.reader = .returned ret slot ∧ 0 < ring'.cq.nrUnvisited) ∨ ring'.cq.reader = .sleeping false := by
  obtain ⟨e, hq, -, -⟩ := reader_step hs
  obtain ⟨-, -, flag, he⟩ := Cq.waitCqe_cases hq
  rw [show ring'.cq = _ from congrArg Prod.fst he]
  rcases Cq.waitSection_cases { ring.cq with waitCqeCondFlag := flag } with ⟨hstop, -⟩ | ⟨-, hne, hpos, h1⟩ | ⟨-, -, h1⟩
  · exact absurd (hrunning.symm.trans hstop) nofun
  · rw [h1]
    exact Or.inl ⟨_, _, hpos, rfl, Nat.pos_of_ne_zero (fun hz => hne (occupancy_eq_zero_iff.1 hz))⟩
  · rw [h1]
    exact Or.inr rfl

/-- The walk starts with nothing visited. -/
theorem reader_forEach (hs : ring.step (.reader .forEach) = some (ring', ev)) : ∃ head, ring'.cq.reader = .walking head 0 := by
  obtain ⟨e, hq, -, -⟩ := reader_step hs
  generalize ring'.cq = cq' at hq
  cases Cq.forEachCqe_cases hq
  exact ⟨_, rfl⟩

/-- The head of the walk is an entry, or the end. -/
theorem reader_loadHead (hs : ring.step (.reader .loadHead) = some (ring', ev)) :
    ∃ head n, ring.cq.reader = .walking head n ∧ (ring'.cq.reader = .entry head n ∨ ring'.cq.reader = .advancing n) := by
  obtain ⟨e, hq, -, -⟩ := reader_step hs
  generalize ring'.cq = cq' at hq
  cases Cq.loadHeadCqe_cases hq with
  | loadEntry hr _ => exact ⟨_, _, hr, Or.inl rfl⟩
  | loadEnd hr _ => exact ⟨_, _, hr, Or.inr rfl⟩

/-- A visit is counted. -/
theorem reader_visit (hs : ring.step (.reader .visit) = some (ring', ev)) :
    ∃ head n, ring.cq.reader = .entry head n ∧ ring'.cq.reader = .body head (n + 1) := by
  obtain ⟨e, hq, -, -⟩ := reader_step hs
  generalize ring'.cq = cq' at hq
  cases Cq.step_cases hq with
  | visit hr => exact ⟨_, _, hr, rfl⟩

/-- From the body the walk stops, or goes on to the next entry. -/
theorem reader_next {stop : Bool} (hs : ring.step (.reader (.next stop)) = some (ring', ev)) :
    ∃ head n, ring.cq.reader = .body head n ∧ ring'.cq.reader = if stop then .advancing n else .walking (head + 1) n := by
  obtain ⟨e, hq, -, -⟩ := reader_step hs
  generalize ring'.cq = cq' at hq
  cases Cq.step_cases hq with
  | next hr => exact ⟨_, _, hr, rfl⟩

/-- `gw_ring_cq_advance` ends the walk. -/
theorem reader_advance (hs : ring.step (.reader .advance) = some (ring', ev)) : ring'.cq.reader = .idle := by
  obtain ⟨e, hq, -, -⟩ := reader_step hs
  generalize ring'.cq = cq' at hq
  cases Cq.step_cases hq
  rfl

end GwRing

/-- What the main thread's calls inside the ring are. -/
theorem GwRing.Act.service_or_spurious {b : GwRing.Act} (h : b.isInner = true) : b.isService = true ∨ b.isSpurious = true := by
  cases b with
  | reader r => cases r <;> first | exact Or.inr rfl | nomatch h
  | submitNext _ | queuer _ _ | postStart _ | postStore | postPublish | worker _ _ | run _ => exact Or.inl rfl
  | spuriousWorker _ | spuriousQueuer _ => exact Or.inr rfl
  | getSqe | fill _ _ | submit | exec _ _ | cqAdvance _ | destroy | destroyWq _ | join | destroyEnd => nomatch h

namespace TgBotCtx

variable {bot bot' bot₀ : TgBotCtx} {a : Act} {log ev : List BotEvent} {C : TgBotCtx → Act → Prop} {max : UInt32}

/-- The main thread waits on only when `gw_ring_wait_cqe` has not returned. -/
theorem reader_of_waiting (hat : bot.pc = .waiting) (hs : bot.step .main = some (bot', ev)) (hpc : bot'.pc = .waiting) (ret : Int)
    (slot : Option Nat) : bot'.ring.cq.reader ≠ .returned ret slot := by
  intro hr
  simp only [step, mainStep, hat] at hs
  obtain ⟨ring', e, -, rfl, -⟩ := ringStep_eq_some hs
  simp only at hpc hr
  rw [hr] at hpc
  simp only at hpc
  split at hpc <;> nomatch hpc

/-- Then it has gone to sleep. -/
theorem sleeping_of_waiting (hrunning : bot.ring.cq.shouldStop = false) (hat : bot.pc = .waiting) (hs : bot.step .main = some (bot', ev))
    (hpc : bot'.pc = .waiting) : bot'.ring.cq.reader = .sleeping false := by
  have hnot := reader_of_waiting hat hs hpc
  simp only [step, mainStep, hat] at hs
  obtain ⟨ring', e, hstep, rfl, -⟩ := ringStep_eq_some hs
  rcases GwRing.reader_wait hrunning hstep with ⟨ret, slot, -, hreader, -⟩ | hasleep
  · exact absurd hreader (hnot ret slot)
  · exact hasleep

/-- It comes to the body of the walk only when there is an entry. -/
theorem reader_of_entry {ret : Int} (hat : bot.pc = .walking ret) (hs : bot.step .main = some (bot', ev)) (hpc : bot'.pc = .entry) :
    ∃ head n, bot'.ring.cq.reader = .entry head n := by
  simp only [step, mainStep, hat] at hs
  obtain ⟨ring', e, -, rfl, -⟩ := ringStep_eq_some hs
  simp only at hpc ⊢
  split at hpc
  · exact ⟨_, _, ‹_›⟩
  · nomatch hpc

/-- Where the main thread stands agrees with where the consumer does; a walk that starts has something to visit; and past the
`gw_ring_submit` of the loop the submission queue is empty. -/
structure Walks (bot : TgBotCtx) : Prop where
  place : bot.pc.stage.allows bot.ring.cq.reader = true
  starts : bot.pc.startsWalk bot.ring.cq.reader = true → 0 < bot.ring.cq.nrUnvisited
  submitted : bot.pc.isPastSubmit = true → bot.ring.submit = none → bot.ring.sqWindow = []

/-- A step inside the ring, or of a worker, is one of those that the bot lets the ring take. -/
theorem serving_of_service (ring : GwRing) {b : GwRing.Act} (hb : b.isService = true ∨ b.isSpurious = true) :
    GwRing.Serving ring b ∧ b ≠ .getSqe ∧ (∀ slot sqe, b ≠ .fill slot sqe) ∧ b ≠ .reader .visit := by
  refine ⟨⟨?_, ?_⟩, ?_, ?_, ?_⟩
  all_goals intros
  all_goals rintro rfl
  all_goals rcases hb with hb | hb <;> nomatch hb

/-- It leaves the consumer where it is, or wakes it. -/
theorem reader_of_inner (h0 : Started bot₀ max) (hr : machine.Run C bot₀ bot log) {b : GwRing.Act} {ring' : GwRing} {e : List RingEvent}
    (hb : b.isService = true ∨ b.isSpurious = true) (hs : bot.ring.step b = some (ring', e)) :
    ring'.cq.reader = bot.ring.cq.reader ∨ ring'.cq.reader = bot.ring.cq.reader.wake := by
  have hserv := (serving_of_service bot.ring hb).1
  rcases hb with hb | hb
  · exact ((GwRing.step_cases hs).2.reader_of_service hb).1
  · exact (GwRing.toGo_spurious h0.ring (ring_run hr) (Inv.of_run h0 hr).sq hserv hs hb).2

namespace Walks

/-- A step inside the ring, or of a worker, leaves the main thread where it is. -/
theorem inner (h0 : Started bot₀ max) (hr : machine.Run C bot₀ bot log) (h : Walks bot) {b : GwRing.Act} {ring' : GwRing}
    {e : List RingEvent} (hb : b.isService = true ∨ b.isSpurious = true) (hs : bot.ring.step b = some (ring', e))
    {updates : Option (List BatchUpdate)} : Walks { bot with ring := ring', updates := updates } := by
  obtain ⟨hserv, hget, hfill, hvisit⟩ := serving_of_service bot.ring hb
  have hreader := reader_of_inner h0 hr hb hs
  have hunvisited := GwRing.nrUnvisited_of_step h0.ring (ring_run hr) hserv hs
  rw [(GwRing.visited_of_step h0.ring (ring_run hr) hserv hs).1 hvisit] at hunvisited
  have hle : bot.ring.cq.nrUnvisited ≤ ring'.cq.nrUnvisited := Nat.le.intro hunvisited.symm
  refine ⟨?_, fun hstart => ?_, fun hpc => ?_⟩
  · show bot.pc.stage.allows ring'.cq.reader = true
    rcases hreader with hsame | hwake
    · rw [hsame]
      exact h.place
    · rw [hwake]
      exact WalkStage.allows_wake h.place
  · refine Nat.lt_of_lt_of_le (h.starts ?_) hle
    change bot.pc.startsWalk ring'.cq.reader = true at hstart
    rcases hreader with hsame | hwake
    · rwa [hsame] at hstart
    · rwa [hwake, MainPc.startsWalk_wake] at hstart
  · exact GwRing.sqWindow_empty_step (Inv.of_run h0 hr).sq hs hget hfill (h.submitted hpc)

/-- Outside of the start of a walk and of the loop's `gw_ring_submit` there is only the place to look at. -/
theorem of_place (hplace : bot.pc.stage.allows bot.ring.cq.reader = true) (hstarts : bot.pc.startsWalk bot.ring.cq.reader = false)
    (hpast : bot.pc.isPastSubmit = false) : Walks bot :=
  ⟨hplace, fun h => absurd (hstarts.symm.trans h) nofun, fun h => absurd (hpast.symm.trans h) nofun⟩

/-- The consumer, where the main thread stands. -/
theorem eq_idle (h : Walks bot) (hpc : bot.pc.stage = .outside) : bot.ring.cq.reader = .idle := by
  have hplace := h.place
  rw [hpc] at hplace
  cases hr : bot.ring.cq.reader <;> rw [hr] at hplace <;> first | rfl | nomatch hplace

/-- In the body of a walk something has been visited. -/
theorem eq_body (h : Walks bot) (hpc : bot.pc.stage = .body) : ∃ head n, bot.ring.cq.reader = .body head n ∧ n ≠ 0 := by
  have hplace := h.place
  rw [hpc] at hplace
  cases hr : bot.ring.cq.reader with
  | body head n =>
    rw [hr] at hplace
    exact ⟨head, n, rfl, bne_iff_ne.1 hplace⟩
  | _ =>
    rw [hr] at hplace
    nomatch hplace

theorem eq_walking (h : Walks bot) (hpc : bot.pc.stage = .walking) : ∃ head n, bot.ring.cq.reader = .walking head n := by
  have hplace := h.place
  rw [hpc] at hplace
  cases hr : bot.ring.cq.reader <;> rw [hr] at hplace <;> first | exact ⟨_, _, rfl⟩ | nomatch hplace

theorem eq_entry (h : Walks bot) (hpc : bot.pc.stage = .entry) : ∃ head n, bot.ring.cq.reader = .entry head n := by
  have hplace := h.place
  rw [hpc] at hplace
  cases hr : bot.ring.cq.reader <;> rw [hr] at hplace <;> first | exact ⟨_, _, rfl⟩ | nomatch hplace

theorem eq_advancing (h : Walks bot) (hpc : bot.pc.stage = .advancing) : ∃ n, bot.ring.cq.reader = .advancing n := by
  have hplace := h.place
  rw [hpc] at hplace
  cases hr : bot.ring.cq.reader <;> rw [hr] at hplace <;> first | exact ⟨_, rfl⟩ | nomatch hplace

theorem eq_returned (h : Walks bot) (hpc : bot.pc.stage = .returned) : ∃ ret slot, bot.ring.cq.reader = .returned ret slot := by
  have hplace := h.place
  rw [hpc] at hplace
  cases hr : bot.ring.cq.reader <;> rw [hr] at hplace <;> first | exact ⟨_, _, rfl⟩ | nomatch hplace

theorem eq_waiting (h : Walks bot) (hpc : bot.pc.stage = .waiting) :
    bot.ring.cq.reader = .idle ∨ ∃ notified, bot.ring.cq.reader = .sleeping notified := by
  have hplace := h.place
  rw [hpc] at hplace
  cases hr : bot.ring.cq.reader <;> rw [hr] at hplace <;> first | exact Or.inl rfl | exact Or.inr ⟨_, rfl⟩ | nomatch hplace

section Call

variable {ring' : GwRing} {e : List RingEvent}

/-- When `gw_ring_wait_cqe` has returned, there is something to visit. -/
theorem waited (hrunning : bot.ring.cq.shouldStop = false) {ret : Int} {slot : Option Nat}
    (hstep : bot.ring.step (.reader .wait) = some (ring', e)) (hret : ring'.cq.reader = .returned ret slot) :
    Walks { bot with ring := ring', pc := if ret < 0 then .returned ret else .forEach ret } := by
  rcases GwRing.reader_wait hrunning hstep with ⟨ret', slot', hpos, hreader, hsome⟩ | hasleep
  · cases hret.symm.trans hreader
    rw [if_neg (Int.not_lt.2 (Int.le_of_lt hpos))]
    refine ⟨?_, fun _ => hsome, nofun⟩
    show WalkStage.allows .returned ring'.cq.reader = true
    rw [hreader]
    rfl
  · nomatch hret.symm.trans hasleep

/-- After a visit the main thread is in the body of the walk, which is not at its start. -/
theorem visit (hcq : Cq.Inv bot.ring.cq (postedOf (cqLog (ringLog log))) (visitedOf (cqLog (ringLog log)))) (cqe : GwRingCqe)
    (hstep : bot.ring.step (.reader .visit) = some (ring', e)) : Walks { bot with ring := ring', pc := bot.processCqe cqe } := by
  obtain ⟨head, n, hentry, hbody⟩ := GwRing.reader_visit hstep
  obtain ⟨hstage, hstart, hpast⟩ := stage_processCqe bot cqe ring'.cq.reader
  refine of_place ?_ hstart hpast
  show (bot.processCqe cqe).stage.allows ring'.cq.reader = true
  rw [hstage, hbody]
  show (n + 1 != 0) = true
  have hsucc := hcq.toNat_succ_visited hentry
  rw [bne_iff_ne]
  intro hz
  rw [hz] at hsucc
  exact absurd hsucc nofun

/-- From the body the walk ends, or goes on with what it has visited. -/
theorem next (h : Walks bot) {ret : Int} (hat : bot.pc = .processed ret)
    (hstep : bot.ring.step (.reader (.next (ret ≠ 0))) = some (ring', e)) :
    Walks { bot with ring := ring', pc := if ret ≠ 0 then .advance ret else .walking ret } := by
  obtain ⟨head, n, hbody, hn⟩ := h.eq_body (by rw [hat]; rfl)
  obtain ⟨head', n', hbody', hreader⟩ := GwRing.reader_next hstep
  cases hbody.symm.trans hbody'
  by_cases hret : ret ≠ 0
  · rw [if_pos (decide_eq_true hret)] at hreader
    rw [if_pos hret]
    refine of_place ?_ rfl rfl
    show WalkStage.allows .advancing ring'.cq.reader = true
    rw [hreader]
    rfl
  · rw [if_neg (by simpa using hret)] at hreader
    rw [if_neg hret]
    refine of_place ?_ ?_ rfl
    · show WalkStage.allows .walking ring'.cq.reader = true
      rw [hreader]
      rfl
    · show (ring'.cq.reader.nrVisited == 0) = false
      rw [hreader]
      exact beq_eq_false_iff_ne.2 (fun hz => hn (UInt32.toNat_inj.1 hz))

/-- What the main thread's calls into the ring do to it. -/
theorem call (h0 : Started bot₀ max) (hr : machine.Run C bot₀ bot log) (h : Walks bot) {b : GwRing.Act} {pc : MainPc}
    (hcall : bot.MainCall ring' b e pc) (hstep : bot.ring.step b = some (ring', e))
    (hs : bot.step .main = some ({ bot with ring := ring', pc := pc }, e.map .ring)) : Walks { bot with ring := ring', pc := pc } := by
  have hrunning := (Retries.of_run h0 hr).running
  have hunvisited := GwRing.nrUnvisited_of_step h0.ring (ring_run hr) hcall.serving.1 hstep
  have hquiet : b ≠ .reader .visit → bot.ring.cq.nrUnvisited ≤ ring'.cq.nrUnvisited := by
    intro hb
    rw [(GwRing.visited_of_step h0.ring (ring_run hr) hcall.serving.1 hstep).1 hb] at hunvisited
    exact Nat.le.intro hunvisited.symm
  cases hcall with
  | submitFull _ hat =>
    have hsame : ring'.cq = bot.ring.cq := by
      cases (GwRing.step_cases hstep).2 with
      | wq hb _ => nomatch hb
      | _ => rfl
    have hplace := h.place
    rw [hat] at hplace
    exact of_place (by rw [← hsame] at hplace; exact hplace) rfl rfl
  | submit _ hat =>
    have hreader := h.eq_idle (by rw [hat]; rfl)
    cases (GwRing.step_cases hstep).2 with
    | wq hb _ => nomatch hb
    | submitStopped _ hstop => exact absurd (hrunning.symm.trans hstop) nofun
    | submitStart _ _ =>
      refine ⟨?_, nofun, nofun⟩
      show WalkStage.allows .outside bot.ring.cq.reader = true
      rw [hreader]
      rfl
  | waited _ _ hret => exact waited hrunning hstep hret
  | sleeps _ hat =>
    refine ⟨?_, nofun, fun _ => ?_⟩
    · show WalkStage.allows .waiting ring'.cq.reader = true
      rw [show ring'.cq.reader = _ from sleeping_of_waiting hrunning hat hs rfl]
      rfl
    · exact GwRing.sqWindow_empty_step (Inv.of_run h0 hr).sq hstep nofun nofun (h.submitted (by rw [hat]; rfl))
  | forEach _ hat =>
    obtain ⟨head, hreader⟩ := GwRing.reader_forEach hstep
    have hpos := Nat.lt_of_lt_of_le (h.starts (by rw [hat]; rfl)) (hquiet nofun)
    refine ⟨?_, fun _ => hpos, nofun⟩
    show WalkStage.allows .walking ring'.cq.reader = true
    rw [hreader]
    rfl
  | loadHead _ hat =>
    obtain ⟨head, n, hentry⟩ := reader_of_entry hat hs rfl
    obtain ⟨head', n', hwalking, hloaded⟩ := GwRing.reader_loadHead hstep
    change ring'.cq.reader = _ at hentry
    have hsame : bot.ring.cq.reader.nrVisited = ring'.cq.reader.nrVisited := by
      rcases hloaded with hloaded | hloaded
      · rw [hwalking, hloaded]
        rfl
      · nomatch hentry.symm.trans hloaded
    refine ⟨?_, fun hstart => Nat.lt_of_lt_of_le (h.starts ?_) (hquiet nofun), nofun⟩
    · show WalkStage.allows .entry ring'.cq.reader = true
      rw [hentry]
      rfl
    · change (ring'.cq.reader.nrVisited == 0) = true at hstart
      rw [hat]
      show (bot.ring.cq.reader.nrVisited == 0) = true
      rw [hsame]
      exact hstart
  | loadEnd _ _ hno =>
    obtain ⟨head, n, -, hloaded⟩ := GwRing.reader_loadHead hstep
    refine of_place ?_ rfl rfl
    show WalkStage.allows .advancing ring'.cq.reader = true
    rw [hloaded.resolve_left (hno head n)]
    rfl
  | visit cqe _ => exact visit (GwRing.cqInv_of_run (fun _ _ hc => hc.2) h0.ring (ring_run hr)) cqe hstep
  | next _ hat => exact h.next hat hstep
  | advance _ _ =>
    have hreader := GwRing.reader_advance hstep
    split
    · exact of_place rfl rfl rfl
    · exact of_place (by show WalkStage.allows .outside ring'.cq.reader = true; rw [hreader]; rfl) rfl rfl

end Call

theorem step (h0 : Started bot₀ max) (hr : machine.Run C bot₀ bot log) (h : Walks bot) (hs : bot.step a = some (bot', ev)) :
    Walks bot' := by
  cases step_cases hs with
  | @full prep again hat _ =>
    cases again with
    | true => exact of_place rfl rfl rfl
    | false =>
      have hplace := h.place
      rw [hat] at hplace
      exact of_place hplace rfl rfl
  | @prepare prep again slot sqe hat _ _ _ _ _ =>
    have hplace := h.place
    rw [hat] at hplace
    obtain ⟨hstage, hstart, hpast⟩ := stage_prepNext prep bot.ring.cq.reader
    have hsame : (bot.ring.gwRingGetSqe.1.fillSqe slot sqe).cq = bot.ring.cq := by
      unfold GwRing.gwRingGetSqe
      split <;> rfl
    refine of_place ?_ ?_ hpast
    · show (prepNext prep).stage.allows (bot.ring.gwRingGetSqe.1.fillSqe slot sqe).cq.reader = true
      rw [hsame, hstage]
      exact hplace
    · show (prepNext prep).startsWalk (bot.ring.gwRingGetSqe.1.fillSqe slot sqe).cq.reader = false
      rw [hsame]
      exact hstart
  | own ho =>
    have hplace := h.place
    cases ho with
    | submittedFull hat _ =>
      rw [hat] at hplace
      exact of_place hplace rfl rfl
    | submitted hat hsub =>
      have hreader := h.eq_idle (by rw [hat]; rfl)
      by_cases hret : bot.ring.submitRet < 0
      · rw [if_pos hret]
        exact of_place rfl rfl rfl
      · rw [if_neg hret]
        refine ⟨?_, nofun, fun _ _ => h.submitted (by rw [hat]; rfl) hsub⟩
        show WalkStage.allows .waiting bot.ring.cq.reader = true
        rw [hreader]
        rfl
    | updatesEnd hat | update hat =>
      rw [hat] at hplace
      exact of_place hplace rfl rfl
  | call hcall hstep => exact h.call h0 hr hcall hstep hs
  | inner hin hstep => exact h.inner h0 hr (GwRing.Act.service_or_spurious hin) hstep
  | exec hstep => exact h.inner h0 hr (Or.inl rfl) hstep

theorem of_run (h0 : Started bot₀ max) (h : machine.Run C bot₀ bot log) : Walks bot := by
  refine h.stateInv (of_place ?_ ?_ ?_) (fun _ _ _ _ _ hr hi _ hs => hi.step h0 hr hs)
  · rw [h0.pc, h0.ring.cq]
    rfl
  · rw [h0.pc]
    rfl
  · rw [h0.pc]
    rfl

end Walks

end TgBotCtx

end GwBot

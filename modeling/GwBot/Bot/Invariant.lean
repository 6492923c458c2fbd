import GwBot.Bot.Sections
import GwBot.Ring.Due

/-!
# What holds of the bot in every reachable state

A run of the bot is, seen through its ring, a run of the ring. What the main thread has prepared is what was submitted followed by the
submission queue, and as many polls have been prepared as completions of polls visited, and the one that the main thread starts with, but
for the one it is about to prepare.
-/

namespace GwBot

open Lib

/-! ## The log -/

/-- The event of the ring. -/
def BotEvent.ring? : BotEvent → Option RingEvent
  | .ring e => some e
  | _ => none

/-- The entry that was filled. -/
def BotEvent.prepared? : BotEvent → Option GwRingSqe
  | .prepared sqe => some sqe
  | _ => none

/-- The ring's part of a log. -/
def ringLog (log : List BotEvent) : List RingEvent := log.filterMap BotEvent.ring?

/-- The entries filled so far, in order. -/
def preparedOf (log : List BotEvent) : List GwRingSqe := log.filterMap BotEvent.prepared?

@[simp] theorem preparedOf_nil : preparedOf [] = [] := rfl

theorem ringLog_append (l l' : List BotEvent) : ringLog (l ++ l') = ringLog l ++ ringLog l' := List.filterMap_append

theorem preparedOf_append (l l' : List BotEvent) : preparedOf (l ++ l') = preparedOf l ++ preparedOf l' := List.filterMap_append

theorem ringLog_map_ring (ev : List RingEvent) : ringLog (ev.map .ring) = ev := by
  rw [ringLog, List.filterMap_map]
  exact List.filterMap_some

theorem preparedOf_map_ring (ev : List RingEvent) : preparedOf (ev.map .ring) = [] := by
  rw [preparedOf, List.filterMap_map]
  exact List.filterMap_eq_nil_iff.2 (fun _ _ => rfl)

/-- The completions that the main thread has visited. -/
def visitedIn (log : List BotEvent) : List GwRingCqe := visitedOf (cqLog (ringLog log))

theorem visitedIn_append (l l' : List BotEvent) : visitedIn (l ++ l') = visitedIn l ++ visitedIn l' := by
  rw [visitedIn, ringLog_append, cqLog_append, visitedOf_append]
  rfl

/-- The operation of a poll. -/
def isPoll (op : UInt8) : Bool := op == GW_RING_OP_TG_API_CALL

/-- In `gw_ring_submit`. -/
def MainPc.isSubmitting : MainPc → Bool
  | .inSubmitFull _ | .inSubmit => true
  | _ => false

/-- The polls that the main thread is going to prepare before it visits a completion: it is in `arm_update_sqe`, or will be when it has
queued the updates of a batch. -/
def MainPc.nrOwed : MainPc → Nat
  | .getSqe _ _ | .submitFull _ | .inSubmitFull _ | .updates _ _ | .crashed => 1
  | _ => 0

namespace TgBotCtx

variable {bot bot' : TgBotCtx} {a : Act} {log ev : List BotEvent} {C : TgBotCtx → Act → Prop}

/-! ## The ring of the bot -/

/-- The main thread's calls are those of a thread that serves the ring, and it takes no entry in them. -/
theorem MainCall.serving {ring' : GwRing} {b : GwRing.Act} {ev : List RingEvent} {pc : MainPc} (h : bot.MainCall ring' b ev pc) :
    GwRing.Serving bot.ring b ∧ b ≠ .getSqe ∧ ∀ slot sqe, b ≠ .fill slot sqe := by
  cases h <;> exact ⟨⟨nofun, nofun⟩, nofun, nofun⟩

theorem serving_of_isInner (ring : GwRing) {b : GwRing.Act} (h : b.isInner = true) :
    GwRing.Serving ring b ∧ b ≠ .getSqe ∧ ∀ slot sqe, b ≠ .fill slot sqe := by
  refine ⟨⟨?_, ?_⟩, ?_, ?_⟩
  all_goals intros
  all_goals rintro rfl
  all_goals nomatch h

/-- What a step of the bot does to its ring. -/
inductive RingMove (bot : TgBotCtx) : GwRing → List BotEvent → Prop where
  | none {ev : List BotEvent} : ringLog ev = [] → preparedOf ev = [] → RingMove bot bot.ring ev
  | prepare {slot : Nat} {sqe : GwRingSqe} : bot.ring.submit = none → bot.ring.gwRingGetSqe.2 = some slot →
      bot.ring.step .getSqe = some (bot.ring.gwRingGetSqe.1, []) →
      bot.ring.gwRingGetSqe.1.step (.fill slot sqe) = some (bot.ring.gwRingGetSqe.1.fillSqe slot sqe, []) →
      RingMove bot (bot.ring.gwRingGetSqe.1.fillSqe slot sqe) [.prepared sqe]
  | step {b : GwRing.Act} {ring' : GwRing} {ev : List RingEvent} : bot.ring.step b = some (ring', ev) → GwRing.Serving bot.ring b →
      b ≠ .getSqe → (∀ slot sqe, b ≠ .fill slot sqe) → RingMove bot ring' (ev.map .ring)

theorem StepCase.ring_move (h : StepCase bot a bot' ev) : RingMove bot bot'.ring ev := by
  cases h with
  | full _ _ => exact RingMove.none rfl rfl
  | prepare _ hsub hslot hget hfill _ => exact RingMove.prepare hsub hslot hget hfill
  | own ho => cases ho <;> exact RingMove.none rfl rfl
  | call hcall hs =>
    obtain ⟨h1, h2, h3⟩ := hcall.serving
    exact RingMove.step hs h1 h2 h3
  | inner hin hs =>
    obtain ⟨h1, h2, h3⟩ := serving_of_isInner bot.ring hin
    exact RingMove.step hs h1 h2 h3
  | exec hs => exact RingMove.step hs ⟨nofun, nofun⟩ nofun nofun

/-- A run of the bot is a run of its ring. -/
theorem ring_run {bot₀ : TgBotCtx} (h : machine.Run C bot₀ bot log) :
    GwRing.machine.Run GwRing.Serving bot₀.ring bot.ring (ringLog log) := by
  refine h.invariant (I := fun bot log => GwRing.machine.Run GwRing.Serving bot₀.ring bot.ring (ringLog log)) Machine.Run.init ?_
  intro bot log a bot' ev _ hi _ hs
  have hmove := (step_cases hs).ring_move
  rw [ringLog_append]
  generalize bot'.ring = ring' at hmove ⊢
  cases hmove with
  | none h1 _ =>
    rw [h1, List.append_nil]
    exact hi
  | @prepare slot sqe _ _ hget hfill =>
    have hmid := Machine.Run.step GwRing.Act.getSqe hi ⟨nofun, nofun⟩ hget
    rw [List.append_nil] at hmid
    exact Machine.Run.step (GwRing.Act.fill slot sqe) hmid ⟨nofun, nofun⟩ hfill
  | @step b _ _ hstep hserv _ _ =>
    rw [ringLog_map_ring]
    exact Machine.Run.step b hi hserv hstep

/-! ## What was prepared -/

/-- What holds of the bot: a poll calls `getUpdates` and says so in its `user_data`, and each completion of one that the main thread has
visited has made it prepare another, or will. -/
structure Inv (bot : TgBotCtx) (log : List BotEvent) : Prop where
  sq : bot.ring.SqInv
  prepared : preparedOf log = submittedSqes (ringLog log) ++ bot.ring.sqWindow
  isGetUpdates : ∀ sqe ∈ preparedOf log, isPoll sqe.op = true →
    sqe.tgApiCall.op = TG_API_GET_UPDATES ∧ sqe.userData = TG_API_GET_UPDATES.toUInt64
  submit : bot.pc.isSubmitting = false → bot.ring.submit = none
  polls : (preparedOf log).countP (fun sqe => isPoll sqe.op) + bot.pc.nrOwed =
    1 + (visitedIn log).countP (fun cqe => isPoll cqe.op)

/-- `gw_ring_get_sqe` and the filling of its entry are outside of `gw_ring_submit`. -/
theorem submit_fillSqe (ring : GwRing) (slot : Nat) (sqe : GwRingSqe) : (ring.gwRingGetSqe.1.fillSqe slot sqe).submit = ring.submit := by
  unfold GwRing.gwRingGetSqe
  split <;> rfl

/-- Every entry that the main thread fills as a poll calls `getUpdates`. -/
theorem prepSqe_isPoll {sqe : GwRingSqe} {prep : Prep} (h : isPoll (bot.prepSqe sqe prep).op = true) :
    (bot.prepSqe sqe prep).tgApiCall.op = TG_API_GET_UPDATES ∧
      (bot.prepSqe sqe prep).userData = TG_API_GET_UPDATES.toUInt64 := by
  cases prep with
  | poll ret => exact ⟨rfl, rfl⟩
  | handle up rest res => nomatch h

/-- A poll prepared is a poll no longer owed. -/
theorem nrOwed_prepNext (bot : TgBotCtx) (sqe : GwRingSqe) (prep : Prep) :
    (if isPoll (bot.prepSqe sqe prep).op then 1 else 0) + (prepNext prep).nrOwed = 1 := by
  cases prep with
  | poll ret => cases ret <;> rfl
  | handle up rest res => rfl

/-- The completion of a poll makes the main thread owe one, and no other does. -/
theorem nrOwed_processCqe {cqe : GwRingCqe} (h : isPoll cqe.op = true → cqe.userData = TG_API_GET_UPDATES.toUInt64) :
    (bot.processCqe cqe).nrOwed = if isPoll cqe.op then 1 else 0 := by
  unfold processCqe
  by_cases hop : cqe.op = GW_RING_OP_TG_API_CALL
  · have hpoll : isPoll cqe.op = true := beq_iff_eq.2 hop
    rw [if_pos hop, if_pos (h hpoll), if_pos hpoll]
    unfold processTgApiUpdates
    split
    · rfl
    · split <;> rfl
  · have hpoll : ¬isPoll cqe.op = true := fun h => hop (beq_iff_eq.1 h)
    rw [if_neg hop, if_neg hpoll]
    rfl

/-- What the main thread visits was prepared. -/
theorem visited_prepared {max : UInt32} {bot₀ : TgBotCtx} (h0 : bot₀.ring.Fresh max) (h : machine.Run C bot₀ bot log)
    (hp : preparedOf log = submittedSqes (ringLog log) ++ bot.ring.sqWindow) {cqe : GwRingCqe} (hm : cqe ∈ visitedIn log) :
    ∃ sqe ∈ preparedOf log, ∃ res, cqe = sqe.cqe res := by
  have hrun := ring_run h
  have hposted : cqe ∈ postedOf (cqLog (ringLog log)) := by
    rw [(GwRing.cqInv_of_run (fun _ _ hc => hc.2) h0 hrun).posted_eq]
    exact List.mem_append_left _ hm
  obtain ⟨sqe, hsqe, hres⟩ := GwRing.submitted_of_posted h0 hrun hposted
  refine ⟨sqe, ?_, hres⟩
  rw [hp]
  exact List.mem_append_left _ hsqe

namespace Inv

/-- What was prepared stays so: the submission queue gives the entries up in order. -/
theorem step_sq (hi : Inv bot log) (hs : StepCase bot a bot' ev) :
    bot'.ring.SqInv ∧ preparedOf (log ++ ev) = submittedSqes (ringLog (log ++ ev)) ++ bot'.ring.sqWindow := by
  have hmove := hs.ring_move
  rw [ringLog_append, preparedOf_append, submittedSqes_append, hi.prepared]
  generalize bot'.ring = ring' at hmove ⊢
  cases hmove with
  | none h1 h2 =>
    rw [h1, h2, List.append_nil]
    exact ⟨hi.sq, congrArg (· ++ _) (List.append_nil _).symm⟩
  | @prepare slot sqe hsub hslot _ _ =>
    obtain ⟨hinv, hw⟩ := hi.sq.push hsub hslot sqe
    refine ⟨hinv, ?_⟩
    have hev : submittedSqes (ringLog [BotEvent.prepared sqe]) = [] := rfl
    rw [hw, hev, List.append_nil, ← List.append_assoc]
    rfl
  | step hstep _ hget hfill =>
    obtain ⟨hinv, hw⟩ := (GwRing.step_cases hstep).2.sq hi.sq hget hfill
    refine ⟨hinv, ?_⟩
    rw [ringLog_map_ring, preparedOf_map_ring, List.append_nil, hw, List.append_assoc]

/-- Every poll calls `getUpdates`. -/
theorem step_isGetUpdates (hi : Inv bot log) (hs : StepCase bot a bot' ev) {sqe : GwRingSqe} (hm : sqe ∈ preparedOf (log ++ ev))
    (hp : isPoll sqe.op = true) : sqe.tgApiCall.op = TG_API_GET_UPDATES ∧ sqe.userData = TG_API_GET_UPDATES.toUInt64 := by
  rw [preparedOf_append] at hm
  rcases List.mem_append.1 hm with hm | hm
  · exact hi.isGetUpdates sqe hm hp
  · cases hs with
    | prepare _ _ _ _ _ hsqe =>
      obtain rfl := List.mem_singleton.1 hm
      subst hsqe
      exact prepSqe_isPoll hp
    | full _ _ => nomatch hm
    | own ho => cases ho <;> nomatch hm
    | call _ _ | inner _ _ | exec _ =>
      rw [preparedOf_map_ring] at hm
      nomatch hm

/-- Outside of its calls of `gw_ring_submit` the main thread does not hold `sq_lock`. -/
theorem step_submit (hi : Inv bot log) (hs : StepCase bot a bot' ev) (hpc : bot'.pc.isSubmitting = false) :
    bot'.ring.submit = none := by
  cases hs with
  | full hat _ => exact hi.submit (by rw [hat]; rfl)
  | prepare _ hsub _ _ _ _ => exact (submit_fillSqe _ _ _).trans hsub
  | own ho =>
    cases ho with
    | submittedFull _ hsub => exact hsub
    | submitted _ hsub => exact hsub
    | updatesEnd hat => exact hi.submit (by rw [hat]; rfl)
    | update hat => exact hi.submit (by rw [hat]; rfl)
  | call hcall hstep =>
    have hcase := (GwRing.step_cases hstep).2
    cases hcall with
    | submitFull _ _ => nomatch hpc
    | submit _ _ => nomatch hpc
    | waited _ hat _ | sleeps _ hat | forEach _ hat | loadHead _ hat | loadEnd _ hat _ | visit _ hat | next _ hat | advance _ hat =>
      exact hcase.submit_none nofun (hi.submit (by rw [hat]; rfl))
  | inner hin hstep =>
    refine (GwRing.step_cases hstep).2.submit_none ?_ (hi.submit hpc)
    rintro rfl
    nomatch hin
  | exec hstep => exact (GwRing.step_cases hstep).2.submit_none nofun (hi.submit hpc)

/-- The main thread owes a poll for each that it has visited, until it has prepared it. -/
theorem step_polls (hi : Inv bot log) {max : UInt32} {bot₀ : TgBotCtx} (h0 : bot₀.ring.Fresh max) (hr : machine.Run C bot₀ bot log)
    (hc : C bot a) (hs : bot.step a = some (bot', ev)) :
    (preparedOf (log ++ ev)).countP (fun sqe => isPoll sqe.op) + bot'.pc.nrOwed =
      1 + (visitedIn (log ++ ev)).countP (fun cqe => isPoll cqe.op) := by
  have hpolls := hi.polls
  have hvisited := visitedIn_append log ev
  have hsame : preparedOf ev = [] → visitedIn ev = [] → bot'.pc.nrOwed = bot.pc.nrOwed →
      (preparedOf (log ++ ev)).countP (fun sqe => isPoll sqe.op) + bot'.pc.nrOwed =
        1 + (visitedIn (log ++ ev)).countP (fun cqe => isPoll cqe.op) := by
    intro h1 h2 h3
    rw [hvisited, preparedOf_append, h1, h2, h3, List.append_nil, List.append_nil]
    exact hpolls
  have hquiet : ∀ {b : GwRing.Act} {ring' : GwRing} {e : List RingEvent}, bot.ring.step b = some (ring', e) →
      GwRing.Serving bot.ring b → b ≠ .reader .visit → visitedIn (e.map .ring) = [] := by
    intro b ring' e hstep hserv hb
    rw [visitedIn, ringLog_map_ring]
    exact (GwRing.visited_of_step h0 (ring_run hr) hserv hstep).1 hb
  cases step_cases hs with
  | @full prep again hat _ => exact hsame rfl rfl (by rw [hat]; cases again <;> rfl)
  | @prepare prep again slot sqe hat _ _ _ _ hsqe =>
    have hone := nrOwed_prepNext bot (bot.ring.gwRingGetSqe.1.sqes slot) prep
    rw [← hsqe] at hone
    rw [hat] at hpolls
    have hev : visitedIn [BotEvent.prepared sqe] = [] := rfl
    rw [hvisited, hev, List.append_nil, preparedOf_append, List.countP_append, Nat.add_assoc]
    have hcount : [sqe].countP (fun sqe => isPoll sqe.op) = if isPoll sqe.op then 1 else 0 := List.countP_singleton
    calc (preparedOf log).countP (fun sqe => isPoll sqe.op) +
            ([sqe].countP (fun sqe => isPoll sqe.op) + (prepNext prep).nrOwed)
        = (preparedOf log).countP (fun sqe => isPoll sqe.op) + 1 := by rw [hcount, hone]
      _ = 1 + (visitedIn log).countP (fun cqe => isPoll cqe.op) := hpolls
  | own ho =>
    cases ho with
    | submittedFull hat _ | updatesEnd hat | update hat => exact hsame rfl rfl (by rw [hat]; rfl)
    | submitted hat _ =>
      refine hsame rfl rfl ?_
      rw [hat]
      show MainPc.nrOwed (if _ then _ else _) = 0
      split <;> rfl
  | @call b ring' pc e hcall hstep =>
    by_cases hb : b = .reader .visit
    · subst hb
      cases hcall with
      | visit cqe hat =>
        have hev : visitedIn ([RingEvent.cq (.visited cqe)].map BotEvent.ring) = [cqe] := rfl
        have hown : isPoll cqe.op = true → cqe.userData = TG_API_GET_UPDATES.toUInt64 := by
          intro hpoll
          have hm : cqe ∈ visitedIn (log ++ [RingEvent.cq (.visited cqe)].map BotEvent.ring) := by
            rw [hvisited, hev]
            exact List.mem_append_right _ List.mem_cons_self
          obtain ⟨sqe, hsqe, res, rfl⟩ := visited_prepared h0 (hr.step _ hc hs) (hi.step_sq (step_cases hs)).2 hm
          exact (hi.step_isGetUpdates (step_cases hs) hsqe hpoll).2
        have hcount : [cqe].countP (fun cqe => isPoll cqe.op) = if isPoll cqe.op then 1 else 0 := List.countP_singleton
        rw [hat] at hpolls
        have hpolls : (preparedOf log).countP (fun sqe => isPoll sqe.op) =
            1 + (visitedIn log).countP (fun cqe => isPoll cqe.op) := hpolls
        rw [hvisited, hev, preparedOf_append, preparedOf_map_ring, List.append_nil, List.countP_append, hcount]
        show _ + (bot.processCqe cqe).nrOwed = _
        rw [nrOwed_processCqe hown, hpolls, Nat.add_assoc]
    · refine hsame (preparedOf_map_ring e) (hquiet hstep hcall.serving.1 hb) ?_
      cases hcall with
      | visit cqe hat => exact absurd rfl hb
      | submitFull _ hat | submit _ hat | sleeps _ hat | forEach _ hat | loadHead _ hat | loadEnd _ hat _ =>
        simp only [hat, MainPc.nrOwed]
      | waited _ hat _ | next _ hat | advance _ hat =>
        rw [hat]
        show MainPc.nrOwed (if _ then _ else _) = 0
        split <;> rfl
  | inner hin hstep =>
    refine hsame (preparedOf_map_ring _) (hquiet hstep (serving_of_isInner bot.ring hin).1 ?_) rfl
    rintro rfl
    nomatch hin
  | exec hstep => exact hsame (preparedOf_map_ring _) (hquiet hstep ⟨nofun, nofun⟩ nofun) rfl

end Inv

/-- The bot after `gw_init_modules`, with a ring as `gw_ring_init` leaves it. -/
structure Started (bot : TgBotCtx) (max : UInt32) : Prop where
  ring : bot.ring.Fresh max
  pc : bot.pc = .getSqe (.poll none) false

theorem Started.inv {max : UInt32} (h : Started bot max) : Inv bot [] := by
  obtain ⟨hsq, hempty⟩ := h.ring.sqInv
  refine ⟨hsq, ?_, nofun, fun _ => h.ring.submit, ?_⟩
  · rw [hempty]
    rfl
  · rw [h.pc]
    rfl

theorem Inv.of_run {max : UInt32} {bot₀ : TgBotCtx} (h0 : Started bot₀ max) (h : machine.Run C bot₀ bot log) : Inv bot log := by
  refine h.invariant (I := Inv) h0.inv ?_
  intro bot log a bot' ev hr hi hc hs
  have hcase := step_cases hs
  obtain ⟨hsq, hprepared⟩ := hi.step_sq hcase
  exact ⟨hsq, hprepared, fun _ => hi.step_isGetUpdates hcase, hi.step_submit hcase, hi.step_polls h0.ring hr hc hs⟩

end TgBotCtx

end GwBot

import GwBot.Bot.Defs
import GwBot.Ring.Queues

/-!
# What each step of the bot does

The case lemma of the bot's steps: the main thread goes on by itself, fills an entry, or calls a function of the ring; or something
happens inside the ring.
-/

namespace GwBot

open Lib

namespace TgBotCtx

variable (bot : TgBotCtx)

/-- The steps of the main thread that do not touch the ring: where it goes on, and the update it takes a reference to. -/
inductive MainOwn : Int → MainPc → List BotEvent → Prop where
  | submittedFull {prep : Prep} : bot.pc = .inSubmitFull prep → bot.ring.submit = none →
      MainOwn bot.maxUpdateId (.getSqe prep true) []
  | submitted : bot.pc = .inSubmit → bot.ring.submit = none →
      MainOwn bot.maxUpdateId (if bot.ring.submitRet < 0 then .returned bot.ring.submitRet else .waiting) []
  | updatesEnd {res : Int} : bot.pc = .updates [] res → MainOwn bot.maxUpdateId (.getSqe (.poll (some res)) false) []
  | update {up : BatchUpdate} {rest : List BatchUpdate} {res : Int} : bot.pc = .updates (up :: rest) res →
      MainOwn (if int64OfU64 up.updateId > bot.maxUpdateId then int64OfU64 up.updateId else bot.maxUpdateId)
        (.getSqe (.handle up rest res) false) [.incRef up]

/-- The calls that the main thread makes into the ring, which `ring'` is after: what it calls, what that logs, and where it goes on. -/
inductive MainCall (ring' : GwRing) : GwRing.Act → List RingEvent → MainPc → Prop where
  | submitFull {prep : Prep} (ev : List RingEvent) : bot.pc = .submitFull prep → MainCall ring' .submit ev (.inSubmitFull prep)
  | submit (ev : List RingEvent) : bot.pc = .loop → MainCall ring' .submit ev .inSubmit
  | waited {ret : Int} {slot : Option Nat} (ev : List RingEvent) : bot.pc = .waiting → ring'.cq.reader = .returned ret slot →
      MainCall ring' (.reader .wait) ev (if ret < 0 then .returned ret else .forEach ret)
  | sleeps (ev : List RingEvent) : bot.pc = .waiting → MainCall ring' (.reader .wait) ev .waiting
  | forEach {ret : Int} (ev : List RingEvent) : bot.pc = .forEach ret → MainCall ring' (.reader .forEach) ev (.walking ret)
  | loadHead {ret : Int} (ev : List RingEvent) : bot.pc = .walking ret → MainCall ring' (.reader .loadHead) ev .entry
  | loadEnd {ret : Int} (ev : List RingEvent) : bot.pc = .walking ret → (∀ head n, ring'.cq.reader ≠ .entry head n) →
      MainCall ring' (.reader .loadHead) ev (.advance ret)
  | visit (cqe : GwRingCqe) : bot.pc = .entry → MainCall ring' (.reader .visit) [.cq (.visited cqe)] (bot.processCqe cqe)
  | next {ret : Int} (ev : List RingEvent) : bot.pc = .processed ret →
      MainCall ring' (.reader (.next (ret ≠ 0))) ev (if ret ≠ 0 then .advance ret else .walking ret)
  | advance {ret : Int} (ev : List RingEvent) : bot.pc = .advance ret →
      MainCall ring' (.reader .advance) ev (if ret ≠ 0 then .returned ret else .loop)

/-- What a step of the bot can be, by its action. -/
inductive StepCase : Act → TgBotCtx → List BotEvent → Prop where
  | full {prep : Prep} {again : Bool} : bot.pc = .getSqe prep again → bot.ring.gwRingGetSqe.2 = none →
      StepCase .main { bot with pc := if again then .crashed else .submitFull prep } []
  | prepare {prep : Prep} {again : Bool} {slot : Nat} {sqe : GwRingSqe} : bot.pc = .getSqe prep again → bot.ring.submit = none →
      bot.ring.gwRingGetSqe.2 = some slot → bot.ring.step .getSqe = some (bot.ring.gwRingGetSqe.1, []) →
      bot.ring.gwRingGetSqe.1.step (.fill slot sqe) = some (bot.ring.gwRingGetSqe.1.fillSqe slot sqe, []) →
      sqe = bot.prepSqe (bot.ring.gwRingGetSqe.1.sqes slot) prep →
      StepCase .main
        { bot with ring := bot.ring.gwRingGetSqe.1.fillSqe slot sqe, updates := bot.prepUpdates prep, pc := prepNext prep }
        [.prepared sqe]
  | own {maxUpdateId : Int} {pc : MainPc} {ev : List BotEvent} : bot.MainOwn maxUpdateId pc ev →
      StepCase .main { bot with maxUpdateId := maxUpdateId, pc := pc } ev
  | call {b : GwRing.Act} {ring' : GwRing} {pc : MainPc} {ev : List RingEvent} : bot.MainCall ring' b ev pc →
      bot.ring.step b = some (ring', ev) → StepCase .main { bot with ring := ring', pc := pc } (ev.map .ring)
  | inner {b : GwRing.Act} {ring' : GwRing} {ev : List RingEvent} : b.isInner = true → bot.ring.step b = some (ring', ev) →
      StepCase (.ring b) { bot with ring := ring' } (ev.map .ring)
  | exec {k : Nat} {res : Int} {batch : List BatchUpdate} {ring' : GwRing} {ev : List RingEvent} :
      bot.ring.step (.exec k res) = some (ring', ev) →
      StepCase (.exec k res batch) { bot with ring := ring', updates := bot.updatesAfter k res batch } (ev.map .ring)

variable {bot} {bot' : TgBotCtx} {ev : List BotEvent}

/-- A call into the ring is a step of the ring, and what it logs is the log of that. -/
theorem ringStep_eq_some {b : GwRing.Act} {pc : GwRing → MainPc} (h : bot.ringStep b pc = some (bot', ev)) :
    ∃ ring' e, bot.ring.step b = some (ring', e) ∧ bot' = { bot with ring := ring', pc := pc ring' } ∧ ev = e.map .ring := by
  obtain ⟨⟨ring', e⟩, h1, h2⟩ := Option.map_eq_some_iff.1 h
  cases h2
  exact ⟨ring', e, h1, rfl, rfl⟩

/-- `gw_ring_get_sqe` gives no entry, and the main thread submits or crashes; or it gives one, which is filled. -/
theorem getSqe_cases {prep : Prep} {again : Bool} (hpc : bot.pc = .getSqe prep again) (h : bot.getSqe prep again = some (bot', ev)) :
    StepCase bot .main bot' ev := by
  unfold getSqe at h
  split at h
  · rename_i hnone
    obtain ⟨ring', e, hs, rfl, rfl⟩ := ringStep_eq_some h
    obtain ⟨-, rfl, rfl⟩ := GwRing.getSqe_step hs
    rw [GwRing.gwRingGetSqe_none hnone]
    exact StepCase.full hpc hnone
  · rename_i slot hslot
    split at h
    · nomatch h
    · rename_i ring e hget
      obtain ⟨⟨ring', e'⟩, hfill, h2⟩ := Option.map_eq_some_iff.1 h
      cases h2
      obtain ⟨hsub, rfl, rfl⟩ := GwRing.getSqe_step hget
      obtain ⟨rfl, rfl⟩ := GwRing.fill_step hfill
      exact StepCase.prepare hpc hsub hslot hget hfill rfl

/-- A visit logs its completion, and `process_cqe` is called with it. -/
theorem visit_cases (hpc : bot.pc = .entry) (h : bot.visit = some (bot', ev)) : StepCase bot .main bot' ev := by
  unfold visit at h
  split at h
  · rename_i ring cqe hs
    cases h
    exact StepCase.call (MainCall.visit cqe hpc) hs
  · nomatch h

/-- The step of the main thread, by where it stands. -/
theorem mainStep_cases (h : bot.mainStep = some (bot', ev)) : StepCase bot .main bot' ev := by
  unfold mainStep at h
  split at h
  · rename_i hpc
    exact getSqe_cases hpc h
  · rename_i hpc
    obtain ⟨ring', e, hs, rfl, rfl⟩ := ringStep_eq_some h
    exact StepCase.call (MainCall.submitFull e hpc) hs
  · rename_i hpc
    split at h
    · nomatch h
    · rename_i hsub
      cases h
      exact StepCase.own (MainOwn.submittedFull hpc (Option.not_isSome_iff_eq_none.1 hsub))
  · rename_i hpc
    obtain ⟨ring', e, hs, rfl, rfl⟩ := ringStep_eq_some h
    exact StepCase.call (MainCall.submit e hpc) hs
  · rename_i hpc
    split at h
    · nomatch h
    · rename_i hsub
      cases h
      exact StepCase.own (MainOwn.submitted hpc (Option.not_isSome_iff_eq_none.1 hsub))
  · rename_i hpc
    obtain ⟨ring', e, hs, rfl, rfl⟩ := ringStep_eq_some h
    split
    · rename_i hret
      exact StepCase.call (MainCall.waited e hpc hret) hs
    · exact StepCase.call (MainCall.sleeps e hpc) hs
  · rename_i hpc
    obtain ⟨ring', e, hs, rfl, rfl⟩ := ringStep_eq_some h
    exact StepCase.call (MainCall.forEach e hpc) hs
  · rename_i hpc
    obtain ⟨ring', e, hs, rfl, rfl⟩ := ringStep_eq_some h
    split
    · exact StepCase.call (MainCall.loadHead e hpc) hs
    · rename_i hne
      exact StepCase.call (MainCall.loadEnd e hpc hne) hs
  · rename_i hpc
    exact visit_cases hpc h
  · rename_i hpc
    cases h
    exact StepCase.own (MainOwn.updatesEnd hpc)
  · rename_i hpc
    cases h
    exact StepCase.own (MainOwn.update hpc)
  · rename_i hpc
    obtain ⟨ring', e, hs, rfl, rfl⟩ := ringStep_eq_some h
    exact StepCase.call (MainCall.next e hpc) hs
  · rename_i hpc
    obtain ⟨ring', e, hs, rfl, rfl⟩ := ringStep_eq_some h
    exact StepCase.call (MainCall.advance e hpc) hs
  · nomatch h
  · nomatch h

theorem step_cases {a : Act} (h : bot.step a = some (bot', ev)) : StepCase bot a bot' ev := by
  unfold step at h
  split at h
  · exact mainStep_cases h
  · split at h
    · rename_i hin
      obtain ⟨ring', e, hs, rfl, rfl⟩ := ringStep_eq_some h
      exact StepCase.inner hin hs
    · nomatch h
  · obtain ⟨⟨ring', e⟩, hs, h2⟩ := Option.map_eq_some_iff.1 h
    cases h2
    exact StepCase.exec hs

end TgBotCtx

end GwBot

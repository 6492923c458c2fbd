import GwBot.Bot.Room

/-!
# One poll is outstanding

The only thing that prepares a poll is the completion of the one before, so there is never more than one, and one that is lost is not
replaced. A poll is lost where `punt_to_io_wq` has no memory for it, which `issue_op_tg_api_call` does not tell anybody, and where a worker
posts its completion and the fullness test counts `cq_tail` from zero and `cq_head` not.
-/

namespace GwBot

open Lib

/-! ## Where a poll is lost -/

namespace GwRing

variable {ring ring' : GwRing} {b : Act} {ev : List RingEvent}

/-- While `cq_tail` has not wrapped past `cq_head` the fullness test is exact. -/
theorem not_full_of_le {cq : Cq Poster} (h : cq.cqHead ≤ cq.cqTail) (hroom : cq.nrUnconsumed < cq.cap) : cq.isFull = false := by
  refine decide_eq_false ?_
  rw [ge_iff_le, UInt32.le_iff_toNat_le, u32Diff_toNat, absDiff_eq_occupancy h]
  exact Nat.not_le.2 hroom

/-- A step loses a poll only in `punt_to_io_wq`, when `malloc` fails, and in a worker's `post_cqe`, when that finds the queue full. -/
theorem StepCase.lost_isPoll (hs : StepCase ring b ring' ev) (hinv : Inv ring) (hret : ring.wq.ReturnsOk)
    (hstop : ring.wq.shouldStop = false)
    (hmalloc : ∀ malloc s, b = .submitNext malloc → ring.submit = some s → s.pc = .loop → s.sqHead ≠ s.sqTail →
      isPoll (ring.nextData s).sqe.op = true → malloc = true)
    (hfull : ∀ k data res, b = .postStart (.worker k) → ring.execs[k]? = some (some ⟨data, .posting res⟩) →
      isPoll data.sqe.op = true → ring.cq.isFull = false) : lost isPoll ev = 0 := by
  have hone : ∀ data : WqSqeData, (data.sqe.op = GW_RING_OP_TG_API_CALL → False) → one (dataOf isPoll) data = 0 :=
    fun data h => if_neg (fun h' => h (beq_iff_eq.1 h'))
  cases hs with
  | @unpunted s malloc hsub hpc hne hnop hop =>
    have hdata : one (dataOf isPoll) (ring.nextData s) = 0 := by
      refine hone _ (fun h => ?_)
      have htrue := hmalloc malloc s rfl hsub hpc hne (beq_iff_eq.2 h)
      exact nomatch htrue.symm.trans (hop (Or.inl h))
    simp [lost, sqeCount_unpuntedEvents, hdata]
  | queueRefused malloc hsub _ hc hneg =>
    rcases hret _ (List.mem_of_getElem? hc) _ rfl with rfl | ⟨-, h⟩
    · exact absurd hneg (Int.lt_irrefl 0)
    · exact nomatch hstop.symm.trans h
  | @nopRefused s data hsub hpc _ _ =>
    have hdata : one (dataOf isPoll) data = 0 := by
      refine hone _ (fun h => ?_)
      exact nomatch (hinv.nop s data hsub (Or.inl hpc)).symm.trans h
    simp [lost, hdata]
  | @execRefused k data res hk _ hf =>
    have hdata : one (dataOf isPoll) data = 0 := by
      refine hone _ (fun h => ?_)
      exact nomatch hf.symm.trans (hfull k data res rfl hk (beq_iff_eq.2 h))
    simp [lost, hdata]
  | wq _ _ | execCall _ _ _ | execRet _ _ _ => simp [lost, sqeCount_wqEvents]
  | exec _ he => cases he <;> rfl
  | reader _ _ => simp [lost]
  | _ => rfl

end GwRing

namespace TgBotCtx

variable {bot bot' : TgBotCtx} {a : Act} {log ev : List BotEvent} {max : UInt32} {bot₀ : TgBotCtx}

/-- `malloc` succeeds for a poll that `submit_sqe` is about to punt, and `cq_tail` has not wrapped past `cq_head` where a worker posts the
completion of one. -/
def PollsGoThrough (bot : TgBotCtx) : Act → Prop
  | .ring (.submitNext malloc) => ∀ s ∈ bot.ring.submit, s.pc = .loop → s.sqHead ≠ s.sqTail →
    isPoll (bot.ring.nextData s).sqe.op = true → malloc = true
  | .ring (.postStart (.worker k)) => ∀ e ∈ bot.ring.execs[k]?.bind id, isPoll e.data.sqe.op = true →
    bot.ring.cq.cqHead ≤ bot.ring.cq.cqTail
  | _ => True

instance (bot : TgBotCtx) (a : Act) : Decidable (PollsGoThrough bot a) := by
  unfold PollsGoThrough
  split <;> infer_instance

/-- Then none is lost. -/
theorem lost_isPoll_of_run (h0 : Started bot₀ 8192) (h : machine.Run PollsGoThrough bot₀ bot log) :
    GwRing.lost isPoll (ringLog log) = 0 := by
  refine h.invariant (I := fun _ log => GwRing.lost isPoll (ringLog log) = 0) rfl ?_
  intro bot log a bot' ev hr hi hc hs
  have hrun := ring_run hr
  have hk := GwRing.Known.of_run h0.ring hrun
  have hstop := (GwRing.idle_of_run (fun _ _ hc => hc.1) h0.ring hrun).2
  rw [ringLog_append, GwRing.lost_append, hi, Nat.zero_add]
  cases step_cases hs with
  | full _ _ | prepare _ _ _ _ _ _ => rfl
  | own ho => cases ho <;> rfl
  | call hcall hstep =>
    rw [ringLog_map_ring]
    refine (GwRing.step_cases hstep).2.lost_isPoll hk.inv hk.returns hstop ?_ ?_
    · rintro malloc s rfl
      cases hcall
    · rintro k data res rfl
      cases hcall
  | inner hin hstep =>
    rw [ringLog_map_ring]
    refine (GwRing.step_cases hstep).2.lost_isPoll hk.inv hk.returns hstop ?_ ?_
    · rintro malloc s rfl hsub
      exact hc s hsub
    · rintro k data res rfl hexec hop
      have hhead := hc ⟨data, .posting res⟩ (by rw [hexec]; rfl) hop
      have hle := nrUnconsumed_le_of_poll h0 hr hexec hop rfl
      refine GwRing.not_full_of_le hhead ?_
      rw [Cq.cap, (GwRing.masks_of_run h0.ring hrun).2]
      exact Nat.lt_of_le_of_lt hle (by decide)
  | exec hstep =>
    rw [ringLog_map_ring]
    exact (GwRing.step_cases hstep).2.lost_isPoll hk.inv hk.returns hstop (by simp) (by simp)

/-! ## The outstanding polls -/

/-- The `getUpdates` requests that are outstanding between two calls of `run_tg_bot_loop`: entries not yet submitted, works queued or
running, and completions not yet processed. -/
def nrPolls (bot : TgBotCtx) : Nat :=
  bot.ring.sqWindow.countP (fun sqe => isPoll sqe.op) + bot.ring.outstanding (GwRing.dataOf isPoll) +
    bot.ring.cq.unvisited.countP (fun cqe => isPoll cqe.op)

/-- There are never two. -/
theorem nrPolls_le_one (h0 : Started bot₀ max) {C : TgBotCtx → Act → Prop} (h : machine.Run C bot₀ bot log) : bot.nrPolls ≤ 1 := by
  have hpolls := polls_eq h0 h
  unfold nrPolls
  unfold GwRing.due at hpolls
  omega

/-- While no poll is lost, one is outstanding whenever `run_tg_bot` is about to call `run_tg_bot_loop`. -/
theorem one_poll_outstanding {env : GwRing.InitEnv} {ring₀ : GwRing} (h0 : GwRing.gwRingInit 8192 env = some (.ok ring₀))
    (addr tctxP updatesP : Nat) (h : machine.Run PollsGoThrough (init addr tctxP updatesP ring₀) bot log) (hpc : bot.pc = .loop) :
    bot.nrPolls = 1 := by
  have hstart := started_init h0 addr tctxP updatesP
  have hpolls := polls_eq hstart h
  have hlost := lost_isPoll_of_run hstart h
  have hsub := (Inv.of_run hstart h).submit (by rw [hpc]; rfl)
  have hhand : bot.ring.inHand (GwRing.dataOf isPoll) = 0 := by
    rw [GwRing.inHand, hsub]
    exact Nat.zero_sub _
  have howed : bot.pc.nrOwed = 0 := by rw [hpc]; rfl
  unfold nrPolls
  unfold GwRing.due at hpolls
  omega

/-- The completion of the first poll, with one update, is posted and visited, and the main thread prepares the handler and the next
poll. -/
def firstBatch : List Act :=
  firstPoll [⟨7, 5⟩] ++ [.ring (.postStart (.worker 0)), .ring .postStore, .ring .postPublish] ++ List.replicate 11 .main

/-- In a run in which the first poll gets an update, one is outstanding when `run_tg_bot` comes back to its loop. -/
theorem one_poll_outstanding_first : ∃ (ring₀ : GwRing) (bot : TgBotCtx) (log : List BotEvent),
    GwRing.gwRingInit 8192 GwRing.InitEnv.ok = some (.ok ring₀) ∧ machine.Run PollsGoThrough (init 1 2 3 ring₀) bot log ∧
    bot.pc = .loop ∧ (preparedOf log).length = 3 ∧ bot.nrPolls = 1 := by
  have hrun : ∃ ring₀ : GwRing, GwRing.gwRingInit 8192 GwRing.InitEnv.ok = some (.ok ring₀) ∧
      (machine.execIf PollsGoThrough (init 1 2 3 ring₀) firstBatch).map (fun r => (r.1.pc, (preparedOf r.2).length)) =
        some (.loop, 3) := by
    refine ⟨_, rfl, ?_⟩
    set_option maxRecDepth 20000 in decide
  obtain ⟨ring₀, h0, he⟩ := hrun
  obtain ⟨bot, log, h, hval⟩ := Machine.exists_of_exec (fun (bot : TgBotCtx) log => (bot.pc, (preparedOf log).length)) he
  obtain ⟨hpc, hlen⟩ := Prod.mk.injEq _ _ _ _ ▸ hval
  exact ⟨ring₀, bot, log, h0, h, hpc, hlen, one_poll_outstanding h0 1 2 3 h hpc⟩

/-- The handler is punted and `malloc` fails for the poll that follows it; when the handler has completed, `run_tg_bot` is back in its loop
and no poll is outstanding. -/
theorem poll_lost : ∃ (ring₀ : GwRing) (bot : TgBotCtx) (log : List BotEvent),
    GwRing.gwRingInit 8192 GwRing.InitEnv.ok = some (.ok ring₀) ∧ machine.Reach (init 1 2 3 ring₀) bot log ∧
    bot.pc = .loop ∧ bot.nrPolls = 0 := by
  have hrun : ∃ ring₀ : GwRing, GwRing.gwRingInit 8192 GwRing.InitEnv.ok = some (.ok ring₀) ∧
      (machine.exec (init 1 2 3 ring₀)
        (firstBatch ++ [.main, .ring (.submitNext true), .ring (.queuer [] 0), .ring (.submitNext true), .ring (.submitNext false),
          .ring (.submitNext true), .main, .ring (.run 0), .ring (.run 0), .ring (.run 0), .ring (.worker 0 []), .ring (.run 0),
          .exec 0 0 [], .exec 0 0 [], .ring (.postStart (.worker 0)), .ring .postStore, .ring .postPublish] ++
          List.replicate 7 .main)).map (fun r => (r.1.pc, r.1.nrPolls)) = some (.loop, 0) := by
    refine ⟨_, rfl, ?_⟩
    set_option maxRecDepth 20000 in decide
  obtain ⟨ring₀, h0, he⟩ := hrun
  obtain ⟨bot, log, h, hval⟩ := Machine.exists_of_exec (fun (bot : TgBotCtx) _ => (bot.pc, bot.nrPolls)) he
  obtain ⟨hpc, hpolls⟩ := Prod.mk.injEq _ _ _ _ ▸ hval
  exact ⟨ring₀, bot, log, h0, h, hpc, hpolls⟩

end TgBotCtx

end GwBot

import GwBot.Bot.Containers
import GwBot.Bot.Walk

/-!
# The loop of `run_tg_bot` does not end

`run_tg_bot` leaves its loop when `run_tg_bot_loop` returns anything but 0: when the ring stops, which nobody asks for; when
`gw_ring_wait_cqe` finds a completion and the walk none, which does not happen; or when the completion of a poll has a positive result,
and `tgapi_call_get_updates` returns none. So whatever the transfers and the responses come to, as long as no container is freed under
the main thread, what `main` has after `run_tg_bot` is never run.
-/

namespace GwBot

open Lib

/-! ## Results -/

/-- The result that a call of `gw_ring_wq_sqe_exec` has for its completion. -/
def ExecPc.result : ExecPc → Option Int
  | .posting res | .inPost res => some res
  | _ => none

namespace GwRing

variable {ring ring' : GwRing} {a : Act} {log ev : List RingEvent}

/-- No poll has a positive result, on its way to its completion or in it. -/
structure NoPositive (ring : GwRing) (posted : List GwRingCqe) : Prop where
  exec : ∀ (k : Nat) (data : WqSqeData) (pc : ExecPc) (res : Int), ring.execs[k]? = some (some ⟨data, pc⟩) → pc.result = some res →
    isPoll data.sqe.op = true → res ≤ 0
  posted : ∀ cqe ∈ posted, isPoll cqe.op = true → cqe.res ≤ 0

/-- `tgapi_call_get_updates` does not return a positive value in this step. -/
def AnswersPolls (ring : GwRing) : Act → Prop
  | .exec k res => ∀ e ∈ ring.execs[k]?.bind id, e.pc = .handling → isPoll e.data.sqe.op = true → res ≤ 0
  | _ => True

instance (ring : GwRing) (a : Act) : Decidable (ring.AnswersPolls a) := by
  unfold AnswersPolls
  split <;> infer_instance

/-- A call that moves to where it has no result, or one that is not positive if it is a poll's. -/
theorem NoPositive.setExec {posted : List GwRingCqe} (h : NoPositive ring posted) {k : Nat} {e : Option Exec}
    (he : ∀ (data : WqSqeData) (pc : ExecPc) (res : Int), e = some ⟨data, pc⟩ → pc.result = some res → isPoll data.sqe.op = true →
      res ≤ 0) (j : Nat) (data : WqSqeData) (pc : ExecPc) (res : Int) (hj : (ring.execs.set k e)[j]? = some (some ⟨data, pc⟩))
    (hres : pc.result = some res) (hpoll : isPoll data.sqe.op = true) : res ≤ 0 := by
  rcases getElem?_set_cases hj with ⟨-, h1⟩ | ⟨-, h1⟩
  · exact he data pc res h1.symm hres hpoll
  · exact h.exec j data pc res h1 hres hpoll

theorem NoPositive.step (h : NoPositive ring (postedOf (cqLog log))) (hi : Inv ring) (hs : StepCase ring a ring' ev)
    (hc : ring.AnswersPolls a) : NoPositive ring' (postedOf (cqLog (log ++ ev))) := by
  have hquiet : postedOf (cqLog ev) = [] → postedOf (cqLog (log ++ ev)) = postedOf (cqLog log) := by
    intro hnil
    rw [cqLog_append, postedOf_append, hnil, List.append_nil]
  have hsame : postedOf (cqLog ev) = [] → ring'.execs = ring.execs → NoPositive ring' (postedOf (cqLog (log ++ ev))) := by
    intro hnil hexecs
    rw [hquiet hnil]
    exact ⟨hexecs ▸ h.exec, h.posted⟩
  have hset : ∀ {k : Nat} {e : Option Exec}, postedOf (cqLog ev) = [] → ring'.execs = ring.execs.set k e →
      (∀ (data : WqSqeData) (pc : ExecPc) (res : Int), e = some ⟨data, pc⟩ → pc.result = some res → isPoll data.sqe.op = true →
        res ≤ 0) →
      NoPositive ring' (postedOf (cqLog (log ++ ev))) := by
    intro k e hnil hexecs he
    rw [hquiet hnil]
    exact ⟨hexecs ▸ h.setExec he, h.posted⟩
  have hpub : ∀ {cqe : GwRingCqe}, postedOf (cqLog ev) = [cqe] → (isPoll cqe.op = true → cqe.res ≤ 0) →
      ∀ c ∈ postedOf (cqLog (log ++ ev)), isPoll c.op = true → c.res ≤ 0 := by
    intro cqe hone hres c hm
    rw [cqLog_append, postedOf_append, hone] at hm
    rcases List.mem_append.1 hm with hm | hm
    · exact h.posted c hm
    · rw [List.mem_singleton.1 hm]
      exact hres
  cases hs with
  | getSqe _ =>
    refine hsame rfl ?_
    unfold gwRingGetSqe
    split <;> rfl
  | unpunted _ _ _ _ _ => exact hsame (by rw [← List.length_eq_zero_iff]; unfold unpuntedEvents; split <;> rfl) rfl
  | queueRefused _ _ _ _ _ => exact hsame (by rw [← List.length_eq_zero_iff]; unfold unpuntedEvents; split <;> rfl) rfl
  | wq _ _ => exact hsame (by rw [cqLog_wqEvents]; rfl) rfl
  | execCall _ _ _ | execRet _ _ _ =>
    refine hset (by rw [cqLog_wqEvents]; rfl) rfl ?_
    rintro data pc res he hres
    cases he
    try nomatch hres
  | @exec k data res pc pc' _ hk he =>
    refine hset (by rw [(wqLog_execStep he).2]; rfl) rfl ?_
    rintro data' pc'' res' heq hres hpoll
    cases heq
    cases he with
    | nop _ =>
      cases hres
      exact Int.le_refl 0
    | unsupported _ _ =>
      cases hres
      decide
    | ret =>
      cases hres
      exact hc ⟨data, .handling⟩ (by rw [hk]; rfl) rfl hpoll
    | call _ _ | unknown _ _ _ => nomatch hres
  | execRefused _ _ _ => exact hset rfl rfl (by rintro _ _ _ he hres; cases he; nomatch hres)
  | @execPost k data res hk _ _ =>
    refine hset rfl rfl ?_
    rintro data' pc res' he hres hpoll
    cases he
    cases hres
    exact h.exec k data _ res hk rfl hpoll
  | @nopPosted s data cqe cqTail cq' hsub hpc hp _ =>
    obtain ⟨s', data', hs', -, hcqe⟩ := hi.posting _ hp
    refine ⟨h.exec, hpub rfl (fun _ => ?_)⟩
    rw [show cqe = data'.sqe.cqe 0 from hcqe]
    exact Int.le_refl 0
  | @execPosted k data res cqe cqTail cq' hk hp _ =>
    obtain ⟨data', res', hk', hcqe⟩ := hi.posting _ hp
    refine ⟨h.setExec (by rintro _ _ _ he hres; cases he; nomatch hres), hpub rfl (fun hpoll => ?_)⟩
    rw [show cqe = data'.sqe.cqe res' from hcqe] at hpoll ⊢
    exact h.exec k data' _ res' hk' rfl hpoll
  | reader hb hstep =>
    refine hsame ?_ rfl
    rw [cqLog_map_cq]
    cases Cq.step_cases hstep with
    | wait _ _ _ hev => rcases hev with rfl | ⟨ret, rfl⟩ <;> rfl
    | refused _ _ | post _ _ | store _ | publish _ | stop _ => nomatch hb
    | _ => rfl
  | _ => exact hsame rfl rfl

/-- `gw_ring_submit` returns a count, unless the ring stops. -/
def SubmitCounts (ring : GwRing) : Prop := 0 ≤ ring.submitRet ∧ ∀ s, ring.submit = some s → 0 ≤ s.ret

theorem SubmitCounts.step (h : SubmitCounts ring) (hs : StepCase ring a ring' ev) (hrunning : ring.cq.shouldStop = false) :
    SubmitCounts ring' := by
  obtain ⟨hret, hsubmit⟩ := h
  have hset : ∀ {s s' : Submit}, ring.submit = some s → s.ret ≤ s'.ret → ∀ t, some s' = some t → 0 ≤ t.ret := by
    intro s s' hsub hle t ht
    cases ht
    exact Int.le_trans (hsubmit s hsub) hle
  cases hs with
  | getSqe _ =>
    unfold gwRingGetSqe
    split <;> exact ⟨hret, hsubmit⟩
  | submitStopped _ hstop => exact absurd (hrunning.symm.trans hstop) nofun
  | submitStart _ _ => exact ⟨hret, by rintro s hs; cases hs; exact Int.le_refl 0⟩
  | submitEnd _ hsub _ _ => exact ⟨hsubmit _ hsub, nofun⟩
  | nop _ hsub _ _ _ | punt hsub _ _ _ _ | unpunted hsub _ _ _ _ | queueRefused _ hsub _ _ _ | nopRefused hsub _ _ _
  | nopPost hsub _ _ _ => exact ⟨hret, hset hsub (Int.le_refl _)⟩
  | queued _ hsub _ _ _ | nopPosted hsub _ _ _ => exact ⟨hret, hset hsub (Int.le_add_one (Int.le_refl _))⟩
  | _ => exact ⟨hret, hsubmit⟩

end GwRing

/-! ## What the main thread has in hand -/

/-- The value that `process_tg_api_updates` will return. -/
def Prep.ret? : Prep → Option Int
  | .poll ret => ret
  | .handle _ _ res => some res

/-- The value that the main thread will return, unless there is another. -/
def MainPc.ret? : MainPc → Option Int
  | .getSqe prep _ | .submitFull prep | .inSubmitFull prep => prep.ret?
  | .updates _ ret | .walking ret | .processed ret | .advance ret => some ret
  | _ => none

namespace TgBotCtx

variable {bot bot' bot₀ : TgBotCtx} {a : Act} {log ev : List BotEvent} {C : TgBotCtx → Act → Prop} {max : UInt32}

/-- `tgapi_call_get_updates` does not return a positive value in this step. -/
def AnswersPolls (bot : TgBotCtx) : Act → Prop
  | .exec k res _ => bot.ring.AnswersPolls (.exec k res)
  | _ => True

instance (bot : TgBotCtx) (a : Act) : Decidable (bot.AnswersPolls a) :=
  match a with
  | .exec k res _ => inferInstanceAs (Decidable (bot.ring.AnswersPolls (.exec k res)))
  | .main | .ring _ => isTrue trivial

theorem ret?_prepNext (prep : Prep) : (prepNext prep).ret? = prep.ret? := by
  cases prep with
  | poll ret => cases ret <;> rfl
  | handle up rest res => rfl

/-- What `process_cqe` makes of a completion whose result is not positive. -/
theorem ret?_processCqe (bot : TgBotCtx) {cqe : GwRingCqe} (h : isPoll cqe.op = true → cqe.res ≤ 0) :
    (bot.processCqe cqe).ret? = some 0 := by
  unfold processCqe
  split
  · rename_i hop
    have hle := h (beq_iff_eq.2 hop)
    split
    · unfold processTgApiUpdates
      split
      · rfl
      · rename_i hneg
        rw [Int.le_antisymm hle (Int.not_lt.1 hneg)]
        split <;> rfl
    · rfl
  · rfl

/-- What the main thread has in hand is 0 once the walk has visited something, and it has not come out of its loop. -/
structure Loops (bot : TgBotCtx) (log : List BotEvent) : Prop where
  zero : ∀ ret, bot.pc.ret? = some ret → bot.pc.startsWalk bot.ring.cq.reader = false → ret = 0
  going : ∀ ret, bot.pc ≠ .returned ret
  results : GwRing.NoPositive bot.ring (postedOf (cqLog (ringLog log)))
  counts : bot.ring.SubmitCounts

/-- A walk that ends has visited something. -/
theorem not_startsWalk_of_loadEnd {cq cq' : Cq Poster} {posted visited : List GwRingCqe} (hi : Cq.Inv cq posted visited)
    {e : List (CqEvent Poster)} (hs : cq.step .loadHead = some (cq', e)) (hend : ∀ head n, cq'.reader ≠ .entry head n) (ret : Int)
    (hstarts : (MainPc.walking ret).startsWalk cq.reader = true → 0 < cq.nrUnvisited) :
    (MainPc.walking ret).startsWalk cq.reader = false := by
  cases Cq.loadHeadCqe_cases hs with
  | loadEntry _ _ => exact absurd rfl (hend _ _)
  | @loadEnd head n hr heq =>
    rw [← Bool.not_eq_true]
    intro hstart
    have hpos := hstarts hstart
    change (cq.reader.nrVisited == 0) = true at hstart
    rw [hr] at hstart
    have hzero : n.toNat = 0 := beq_iff_eq.1 hstart
    have hhead : head = cq.cqHead := by
      rw [(hi.walking hr).1, show n = 0 from UInt32.toNat_inj.1 hzero, UInt32.add_zero]
    have hnone : cq.nrUnconsumed = 0 := occupancy_eq_zero_iff.2 (hhead.symm.trans heq)
    unfold Cq.nrUnvisited at hpos
    omega

namespace Loops

/-- The completions and the calls of a step of the ring. -/
theorem ring_step (h0 : Started bot₀ max) (hr : machine.Run C bot₀ bot log) (h : Loops bot log) (hc : bot.AnswersPolls a)
    (hs : bot.step a = some (bot', ev)) :
    GwRing.NoPositive bot'.ring (postedOf (cqLog (ringLog (log ++ ev)))) ∧ bot'.ring.SubmitCounts := by
  have hinv := (GwRing.Known.of_run h0.ring (ring_run hr)).inv
  have hrunning := (Retries.of_run h0 hr).running
  have hstep : ∀ {b : GwRing.Act} {ring' : GwRing} {e : List RingEvent}, bot.ring.step b = some (ring', e) → bot.ring.AnswersPolls b →
      GwRing.NoPositive ring' (postedOf (cqLog (ringLog (log ++ e.map .ring)))) ∧ ring'.SubmitCounts := by
    intro b ring' e hs hc
    rw [ringLog_append, ringLog_map_ring]
    exact ⟨h.results.step hinv (GwRing.step_cases hs).2 hc, h.counts.step (GwRing.step_cases hs).2 hrunning⟩
  have hsame : ringLog ev = [] → bot'.ring.execs = bot.ring.execs → bot'.ring.submit = bot.ring.submit →
      bot'.ring.submitRet = bot.ring.submitRet →
      GwRing.NoPositive bot'.ring (postedOf (cqLog (ringLog (log ++ ev)))) ∧ bot'.ring.SubmitCounts := by
    intro hnil hexecs hsubmit hret
    rw [ringLog_append, hnil, List.append_nil]
    refine ⟨⟨hexecs ▸ h.results.exec, h.results.posted⟩, ?_, ?_⟩
    · rw [hret]
      exact h.counts.1
    · rw [hsubmit]
      exact h.counts.2
  cases step_cases hs with
  | full _ _ => exact hsame rfl rfl rfl rfl
  | @prepare _ _ slot sqe _ _ _ _ _ _ =>
    refine hsame rfl ?_ (submit_fillSqe _ _ _) ?_
    all_goals
      unfold GwRing.gwRingGetSqe
      split <;> rfl
  | own ho => cases ho <;> exact hsame rfl rfl rfl rfl
  | @call b ring' pc e hcall hstep' =>
    refine hstep hstep' ?_
    cases hcall <;> trivial
  | @inner b ring' e hin hstep' =>
    refine hstep hstep' ?_
    cases b <;> trivial
  | exec hstep' => exact hstep hstep' hc

/-- Where the main thread goes on with what it has, and has visited no less. -/
theorem of_same (h : Loops bot log) (hring : GwRing.NoPositive bot'.ring (postedOf (cqLog (ringLog (log ++ ev)))) ∧ bot'.ring.SubmitCounts)
    (hret : bot'.pc.ret? = bot.pc.ret?)
    (hstart : bot.pc.startsWalk bot.ring.cq.reader = true → bot'.pc.startsWalk bot'.ring.cq.reader = true)
    (hgoing : ∀ ret, bot'.pc ≠ .returned ret) : Loops bot' (log ++ ev) := by
  refine ⟨fun ret hpc hno => h.zero ret (hret ▸ hpc) ?_, hgoing, hring.1, hring.2⟩
  rw [← Bool.not_eq_true]
  exact fun hyes => absurd (hno.symm.trans (hstart hyes)) nofun

/-- Where it has nothing in hand there is nothing to look at. -/
theorem of_none (hring : GwRing.NoPositive bot'.ring (postedOf (cqLog (ringLog (log ++ ev)))) ∧ bot'.ring.SubmitCounts)
    (hret : bot'.pc.ret? = none) (hgoing : ∀ ret, bot'.pc ≠ .returned ret) : Loops bot' (log ++ ev) :=
  ⟨fun _ h => absurd (hret.symm.trans h) nofun, hgoing, hring.1, hring.2⟩

/-- What the main thread's calls into the ring do to it. -/
theorem call (h0 : Started bot₀ max) (hr : machine.Run C bot₀ bot log) (h : Loops bot log) {b : GwRing.Act} {ring' : GwRing} {pc : MainPc}
    {e : List RingEvent} (hcall : bot.MainCall ring' b e pc) (hstep : bot.ring.step b = some (ring', e))
    (hring : GwRing.NoPositive ring' (postedOf (cqLog (ringLog (log ++ e.map .ring)))) ∧ ring'.SubmitCounts) :
    Loops { bot with ring := ring', pc := pc } (log ++ e.map .ring) := by
  have hcq := GwRing.cqInv_of_run (fun _ _ hc => hc.2) h0.ring (ring_run hr)
  cases hcall with
  | submitFull _ hat => exact h.of_same hring (by rw [hat]; rfl) (by rw [hat]; exact id) nofun
  | submit _ _ | sleeps _ _ | loadHead _ _ => exact of_none hring rfl nofun
  | waited _ _ hret =>
    rcases GwRing.reader_wait (Retries.of_run h0 hr).running hstep with ⟨ret', slot', hpos, hreader, -⟩ | hasleep
    · cases hret.symm.trans hreader
      rw [if_neg (Int.not_lt.2 (Int.le_of_lt hpos))]
      exact of_none hring rfl nofun
    · nomatch hret.symm.trans hasleep
  | forEach _ _ =>
    refine ⟨fun _ _ hno => ?_, nofun, hring.1, hring.2⟩
    obtain ⟨head, hreader⟩ := GwRing.reader_forEach hstep
    have hstart : (ring'.cq.reader.nrVisited == 0) = true := by
      rw [hreader]
      rfl
    exact absurd (hno.symm.trans hstart) nofun
  | @loadEnd ret _ hat hend =>
    obtain ⟨e', hq, -, -⟩ := GwRing.reader_step hstep
    have hno := not_startsWalk_of_loadEnd hcq hq hend ret (fun hstart => (Walks.of_run h0 hr).starts (by rw [hat]; exact hstart))
    refine ⟨fun ret' hret' _ => ?_, nofun, hring.1, hring.2⟩
    cases hret'
    exact h.zero ret (by rw [hat]; rfl) (by rw [hat]; exact hno)
  | visit cqe hat =>
    have hposted : cqe ∈ postedOf (cqLog (ringLog (log ++ [RingEvent.cq (.visited cqe)].map .ring))) := by
      rw [ringLog_append, ringLog_map_ring,
        (GwRing.cqInv_of_run (fun _ _ hc => hc.2) h0.ring ((ring_run hr).step (.reader .visit) ⟨nofun, nofun⟩ hstep)).posted_eq, cqLog_append]
      refine List.mem_append_left _ ?_
      rw [visitedOf_append]
      exact List.mem_append_right _ List.mem_cons_self
    have hzero := ret?_processCqe bot (hring.1.posted cqe hposted)
    refine ⟨fun ret hret _ => ?_, fun ret hret => ?_, hring.1, hring.2⟩
    · exact (Option.some.inj (hzero.symm.trans hret)).symm
    · change bot.processCqe cqe = .returned ret at hret
      rw [hret] at hzero
      nomatch hzero
  | @next ret _ hat =>
    have hzero : ret = 0 := h.zero ret (by rw [hat]; rfl) (by rw [hat]; rfl)
    rw [if_neg (not_not_intro hzero)]
    refine ⟨fun ret' hret' _ => ?_, nofun, hring.1, hring.2⟩
    cases hret'
    exact hzero
  | @advance ret _ hat =>
    have hzero : ret = 0 := h.zero ret (by rw [hat]; rfl) (by rw [hat]; rfl)
    rw [if_neg (not_not_intro hzero)]
    exact of_none hring rfl nofun

theorem step (h0 : Started bot₀ max) (hr : machine.Run C bot₀ bot log) (h : Loops bot log) (hc : bot.AnswersPolls a)
    (hs : bot.step a = some (bot', ev)) : Loops bot' (log ++ ev) := by
  have hring := h.ring_step h0 hr hc hs
  cases step_cases hs with
  | @full prep again hat _ =>
    cases again with
    | true => exact of_none hring rfl nofun
    | false => exact h.of_same hring (by rw [hat]; rfl) (by rw [hat]; exact id) nofun
  | @prepare prep again _ _ hat _ _ _ _ _ =>
    refine h.of_same hring ?_ (by rw [hat]; exact nofun) ?_
    · rw [hat]
      exact ret?_prepNext prep
    · cases prep with
      | poll ret => cases ret <;> exact nofun
      | handle up rest res => exact nofun
  | own ho =>
    cases ho with
    | submittedFull hat _ | updatesEnd hat | update hat => exact h.of_same hring (by rw [hat]; rfl) (by rw [hat]; exact nofun) nofun
    | submitted hat _ =>
      rw [if_neg (Int.not_lt.2 h.counts.1)] at hring ⊢
      exact of_none hring rfl nofun
  | call hcall hstep => exact h.call h0 hr hcall hstep hring
  | inner hin hstep =>
    refine h.of_same hring rfl ?_ h.going
    rcases reader_of_inner h0 hr (GwRing.Act.service_or_spurious hin) hstep with hsame | hwake
    · rw [hsame]
      exact id
    · rw [hwake, MainPc.startsWalk_wake]
      exact id
  | exec hstep =>
    refine h.of_same hring rfl ?_ h.going
    rcases reader_of_inner h0 hr (Or.inl rfl) hstep with hsame | hwake
    · rw [hsame]
      exact id
    · rw [hwake, MainPc.startsWalk_wake]
      exact id

theorem of_run (h0 : Started bot₀ max) (h : machine.Run AnswersPolls bot₀ bot log) : Loops bot log := by
  refine h.invariant (I := Loops) ?_ (fun _ _ _ _ _ hr hi hc hs => hi.step h0 hr hc hs)
  refine ⟨?_, ?_, ⟨?_, nofun⟩, ?_, ?_⟩
  · rw [h0.pc]
    exact nofun
  · rw [h0.pc]
    exact nofun
  · rw [h0.ring.execs]
    intro k data pc res hk
    have hm := List.mem_of_getElem? hk
    exact absurd (List.eq_of_mem_replicate hm) nofun
  · rw [h0.ring.submitRet]
  · rw [h0.ring.submit]
    exact nofun

end Loops

end TgBotCtx

namespace TgBotMem

variable {ι : Type} {J : JsonC} {toks : ι → JsonTokener} {s s' s₀ : TgBotMem} {a : Act ι} {log ev : List BotEvent}
  {C : TgBotMem → Act ι → Prop}

/-- A step of the bot with its memory is one of the bot, in which no poll has a positive result. -/
theorem Move.answers (h : Move J toks s a s' ev) : ∃ b, s.bot.step b = some (s'.bot, ev) ∧ s.bot.AnswersPolls b := by
  have hle : ∀ {k : Nat} {res : Int} {batch : List BatchUpdate}, res ≤ 0 → s.bot.AnswersPolls (.exec k res batch) :=
    fun hle _ _ _ _ => hle
  cases h with
  | @bot b bot' ev hstep hpoll =>
    refine ⟨b, hstep, ?_⟩
    cases b with
    | exec k res batch =>
      rintro ⟨data, pc⟩ he hpc hop
      cases hpc
      have hk : s.bot.ring.execs[k]? = some (some ⟨data, .handling⟩) := by
        cases hx : s.bot.ring.execs[k]? with
        | none =>
          rw [hx] at he
          nomatch he
        | some x =>
          rw [hx] at he
          exact congrArg some he
      have hno := hpoll k res batch rfl
      unfold isPolling at hno
      rw [hk] at hno
      exact absurd (hno.symm.trans hop) nofun
    | _ => trivial
  | failed _ hneg _ _ hstep => exact ⟨_, hstep, hle (Int.le_of_lt hneg)⟩
  | stored _ _ _ hstep => exact ⟨_, hstep, hle (Int.le_refl 0)⟩

/-- A run of the bot with its memory is one of the bot in which no getUpdates poll has a positive result. -/
theorem answering_run (h0 : Inv s₀ []) (h : (machine J toks).Run C s₀ s log) :
    TgBotCtx.machine.Run TgBotCtx.AnswersPolls s₀.bot s.bot log := by
  refine h.invariant (I := fun s log => TgBotCtx.machine.Run TgBotCtx.AnswersPolls s₀.bot s.bot log) Machine.Run.init ?_
  intro s log a s' ev hr hi _ hs
  have hinv := Inv.of_run h0 hr
  obtain ⟨b, hb, hc⟩ := (step_move hinv.noJson hinv.freed hs).answers
  exact hi.step b hc hb

/-- No transfer leaves a response with a null among its updates. -/
def NoNulls (toks : ι → JsonTokener) (_ : TgBotMem) : Act ι → Prop
  | .getUpdates _ i env curl => NoNullResponse (toks i) env curl
  | .bot _ => True

theorem allLive_of_run (hinv₀ : Inv s₀ []) (h₀ : AllLive s₀) (h : (machine J toks).Run (NoNulls toks) s₀ s log) : AllLive s := by
  refine h.stateInv (I := AllLive) h₀ ?_
  intro s log a s' ev hr hi hc hs
  have hinv := Inv.of_run hinv₀ hr
  refine hi.step hinv (step_move hinv.noJson hinv.freed hs) ?_
  rintro k i env curl rfl
  exact hc

/-- Whatever the transfers come to, whatever the responses are as long as no update in them is null, and whichever allocations fail: every
container that the main thread reads is live, `run_tg_bot` does not come out of its loop, and each walk over completions ends with a result
of 0. -/
theorem run_tg_bot_goes_on {size : UInt32} {env : GwRing.InitEnv} {ring₀ : GwRing} (h0 : GwRing.gwRingInit size env = some (.ok ring₀))
    (addr tctxP updatesP : Nat) (h : (machine J toks).Run (NoNulls toks) (init (.init addr tctxP updatesP ring₀)) s log) :
    (∀ c ∈ s.containers, c.addr ∉ s.mem.freed) ∧ (∀ ret, s.bot.pc ≠ .returned ret) ∧ ∀ ret, s.bot.pc = .advance ret → ret = 0 := by
  obtain ⟨max, -, hfresh⟩ := GwRing.gwRingInit_fresh h0
  have hstart : TgBotCtx.Started (init (.init addr tctxP updatesP ring₀)).bot max := ⟨hfresh, rfl⟩
  have hinv₀ : Inv (init (.init addr tctxP updatesP ring₀)) [] := Inv.init hstart rfl
  have hloops := TgBotCtx.Loops.of_run hstart (answering_run hinv₀ h)
  refine ⟨allLive_of_run hinv₀ (fun c hc => absurd hc List.not_mem_nil) h, hloops.going, fun ret hpc => hloops.zero ret ?_ ?_⟩
  · rw [hpc]
    rfl
  · rw [hpc]
    rfl

/-- The first poll gets a response with one update, and the main thread walks over its completion. -/
def answeredPoll : List (Act Unit) :=
  (TgBotCtx.firstPoll []).dropLast.map .bot ++ [.getUpdates 0 () plentyEnv (.done oneResponse.1)] ++
    ([.ring (.postStart (.worker 0)), .ring .postStore, .ring .postPublish] ++ List.replicate 10 .main : List TgBotCtx.Act).map .bot

theorem noNulls_answeredPoll : ∀ a ∈ answeredPoll, ∀ s, NoNulls oneTokener s a := by
  intro a ha s
  simp only [answeredPoll, List.mem_append, List.mem_map, List.mem_singleton] at ha
  rcases ha with (⟨b, -, rfl⟩ | rfl) | ⟨b, -, rfl⟩
  · trivial
  · intro data jobj result elems hdata hparse hresult helems hm
    obtain rfl : oneResponse.1 = data := CurlHttpGet.done.inj hdata
    have hobj := (parseJson_textTokener (oneResponse.1 ++ [0], oneResponse.2) (oneResponse.1.length + 1)).symm.trans hparse
    obtain rfl : oneResponse.2 = jobj := Except.ok.inj (Option.some.inj hobj)
    cases hresult
    cases helems
    simp at hm
  · trivial

/-- After the poll the loop goes on, with the container live. -/
theorem run_tg_bot_goes_on_first : ∃ (ring₀ : GwRing) (s : TgBotMem) (log : List BotEvent),
    GwRing.gwRingInit 8192 GwRing.InitEnv.ok = some (.ok ring₀) ∧
    (machine plainJsonC oneTokener).Run (NoNulls oneTokener) (init (.init 1 2 3 ring₀)) s log ∧
    s.containers = [⟨0, 0, 1⟩] ∧ s.bot.pc = .advance 0 ∧ 0 ∉ s.mem.freed ∧ ∀ ret, s.bot.pc ≠ .returned ret := by
  have hrun : ∃ ring₀ : GwRing, GwRing.gwRingInit 8192 GwRing.InitEnv.ok = some (.ok ring₀) ∧
      ((machine plainJsonC oneTokener).exec (init (.init 1 2 3 ring₀)) answeredPoll).map
        (fun r => (r.1.containers, r.1.bot.pc)) = some ([⟨0, 0, 1⟩], .advance 0) := by
    refine ⟨_, rfl, ?_⟩
    decide +kernel
  obtain ⟨ring₀, h0, he⟩ := hrun
  obtain ⟨s, log, h, hval⟩ := Machine.exists_of_exec_all noNulls_answeredPoll (fun (s : TgBotMem) _ => (s.containers, s.bot.pc)) he
  obtain ⟨hcontainers, hpc⟩ := Prod.mk.injEq _ _ _ _ ▸ hval
  obtain ⟨hlive, hgoing, -⟩ := run_tg_bot_goes_on h0 1 2 3 h
  exact ⟨ring₀, s, log, h0, h, hcontainers, hpc, hlive ⟨0, 0, 1⟩ (by rw [hcontainers]; exact List.mem_cons_self), hgoing⟩

end TgBotMem

end GwBot

import GwBot.Bot.Forever
import GwBot.Bot.Polls

/-!
# The poll comes back

While no poll is lost, the one that is outstanding is visited after a bounded number of steps, whatever the order in which the threads take
theirs, and until then there is a step to take: no thread waits for ever on another. A wake without a notification is not counted as a
step.
-/

namespace GwBot

open Lib

namespace GwRing

variable {ring ring' ring₀ : GwRing} {log ev : List RingEvent} {max : UInt32}

/-- A step of the consumer takes what it visits from what is left. -/
theorem toGo_reader (h0 : Fresh ring₀ max) (h : machine.Run Serving ring₀ ring log) (hsq : SqInv ring) {b : Cq.Act Poster}
    (hc : Serving ring (.reader b)) (hs : ring.step (.reader b) = some (ring', ev)) :
    ring'.toGo + 14 * (visitedOf (cqLog ev)).length + ring.cq.reader.woken = ring.toGo + ring'.cq.reader.woken := by
  have hunvisited := nrUnvisited_of_step h0 h hc hs
  have hcase := (step_cases hs).2
  have hwindow := (hcase.sq hsq nofun nofun).2
  cases hcase with
  | wq hb _ => nomatch hb
  | @reader _ cq' e hb hq =>
    obtain ⟨hposting, -, -, -, hposted⟩ := reader_frame hb hq
    have hnone : nrPosted (e.map RingEvent.cq) = 0 := by rw [nrPosted, cqLog_map_cq, hposted, List.length_nil]
    have hnil : submittedSqes (e.map RingEvent.cq) = [] := submittedSqes_eq_nil (sqeCount_map_cq _)
    have hwork : ({ ring with cq := cq' } : GwRing).workLeft = ring.workLeft := by
      simp only [workLeft, stepsLeft, hposting]
    rw [hnil, List.nil_append] at hwindow
    rw [hnone, Nat.add_zero] at hunvisited
    unfold toGo
    rw [hwork, hwindow]
    change cq'.nrUnvisited + _ = _ at hunvisited
    show submitCost * _ + ring.workLeft + 14 * cq'.nrUnvisited + cq'.reader.woken + _ + _ = _ + cq'.reader.woken
    omega

/-- A call of `gw_ring_submit` begins. -/
theorem toGo_submit (hsq : SqInv ring) (hs : ring.step .submit = some (ring', ev)) : ring'.toGo ≤ ring.toGo + 1 := by
  have hcase := (step_cases hs).2
  have hwindow := (hcase.sq hsq nofun nofun).2
  cases hcase with
  | wq hb _ => nomatch hb
  | submitStopped _ _ => exact Nat.le_succ _
  | submitStart hsub _ =>
    unfold toGo
    rw [hwindow]
    simp only [workLeft, submitStepsLeft, hsub]
    show submitCost * _ + (1 + 2 * ring.stepsLeft 8) + 14 * ring.cq.nrUnvisited + ring.cq.reader.woken ≤ _
    rw [show submittedSqes [] = [] from rfl, List.nil_append]
    omega

/-- An entry that is taken and filled. -/
theorem toGo_fillSqe (hsq : SqInv ring) (hsub : ring.submit = none) {slot : Nat} (hslot : ring.gwRingGetSqe.2 = some slot)
    (sqe : GwRingSqe) : (ring.gwRingGetSqe.1.fillSqe slot sqe).toGo = ring.toGo + submitCost := by
  have hwindow := (hsq.push hsub hslot sqe).2
  have hsame : (ring.gwRingGetSqe.1.fillSqe slot sqe).workLeft = ring.workLeft ∧
      (ring.gwRingGetSqe.1.fillSqe slot sqe).cq = ring.cq := by
    unfold gwRingGetSqe
    split <;> exact ⟨rfl, rfl⟩
  unfold toGo
  rw [hwindow, hsame.1, hsame.2, List.length_append, List.length_singleton, Nat.mul_succ]
  omega

end GwRing

/-! ## What is left of a round -/

/-- What is left of the updates of a batch, `n` of which are not handed out, and of the poll after them. -/
def updatesLeft (n : Nat) : Nat := submitCost + 19 + (submitCost + 6) * n

/-- What is left when the entry has been prepared. -/
def Prep.stepsLeft : Prep → Nat
  | .poll none => 9
  | .poll (some _) => 13
  | .handle _ rest _ => updatesLeft rest.length

/-- The main thread has yet to call `gw_ring_wait_cqe`. -/
def ReaderPc.waitsLeft : ReaderPc → Nat
  | .sleeping _ => 0
  | _ => 1

/-- What is left for the main thread until it waits again, or visits. -/
def MainPc.stepsLeft (reader : ReaderPc) : MainPc → Nat
  | .getSqe prep again => prep.stepsLeft + submitCost + if again then 1 else 5
  | .submitFull prep => prep.stepsLeft + submitCost + 4
  | .inSubmitFull prep => prep.stepsLeft + submitCost + 2
  | .loop => 9
  | .inSubmit => 7
  | .waiting => 4 + reader.waitsLeft
  | .forEach _ => 3
  | .walking _ => if reader.nrVisited = 0 then 2 else 12
  | .entry => if reader.nrVisited = 0 then 1 else 11
  | .updates rest _ => updatesLeft rest.length
  | .processed _ => 13
  | .advance _ => 10
  | .returned _ | .crashed => 0

theorem MainPc.stepsLeft_wake (reader : ReaderPc) (pc : MainPc) : pc.stepsLeft reader.wake = pc.stepsLeft reader := by
  cases pc with
  | waiting => cases reader <;> rfl
  | walking _ | entry => simp only [stepsLeft, ReaderPc.nrVisited_wake]
  | _ => rfl

namespace TgBotCtx

variable {bot bot' bot₀ : TgBotCtx} {a : Act} {log ev : List BotEvent} {C : TgBotCtx → Act → Prop} {max : UInt32}

theorem stepsLeft_prepNext (prep : Prep) (reader : ReaderPc) : (prepNext prep).stepsLeft reader = prep.stepsLeft := by
  cases prep with
  | poll ret => cases ret <;> rfl
  | handle up rest res => rfl

/-- What is left until the completion of a poll is visited. -/
def toGo (bot : TgBotCtx) : Nat := bot.ring.toGo + bot.pc.stepsLeft bot.ring.cq.reader

/-- A wake without a notification. -/
def Act.isSpurious : Act → Bool
  | .ring b => b.isSpurious
  | _ => false

/-- What a step may add: only a wake without a notification adds anything. -/
def Act.gain (a : Act) : Nat := if a.isSpurious then 3 else 0

/-- No completion of a poll is visited. -/
def NoPoll (log : List BotEvent) : Prop := (visitedIn log).countP (fun cqe => isPoll cqe.op) = 0

theorem processCqe_of_not_poll (bot : TgBotCtx) {cqe : GwRingCqe} (h : isPoll cqe.op = false) : bot.processCqe cqe = .processed 0 := by
  unfold processCqe
  exact if_neg (fun hop => absurd (h.symm.trans (beq_iff_eq.2 hop)) nofun)

/-- A thread that calls `gw_ring_wait_cqe`, or goes on in it, has not seen all there is. -/
theorem waitsLeft_of_waitCqe {cq : Cq Poster} {r : Cq Poster × List (CqEvent Poster)} (h : cq.waitCqe = some r) :
    1 ≤ cq.reader.waitsLeft + cq.reader.woken := by
  unfold Cq.waitCqe at h
  split at h
  · nomatch h
  · split at h
    · rename_i hr
      rw [hr]
      exact Nat.le_refl 1
    · rename_i hr
      rw [hr]
      exact Nat.le_refl 1
    · rename_i hr
      rw [hr]
      exact Nat.le_refl 1
    · nomatch h

section Call

variable {ring' : GwRing} {e : List RingEvent}

/-- `gw_ring_wait_cqe` returns. -/
theorem stepsLeft_waited {ret : Int} {slot : Option Nat} (hret : ring'.cq.reader = .returned ret slot) (reader : ReaderPc) :
    (if ret < 0 then .returned ret else .forEach ret : MainPc).stepsLeft ring'.cq.reader + ring'.cq.reader.woken + 1 ≤
      MainPc.waiting.stepsLeft reader := by
  rw [hret]
  by_cases hneg : ret < 0
  · rw [if_pos hneg]
    exact Nat.le_trans (Nat.le_of_ble_eq_true rfl) (Nat.le_add_right 4 _)
  · rw [if_neg hneg]
    exact Nat.le_add_right 4 _

/-- It sleeps: then it has been called, or the thread had been woken. -/
theorem stepsLeft_sleeps (hstep : bot.ring.step (.reader .wait) = some (ring', e)) (hasleep : ring'.cq.reader = .sleeping false) :
    MainPc.waiting.stepsLeft ring'.cq.reader + ring'.cq.reader.woken + 1 ≤
      MainPc.waiting.stepsLeft bot.ring.cq.reader + bot.ring.cq.reader.woken := by
  obtain ⟨e', hq, -, -⟩ := GwRing.reader_step hstep
  have hone := waitsLeft_of_waitCqe hq
  rw [hasleep]
  show 4 + 0 + 0 + 1 ≤ 4 + bot.ring.cq.reader.waitsLeft + _
  omega

/-- The body of the walk is come to: nothing is visited before it is. -/
theorem stepsLeft_loadHead (hstep : bot.ring.step (.reader .loadHead) = some (ring', e)) {head n : UInt32}
    (hentry : ring'.cq.reader = .entry head n) (ret : Int) :
    MainPc.entry.stepsLeft ring'.cq.reader + ring'.cq.reader.woken + 1 ≤ (MainPc.walking ret).stepsLeft bot.ring.cq.reader := by
  obtain ⟨head', n', hwalking, hloaded | hloaded⟩ := GwRing.reader_loadHead hstep
  · rw [hwalking, hloaded]
    show (if n'.toNat = 0 then 1 else 11) + 0 + 1 ≤ if n'.toNat = 0 then 2 else 12
    by_cases hz : n'.toNat = 0
    · rw [if_pos hz, if_pos hz]
    · rw [if_neg hz, if_neg hz]
  · nomatch hentry.symm.trans hloaded

/-- A walk that has visited something ends. -/
theorem stepsLeft_loadEnd (hstep : bot.ring.step (.reader .loadHead) = some (ring', e))
    (hend : ∀ head n, ring'.cq.reader ≠ .entry head n) {ret : Int} (hno : (MainPc.walking ret).startsWalk bot.ring.cq.reader = false) :
    (MainPc.advance ret).stepsLeft ring'.cq.reader + ring'.cq.reader.woken + 1 ≤ (MainPc.walking ret).stepsLeft bot.ring.cq.reader := by
  have hne : bot.ring.cq.reader.nrVisited ≠ 0 := beq_eq_false_iff_ne.1 hno
  obtain ⟨head, n, -, hloaded⟩ := GwRing.reader_loadHead hstep
  rw [hloaded.resolve_left (hend head n)]
  simp only [MainPc.stepsLeft, ReaderPc.woken, if_neg hne]
  omega

/-- A completion is visited that is not that of a poll. -/
theorem stepsLeft_visit {cqe : GwRingCqe} (hpoll : isPoll cqe.op = false) (hstep : bot.ring.step (.reader .visit) = some (ring', e)) :
    (bot.processCqe cqe).stepsLeft ring'.cq.reader + ring'.cq.reader.woken + 1 ≤ MainPc.entry.stepsLeft bot.ring.cq.reader + 14 := by
  obtain ⟨head, n, -, hbody⟩ := GwRing.reader_visit hstep
  rw [processCqe_of_not_poll bot hpoll, hbody]
  simp only [MainPc.stepsLeft, ReaderPc.woken]
  split <;> omega

/-- The walk goes on, or it ends. -/
theorem stepsLeft_next {ret : Int} (hstep : bot.ring.step (.reader (.next (ret ≠ 0))) = some (ring', e)) (reader : ReaderPc) :
    (if ret ≠ 0 then .advance ret else .walking ret : MainPc).stepsLeft ring'.cq.reader + ring'.cq.reader.woken + 1 ≤
      (MainPc.processed ret).stepsLeft reader := by
  obtain ⟨head, n, -, hreader⟩ := GwRing.reader_next hstep
  have hwoken : ring'.cq.reader.woken = 0 := by
    rw [hreader]
    split <;> rfl
  rw [hwoken]
  split
  · exact Nat.le_of_ble_eq_true rfl
  · simp only [MainPc.stepsLeft]
    split <;> omega

/-- Each call of the main thread into the ring leaves less. -/
theorem toGo_call (h0 : Started bot₀ max) (hr : machine.Run C bot₀ bot log) {b : GwRing.Act} {pc : MainPc}
    (hcall : bot.MainCall ring' b e pc) (hstep : bot.ring.step b = some (ring', e))
    (hs : bot.step .main = some ({ bot with ring := ring', pc := pc }, e.map .ring)) (hno : NoPoll (e.map .ring)) :
    ring'.toGo + pc.stepsLeft ring'.cq.reader + 1 ≤ bot.toGo := by
  have hrun := ring_run hr
  have hsq := (Inv.of_run h0 hr).sq
  have hcq := GwRing.cqInv_of_run (fun _ _ hc => hc.2) h0.ring hrun
  have hread : ∀ {c : Cq.Act Poster}, b = .reader c → pc.stepsLeft ring'.cq.reader + ring'.cq.reader.woken + 1 ≤
      bot.pc.stepsLeft bot.ring.cq.reader + bot.ring.cq.reader.woken + 14 * (visitedOf (cqLog e)).length →
      ring'.toGo + pc.stepsLeft ring'.cq.reader + 1 ≤ bot.toGo := by
    rintro c rfl hle
    have := GwRing.toGo_reader h0.ring hrun hsq hcall.serving.1 hstep
    unfold toGo
    omega
  have hquiet : ∀ {c : Cq.Act Poster}, b = .reader c → pc.stepsLeft ring'.cq.reader + ring'.cq.reader.woken + 1 ≤
      bot.pc.stepsLeft bot.ring.cq.reader → ring'.toGo + pc.stepsLeft ring'.cq.reader + 1 ≤ bot.toGo :=
    fun hb hle => hread hb (Nat.le_trans hle (by omega))
  cases hcall with
  | submitFull _ hat | submit _ hat =>
    have := GwRing.toGo_submit hsq hstep
    unfold toGo
    rw [hat]
    simp only [MainPc.stepsLeft]
    omega
  | waited _ hat hret => exact hquiet rfl (hat ▸ stepsLeft_waited hret _)
  | sleeps _ hat =>
    have hasleep : ring'.cq.reader = _ := sleeping_of_waiting (Retries.of_run h0 hr).running hat hs rfl
    exact hread rfl (Nat.le_trans (hat ▸ stepsLeft_sleeps hstep hasleep) (Nat.le_add_right _ _))
  | forEach _ hat =>
    obtain ⟨head, hreader⟩ := GwRing.reader_forEach hstep
    refine hquiet rfl ?_
    rw [hreader, hat]
    exact Nat.le_refl 3
  | loadHead _ hat =>
    obtain ⟨head, n, hentry⟩ := reader_of_entry hat hs rfl
    exact hquiet rfl (hat ▸ stepsLeft_loadHead hstep hentry _)
  | @loadEnd ret _ hat hend =>
    obtain ⟨e', hq, -, -⟩ := GwRing.reader_step hstep
    have hvisited := not_startsWalk_of_loadEnd hcq hq hend ret (fun hstart => (Walks.of_run h0 hr).starts (by rw [hat]; exact hstart))
    exact hquiet rfl (hat ▸ stepsLeft_loadEnd hstep hend hvisited)
  | visit cqe hat =>
    have hpoll : isPoll cqe.op = false := by
      rw [← Bool.not_eq_true]
      intro hp
      have hone : (visitedIn ([RingEvent.cq (.visited cqe)].map .ring)).countP (fun cqe => isPoll cqe.op) = 1 :=
        List.countP_cons_of_pos hp
      exact absurd (hone.symm.trans hno) nofun
    have hone : (visitedOf (cqLog [RingEvent.cq (.visited cqe)])).length = 1 := rfl
    refine hread rfl (Nat.le_trans (stepsLeft_visit hpoll hstep) ?_)
    rw [hone, hat]
    omega
  | next _ hat => exact hquiet rfl (hat ▸ stepsLeft_next hstep _)
  | advance _ hat =>
    refine hquiet rfl ?_
    rw [GwRing.reader_advance hstep, hat]
    split <;> exact Nat.le_of_ble_eq_true rfl

end Call

/-- What happens inside the ring leaves less, unless it is a wake without a notification. -/
theorem toGo_inner (h0 : Started bot₀ max) (hr : machine.Run C bot₀ bot log) {b : GwRing.Act} {ring' : GwRing} {e : List RingEvent}
    (hb : b.isService = true ∨ b.isSpurious = true) (hs : bot.ring.step b = some (ring', e)) :
    ring'.toGo + bot.pc.stepsLeft ring'.cq.reader + 1 ≤ bot.toGo + if b.isSpurious then 3 else 0 := by
  have hserv := (serving_of_service bot.ring hb).1
  have hsq := (Inv.of_run h0 hr).sq
  have hpc : bot.pc.stepsLeft ring'.cq.reader = bot.pc.stepsLeft bot.ring.cq.reader := by
    rcases reader_of_inner h0 hr hb hs with h | h
    · rw [h]
    · rw [h, MainPc.stepsLeft_wake]
  rw [hpc]
  unfold toGo
  rcases hb with hb | hb
  · have := (GwRing.toGo_service h0.ring (ring_run hr) hsq hserv hs hb).1
    omega
  · have := (GwRing.toGo_spurious h0.ring (ring_run hr) hsq hserv hs hb).1
    rw [if_pos hb]
    omega

/-- Every step in which no completion of a poll is visited leaves less, unless it is a wake without a notification. -/
theorem toGo_step (h0 : Started bot₀ max) (hr : machine.Run C bot₀ bot log) (hs : bot.step a = some (bot', ev)) (hno : NoPoll ev) :
    bot'.toGo + 1 ≤ bot.toGo + a.gain := by
  have hsame : ∀ {pc : MainPc}, pc.stepsLeft bot.ring.cq.reader + 1 ≤ bot.pc.stepsLeft bot.ring.cq.reader →
      bot.ring.toGo + pc.stepsLeft bot.ring.cq.reader + 1 ≤ bot.toGo := by
    intro pc hle
    unfold toGo
    omega
  cases step_cases hs with
  | @full prep again hat _ =>
    refine hsame ?_
    rw [hat]
    cases again
    · exact Nat.le_refl _
    · exact Nat.le_trans (Nat.le_add_left 1 _) (Nat.le_refl _)
  | @prepare prep again slot sqe hat hsub hslot _ _ _ =>
    have hfill := GwRing.toGo_fillSqe (Inv.of_run h0 hr).sq hsub hslot sqe
    show (bot.ring.gwRingGetSqe.1.fillSqe slot sqe).toGo + (prepNext prep).stepsLeft _ + 1 ≤ _
    rw [hfill, stepsLeft_prepNext]
    unfold toGo
    rw [hat]
    show _ ≤ bot.ring.toGo + (prep.stepsLeft + submitCost + if again then 1 else 5) + 0
    split <;> omega
  | own ho =>
    cases ho with
    | submittedFull hat _ => exact hsame (by rw [hat]; exact Nat.le_refl _)
    | submitted hat _ =>
      refine hsame ?_
      rw [hat]
      split
      · exact Nat.le_of_ble_eq_true rfl
      · cases bot.ring.cq.reader <;> exact Nat.le_of_ble_eq_true rfl
    | updatesEnd hat => exact hsame (by rw [hat]; exact Nat.le_refl _)
    | @update up rest res hat =>
      refine hsame ?_
      rw [hat]
      show updatesLeft rest.length + submitCost + 5 + 1 ≤ updatesLeft (rest.length + 1)
      unfold updatesLeft
      rw [Nat.mul_succ]
      omega
  | call hcall hstep => exact toGo_call h0 hr hcall hstep hs hno
  | inner hin hstep => exact toGo_inner h0 hr (GwRing.Act.service_or_spurious hin) hstep
  | exec hstep => exact toGo_inner h0 hr (Or.inl rfl) hstep

/-- From any state that the bot reaches, no more steps than the measure says are taken before the completion of a poll is visited, and three
for each wake without a notification. -/
theorem length_le_toGo (h0 : Started bot₀ max) (h : machine.Run C bot₀ bot log) {as : List Act} (he : machine.exec bot as = some (bot', ev))
    (hno : NoPoll ev) : as.length + bot'.toGo ≤ bot.toGo + 3 * as.countP Act.isSpurious := by
  have hsplit : ∀ l l' : List BotEvent, NoPoll (l ++ l') → NoPoll l ∧ NoPoll l' := by
    intro l l' hl
    unfold NoPoll at hl
    rw [visitedIn_append, List.countP_append] at hl
    exact Nat.add_eq_zero_iff.1 hl
  have hgain : ∀ as : List Act, (as.map Act.gain).sum = 3 * as.countP Act.isSpurious := by
    intro as
    induction as with
    | nil => rfl
    | cons a as ih =>
      rw [List.map_cons, List.sum_cons, ih, List.countP_cons, Act.gain]
      split <;> omega
  rw [← hgain]
  refine (Machine.exec_length_le (I := fun bot => ∃ log, machine.Reach bot₀ bot log) hsplit ?_ ⟨log, h.reach⟩ he hno).1
  rintro s a s' e ⟨l, hl⟩ hs hq
  exact ⟨⟨_, hl.step a trivial hs⟩, toGo_step h0 hl hs hq⟩

/-- A bound on what is left where `run_tg_bot` is about to call `run_tg_bot_loop`: the submission queue, the works pending, the workers and
the completion queue may be full. -/
def maxToGo : Nat := submitCost * 8192 + 2 * (19 * (4096 + 1024) + 14 * 1024 + 2) + 14 * maxDue + 9

theorem toGo_le (h0 : Started bot₀ 8192) (h : machine.Run C bot₀ bot log) (hpc : bot.pc = .loop) : bot.toGo ≤ maxToGo := by
  have hrun := ring_run h
  have hinv := Inv.of_run h0 h
  have hk := GwRing.Known.of_run h0.ring hrun
  have hsub := hinv.submit (by rw [hpc]; rfl)
  have hidle := (Walks.of_run h0 h).eq_idle (by rw [hpc]; rfl)
  have hwindow : bot.ring.sqWindow.length ≤ 8192 := by
    calc bot.ring.sqWindow.length
        = occupancy bot.ring.sqFront bot.ring.sqTail := window_length _ _ _ _
      _ ≤ bot.ring.sqMask.toNat + 1 := hinv.sq.window_le
      _ = 8192 := by rw [(GwRing.masks_of_run h0.ring hrun).1]; rfl
  have hattr := WorkqueueStruct.attr_of_run (GwRing.wq_run hrun)
  have hpending : bot.ring.wq.pendingWorks.length ≤ 4096 := by
    calc bot.ring.wq.pendingWorks.length
        = occupancy bot.ring.wq.head bot.ring.wq.tail := window_length _ _ _ _
      _ ≤ bot.ring.wq.attr.maxPendingWorks.toNat := hk.wq.occupancy_le
      _ = 4096 := by rw [hattr, h0.ring.attr.2.2]; rfl
  have hworkers : bot.ring.wq.workers.length = 1024 := by
    rw [hk.wq.length, hattr, h0.ring.attr.1]
    rfl
  have hexecs : bot.ring.execs.length = 1024 := by
    have hlink := congrArg List.length hk.inv.link
    rw [List.length_map, List.length_map] at hlink
    exact (hlink.trans (List.length_map _)).trans hworkers
  have hunvisited : bot.ring.cq.nrUnvisited ≤ maxDue := by
    have hroom := Room.of_run h0 h
    rw [hpc] at hroom
    change bot.ring.load ≤ maxDue at hroom
    have hdue : bot.ring.cq.nrUnvisited ≤ bot.ring.due (fun _ => true) := by
      rw [← Cq.Inv.unvisited_length, ← List.countP_true]
      exact Nat.le_add_left _ _
    unfold GwRing.load at hroom
    omega
  have hleft := GwRing.stepsLeft_le 8 bot.ring
  rw [hworkers, hexecs] at hleft
  unfold toGo GwRing.toGo GwRing.workLeft
  rw [hpc, hidle, hsub]
  show submitCost * _ + (0 + 2 * _) + _ + 0 + 9 ≤ submitCost * 8192 + _ + _ + 9
  have hcost := Nat.mul_le_mul_left submitCost hwindow
  omega

/-! ## Nobody waits for ever -/

/-- `cq_tail` has not wrapped past `cq_head` where `gw_ring_wait_cqe` looks, and a worker does not leave the main thread asleep in
`queue_work`. -/
def WakesMain (bot : TgBotCtx) : Act → Prop
  | .main => bot.pc = .waiting → bot.ring.cq.cqHead ≤ bot.ring.cq.cqTail
  | .ring b => bot.ring.WakesSubmitter b
  | .exec _ _ _ => True

instance (bot : TgBotCtx) (a : Act) : Decidable (bot.WakesMain a) :=
  match a with
  | .main => inferInstanceAs (Decidable (bot.pc = .waiting → bot.ring.cq.cqHead ≤ bot.ring.cq.cqTail))
  | .ring b => inferInstanceAs (Decidable (bot.ring.WakesSubmitter b))
  | .exec _ _ _ => isTrue trivial

/-- Nor is a poll lost, or does one have a positive result. -/
def GoesOn (bot : TgBotCtx) (a : Act) : Prop := PollsGoThrough bot a ∧ bot.AnswersPolls a ∧ bot.WakesMain a

instance (bot : TgBotCtx) (a : Act) : Decidable (bot.GoesOn a) := inferInstanceAs (Decidable (_ ∧ _ ∧ _))

/-- What keeps the bot going. -/
structure Lively (bot : TgBotCtx) : Prop where
  awaits : GwRing.ReaderAwaits bot.ring.cq
  going : GwRing.Going bot.ring

namespace Lively

/-- A step of the ring keeps it. -/
theorem ring_step (h0 : Started bot₀ 8192) (hr : machine.Run C bot₀ bot log) (h : Lively bot) {b : GwRing.Act} {bot₁ : TgBotCtx}
    {e : List RingEvent} (hs : bot.ring.step b = some (bot₁.ring, e)) (hserv : GwRing.Serving bot.ring b)
    (hwait : b = .reader .wait → bot.ring.cq.cqHead ≤ bot.ring.cq.cqTail) (hwakes : bot.ring.WakesSubmitter b)
    (hdestroy : ∀ ks, b ≠ .destroyWq ks) : Lively bot₁ := by
  have hrun := ring_run hr
  have hcq := GwRing.cqInv_of_run (fun _ _ hc => hc.2) h0.ring hrun
  have hcase := (GwRing.step_cases hs).2
  have hcount : bot.ring.cq.nrUnconsumed < 2 ^ 31 := by
    have hle := hcq.nrUnconsumed_le
    rw [Cq.cap, (GwRing.masks_of_run h0.ring hrun).2] at hle
    exact Nat.lt_of_le_of_lt hle (by decide)
  exact ⟨hcase.readerAwaits h.awaits hcq (fun hb => ⟨hwait hb, hcount⟩) hserv.2,
    h.going.step (GwRing.Known.of_run h0.ring hrun).wq hcase hwakes hdestroy⟩

theorem step (h0 : Started bot₀ 8192) (hr : machine.Run C bot₀ bot log) (h : Lively bot) (hc : bot.WakesMain a)
    (hs : bot.step a = some (bot', ev)) : Lively bot' := by
  cases step_cases hs with
  | full _ _ | own _ => exact ⟨h.awaits, h.going⟩
  | prepare _ _ _ hget hfill _ =>
    have hmid : Lively { bot with ring := bot.ring.gwRingGetSqe.1 } :=
      h.ring_step h0 hr hget ⟨nofun, nofun⟩ nofun trivial nofun
    exact ⟨hmid.awaits, ⟨hmid.going.notified, hmid.going.unblocked, hmid.going.worker, hmid.going.submitter⟩⟩
  | call hcall hstep =>
    refine h.ring_step h0 hr hstep hcall.serving.1 ?_ ?_ ?_
    · rintro rfl
      cases hcall with
      | waited _ hat _ | sleeps _ hat => exact hc hat
    · cases hcall <;> trivial
    · rintro ks rfl
      cases hcall
  | @inner b ring' e hin hstep =>
    refine h.ring_step h0 hr hstep (serving_of_isInner bot.ring hin).1 ?_ hc ?_
    · rintro rfl
      nomatch hin
    · rintro ks rfl
      nomatch hin
  | exec hstep => exact h.ring_step h0 hr hstep ⟨nofun, nofun⟩ nofun trivial nofun

theorem of_run (h0 : Started bot₀ 8192) (h : machine.Run WakesMain bot₀ bot log) : Lively bot := by
  refine h.stateInv ⟨?_, h0.ring.going⟩ (fun _ _ _ _ _ hr hi hc hs => hi.step h0 hr hc hs)
  rw [h0.ring.cq]
  exact nofun

end Lively

/-- A step inside the ring, or of a worker, that can be taken is one that the bot can take. -/
theorem exists_of_service {b : GwRing.Act} (hb : b.isService = true) (hs : bot.ring.step b ≠ none) :
    ∃ a : Act, a.isSpurious = false ∧ bot.step a ≠ none := by
  have hring : b.isInner = true → b.isSpurious = false → ∃ a : Act, a.isSpurious = false ∧ bot.step a ≠ none := by
    intro hin hno
    refine ⟨.ring b, hno, ?_⟩
    simp only [step, if_pos hin, ringStep, ne_eq, Option.map_eq_none_iff]
    exact hs
  cases b with
  | exec k res =>
    refine ⟨.exec k res [], rfl, ?_⟩
    simp only [step, ne_eq, Option.map_eq_none_iff]
    exact hs
  | submitNext _ | queuer _ _ | postStart _ | postStore | postPublish | worker _ _ | run _ => exact hring rfl rfl
  | _ => cases hb

/-- So does a worker that is awake. -/
theorem exists_of_awake (h0 : Started bot₀ max) (h : machine.Run C bot₀ bot log)
    (hawake : ∃ t ∈ bot.ring.wq.workers, t.pc.isAwake = true) : ∃ a : Act, a.isSpurious = false ∧ bot.step a ≠ none := by
  have hrun := ring_run h
  have hk := GwRing.Known.of_run h0.ring hrun
  have hd : bot.ring.wq.destroyer ≠ .done := by
    rw [(GwRing.idle_of_run (fun _ _ hc => hc.1) h0.ring hrun).1]
    nofun
  obtain ⟨t, ht, hta⟩ := hawake
  obtain ⟨k, hkt⟩ := List.mem_iff_getElem?.1 ht
  obtain ⟨b, hb, hs⟩ := GwRing.exists_step_of_awake hd hk.inv (GwRing.PostersHoldLock.of_run h0.ring hrun) hk.held hkt hta
  refine exists_of_service ?_ hs
  cases b with
  | worker _ _ | run _ | exec _ _ | postStore | postPublish => rfl
  | postStart th => rfl
  | _ => nomatch hb

/-- While the main thread sleeps in `gw_ring_wait_cqe` a worker is awake: it has submitted the poll, and not visited it. -/
theorem awake_of_asleep (h0 : Started bot₀ 8192) (h : machine.Run GoesOn bot₀ bot log) (hpc : bot.pc = .waiting)
    (hsub : bot.ring.submit = none) (hasleep : bot.ring.cq.reader = .sleeping false) :
    ∃ t ∈ bot.ring.wq.workers, t.pc.isAwake = true := by
  have hrun := ring_run h
  by_contra hno
  have hquiet : ∀ t ∈ bot.ring.wq.workers, t.pc.isAwake = false :=
    fun t ht => Bool.not_eq_true _ ▸ fun hta => hno ⟨t, ht, hta⟩
  obtain ⟨hpending, hheld⟩ := GwRing.view_of_not_awake (p := GwRing.dataOf isPoll) h0.ring hrun hquiet
  have hout : bot.ring.outstanding (GwRing.dataOf isPoll) = 0 := by
    have hexec := GwRing.execCount_le_running (p := GwRing.dataOf isPoll) (GwRing.Known.of_run h0.ring hrun).inv ExecPc.isUnposted
    unfold JobQueue.heldCount at hheld
    unfold GwRing.outstanding
    omega
  have hhand : bot.ring.inHand (GwRing.dataOf isPoll) = 0 := by
    rw [GwRing.inHand, hsub]
    exact Nat.zero_sub _
  have hempty := (Walks.of_run h0 h).submitted (by rw [hpc]; rfl) hsub
  have hlost := lost_isPoll_of_run h0 (h.mono (fun _ _ hc => hc.1))
  have howed : bot.pc.nrOwed = 0 := by rw [hpc]; rfl
  have hpolls := polls_eq h0 h
  rw [hlost, howed, GwRing.due, hempty, hhand, hout] at hpolls
  -- The poll is in the completion queue, which is empty.
  have hsome : bot.ring.cq.unvisited.length ≠ 0 := by
    intro hz
    rw [List.length_eq_zero_iff.1 hz] at hpolls
    exact absurd hpolls (by simp)
  obtain ⟨-, heq, -⟩ := (Lively.of_run h0 (h.mono (fun _ _ hc => hc.2.2))).awaits (by rw [hasleep]; rfl)
  refine hsome ?_
  rw [Cq.Inv.unvisited_length, Cq.nrUnvisited, Cq.nrUnconsumed, occupancy_eq_zero_iff.2 heq]
  exact Nat.zero_sub _

/-- The main thread goes on when its call into the ring can. -/
theorem ringStep_ne_none {b : GwRing.Act} (pc : GwRing → MainPc) (h : bot.ring.step b ≠ none) : bot.ringStep b pc ≠ none := by
  simp only [ringStep, ne_eq, Option.map_eq_none_iff]
  exact h

/-- A call of the consumer that its completion queue lets through. -/
theorem reader_ne_none {b : Cq.Act Poster} (hd : bot.ring.wq.destroyer ≠ .done) (hb : b.isReader = true) (h : bot.ring.cq.step b ≠ none) :
    bot.ring.step (.reader b) ≠ none := by
  simp only [GwRing.step, if_neg hd, if_pos hb, ne_eq, Option.map_eq_none_iff]
  exact h

/-- Outside of `gw_ring_submit` and of `gw_ring_wait_cqe` the main thread can go on. -/
theorem main_ne_none (hd : bot.ring.wq.destroyer ≠ .done) (hsub : bot.ring.submit = none) (hwalks : Walks bot)
    (hreturned : ∀ ret, bot.pc ≠ .returned ret) (hcrashed : bot.pc ≠ .crashed) (hwaiting : bot.pc ≠ .waiting) :
    bot.step .main ≠ none := by
  have hcall : ∀ {b : GwRing.Act}, b = .getSqe ∨ b = .submit ∨ (∃ slot sqe, b = .fill slot sqe) → bot.ring.step b ≠ none := by
    rintro b (rfl | rfl | ⟨slot, sqe, rfl⟩) <;> simp [GwRing.step, hd, hsub]
  simp only [step, mainStep]
  cases hpc : bot.pc with
  | getSqe prep again =>
    simp only [getSqe]
    cases hslot : bot.ring.gwRingGetSqe.2 with
    | none => exact ringStep_ne_none _ (hcall (Or.inl rfl))
    | some slot =>
      have hget : bot.ring.step .getSqe = some (bot.ring.gwRingGetSqe.1, []) := by simp [GwRing.step, hd, hsub]
      have hkept : bot.ring.gwRingGetSqe.1.wq.destroyer ≠ .done ∧ bot.ring.gwRingGetSqe.1.submit = none := by
        unfold GwRing.gwRingGetSqe
        split <;> exact ⟨hd, hsub⟩
      simp only [hget]
      simp [GwRing.step, hkept.1, hkept.2]
  | submitFull prep => exact ringStep_ne_none _ (hcall (Or.inr (Or.inl rfl)))
  | loop => exact ringStep_ne_none _ (hcall (Or.inr (Or.inl rfl)))
  | inSubmitFull prep | inSubmit => simp [hsub]
  | waiting => exact absurd hpc hwaiting
  | forEach ret =>
    obtain ⟨ret', slot, hr⟩ := hwalks.eq_returned (by rw [hpc]; rfl)
    exact ringStep_ne_none _ (reader_ne_none hd rfl (by simp [Cq.step, Cq.forEachCqe, hr]))
  | walking ret =>
    obtain ⟨head, n, hr⟩ := hwalks.eq_walking (by rw [hpc]; rfl)
    refine ringStep_ne_none _ (reader_ne_none hd rfl ?_)
    simp only [Cq.step, Cq.loadHeadCqe, hr]
    split <;> simp
  | entry =>
    obtain ⟨head, n, hr⟩ := hwalks.eq_entry (by rw [hpc]; rfl)
    simp [visit, GwRing.step, hd, Cq.Act.isReader, Cq.step, Cq.visitCqe, hr]
  | updates rest res => cases rest <;> simp
  | processed ret =>
    obtain ⟨head, n, hr, -⟩ := hwalks.eq_body (by rw [hpc]; rfl)
    exact ringStep_ne_none _ (reader_ne_none hd rfl (by simp [Cq.step, Cq.nextCqe, hr]))
  | advance ret =>
    obtain ⟨n, hr⟩ := hwalks.eq_advancing (by rw [hpc]; rfl)
    exact ringStep_ne_none _ (reader_ne_none hd rfl (by simp [Cq.step, Cq.advance, hr]))
  | returned ret => exact absurd hpc (hreturned ret)
  | crashed => exact absurd hpc hcrashed

/-- There is a step to take that is not a wake without a notification. -/
theorem exists_step (h0 : Started bot₀ 8192) (h : machine.Run GoesOn bot₀ bot log) : ∃ a : Act, a.isSpurious = false ∧ bot.step a ≠ none := by
  have hrun := ring_run h
  have hk := GwRing.Known.of_run h0.ring hrun
  have hd : bot.ring.wq.destroyer ≠ .done := by
    rw [(GwRing.idle_of_run (fun _ _ hc => hc.1) h0.ring hrun).1]
    nofun
  have hwalks := Walks.of_run h0 h
  have hlively := Lively.of_run h0 (h.mono (fun _ _ hc => hc.2.2))
  cases hsub : bot.ring.submit with
  | some s =>
    have hthread : WorkqueueStruct.HasThread bot.ring.wq.workers := by
      refine WorkqueueStruct.HasThread.of_run h0.ring.wq ?_ (GwRing.wq_run hrun)
      rw [h0.ring.attr.2.1]
      decide
    have halive := WorkqueueStruct.Alive.of_run h0.ring.wq (GwRing.wq_run hrun)
    rcases GwRing.exists_step_of_submit hd hlively.going hk halive hthread hsub with ⟨b, hb, hs⟩ | hawake
    · exact exists_of_service hb hs
    · exact exists_of_awake h0 h hawake
  | none =>
    by_cases hpc : bot.pc = .waiting
    · cases hposting : bot.ring.cq.posting with
      | some q =>
        rcases GwRing.exists_post_step hd hk.inv hposting with hs | hs
        · exact exists_of_service (b := .postStore) rfl hs
        · exact exists_of_service (b := .postPublish) rfl hs
      | none =>
        have hwait : bot.ring.cq.waitCqe ≠ none → ∃ a : Act, a.isSpurious = false ∧ bot.step a ≠ none := by
          intro hw
          refine ⟨.main, rfl, ?_⟩
          simp only [step, mainStep, hpc]
          exact ringStep_ne_none _ (reader_ne_none hd rfl hw)
        rcases hwalks.eq_waiting (by rw [hpc]; rfl) with hr | ⟨notified, hr⟩
        · exact hwait (by simp [Cq.waitCqe, hposting, hr])
        · cases notified with
          | true => exact hwait (by simp [Cq.waitCqe, hposting, hr])
          | false => exact exists_of_awake h0 h (awake_of_asleep h0 h hpc hsub hr)
    · have hloops := Loops.of_run h0 (h.mono (fun _ _ hc => hc.2.1))
      exact ⟨.main, rfl, main_ne_none hd hsub hwalks hloops.going (Retries.of_run h0 h).crashed hpc⟩

/-- As long as no poll is lost and nobody misses a notification, wherever the bot has come to there is a step to take, and however the
threads take theirs, the completion of a poll is visited before they have taken more than a bounded number, to which each wake without a
notification adds three; from one call of `run_tg_bot_loop` on the bound is the same each time. -/
theorem poll_comes_back {env : GwRing.InitEnv} {ring₀ : GwRing} (h0 : GwRing.gwRingInit 8192 env = some (.ok ring₀))
    (addr tctxP updatesP : Nat) (h : machine.Run GoesOn (init addr tctxP updatesP ring₀) bot log) :
    (∃ a : Act, a.isSpurious = false ∧ bot.step a ≠ none) ∧
    (∀ as bot' ev, machine.exec bot as = some (bot', ev) → NoPoll ev → as.length ≤ bot.toGo + 3 * as.countP Act.isSpurious) ∧
    (bot.pc = .loop → bot.toGo ≤ maxToGo) := by
  have hstart := started_init h0 addr tctxP updatesP
  refine ⟨exists_step hstart h, fun as bot' ev he hno => ?_, toGo_le hstart h⟩
  exact Nat.le_trans (Nat.le_add_right _ _) (length_le_toGo hstart h he hno)

/-- So it is when the first batch has been handed out and the bot is back in its loop. -/
theorem poll_comes_back_first : ∃ (ring₀ : GwRing) (bot : TgBotCtx) (log : List BotEvent),
    GwRing.gwRingInit 8192 GwRing.InitEnv.ok = some (.ok ring₀) ∧ machine.Run GoesOn (init 1 2 3 ring₀) bot log ∧ bot.pc = .loop ∧
    (visitedIn log).countP (fun cqe => isPoll cqe.op) = 1 ∧ (∃ a : Act, a.isSpurious = false ∧ bot.step a ≠ none) ∧
    ∀ as bot' ev, machine.exec bot as = some (bot', ev) → NoPoll ev → as.length ≤ maxToGo + 3 * as.countP Act.isSpurious := by
  have hrun : ∃ ring₀ : GwRing, GwRing.gwRingInit 8192 GwRing.InitEnv.ok = some (.ok ring₀) ∧
      (machine.execIf GoesOn (init 1 2 3 ring₀) firstBatch).map
        (fun r => (r.1.pc, (visitedIn r.2).countP (fun cqe => isPoll cqe.op))) = some (.loop, 1) := by
    refine ⟨_, rfl, ?_⟩
    set_option maxRecDepth 20000 in decide
  obtain ⟨ring₀, h0, he⟩ := hrun
  obtain ⟨bot, log, h, hval⟩ := Machine.exists_of_exec
    (fun (bot : TgBotCtx) log => (bot.pc, (visitedIn log).countP (fun cqe => isPoll cqe.op))) he
  obtain ⟨hpc, hvisited⟩ := Prod.mk.injEq _ _ _ _ ▸ hval
  obtain ⟨hstep, hbound, hmax⟩ := poll_comes_back h0 1 2 3 h
  exact ⟨ring₀, bot, log, h0, h, hpc, hvisited, hstep, fun as bot' ev he hno =>
    (hbound as bot' ev he hno).trans (Nat.add_le_add_right (hmax hpc) _)⟩

end TgBotCtx

end GwBot

import GwBot.Ring.Defs

/-!
# The bot, as the code has it

`core/main.c` from `run_tg_bot` on: one thread that arms a poll for updates, submits, waits, walks over the completions, and queues a
handler for each update of a batch, over the ring of `GwRing` and its workers. What the world decides is an argument of the step: what
the ring takes, and the updates of a batch.
-/

namespace GwBot

open Lib

/-- An update of a batch: its address, and its `update_id`. -/
structure BatchUpdate where
  addr : Nat
  updateId : UInt64
  deriving DecidableEq, Repr

/-- What the main thread takes an entry for: `arm_update_sqe`, called by `run_tg_bot` or at the end of `process_tg_api_updates`, which
then returns `ret`; or `prep_update_handle` of an update, with the updates that are left and `res` of `process_tg_api_updates`. -/
inductive Prep where
  | poll (ret : Option Int)
  | handle (up : BatchUpdate) (rest : List BatchUpdate) (res : Int)
  deriving DecidableEq, Repr

/-- Where the main thread stands. -/
inductive MainPc where
  /-- Before the first or the second call of `gw_ring_get_sqe` in `arm_update_sqe` or `prep_update_handle`. -/
  | getSqe (prep : Prep) (again : Bool)
  /-- Before, and in, the call of `gw_ring_submit` there. -/
  | submitFull (prep : Prep)
  | inSubmitFull (prep : Prep)
  /-- In the loop of `run_tg_bot`, about to call `run_tg_bot_loop`. -/
  | loop
  /-- In `gw_ring_submit`, then in `gw_ring_wait_cqe`, of `run_tg_bot_loop`. -/
  | inSubmit
  | waiting
  /-- Before `gw_ring_for_each_cqe`; at the test of its loop; and at the start of its body. -/
  | forEach (ret : Int)
  | walking (ret : Int)
  | entry
  /-- In the loop of `process_tg_api_updates`. -/
  | updates (rest : List BatchUpdate) (res : Int)
  /-- `process_cqe` has returned. -/
  | processed (ret : Int)
  /-- Before `gw_ring_cq_advance`. -/
  | advance (ret : Int)
  /-- The loop of `run_tg_bot` has ended. -/
  | returned (ret : Int)
  /-- An entry is filled through a null pointer. -/
  | crashed
  deriving DecidableEq, Repr

/-- `struct tg_bot_ctx` and the threads that use it. `addr`, `tctxP` and `updatesP` are the addresses of the structure and of its
members `tctx` and `updates`. -/
structure TgBotCtx where
  addr : Nat
  tctxP : Nat
  updatesP : Nat
  ring : GwRing
  updates : Option (List BatchUpdate)
  maxUpdateId : Int
  pc : MainPc

/-- What a step of the bot logs: an event of the ring, an entry filled, a reference to an update taken. -/
inductive BotEvent where
  | ring (e : RingEvent)
  | prepared (sqe : GwRingSqe)
  | incRef (up : BatchUpdate)
  deriving DecidableEq, Repr

/-- `gw_ring_prep_tg_get_updates`. -/
def gwRingPrepTgGetUpdates (sqe : GwRingSqe) (ctx updatesP : Nat) (offset : Int) : GwRingSqe :=
  { sqe with op := GW_RING_OP_TG_API_CALL, tgApiCall := ⟨TG_API_GET_UPDATES, ctx, updatesP, offset⟩ }

/-- `gw_ring_prep_tg_module_handle`. -/
def gwRingPrepTgModuleHandle (sqe : GwRingSqe) (ctx update : Nat) : GwRingSqe :=
  { sqe with op := GW_RING_OP_MODULE_HANDLE, tgModuleHandle := ⟨ctx, update⟩ }

/-- A `uint64_t` converted to `int64_t`. -/
def int64OfU64 (x : UInt64) : Int := (x.toNat : Int).bmod (2 ^ 64)

/-- A step of the ring that is not one of its caller's functions: inside `gw_ring_submit`, of a worker, or a wake without a
notification. -/
def GwRing.Act.isInner : GwRing.Act → Bool
  | .submitNext _ | .queuer _ _ | .postStart _ | .postStore | .postPublish | .worker _ _ | .run _ | .spuriousWorker _
  | .spuriousQueuer _ | .reader .spurious => true
  | _ => false

namespace TgBotCtx

variable (bot : TgBotCtx)

/-- The bot when `run_tg_bot` has initialised the modules. -/
def init (addr tctxP updatesP : Nat) (ring : GwRing) : TgBotCtx :=
  { addr := addr, tctxP := tctxP, updatesP := updatesP, ring := ring, updates := none, maxUpdateId := 0
    pc := .getSqe (.poll none) false }

/-- A step of the ring, after which the main thread stands at `pc`. -/
def ringStep (a : GwRing.Act) (pc : GwRing → MainPc) : Option (TgBotCtx × List BotEvent) :=
  (bot.ring.step a).map (fun r => ({ bot with ring := r.1, pc := pc r.1 }, r.2.map .ring))

/-- How `arm_update_sqe` and `prep_update_handle` fill an entry. -/
def prepSqe (sqe : GwRingSqe) : Prep → GwRingSqe
  | .poll _ =>
    { gwRingPrepTgGetUpdates sqe bot.tctxP bot.updatesP (bot.maxUpdateId + 1) with userData := TG_API_GET_UPDATES.toUInt64 }
  | .handle up _ _ => { gwRingPrepTgModuleHandle sqe bot.addr up.addr with userData := 0 }

/-- What `arm_update_sqe` and `prep_update_handle` leave in `ctx->updates`. -/
def prepUpdates : Prep → Option (List BatchUpdate)
  | .poll _ => none
  | .handle _ _ _ => bot.updates

/-- Where `arm_update_sqe` and `prep_update_handle` return to. -/
def prepNext : Prep → MainPc
  | .poll none => .loop
  | .poll (some ret) => .processed ret
  | .handle _ rest res => .updates rest res

/-- `gw_ring_get_sqe`, and what `arm_update_sqe` and `prep_update_handle` do with the entry, which is the main thread's own until it is
submitted. -/
def getSqe (prep : Prep) (again : Bool) : Option (TgBotCtx × List BotEvent) :=
  match bot.ring.gwRingGetSqe.2 with
  | none => bot.ringStep .getSqe (fun _ => if again then .crashed else .submitFull prep)
  | some slot =>
    match bot.ring.step .getSqe with
    | none => none
    | some (ring, ev) =>
      let sqe := bot.prepSqe (ring.sqes slot) prep
      (ring.step (.fill slot sqe)).map (fun r =>
        ({ bot with ring := r.1, updates := bot.prepUpdates prep, pc := prepNext prep },
          ev.map .ring ++ r.2.map .ring ++ [.prepared sqe]))

/-- `process_tg_api_updates` up to its loop, or to `out`. -/
def processTgApiUpdates (res : Int) : MainPc :=
  if res < 0 then .getSqe (.poll (some 0)) false
  else
    match bot.updates with
    | none => .getSqe (.poll (some res)) false
    | some updates => .updates updates res

/-- `process_cqe` and `process_tg_api_cqe`. -/
def processCqe (cqe : GwRingCqe) : MainPc :=
  if cqe.op = GW_RING_OP_TG_API_CALL then
    if cqe.userData = TG_API_GET_UPDATES.toUInt64 then bot.processTgApiUpdates cqe.res else .processed 0
  else .processed 0

/-- The start of the body of `gw_ring_for_each_cqe`. -/
def visit : Option (TgBotCtx × List BotEvent) :=
  match bot.ring.step (.reader .visit) with
  | some (ring, [.cq (.visited cqe)]) => some ({ bot with ring := ring, pc := bot.processCqe cqe }, [.ring (.cq (.visited cqe))])
  | _ => none

/-- The main thread goes on. -/
def mainStep : Option (TgBotCtx × List BotEvent) :=
  match bot.pc with
  | .getSqe prep again => bot.getSqe prep again
  | .submitFull prep => bot.ringStep .submit (fun _ => .inSubmitFull prep)
  | .inSubmitFull prep => if bot.ring.submit.isSome then none else some ({ bot with pc := .getSqe prep true }, [])
  | .loop => bot.ringStep .submit (fun _ => .inSubmit)
  | .inSubmit =>
    if bot.ring.submit.isSome then none
    else some ({ bot with pc := if bot.ring.submitRet < 0 then .returned bot.ring.submitRet else .waiting }, [])
  | .waiting =>
    bot.ringStep (.reader .wait) (fun ring =>
      match ring.cq.reader with
      | .returned ret _ => if ret < 0 then .returned ret else .forEach ret
      | _ => .waiting)
  | .forEach ret => bot.ringStep (.reader .forEach) (fun _ => .walking ret)
  | .walking ret =>
    bot.ringStep (.reader .loadHead) (fun ring =>
      match ring.cq.reader with
      | .entry _ _ => .entry
      | _ => .advance ret)
  | .entry => bot.visit
  | .updates [] res => some ({ bot with pc := .getSqe (.poll (some res)) false }, [])
  | .updates (up :: rest) res =>
    some ({ bot with
      maxUpdateId := if int64OfU64 up.updateId > bot.maxUpdateId then int64OfU64 up.updateId else bot.maxUpdateId
      pc := .getSqe (.handle up rest res) false }, [.incRef up])
  | .processed ret =>
    bot.ringStep (.reader (.next (ret ≠ 0))) (fun _ => if ret ≠ 0 then .advance ret else .walking ret)
  | .advance ret => bot.ringStep (.reader .advance) (fun _ => if ret ≠ 0 then .returned ret else .loop)
  | .returned _ => none
  | .crashed => none

/-- `ctx->updates` after a step of worker `k` in `gw_ring_wq_sqe_exec`: `tgapi_call_get_updates` stores a batch when it returns 0. -/
def updatesAfter (k : Nat) (res : Int) (batch : List BatchUpdate) : Option (List BatchUpdate) :=
  match bot.ring.execs[k]? with
  | some (some ⟨data, .handling⟩) => if data.sqe.op = GW_RING_OP_TG_API_CALL ∧ res = 0 then some batch else bot.updates
  | _ => bot.updates

/-- The steps of the bot. -/
inductive Act where
  /-- The main thread goes on. -/
  | main
  /-- A step inside the ring. -/
  | ring (a : GwRing.Act)
  /-- Worker `k` goes on in `gw_ring_wq_sqe_exec`; `res` and `batch` are what its handler returns and stores, if it returns. -/
  | exec (k : Nat) (res : Int) (batch : List BatchUpdate)
  deriving DecidableEq, Repr

/-- A step of the bot. -/
def step (bot : TgBotCtx) : Act → Option (TgBotCtx × List BotEvent)
  | .main => bot.mainStep
  | .ring a => if a.isInner then bot.ringStep a (fun _ => bot.pc) else none
  | .exec k res batch =>
    (bot.ring.step (.exec k res)).map (fun r => ({ bot with ring := r.1, updates := bot.updatesAfter k res batch }, r.2.map .ring))

/-- The bot as a machine. -/
def machine : Machine TgBotCtx Act BotEvent := ⟨step⟩

end TgBotCtx

end GwBot

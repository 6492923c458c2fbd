import GwBot.Bot.Stored
import GwBot.TgApi.Outcome

/-!
# The bot with its memory

The bot of `TgBotCtx`, with the containers that its workers store: what `tgapi_call_get_updates` makes of a response is computed here by
the parser, and each `tgapi_inc_ref_update` and `tgapi_free_update` that the bot calls is carried out. What the world decides is what
curl and json-c come to, and which allocations succeed. Blocks that hold no updates are left out.
-/

namespace GwBot

open Lib

/-- A `struct tg_updates` that was stored in `ctx->updates`: its block, the address of its first entry, and how many it has. -/
structure Container where
  addr : Nat
  entry : Nat
  len : Nat
  deriving DecidableEq, Repr

/-- The address is that of an entry of the container. -/
def Container.hasEntry (c : Container) (up : Nat) : Bool := decide (c.entry ≤ up ∧ up < c.entry + c.len)

/-- The entry is a `GW_RING_OP_MODULE_HANDLE` of an update of the container. -/
def Container.isHandler (c : Container) (sqe : GwRingSqe) : Bool :=
  sqe.op == GW_RING_OP_MODULE_HANDLE && c.hasEntry sqe.tgModuleHandle.update

/-- The bot and its memory: the updates by address, the first address that no update has had, and the containers that were stored, the
last one first. -/
structure TgBotMem where
  bot : TgBotCtx
  mem : Mem
  entries : Nat → TgUpdate
  nextEntry : Nat
  containers : List Container

namespace TgBotMem

/-- The bot before its first poll, with nothing allocated. -/
def init (bot : TgBotCtx) : TgBotMem :=
  { bot := bot, mem := .empty, entries := fun _ => .zero, nextEntry := 0, containers := [] }

/-- What an event does to the updates. -/
def effect (s : TgBotMem) : BotEvent → TgBotMem
  | .incRef up => { s with mem := tgapiIncRefUpdate (s.entries up.addr) s.mem }
  | .ring (.sqe ⟨.freeUpdate, data, _⟩) =>
    let up := data.sqe.tgModuleHandle.update
    let r := tgapiFreeUpdate (s.entries up) s.mem
    { s with mem := r.1, entries := writeSlot s.entries up r.2 }
  | _ => s

/-- A step of the bot, and what its events do. -/
def botStep (s : TgBotMem) (a : TgBotCtx.Act) : Option (TgBotMem × List BotEvent) :=
  (s.bot.step a).map (fun r => (r.2.foldl effect { s with bot := r.1 }, r.2))

/-- Worker `k` is in `tgapi_call_get_updates`. -/
def isPolling (s : TgBotMem) (k : Nat) : Bool :=
  match s.bot.ring.execs[k]? with
  | some (some ⟨data, .handling⟩) => data.sqe.op == GW_RING_OP_TG_API_CALL
  | _ => false

/-- The updates of a container, as the main thread finds them. -/
def batchOf (entry : Nat) (updates : TgUpdates) : List BatchUpdate :=
  (List.range updates.len).map (fun i => ⟨entry + i, (updates.updates.getD i .zero).updateId⟩)

/-- A container is stored. -/
def store (s : TgBotMem) (updates : TgUpdates) : TgBotMem :=
  { s with
    entries := fun up =>
      if s.nextEntry ≤ up ∧ up < s.nextEntry + updates.len then updates.updates.getD (up - s.nextEntry) .zero else s.entries up
    nextEntry := s.nextEntry + updates.len
    containers := ⟨updates.addr, s.nextEntry, updates.len⟩ :: s.containers }

/-- `tgapi_call_get_updates` has returned to worker `k`. Of a container that the parse has freed, what the main thread then reads is not
known: here it is what the parse had written, and what is said of the main thread is said of runs whose containers are live. -/
def pollReturned (s : TgBotMem) (k : Nat) (stored : Option TgUpdates) (ret : Int) : Option (TgBotMem × List BotEvent) :=
  match stored with
  | none => s.botStep (.exec k ret [])
  | some updates => (s.store updates).botStep (.exec k ret (batchOf s.nextEntry updates))

/-- The steps: one of the bot in which no `tgapi_call_get_updates` returns, or its return to worker `k`, with the tokener `i`. -/
inductive Act (ι : Type) where
  | bot (a : TgBotCtx.Act)
  | getUpdates (k : Nat) (i : ι) (env : ParseEnv) (curl : CurlHttpGet)

variable {ι : Type} (J : JsonC) (toks : ι → JsonTokener)

/-- A step of the bot with its memory. -/
def step (s : TgBotMem) : Act ι → Option (TgBotMem × List BotEvent)
  | .bot (.exec k res batch) => if s.isPolling k then none else s.botStep (.exec k res batch)
  | .bot a => s.botStep a
  | .getUpdates k i env curl =>
    if s.isPolling k then
      match tgapiCallGetUpdates J (toks i) env s.mem curl with
      | none => none
      | some (mem, stored, ret) => pollReturned { s with mem := mem } k stored ret
    else none

/-- The bot with its memory as a machine. -/
def machine : Machine TgBotMem (Act ι) BotEvent := ⟨step J toks⟩

/-! ## Containers -/

variable (s : TgBotMem)

/-- The container that `ctx->updates` points to. -/
def current : Option Container :=
  match s.bot.updates with
  | some _ => s.containers.head?
  | none => none

/-- The handlers of the updates of the container that were prepared, and whose works have not been deleted. -/
def nrHandlers (c : Container) : Nat :=
  s.bot.undeleted c.isHandler

end TgBotMem

end GwBot

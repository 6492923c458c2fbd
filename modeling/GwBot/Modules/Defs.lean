import GwBot.TgApi.Defs

/-!
# The modules

A module is a set of hooks, each of which may be missing; the build makes the table of them from the modules that are switched on.
What the hooks do is given by what they return, and what is kept of a run is which hook was called of which module of the table.
-/

namespace GwBot

/-- `struct gw_bot_module`. The hooks are function pointers; `none` is the null pointer. -/
structure GwBotModule (Hook : Type) where
  name : String
  listenUpdateTypes : UInt64
  init : Option Hook
  handle : Option Hook
  shutdown : Option Hook

/-- What happens as the hooks are called: a hook of a module is called, by the module's index, and returns; or what is called is a null
pointer, where the program ends; or a line is written to `stderr`. -/
inductive HookEvent where
  | init (i : Nat) (ret : Int)
  | handle (i : Nat) (ret : Int)
  | shutdown (i : Nat)
  | absent (i : Nat)
  | stderr (text : String)
  deriving DecidableEq, Repr

/-- An update's type as a bit of `listen_update_types`. -/
def TgUpdateType.bits : TgUpdateType → UInt64
  | .unknown => 0
  | .message => 1

variable {Hook : Type}

/-- The loop of `gw_init_modules`, from a module on: `initRet` is what the init hook of the module with an index returns. -/
def initModules (allowFail : Bool) (initRet : Nat → Int) : List (GwBotModule Hook × Nat) → List HookEvent × Int
  | [] => ([], 0)
  | (mod, i) :: rest =>
    match mod.init with
    | none => initModules allowFail initRet rest
    | some _ =>
      if initRet i ≠ 0 ∧ allowFail = false then
        ([.init i (initRet i), .stderr ("Failed to init module " ++ mod.name ++ "\n")], initRet i)
      else (.init i (initRet i) :: (initModules allowFail initRet rest).1, (initModules allowFail initRet rest).2)

/-- `gw_init_modules`. -/
def gwInitModules (allowFail : Bool) (initRet : Nat → Int) (mods : List (GwBotModule Hook)) : List HookEvent × Int :=
  initModules allowFail initRet mods.zipIdx

/-- The loop of `gw_shutdown_modules`, from a module on: the hook is called when it is missing, and only then. -/
def shutdownModules : List (GwBotModule Hook × Nat) → List HookEvent
  | [] => []
  | (mod, i) :: rest =>
    match mod.shutdown with
    | none => [.absent i]
    | some _ => shutdownModules rest

/-- `gw_shutdown_modules`. -/
def gwShutdownModules (mods : List (GwBotModule Hook)) : List HookEvent := shutdownModules mods.zipIdx

/-- The loop of `gw_module_handle`, from a module on: `handleRet` is what the handle hook of the module with an index returns. -/
def handleModules (type : UInt64) (handleRet : Nat → Int) : List (GwBotModule Hook × Nat) → List HookEvent × Int
  | [] => ([], 0)
  | (mod, i) :: rest =>
    match mod.handle with
    | none => handleModules type handleRet rest
    | some _ =>
      if mod.listenUpdateTypes &&& type = 0 then handleModules type handleRet rest
      else if handleRet i ≠ 0 then ([.handle i (handleRet i)], handleRet i)
      else (.handle i (handleRet i) :: (handleModules type handleRet rest).1, (handleModules type handleRet rest).2)

/-- `gw_module_handle`. -/
def gwModuleHandle (up : TgUpdate) (handleRet : Nat → Int) (mods : List (GwBotModule Hook)) : List HookEvent × Int :=
  handleModules up.type.bits handleRet mods.zipIdx

/-- The hooks that `run_tg_bot` calls itself, when its loop comes to an end. `allow_fail` is what it hands to `gw_init_modules`: the
program has it true. -/
def runTgBot (allowFail : Bool) (initRet : Nat → Int) (mods : List (GwBotModule Hook)) : List HookEvent :=
  if (gwInitModules allowFail initRet mods).2 ≠ 0 then (gwInitModules allowFail initRet mods).1
  else (gwInitModules allowFail initRet mods).1 ++ gwShutdownModules mods

/-- `gw_mod_info_ping`, with its hooks by name. -/
def gwModInfoPing : GwBotModule String := ⟨"ping", TgUpdateType.message.bits, some "ping_init", some "ping_handle", some "ping_shutdown"⟩

end GwBot

import GwBot.Errno
import GwBot.Lib.Block
import GwBot.Lib.Machine

/-!
# The curl handles, as the code has it

`lib/curl.c`: the table of all handles that `gw_curl_thread_init` has made, which `gw_curl_global_cleanup` cleans up, and the handle that
each thread keeps for itself. Any number of threads call `gw_curl_thread_init`; a call that does not return at once is a step up to its
`mutex_lock`, with the `curl_easy_init` in it, and the critical section. What libcurl and the allocator return is an argument of the
step. A handle is new when libcurl returns it: it is none of those that are not cleaned up.
-/

namespace GwBot

open Lib

/-- `sizeof(CURL *)`. -/
def sizeofHandle : Nat := 8

/-- `struct curl_handle_list`, of handles `H`. -/
structure CurlHandleList (H : Type) where
  handles : Block H
  allocated : UInt64
  nrHandles : UInt64

/-- `g_gw_curl_data` and the threads that use it. `calls` are the calls of `gw_curl_thread_init` that have made a handle and not got the
lock, and `live` the handles that libcurl has given and not got back. `owners` is not in the code: it is the table with the thread that
each handle was returned to. After a store outside of the block (`undefined`) or the cleanup there is no step. -/
structure CurlData (τ H : Type) where
  data : CurlHandleList H
  currentThreadCurlHandle : τ → Option H
  calls : List (τ × H)
  live : List H
  owners : List (τ × H)
  undefined : Bool
  cleaned : Bool

/-- What a step logs: a call of `gw_curl_thread_init` by a thread, its return with a handle or with `NULL`, and a handle that is cleaned
up by such a call or by `gw_curl_global_cleanup`. -/
inductive CurlEvent (τ H : Type) where
  | called (thread : τ)
  | returned (thread : τ) (handle : H)
  | failed (thread : τ)
  | dropped (handle : H)
  | cleanedUp (handle : H)
  deriving DecidableEq, Repr

namespace CurlData

variable {τ H : Type} [DecidableEq τ] [DecidableEq H]

/-- What the calls made by `gw_curl_global_init` return. -/
structure InitEnv where
  curlGlobalInit : Bool
  malloc : Bool
  mutexInit : Int
  calloc : Bool
  deriving DecidableEq, Repr

/-- `gw_curl_global_init`. -/
def gwCurlGlobalInit (env : InitEnv) : Except Int (CurlData τ H) :=
  if env.curlGlobalInit = false then .error (-ENOMEM)
  else if env.malloc = false then .error (-ENOMEM)
  else if env.mutexInit ≠ 0 then .error env.mutexInit
  else if env.calloc = false then .error (-ENOMEM)
  else
    .ok
      { data := { handles := Block.calloc 1024 sizeofHandle, allocated := 1024, nrHandles := 0 }
        currentThreadCurlHandle := fun _ => none, calls := [], live := [], owners := [], undefined := false, cleaned := false }

/-- `gw_curl_realloc_handles`, with what `realloc` comes to; `none` for `-ENOMEM`. The size that `realloc` is asked for is the new number
of handles. -/
def gwCurlReallocHandles (cd : CurlHandleList H) (realloc : Bool) : Option (CurlHandleList H) :=
  let newAllocated := cd.allocated * 2
  if realloc then some { cd with handles := cd.handles.realloc sizeofHandle newAllocated.toNat, allocated := newAllocated } else none

variable (s : CurlData τ H)

/-- `gw_curl_thread_init` up to its `mutex_lock`, or to its return; `none` when libcurl would return a handle that is not new. -/
def threadInitCall (thread : τ) (easyInit : Option H) : Option (CurlData τ H × List (CurlEvent τ H)) :=
  match s.currentThreadCurlHandle thread with
  | some handle => some (s, [.called thread, .returned thread handle])
  | none =>
    match easyInit with
    | none => some (s, [.called thread, .failed thread])
    | some handle =>
      if handle ∈ s.live then none
      else some ({ s with calls := s.calls ++ [(thread, handle)], live := s.live ++ [handle] }, [.called thread])

/-- The table that the critical section of `gw_curl_thread_init` stores to; `none` when it cannot grow. -/
def growTable (realloc : Bool) : Option (CurlHandleList H) :=
  if s.data.nrHandles ≥ s.data.allocated then gwCurlReallocHandles s.data realloc else some s.data

/-- The critical section of `gw_curl_thread_init` and its return, for the call of `thread` with its new `handle`. After a store outside of
the block nothing is known, not even what the call returns: the law of the table and that of the handles both count it as broken. -/
def threadInitSection (thread : τ) (handle : H) (realloc : Bool) : CurlData τ H × List (CurlEvent τ H) :=
  let s' := { s with calls := s.calls.erase (thread, handle) }
  match s.growTable realloc with
  | none => ({ s' with live := s.live.erase handle }, [.dropped handle, .failed thread])
  | some cd =>
    match cd.handles.store sizeofHandle cd.nrHandles.toNat handle with
    | none => ({ s' with data := cd, undefined := true }, [])
    | some handles =>
      ({ s' with data := { cd with handles := handles, nrHandles := cd.nrHandles + 1 }, owners := s.owners ++ [(thread, handle)] },
        [.returned thread handle])

/-- `gw_curl_global_cleanup`: the loop cleans up what the first `nr_handles` cells hold. -/
def gwCurlGlobalCleanup : CurlData τ H × List (CurlEvent τ H) :=
  ({ s with cleaned := true }, ((List.range s.data.nrHandles.toNat).filterMap s.data.handles.cells).map .cleanedUp)

/-- The steps of the threads. -/
inductive Act (τ H : Type) where
  /-- A thread calls `gw_curl_thread_init`. -/
  | threadInit (thread : τ) (easyInit : Option H)
  /-- A call of `gw_curl_thread_init` gets the lock. -/
  | lock (thread : τ) (handle : H) (realloc : Bool)
  /-- `gw_curl_global_cleanup`, when no call is under way. -/
  | cleanup
  deriving DecidableEq, Repr

/-- A step of the threads. -/
def step (s : CurlData τ H) (a : Act τ H) : Option (CurlData τ H × List (CurlEvent τ H)) :=
  if s.undefined ∨ s.cleaned then none
  else
    match a with
    | .threadInit thread easyInit =>
      if s.calls.any (fun c => c.1 = thread) then none else s.threadInitCall thread easyInit
    | .lock thread handle realloc => if (thread, handle) ∈ s.calls then some (s.threadInitSection thread handle realloc) else none
    | .cleanup => if s.calls = [] then some s.gwCurlGlobalCleanup else none

/-- The threads as a machine. -/
def machine (τ H : Type) [DecidableEq τ] [DecidableEq H] : Machine (CurlData τ H) (Act τ H) (CurlEvent τ H) := ⟨step⟩

end CurlData

end GwBot

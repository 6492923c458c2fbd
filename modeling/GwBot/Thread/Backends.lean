import GwBot.Errno
import GwBot.Lib.Machine
import GwBot.Lib.Threads

/-!
# A mutex and its condition variables, in the two backends

`core/thread.cc` implements `mutex_lock`, `mutex_unlock`, `cond_wait`, `cond_signal` and `cond_broadcast` twice: on pthread, where each
of them is the pthread function of that name, and, under `CONFIG_CPP_THREAD`, on `std::mutex` and `std::condition_variable`. There
`cond_wait` allocates the `std::unique_lock` that `std::condition_variable::wait` needs and leaves it in the field `ulock` of the mutex,
for a later `mutex_unlock` to unlock and delete. Both are machines over any number of threads that use one mutex and any number of
condition variables, and unlock and wait only while they hold the mutex. Threads and condition variables are numbered.
-/

namespace GwBot

open Lib

/-- A call that takes effect, with what it returns. `sleep` is the part of `cond_wait` up to its sleep, `condWait` its return. -/
inductive ThreadEvent where
  | mutexLock (thread : Nat) (ret : Int)
  | mutexUnlock (thread : Nat) (ret : Int)
  | sleep (thread cond : Nat)
  | condWait (thread : Nat) (ret : Int)
  | condSignal (thread : Nat) (ret : Int)
  | condBroadcast (thread : Nat) (ret : Int)
  deriving DecidableEq, Repr

/-! ## pthread -/

/-- Where a thread stands. -/
inductive PthreadPc where
  | out
  | holding
  | waiting (cond : Nat) (notified : Bool)
  deriving DecidableEq, Repr

/-- The threads that wait on `cond` are those that its notifications reach. -/
@[reducible] def PthreadPc.sleeperOn (cond : Nat) : Sleeper PthreadPc where
  asleep
    | .waiting c false => c == cond
    | _ => false
  wake
    | .waiting c b => .waiting c (b || c == cond)
    | pc => pc
  wake_of_awake pc h := by
    cases pc with
    | waiting c b =>
      cases b with
      | false => simp only [Bool.false_or, show (c == cond) = false from h]
      | true => rfl
    | _ => rfl
  asleep_wake pc := by
    cases pc with
    | waiting c b => cases b <;> cases h : c == cond <;> simp [h]
    | _ => rfl

/-- `pthread_mutex_t` and the threads that use it. -/
structure PthreadMutex where
  owner : Option Nat
  threads : List PthreadPc
  deriving DecidableEq, Repr

namespace PthreadMutex

/-- The steps of the threads. -/
inductive Act where
  /-- Another thread comes. -/
  | thread
  | mutexLock (i : Nat)
  | mutexUnlock (i : Nat)
  | condWait (i cond : Nat)
  /-- A notified thread takes the mutex again and returns. -/
  | wake (i : Nat)
  | spurious (i : Nat)
  | condSignal (i cond : Nat) (ks : List Nat)
  | condBroadcast (i cond : Nat)
  deriving DecidableEq, Repr

/-- A step. A thread that locks, or returns from its wait, waits until the mutex is free. -/
def step (s : PthreadMutex) : Act → Option (PthreadMutex × List ThreadEvent)
  | .thread => some ({ s with threads := s.threads ++ [.out] }, [])
  | .mutexLock i =>
    match s.threads[i]?, s.owner with
    | some .out, none => some (⟨some i, s.threads.set i .holding⟩, [.mutexLock i 0])
    | _, _ => none
  | .mutexUnlock i =>
    match s.threads[i]? with
    | some .holding => some (⟨none, s.threads.set i .out⟩, [.mutexUnlock i 0])
    | _ => none
  | .condWait i cond =>
    match s.threads[i]? with
    | some .holding => some (⟨none, s.threads.set i (.waiting cond false)⟩, [.sleep i cond])
    | _ => none
  | .wake i =>
    match s.threads[i]?, s.owner with
    | some (.waiting _ true), none => some (⟨some i, s.threads.set i .holding⟩, [.condWait i 0])
    | _, _ => none
  | .spurious i =>
    match s.threads[i]? with
    | some (.waiting cond _) => some ({ s with threads := s.threads.set i (.waiting cond true) }, [])
    | _ => none
  | .condSignal i cond ks =>
    match s.threads[i]? with
    | some .out | some .holding => some ({ s with threads := @signal _ (PthreadPc.sleeperOn cond) ks s.threads }, [.condSignal i 0])
    | _ => none
  | .condBroadcast i cond =>
    match s.threads[i]? with
    | some .out | some .holding => some ({ s with threads := @broadcast _ (PthreadPc.sleeperOn cond) s.threads }, [.condBroadcast i 0])
    | _ => none

/-- The pthread backend as an abstract system. -/
def spec : Spec PthreadMutex ThreadEvent := ⟨fun s ev s' => ∃ a, s.step a = some (s', ev)⟩

/-- The mutex after `mutex_init`. -/
def init : PthreadMutex := ⟨none, []⟩

end PthreadMutex

/-! ## `CONFIG_CPP_THREAD` -/

/-- A `std::unique_lock` that `cond_wait` has allocated: whether it owns the mutex, and how often it has been deleted. -/
structure UniqueLock where
  owns : Bool
  deletions : Nat
  deriving DecidableEq, Repr

/-- `struct mutex_struct`: the thread that has locked `mutex`, and `ulock`. -/
structure MutexStruct where
  owner : Option Nat
  ulock : Option Nat
  deriving DecidableEq, Repr

/-- Where a thread stands. -/
inductive CppPc where
  | out
  /-- It holds the mutex since its `mutex_lock`, or since a `cond_wait` that allocated `waited`. -/
  | holding (waited : Option Nat)
  /-- In `std::condition_variable::wait`. -/
  | waiting (cond ulock : Nat) (notified : Bool)
  /-- In `mutex_unlock`, past `ulock->unlock()` and before `delete ulock`. -/
  | deleting (ulock : Nat)
  deriving DecidableEq, Repr

/-- The threads that wait on `cond` are those that its notifications reach. -/
@[reducible] def CppPc.sleeperOn (cond : Nat) : Sleeper CppPc where
  asleep
    | .waiting c _ false => c == cond
    | _ => false
  wake
    | .waiting c u b => .waiting c u (b || c == cond)
    | pc => pc
  wake_of_awake pc h := by
    cases pc with
    | waiting c u b =>
      cases b with
      | false => simp only [Bool.false_or, show (c == cond) = false from h]
      | true => rfl
    | _ => rfl
  asleep_wake pc := by
    cases pc with
    | waiting c u b => cases b <;> cases h : c == cond <;> simp [h]
    | _ => rfl

/-- The mutex, the unique_locks by address, and the threads. -/
structure CppThreads where
  mutex : MutexStruct
  ulocks : List UniqueLock
  threads : List CppPc
  /-- An exception has left `mutex_unlock`. -/
  terminated : Bool
  deriving DecidableEq, Repr

/-- What the backend logs: what a caller sees, and what is done to unique_locks. -/
inductive CppEvent where
  | api (e : ThreadEvent)
  /-- The thread calls `unlock` on the unique_lock. -/
  | ulockUnlock (thread ulock : Nat)
  | deleted (thread ulock : Nat)
  deriving DecidableEq, Repr

namespace CppThreads

/-- The steps of the threads. -/
inductive Act where
  /-- Another thread comes. -/
  | thread
  | mutexLock (i : Nat)
  /-- `mutex_unlock`, up to its `delete` when it has one. -/
  | mutexUnlock (i : Nat)
  /-- The `delete ulock` of `mutex_unlock`. -/
  | delete (i : Nat)
  /-- `cond_wait` up to its sleep; `alloc` says whether `new(std::nothrow)` finds memory. -/
  | condWait (i cond : Nat) (alloc : Bool)
  /-- A notified thread takes the mutex again and returns. -/
  | wake (i : Nat)
  | spurious (i : Nat)
  | condSignal (i cond : Nat) (ks : List Nat)
  | condBroadcast (i cond : Nat)
  deriving DecidableEq, Repr

variable (s : CppThreads)

/-- `mutex_lock`. -/
def mutexLock (i : Nat) : Option (CppThreads × List CppEvent) :=
  match s.threads[i]?, s.mutex.owner with
  | some .out, none =>
    some ({ s with mutex := { s.mutex with owner := some i }, threads := s.threads.set i (.holding none) }, [.api (.mutexLock i 0)])
  | _, _ => none

/-- `mutex_unlock`. To unlock a unique_lock that does not own the mutex is an error. -/
def mutexUnlock (i : Nat) : Option (CppThreads × List CppEvent) :=
  match s.threads[i]? with
  | some (.holding _) =>
    match s.mutex.ulock with
    | some ulock =>
      if (s.ulocks[ulock]?).any (fun l => l.owns && l.deletions == 0) then
        some ({ s with
          mutex := ⟨none, none⟩
          ulocks := s.ulocks.modify ulock (fun l => { l with owns := false })
          threads := s.threads.set i (.deleting ulock) }, [.ulockUnlock i ulock, .api (.mutexUnlock i 0)])
      else some ({ s with mutex := { s.mutex with ulock := none }, terminated := true }, [.ulockUnlock i ulock])
    | none => some ({ s with mutex := { s.mutex with owner := none }, threads := s.threads.set i .out }, [.api (.mutexUnlock i 0)])
  | _ => none

/-- `delete ulock`. The destructor unlocks a unique_lock that owns the mutex. -/
def delete (i : Nat) : Option (CppThreads × List CppEvent) :=
  match s.threads[i]? with
  | some (.deleting ulock) =>
    some ({ s with
      mutex := if (s.ulocks[ulock]?).any UniqueLock.owns then { s.mutex with owner := none } else s.mutex
      ulocks := s.ulocks.modify ulock (fun l => { l with deletions := l.deletions + 1 })
      threads := s.threads.set i .out }, [.deleted i ulock])
  | _ => none

/-- `cond_wait`, up to its sleep. The unique_lock adopts the mutex and `wait` unlocks it. -/
def condWait (i cond : Nat) (alloc : Bool) : Option (CppThreads × List CppEvent) :=
  match s.threads[i]? with
  | some (.holding _) =>
    if alloc then
      some ({ s with
        mutex := ⟨none, some s.ulocks.length⟩
        ulocks := s.ulocks ++ [⟨false, 0⟩]
        threads := s.threads.set i (.waiting cond s.ulocks.length false) }, [.api (.sleep i cond)])
    else some (s, [.api (.condWait i (-ENOMEM))])
  | _ => none

/-- The end of `cond_wait`: `wait` locks its unique_lock again. -/
def wake (i : Nat) : Option (CppThreads × List CppEvent) :=
  match s.threads[i]?, s.mutex.owner with
  | some (.waiting _ ulock true), none =>
    some ({ s with
      mutex := { s.mutex with owner := some i }
      ulocks := s.ulocks.modify ulock (fun l => { l with owns := true })
      threads := s.threads.set i (.holding (some ulock)) }, [.api (.condWait i 0)])
  | _, _ => none

/-- A thread in `wait` is woken without a notification. -/
def spurious (i : Nat) : Option (CppThreads × List CppEvent) :=
  match s.threads[i]? with
  | some (.waiting cond ulock _) => some ({ s with threads := s.threads.set i (.waiting cond ulock true) }, [])
  | _ => none

/-- `cond_signal`. -/
def condSignal (i cond : Nat) (ks : List Nat) : Option (CppThreads × List CppEvent) :=
  match s.threads[i]? with
  | some .out | some (.holding _) =>
    some ({ s with threads := @signal _ (CppPc.sleeperOn cond) ks s.threads }, [.api (.condSignal i 0)])
  | _ => none

/-- `cond_broadcast`. -/
def condBroadcast (i cond : Nat) : Option (CppThreads × List CppEvent) :=
  match s.threads[i]? with
  | some .out | some (.holding _) =>
    some ({ s with threads := @broadcast _ (CppPc.sleeperOn cond) s.threads }, [.api (.condBroadcast i 0)])
  | _ => none

/-- A step; nothing moves after an exception. -/
def step : Act → Option (CppThreads × List CppEvent)
  | a =>
    if s.terminated then none
    else
      match a with
      | .thread => some ({ s with threads := s.threads ++ [.out] }, [])
      | .mutexLock i => s.mutexLock i
      | .mutexUnlock i => s.mutexUnlock i
      | .delete i => s.delete i
      | .condWait i cond alloc => s.condWait i cond alloc
      | .wake i => s.wake i
      | .spurious i => s.spurious i
      | .condSignal i cond ks => s.condSignal i cond ks
      | .condBroadcast i cond => s.condBroadcast i cond

/-- The C++ backend as a machine. -/
def machine : Machine CppThreads Act CppEvent := ⟨step⟩

/-- The mutex after `mutex_init`, which zeroes it. -/
def init : CppThreads := ⟨⟨none, none⟩, [], [], false⟩

end CppThreads

end GwBot

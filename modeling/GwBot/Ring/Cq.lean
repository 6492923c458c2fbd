import GwBot.Errno
import GwBot.Lib.Machine
import GwBot.Lib.Threads
import GwBot.Lib.Window

/-!
# The completion queue, as the code has it

The half of `core/ring.c` that is about `cqes`: `post_cqe`, which any thread may call, and what the one consumer does,
`gw_ring_wait_cqe`, the walk of `gw_ring_for_each_cqe` and `gw_ring_cq_advance`. `cq_lock` excludes posters from each other and
from the consumer while that is in `gw_ring_wait_cqe`, but the walk and the advance do not take it, so a poster's steps with the
lock held are steps of their own: the loads with the fullness test, the stores to the entry, and the store of `cq_tail` with what
follows it up to the `mutex_unlock`, which nobody without the lock can tell apart.
-/

namespace GwBot

open Lib

/-! ## Entries -/

def GW_RING_OP_NOP : UInt8 := 0
def GW_RING_OP_TG_API_CALL : UInt8 := 1
def GW_RING_OP_MODULE_HANDLE : UInt8 := 2

def TG_API_GET_UPDATES : UInt8 := 0

/-- `struct tg_api_call`. Pointers are addresses. -/
structure TgApiCall where
  op : UInt8
  ctx : Nat
  updatesP : Nat
  offset : Int
  deriving DecidableEq, Repr, Inhabited

/-- `struct tg_module_handle`. -/
structure TgModuleHandle where
  ctx : Nat
  update : Nat
  deriving DecidableEq, Repr, Inhabited

/-- `struct gw_ring_sqe`. Each operation reads its own member of the union only, so the two are kept side by side. -/
structure GwRingSqe where
  op : UInt8
  userData : UInt64
  tgApiCall : TgApiCall
  tgModuleHandle : TgModuleHandle
  deriving DecidableEq, Repr, Inhabited

/-- `struct gw_ring_cqe`. -/
structure GwRingCqe where
  op : UInt8
  res : Int
  flags : UInt32
  userData : UInt64
  deriving DecidableEq, Repr, Inhabited

/-- What `post_cqe` stores for a submission. -/
def GwRingSqe.cqe (sqe : GwRingSqe) (res : Int) : GwRingCqe := ⟨sqe.op, res, 0, sqe.userData⟩

/-- `u32_diff`. -/
def u32Diff (a b : UInt32) : UInt32 := UInt32.ofNat (absDiff a b)

/-- A `uint32_t` returned as an `int`. -/
def intOfU32 (x : UInt32) : Int := if x.toNat < 2 ^ 31 then x.toNat else (x.toNat : Int) - 2 ^ 32

/-! ## State -/

/-- A thread in `post_cqe` that holds `cq_lock` and has passed the fullness test: what it posts, the `cq_tail` it loaded, and whether
it has stored the entry. -/
structure Posting (τ : Type) where
  thread : τ
  cqe : GwRingCqe
  cqTail : UInt32
  stored : Bool
  deriving DecidableEq, Repr

/-- Where the consumer stands. -/
inductive ReaderPc where
  | idle
  /-- In `cond_wait` of `gw_ring_wait_cqe`. -/
  | sleeping (notified : Bool)
  /-- `gw_ring_wait_cqe` has returned, with the slot it stored in `*cqe_p`. -/
  | returned (ret : Int) (slot : Option Nat)
  /-- In `gw_ring_for_each_cqe`, before `gw_ring_load_head_cqe`, with `n` entries visited. -/
  | walking (head : UInt32) (n : UInt32)
  /-- At the start of the loop's body, with `cqe` pointing to the entry of `head`. -/
  | entry (head : UInt32) (n : UInt32)
  /-- In the body, past the reads of the entry. -/
  | body (head : UInt32) (n : UInt32)
  /-- Past the loop, before `gw_ring_cq_advance`. -/
  | advancing (n : UInt32)
  deriving DecidableEq, Repr

/-- The completion queue of `struct gw_ring`, with the threads that use it. -/
structure Cq (τ : Type) where
  shouldStop : Bool
  waitCqeCondFlag : Bool
  cqHead : UInt32
  cqTail : UInt32
  cqMask : UInt32
  cqes : Nat → GwRingCqe
  posting : Option (Posting τ)
  reader : ReaderPc

/-- What a step logs: a completion posted or refused, an entry visited by the consumer, a return of `gw_ring_wait_cqe`. -/
inductive CqEvent (τ : Type) where
  | posted (thread : τ) (cqe : GwRingCqe)
  | refused (thread : τ) (cqe : GwRingCqe)
  | visited (cqe : GwRingCqe)
  | waited (ret : Int)
  deriving DecidableEq, Repr

/-- A notification of the consumer. -/
def ReaderPc.wake : ReaderPc → ReaderPc
  | .sleeping _ => .sleeping true
  | pc => pc

namespace Cq

variable {τ : Type} (cq : Cq τ)

/-- The completion queue of a ring that `gw_ring_init` has set up. -/
def init (cqMask : UInt32) : Cq τ :=
  { shouldStop := false, waitCqeCondFlag := false, cqHead := 0, cqTail := 0, cqMask := cqMask, cqes := fun _ => default
    posting := none, reader := .idle }

/-! ## `post_cqe` -/

/-- The fullness test of `post_cqe`. -/
def isFull : Bool := u32Diff cq.cqTail cq.cqHead ≥ cq.cqMask + 1

/-- `post_cqe` from `mutex_lock` to the fullness test, and on to the `mutex_unlock` when it fails; `none` while the lock is taken. -/
def postCqe (thread : τ) (cqe : GwRingCqe) : Option (Cq τ × List (CqEvent τ)) :=
  match cq.posting with
  | some _ => none
  | none =>
    if cq.isFull then some (cq, [.refused thread cqe])
    else some ({ cq with posting := some ⟨thread, cqe, cq.cqTail, false⟩ }, [])

/-- The stores of `post_cqe` to the entry. -/
def storeCqe : Option (Cq τ × List (CqEvent τ)) :=
  match cq.posting with
  | some ⟨thread, cqe, cqTail, false⟩ =>
    some ({ cq with
      cqes := writeSlot cq.cqes (slotOf cq.cqMask cqTail) cqe
      posting := some ⟨thread, cqe, cqTail, true⟩ }, [])
  | _ => none

/-- `wake_up_wait_cqe_callers`. -/
def wakeUpWaitCqeCallers : Cq τ :=
  { cq with reader := if cq.waitCqeCondFlag then cq.reader.wake else cq.reader }

/-- `post_cqe` from the store of `cq_tail` to the `mutex_unlock`. -/
def publishCqe : Option (Cq τ × List (CqEvent τ)) :=
  match cq.posting with
  | some ⟨thread, cqe, cqTail, true⟩ =>
    some ({ cq with cqTail := cqTail + 1, posting := none }.wakeUpWaitCqeCallers, [.posted thread cqe])
  | _ => none

/-! ## The consumer -/

/-- `__gw_ring_wait_cqe`: what it returns, and the slot it stores. -/
def waitCqeOnce : Int × Option Nat :=
  if cq.cqTail = cq.cqHead then (-EAGAIN, none)
  else (intOfU32 (u32Diff cq.cqTail cq.cqHead), some (slotOf cq.cqMask cq.cqHead))

/-- A critical section of `gw_ring_wait_cqe`, up to its return or to `cond_wait`. -/
def waitSection : Cq τ × List (CqEvent τ) :=
  if cq.shouldStop then ({ cq with reader := .returned (-EOWNERDEAD) none }, [.waited (-EOWNERDEAD)])
  else
    let (ret, slot) := cq.waitCqeOnce
    if ret > 0 then ({ cq with reader := .returned ret slot }, [.waited ret])
    else ({ cq with waitCqeCondFlag := true, reader := .sleeping false }, [])

/-- The consumer calls `gw_ring_wait_cqe`, or comes back from its `cond_wait`; `none` while `cq_lock` is taken. -/
def waitCqe : Option (Cq τ × List (CqEvent τ)) :=
  match cq.posting with
  | some _ => none
  | none =>
    match cq.reader with
    | .idle | .returned _ _ => some cq.waitSection
    | .sleeping true => some { cq with waitCqeCondFlag := false }.waitSection
    | _ => none

/-- The start of `gw_ring_for_each_cqe`. -/
def forEachCqe : Option (Cq τ × List (CqEvent τ)) :=
  match cq.reader with
  | .idle | .returned _ _ => some ({ cq with reader := .walking cq.cqHead 0 }, [])
  | _ => none

/-- `gw_ring_load_head_cqe`: the tail is loaded again for each entry. -/
def loadHeadCqe : Option (Cq τ × List (CqEvent τ)) :=
  match cq.reader with
  | .walking head n =>
    if head ≠ cq.cqTail then some ({ cq with reader := .entry head n }, [])
    else some ({ cq with reader := .advancing n }, [])
  | _ => none

/-- The body of the loop counts the entry and reads it. -/
def visitCqe : Option (Cq τ × List (CqEvent τ)) :=
  match cq.reader with
  | .entry head n => some ({ cq with reader := .body head (n + 1) }, [.visited (cq.cqes (slotOf cq.cqMask head))])
  | _ => none

/-- The end of the body: on to the next entry, or out of the loop. -/
def nextCqe (stop : Bool) : Option (Cq τ × List (CqEvent τ)) :=
  match cq.reader with
  | .body head n => some ({ cq with reader := if stop then .advancing n else .walking (head + 1) n }, [])
  | _ => none

/-- `gw_ring_cq_advance`, by as much as is asked for. -/
def cqAdvance (n : UInt32) : Cq τ := { cq with cqHead := cq.cqHead + n }

/-- `gw_ring_cq_advance` at the end of a walk. -/
def advance : Option (Cq τ × List (CqEvent τ)) :=
  match cq.reader with
  | .advancing n => some ({ cq.cqAdvance n with reader := .idle }, [])
  | _ => none

/-- What `gw_ring_destroy` does with `cq_lock` held. -/
def stop : Cq τ := { cq with shouldStop := true }.wakeUpWaitCqeCallers

/-! ## The machine -/

/-- The steps of the completion queue. -/
inductive Act (τ : Type) where
  | post (thread : τ) (cqe : GwRingCqe)
  | store
  | publish
  | wait
  | forEach
  | loadHead
  | visit
  | next (stop : Bool)
  | advance
  /-- The consumer is woken without a notification. -/
  | spurious
  | stop
  deriving DecidableEq, Repr

/-- The step is one of the consumer. -/
def Act.isReader : Act τ → Bool
  | .wait | .forEach | .loadHead | .visit | .next _ | .advance | .spurious => true
  | .post _ _ | .store | .publish | .stop => false

/-- A step of the completion queue. -/
def step (cq : Cq τ) : Act τ → Option (Cq τ × List (CqEvent τ))
  | .post thread cqe => cq.postCqe thread cqe
  | .store => cq.storeCqe
  | .publish => cq.publishCqe
  | .wait => cq.waitCqe
  | .forEach => cq.forEachCqe
  | .loadHead => cq.loadHeadCqe
  | .visit => cq.visitCqe
  | .next stop => cq.nextCqe stop
  | .advance => cq.advance
  | .spurious => some ({ cq with reader := cq.reader.wake }, [])
  | .stop => if cq.posting.isSome then none else some (cq.stop, [])

/-- The completion queue as a machine. -/
def machine (τ : Type) : Machine (Cq τ) (Act τ) (CqEvent τ) := ⟨step⟩

end Cq

end GwBot

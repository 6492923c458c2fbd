import GwBot.Thread.Backends

/-!
# Does the C++ backend refine the pthread one

The field `ulock` of the mutex has room for the unique_lock of one `cond_wait`. While a thread is between a `cond_wait` and the
`mutex_unlock` that follows, its unique_lock is there (`CppThreads.Inv`), as long as nobody else waits, nobody waits again, and nobody
unlocks while a thread sleeps (`CppThreads.OneWaitAtATime`). Then each run is one of the pthread backend, if there is memory for each
unique_lock. The first step that does otherwise unlocks the unique_lock of a sleeper, loses a unique_lock for good, or returns from
`cond_wait` without a sleep, with an error that `pthread_cond_wait` never returns.
-/

namespace GwBot

open Lib

/-! ## What each step does -/

/-- The unique_lock of a thread: whether it owns the mutex, and whether `mutex_unlock` has not yet taken it out of the mutex. -/
structure Lease where
  ulock : Nat
  owns : Bool
  isOpen : Bool
  deriving DecidableEq, Repr

namespace CppPc

/-- The unique_lock of the thread's last `cond_wait`, until it is deleted. -/
def lease : CppPc → Option Lease
  | .holding (some u) => some ⟨u, true, true⟩
  | .waiting _ u _ => some ⟨u, false, true⟩
  | .deleting u => some ⟨u, false, false⟩
  | _ => none

@[simp] theorem lease_out : out.lease = none := rfl

/-- The thread is inside `cond_wait`. -/
def isWaiting : CppPc → Bool
  | .waiting _ _ _ => true
  | _ => false

/-- The thread holds the mutex. -/
def isHolding : CppPc → Bool
  | .holding _ => true
  | _ => false

/-- A `cond_wait` of the thread has allocated its unique_lock, and no `mutex_unlock` has followed. -/
def hasWaited (pc : CppPc) : Bool := pc.lease.any Lease.isOpen

/-- Where the thread stands for its callers. -/
def abs : CppPc → PthreadPc
  | .holding _ => .holding
  | .waiting cond _ b => .waiting cond b
  | .out | .deleting _ => .out

/-- A thread outside `cond_wait` is so for its callers. -/
theorem abs_of_free {pc : CppPc} (h : pc = out ∨ pc.isHolding = true) : pc.abs = .out ∨ pc.abs = .holding := by
  cases pc with
  | holding w => exact Or.inr rfl
  | out => exact Or.inl rfl
  | _ => rcases h with h | h <;> nomatch h

/-- Notifications reach the same threads in both backends. -/
theorem signal_abs (cond : Nat) (ks : List Nat) (l : List CppPc) :
    (@signal _ (sleeperOn cond) ks l).map abs = @signal _ (PthreadPc.sleeperOn cond) ks (l.map abs) := by
  refine @signal_map _ (PthreadPc.sleeperOn cond) _ (sleeperOn cond) abs (fun pc => ?_) (fun pc => ?_) ks l
  · cases pc with
    | waiting c u b => cases b <;> rfl
    | _ => rfl
  · cases pc <;> rfl

theorem broadcast_abs (cond : Nat) (l : List CppPc) :
    (@broadcast _ (sleeperOn cond) l).map abs = @broadcast _ (PthreadPc.sleeperOn cond) (l.map abs) := by
  refine @broadcast_map _ (PthreadPc.sleeperOn cond) _ (sleeperOn cond) abs (fun pc => ?_) l
  cases pc <;> rfl

end CppPc

/-- What the callers see of an event. -/
def CppEvent.api? : CppEvent → Option ThreadEvent
  | .api e => some e
  | _ => none

namespace CppThreads

variable {s s' : CppThreads} {a : Act} {ev : List CppEvent}

/-- What a step can be, by its action. -/
inductive StepCase (s : CppThreads) : Act → CppThreads → List CppEvent → Prop where
  | thread : StepCase s .thread { s with threads := s.threads ++ [.out] } []
  | mutexLock {i : Nat} : s.threads[i]? = some .out → s.mutex.owner = none →
      StepCase s (.mutexLock i) { s with mutex := { s.mutex with owner := some i }, threads := s.threads.set i (.holding none) }
        [.api (.mutexLock i 0)]
  | unlockUlock {i u : Nat} {w : Option Nat} {l : UniqueLock} : s.threads[i]? = some (.holding w) → s.mutex.ulock = some u →
      s.ulocks[u]? = some l → l.owns = true → l.deletions = 0 →
      StepCase s (.mutexUnlock i)
        { s with
          mutex := ⟨none, none⟩
          ulocks := s.ulocks.modify u (fun l => { l with owns := false })
          threads := s.threads.set i (.deleting u) }
        [.ulockUnlock i u, .api (.mutexUnlock i 0)]
  | unlockError {i u : Nat} {w : Option Nat} : s.threads[i]? = some (.holding w) → s.mutex.ulock = some u →
      (∀ l, s.ulocks[u]? = some l → l.owns = true → l.deletions ≠ 0) →
      StepCase s (.mutexUnlock i) { s with mutex := { s.mutex with ulock := none }, terminated := true } [.ulockUnlock i u]
  | unlockMutex {i : Nat} {w : Option Nat} : s.threads[i]? = some (.holding w) → s.mutex.ulock = none →
      StepCase s (.mutexUnlock i) { s with mutex := { s.mutex with owner := none }, threads := s.threads.set i .out }
        [.api (.mutexUnlock i 0)]
  | delete {i u : Nat} : s.threads[i]? = some (.deleting u) →
      StepCase s (.delete i)
        { s with
          mutex := if (s.ulocks[u]?).any UniqueLock.owns then { s.mutex with owner := none } else s.mutex
          ulocks := s.ulocks.modify u (fun l => { l with deletions := l.deletions + 1 })
          threads := s.threads.set i .out }
        [.deleted i u]
  | condWait {i cond : Nat} {w : Option Nat} : s.threads[i]? = some (.holding w) →
      StepCase s (.condWait i cond true)
        { s with
          mutex := ⟨none, some s.ulocks.length⟩
          ulocks := s.ulocks ++ [⟨false, 0⟩]
          threads := s.threads.set i (.waiting cond s.ulocks.length false) }
        [.api (.sleep i cond)]
  | condWaitFails {i cond : Nat} {w : Option Nat} : s.threads[i]? = some (.holding w) →
      StepCase s (.condWait i cond false) s [.api (.condWait i (-ENOMEM))]
  | wake {i cond u : Nat} : s.threads[i]? = some (.waiting cond u true) → s.mutex.owner = none →
      StepCase s (.wake i)
        { s with
          mutex := { s.mutex with owner := some i }
          ulocks := s.ulocks.modify u (fun l => { l with owns := true })
          threads := s.threads.set i (.holding (some u)) }
        [.api (.condWait i 0)]
  | spurious {i cond u : Nat} {b : Bool} : s.threads[i]? = some (.waiting cond u b) →
      StepCase s (.spurious i) { s with threads := s.threads.set i (.waiting cond u true) } []
  | condSignal {i cond : Nat} {ks : List Nat} {pc : CppPc} : s.threads[i]? = some pc → pc = .out ∨ pc.isHolding = true →
      StepCase s (.condSignal i cond ks) { s with threads := @signal _ (CppPc.sleeperOn cond) ks s.threads } [.api (.condSignal i 0)]
  | condBroadcast {i cond : Nat} {pc : CppPc} : s.threads[i]? = some pc → pc = .out ∨ pc.isHolding = true →
      StepCase s (.condBroadcast i cond) { s with threads := @broadcast _ (CppPc.sleeperOn cond) s.threads }
        [.api (.condBroadcast i 0)]

theorem mutexUnlock_cases {i : Nat} (hs : s.mutexUnlock i = some (s', ev)) : StepCase s (.mutexUnlock i) s' ev := by
  unfold mutexUnlock at hs
  split at hs
  · rename_i w hi
    split at hs
    · rename_i u hu
      split at hs
      · rename_i hok
        obtain ⟨l, hl, hown⟩ := (Option.any_eq_true _ _).1 hok
        simp only [Bool.and_eq_true, beq_iff_eq] at hown
        cases hs
        exact StepCase.unlockUlock hi hu hl hown.1 hown.2
      · rename_i hbad
        cases hs
        refine StepCase.unlockError hi hu (fun l hl hown hdel => hbad ?_)
        rw [hl]
        simp [hown, hdel]
    · rename_i hu
      cases hs
      exact StepCase.unlockMutex hi hu
  · nomatch hs

/-- A step is one of the cases, and nothing has been thrown before it. -/
theorem step_cases (hs : s.step a = some (s', ev)) : s.terminated = false ∧ StepCase s a s' ev := by
  unfold step at hs
  split at hs
  · nomatch hs
  · rename_i hrun
    refine ⟨Bool.not_eq_true _ ▸ hrun, ?_⟩
    cases a with
    | thread =>
      cases hs
      exact StepCase.thread
    | mutexLock i =>
      change s.mutexLock i = _ at hs
      unfold mutexLock at hs
      split at hs
      · cases hs
        exact StepCase.mutexLock ‹_› ‹_›
      · nomatch hs
    | mutexUnlock i => exact mutexUnlock_cases hs
    | delete i =>
      change s.delete i = _ at hs
      unfold delete at hs
      split at hs
      · cases hs
        exact StepCase.delete ‹_›
      · nomatch hs
    | condWait i cond alloc =>
      change s.condWait i cond alloc = _ at hs
      unfold condWait at hs
      split at hs
      · cases alloc <;> cases hs
        · exact StepCase.condWaitFails ‹_›
        · exact StepCase.condWait ‹_›
      · nomatch hs
    | wake i =>
      change s.wake i = _ at hs
      unfold wake at hs
      split at hs
      · cases hs
        exact StepCase.wake ‹_› ‹_›
      · nomatch hs
    | spurious i =>
      change s.spurious i = _ at hs
      unfold spurious at hs
      split at hs
      · cases hs
        exact StepCase.spurious ‹_›
      · nomatch hs
    | condSignal i cond ks =>
      change s.condSignal i cond ks = _ at hs
      unfold condSignal at hs
      split at hs
      · cases hs
        exact StepCase.condSignal ‹_› (Or.inl rfl)
      · cases hs
        exact StepCase.condSignal ‹_› (Or.inr rfl)
      · nomatch hs
    | condBroadcast i cond =>
      change s.condBroadcast i cond = _ at hs
      unfold condBroadcast at hs
      split at hs
      · cases hs
        exact StepCase.condBroadcast ‹_› (Or.inl rfl)
      · cases hs
        exact StepCase.condBroadcast ‹_› (Or.inr rfl)
      · nomatch hs

/-! ## One wait at a time -/

/-- The unique_locks of the threads. -/
def leases (s : CppThreads) : List (Option Lease) := s.threads.map CppPc.lease

/-- The unique_lock is the one at the address. -/
def isUlock (u : Nat) (x : Option Lease) : Bool := x.any (fun x => x.ulock == u)

@[simp] theorem isUlock_none (u : Nat) : isUlock u none = false := rfl

@[simp] theorem isUlock_some (u : Nat) (x : Lease) : isUlock u (some x) = (x.ulock == u) := rfl

/-- What a run has to observe: a thread unlocks only while none is inside `cond_wait`, and calls `cond_wait` only when each `mutex_unlock`
that the earlier calls of `cond_wait` are for has been called, and gets the memory for its unique_lock. -/
def OneWaitAtATime (s : CppThreads) : Act → Prop
  | .mutexUnlock _ => ∀ pc ∈ s.threads, pc.isWaiting = false
  | .condWait _ _ alloc => alloc = true ∧ ∀ pc ∈ s.threads, pc.hasWaited = false
  | _ => True

instance (s : CppThreads) (a : Act) : Decidable (s.OneWaitAtATime a) := by
  unfold OneWaitAtATime
  split <;> infer_instance

/-- Only the owner of the mutex holds it. -/
def Exclusive (owner : Option Nat) (threads : List CppPc) : Prop :=
  ∀ (i : Nat) (pc : CppPc), threads[i]? = some pc → pc.isHolding = true → owner = some i

/-- A unique_lock has been deleted once, or one thread will delete it. -/
def Books (ulocks : List UniqueLock) (leases : List (Option Lease)) : Prop :=
  ∀ (u : Nat) (l : UniqueLock), ulocks[u]? = some l → l.deletions + leases.countP (isUlock u) = 1

/-- The unique_locks own the mutex or not, as their threads stand. -/
def Owns (ulocks : List UniqueLock) (leases : List (Option Lease)) : Prop :=
  ∀ (i : Nat) (x : Lease), leases[i]? = some (some x) → ∃ l, ulocks[x.ulock]? = some l ∧ l.owns = x.owns

/-- What holds in a run with one wait at a time. -/
structure Inv (s : CppThreads) : Prop where
  running : s.terminated = false
  exclusive : Exclusive s.mutex.owner s.threads
  books : Books s.ulocks s.leases
  owns : Owns s.ulocks s.leases
  opened : ∀ (i : Nat) (x : Lease), s.leases[i]? = some (some x) → x.isOpen = true → s.mutex.ulock = some x.ulock
  field : ∀ u, s.mutex.ulock = some u → ∃ (i : Nat) (x : Lease), s.leases[i]? = some (some x) ∧ x.ulock = u ∧ x.isOpen = true

theorem leases_getElem? {i : Nat} {pc : CppPc} (h : s.threads[i]? = some pc) : s.leases[i]? = some pc.lease := by
  unfold leases
  rw [List.getElem?_map, h]
  rfl

/-- Whoever has a unique_lock waits, holds the mutex, or is about to delete it. -/
theorem threads_of_leases {i : Nat} {x : Lease} (h : s.leases[i]? = some (some x)) :
    ∃ pc, s.threads[i]? = some pc ∧ pc.lease = some x := by
  unfold leases at h
  rw [List.getElem?_map] at h
  exact Option.map_eq_some_iff.1 h

theorem leases_set (s : CppThreads) (i : Nat) (pc : CppPc) : (s.threads.set i pc).map CppPc.lease = s.leases.set i pc.lease :=
  List.map_set

/-- A thread that moves and keeps its unique_lock leaves all of them as they are. -/
theorem leases_set_same {i : Nat} {pc pc' : CppPc} (h : s.threads[i]? = some pc) (hl : pc'.lease = pc.lease) :
    (s.threads.set i pc').map CppPc.lease = s.leases := map_set_same CppPc.lease h hl

namespace Exclusive

variable {owner : Option Nat} {threads : List CppPc} {i : Nat} {pc pc' : CppPc}

/-- A thread takes the mutex when it is free. -/
theorem enter (h : Exclusive none threads) : Exclusive (some i) (threads.set i pc') := by
  intro j pc hj hpc
  rcases getElem?_set_cases hj with ⟨rfl, -⟩ | ⟨-, hj⟩
  · rfl
  · nomatch h j pc hj hpc

/-- A thread that does not hold the mutex moves. -/
theorem move (h : Exclusive owner threads) (hpc : pc'.isHolding = false) : Exclusive owner (threads.set i pc') := by
  intro j pc hj hh
  rcases getElem?_set_cases hj with ⟨-, rfl⟩ | ⟨-, hj⟩
  · nomatch hpc.symm.trans hh
  · exact h j pc hj hh

/-- The owner gives the mutex up. -/
theorem leave (h : Exclusive owner threads) (hi : threads[i]? = some pc) (hh : pc.isHolding = true) (hpc : pc'.isHolding = false) :
    Exclusive none (threads.set i pc') := by
  intro j pc₁ hj hh₁
  rcases getElem?_set_cases hj with ⟨-, rfl⟩ | ⟨hne, hj⟩
  · nomatch hpc.symm.trans hh₁
  · exact absurd (Option.some.inj ((h j pc₁ hj hh₁).symm.trans (h i pc hi hh))) hne

end Exclusive

namespace Inv

/-- Two threads have two unique_locks. -/
theorem unique (h : Inv s) {i j : Nat} {x y : Lease} (hi : s.leases[i]? = some (some x)) (hj : s.leases[j]? = some (some y))
    (he : x.ulock = y.ulock) : i = j := by
  by_contra hne
  obtain ⟨l, hl, -⟩ := h.owns i x hi
  have hbooks := h.books x.ulock l hl
  have := two_le_countP (isUlock x.ulock) hne hi hj (by simp) (by simp [he])
  omega

/-- A thread that has a unique_lock has not deleted it. -/
theorem not_deleted (h : Inv s) {i : Nat} {x : Lease} {l : UniqueLock} (hi : s.leases[i]? = some (some x))
    (hl : s.ulocks[x.ulock]? = some l) : l.deletions = 0 := by
  have hbooks := h.books x.ulock l hl
  have := countP_pos_of_getElem? (isUlock x.ulock) hi (by simp)
  omega

/-- A step that leaves the unique_locks as they are. -/
theorem quiet (h : Inv s) (hl : s'.leases = s.leases) (hu : s'.ulocks = s.ulocks) (hf : s'.mutex.ulock = s.mutex.ulock)
    (ht : s'.terminated = s.terminated) (hx : Exclusive s'.mutex.owner s'.threads) : Inv s' where
  running := ht.trans h.running
  exclusive := hx
  books := by
    rw [hl, hu]
    exact h.books
  owns := by
    rw [hl, hu]
    exact h.owns
  opened := by
    rw [hl, hf]
    exact h.opened
  field := by
    rw [hl, hf]
    exact h.field

/-- Notifications move nobody. -/
theorem notified (h : Inv s) {cond : Nat} {threads : List CppPc} (hw : @Woken _ (CppPc.sleeperOn cond) s.threads threads) :
    Inv { s with threads := threads } := by
  let _ := CppPc.sleeperOn cond
  have hlease : ∀ pc : CppPc, ((CppPc.sleeperOn cond).wake pc).lease = pc.lease := fun pc => by cases pc <;> rfl
  have hholding : ∀ pc : CppPc, ((CppPc.sleeperOn cond).wake pc).isHolding = pc.isHolding := fun pc => by cases pc <;> rfl
  refine h.quiet (hw.map_eq CppPc.lease hlease) rfl rfl rfl ?_
  intro i pc hi hpc
  obtain ⟨pc₀, hi₀, rfl | rfl⟩ := hw.getElem? hi
  · exact h.exclusive i pc hi₀ hpc
  · exact h.exclusive i pc₀ hi₀ ((hholding pc₀).symm.trans hpc)

/-- A thread locks or unlocks its unique_lock. -/
theorem rebind (h : Inv s) {i : Nat} {x : Lease} (x' : Lease) (hi : s.leases[i]? = some (some x)) (hx : x'.ulock = x.ulock) :
    Books (s.ulocks.modify x.ulock (fun l => { l with owns := x'.owns })) (s.leases.set i (some x')) ∧
      Owns (s.ulocks.modify x.ulock (fun l => { l with owns := x'.owns })) (s.leases.set i (some x')) := by
  constructor
  · intro u l hl
    rw [countP_set_same (isUlock u) hi (by simp [hx])]
    rw [List.getElem?_modify] at hl
    obtain ⟨l₀, hl₀, rfl⟩ := Option.map_eq_some_iff.1 hl
    have := h.books u l₀ hl₀
    split <;> exact this
  · intro j y hj
    rcases getElem?_set_cases hj with ⟨-, he⟩ | ⟨hne, hj⟩
    · cases he
      obtain ⟨l, hl, -⟩ := h.owns i x hi
      rw [hx, List.getElem?_modify, hl]
      exact ⟨_, rfl, by simp⟩
    · obtain ⟨l, hl, hown⟩ := h.owns j y hj
      have hu : x.ulock ≠ y.ulock := fun e => hne (h.unique hi hj e).symm
      rw [List.getElem?_modify, hl]
      exact ⟨_, rfl, by simpa [hu] using hown⟩

/-- `mutex_unlock` takes the unique_lock of the caller out of the mutex. -/
theorem unlockUlock (h : Inv s) {i u : Nat} {w : Option Nat} (hc : s.OneWaitAtATime (.mutexUnlock i))
    (hi : s.threads[i]? = some (.holding w)) (hu : s.mutex.ulock = some u) : w = some u := by
  obtain ⟨j, x, hj, rfl, hopen⟩ := h.field u hu
  obtain ⟨pc, hpc, hx⟩ := threads_of_leases hj
  have hwait : pc.isWaiting = false := hc pc (List.mem_of_getElem? hpc)
  -- whoever has the open one holds the mutex, as the caller does
  cases pc with
  | holding w' =>
    have hij : i = j := Option.some.inj ((h.exclusive i _ hi rfl).symm.trans (h.exclusive j _ hpc rfl))
    subst hij
    cases hi.symm.trans hpc
    cases w with
    | none => nomatch hx
    | some v =>
      cases hx
      rfl
  | waiting cond v b => nomatch hwait
  | out => nomatch hx
  | deleting v =>
    cases hx
    nomatch hopen

/-- `ulock->unlock()` is called on a unique_lock that owns the mutex. -/
theorem unlock_ok (h : Inv s) {i u : Nat} {w : Option Nat} (hc : s.OneWaitAtATime (.mutexUnlock i))
    (hi : s.threads[i]? = some (.holding w)) (hu : s.mutex.ulock = some u) :
    ¬ ∀ l, s.ulocks[u]? = some l → l.owns = true → l.deletions ≠ 0 := by
  obtain rfl := h.unlockUlock hc hi hu
  obtain ⟨l, hl, hown⟩ := h.owns i _ (leases_getElem? hi)
  exact fun hbad => hbad l hl hown (h.not_deleted (leases_getElem? hi) hl)

/-- Another thread has no unique_lock. -/
theorem thread (h : Inv s) : Inv { s with threads := s.threads ++ [.out] } := by
  have hl : (s.threads ++ [CppPc.out]).map CppPc.lease = s.leases ++ [none] := List.map_append
  have hget : ∀ (j : Nat) (x : Lease), (s.leases ++ [none])[j]? = some (some x) → s.leases[j]? = some (some x) := by
    intro j x hj
    rw [List.getElem?_append] at hj
    split at hj
    · exact hj
    · rw [List.getElem?_singleton] at hj
      split at hj <;> nomatch hj
  refine ⟨h.running, ?_, ?_, ?_, ?_, ?_⟩
  · intro j pc hj hpc
    change (s.threads ++ [CppPc.out])[j]? = _ at hj
    rw [List.getElem?_append] at hj
    split at hj
    · exact h.exclusive j pc hj hpc
    · rw [List.getElem?_singleton] at hj
      split at hj <;> cases hj
      nomatch hpc
  · intro u l hul
    rw [leases, hl, List.countP_append]
    exact h.books u l hul
  · intro j x hj
    rw [leases, hl] at hj
    exact h.owns j x (hget j x hj)
  · intro j x hj
    rw [leases, hl] at hj
    exact h.opened j x (hget j x hj)
  · intro u hu
    obtain ⟨j, x, hj, hx⟩ := h.field u hu
    rw [leases, hl]
    exact ⟨j, x, (List.getElem?_append_left (List.getElem?_eq_some_iff.1 hj).1).trans hj, hx⟩

/-- `delete ulock` is the one deletion of the unique_lock. -/
theorem delete (h : Inv s) {i u : Nat} (hi : s.threads[i]? = some (.deleting u)) :
    Inv { s with
      mutex := if (s.ulocks[u]?).any UniqueLock.owns then { s.mutex with owner := none } else s.mutex
      ulocks := s.ulocks.modify u (fun l => { l with deletions := l.deletions + 1 })
      threads := s.threads.set i .out } := by
  have hlease : s.leases[i]? = some (some ⟨u, false, false⟩) := leases_getElem? hi
  obtain ⟨l, hl, hown⟩ := h.owns i _ hlease
  have hany : (s.ulocks[u]?).any UniqueLock.owns = false := by
    rw [hl]
    exact hown
  have hset : ∀ (j : Nat) (y : Lease), (s.leases.set i none)[j]? = some (some y) → s.leases[j]? = some (some y) := by
    intro j y hj
    rcases getElem?_set_cases hj with ⟨-, he⟩ | ⟨-, hj⟩
    · nomatch he
    · exact hj
  rw [hany, if_neg nofun]
  refine ⟨h.running, h.exclusive.move rfl, ?_, ?_, ?_, ?_⟩
  · rw [leases, leases_set, CppPc.lease_out]
    intro v m hm
    rw [List.getElem?_modify] at hm
    obtain ⟨m₀, hm₀, rfl⟩ := Option.map_eq_some_iff.1 hm
    have hbooks := h.books v m₀ hm₀
    have hcount := countP_set (y := none) (isUlock v) hlease
    by_cases hv : u = v
    · subst hv
      simp at hcount ⊢
      omega
    · simp [hv] at hcount ⊢
      omega
  · rw [leases, leases_set]
    intro j y hj
    obtain ⟨m, hm, hmown⟩ := h.owns j y (hset j y hj)
    rw [List.getElem?_modify, hm]
    refine ⟨_, rfl, ?_⟩
    split <;> exact hmown
  · intro j y hj hopen
    rw [leases, leases_set] at hj
    exact h.opened j y (hset j y hj) hopen
  · intro v hv
    rw [leases, leases_set]
    obtain ⟨j, y, hj, rfl, hopen⟩ := h.field v hv
    by_cases hij : i = j
    · subst hij
      cases hlease.symm.trans hj
      nomatch hopen
    · exact ⟨j, y, (List.getElem?_set_ne hij).trans hj, rfl, hopen⟩

/-- `cond_wait` puts its unique_lock where there is none. -/
theorem condWait (h : Inv s) {i cond : Nat} {w : Option Nat} (hc : s.OneWaitAtATime (.condWait i cond true))
    (hi : s.threads[i]? = some (.holding w)) :
    Inv { s with
      mutex := ⟨none, some s.ulocks.length⟩
      ulocks := s.ulocks ++ [⟨false, 0⟩]
      threads := s.threads.set i (.waiting cond s.ulocks.length false) } := by
  have hclosed : ∀ (j : Nat) (x : Lease), s.leases[j]? = some (some x) → x.isOpen = false := by
    intro j x hj
    obtain ⟨pc, hpc, hx⟩ := threads_of_leases hj
    have := hc.2 pc (List.mem_of_getElem? hpc)
    rw [CppPc.hasWaited, hx] at this
    exact this
  have hlt : ∀ (j : Nat) (x : Lease), s.leases[j]? = some (some x) → x.ulock < s.ulocks.length := by
    intro j x hj
    obtain ⟨l, hl, -⟩ := h.owns j x hj
    exact (List.getElem?_eq_some_iff.1 hl).1
  have hlease : s.leases[i]? = some none := by
    cases w with
    | none => exact leases_getElem? hi
    | some u => nomatch hclosed i ⟨u, true, true⟩ (leases_getElem? hi)
  refine ⟨h.running, h.exclusive.leave hi rfl rfl, ?_, ?_, ?_, ?_⟩
  · rw [leases, leases_set, CppPc.lease]
    intro u l hl
    have hcount := countP_set (y := some ⟨s.ulocks.length, false, true⟩) (isUlock u) hlease
    by_cases hu : u = s.ulocks.length
    · subst hu
      have hzero : s.leases.countP (isUlock s.ulocks.length) = 0 := by
        refine List.countP_eq_zero.2 (fun o ho hu => ?_)
        obtain ⟨j, hj⟩ := List.mem_iff_getElem?.1 ho
        cases o with
        | none => nomatch hu
        | some x => exact absurd (beq_iff_eq.1 hu) (Nat.ne_of_lt (hlt j x hj))
      simp at hl
      subst hl
      simp [hzero] at hcount ⊢
      omega
    · have hlu : s.ulocks[u]? = some l := by
        rw [List.getElem?_append_left] at hl
        · exact hl
        · have := (List.getElem?_eq_some_iff.1 hl).1
          simp at this
          omega
      have hbooks := h.books u l hlu
      have hne : s.ulocks.length ≠ u := fun e => hu e.symm
      simp [hne] at hcount
      omega
  · rw [leases, leases_set]
    intro j y hj
    rcases getElem?_set_cases hj with ⟨-, he⟩ | ⟨-, hj⟩
    · cases he
      exact ⟨⟨false, 0⟩, by simp, rfl⟩
    · obtain ⟨l, hl, hown⟩ := h.owns j y hj
      exact ⟨l, (List.getElem?_append_left (hlt j y hj)).trans hl, hown⟩
  · intro j y hj hopen
    rw [leases, leases_set] at hj
    rcases getElem?_set_cases hj with ⟨-, he⟩ | ⟨-, hj⟩
    · cases he
      rfl
    · nomatch (hclosed j y hj).symm.trans hopen
  · intro u hu
    rw [leases, leases_set]
    exact ⟨i, _, List.getElem?_set_self (List.getElem?_eq_some_iff.1 hlease).1, Option.some.inj hu, rfl⟩

/-- Every step with one wait at a time keeps the invariant. -/
theorem step (h : Inv s) (hc : s.OneWaitAtATime a) (hs : StepCase s a s' ev) : Inv s' := by
  cases hs with
  | thread => exact h.thread
  | mutexLock hi hfree =>
    refine h.quiet (leases_set_same hi rfl) rfl rfl rfl ?_
    exact Exclusive.enter (hfree ▸ h.exclusive)
  | @unlockUlock i u w l hi hu hl hown hdel =>
    obtain rfl := h.unlockUlock hc hi hu
    have hlease := leases_getElem? hi
    obtain ⟨hbooks, howns⟩ := h.rebind ⟨u, false, false⟩ hlease rfl
    refine ⟨h.running, h.exclusive.leave hi rfl rfl, ?_, ?_, ?_, nofun⟩
    · rw [leases, leases_set]
      exact hbooks
    · rw [leases, leases_set]
      exact howns
    · intro j y hj hopen
      rw [leases, leases_set] at hj
      rcases getElem?_set_cases hj with ⟨-, he⟩ | ⟨hne, hj⟩
      · cases he
        nomatch hopen
      · have hy : u = y.ulock := Option.some.inj (hu.symm.trans (h.opened j y hj hopen))
        exact absurd (h.unique hlease hj hy).symm hne
  | unlockError hi hu hbad => exact absurd hbad (h.unlock_ok hc hi hu)
  | @unlockMutex i w hi hu =>
    have hw : w = none := by
      cases w with
      | none => rfl
      | some u => nomatch hu.symm.trans (h.opened i _ (leases_getElem? hi) rfl)
    subst hw
    exact h.quiet (leases_set_same hi rfl) rfl rfl rfl (h.exclusive.leave hi rfl rfl)
  | delete hi => exact h.delete hi
  | condWait hi => exact h.condWait hc hi
  | condWaitFails hi => exact h
  | @wake i cond u hi hfree =>
    have hlease := leases_getElem? hi
    obtain ⟨hbooks, howns⟩ := h.rebind ⟨u, true, true⟩ hlease rfl
    refine ⟨h.running, Exclusive.enter (hfree ▸ h.exclusive), ?_, ?_, ?_, ?_⟩
    · rw [leases, leases_set]
      exact hbooks
    · rw [leases, leases_set]
      exact howns
    · intro j y hj hopen
      rw [leases, leases_set] at hj
      rcases getElem?_set_cases hj with ⟨-, he⟩ | ⟨-, hj⟩
      · cases he
        exact h.opened i ⟨u, false, true⟩ hlease rfl
      · exact h.opened j y hj hopen
    · intro v hv
      rw [leases, leases_set]
      obtain ⟨j, y, hj, rfl, hopen⟩ := h.field v hv
      by_cases hij : i = j
      · subst hij
        cases hlease.symm.trans hj
        exact ⟨i, _, List.getElem?_set_self (List.getElem?_eq_some_iff.1 hlease).1, rfl, rfl⟩
      · exact ⟨j, y, (List.getElem?_set_ne hij).trans hj, rfl, hopen⟩
  | spurious hi => exact h.quiet (leases_set_same hi rfl) rfl rfl rfl (h.exclusive.move rfl)
  | condSignal hi hpc => exact h.notified (@signal_woken _ (CppPc.sleeperOn _) _ _)
  | condBroadcast hi hpc => exact h.notified (@broadcast_woken _ (CppPc.sleeperOn _) _)

theorem of_run {log : List CppEvent} (h : machine.Run OneWaitAtATime init s log) : Inv s := by
  refine h.stateInv ⟨rfl, ?_, ?_, ?_, ?_, by simp [init]⟩ (fun s log a s' ev _ hi hc hs => hi.step hc (step_cases hs).2)
  · intro i pc hi
    simp [init] at hi
  · intro u l hl
    simp [init] at hl
  · intro i x hi
    simp [init, leases] at hi
  · intro i x hi
    simp [init, leases] at hi

end Inv

/-! ## The pthread backend does the same -/

/-- The mutex as its callers see it. -/
def abs (s : CppThreads) : PthreadMutex := ⟨s.mutex.owner, s.threads.map CppPc.abs⟩

/-- What a step does in the pthread backend; a `delete` does nothing there. -/
theorem step_abs (h : Inv s) (hc : s.OneWaitAtATime a) (hs : StepCase s a s' ev) :
    PthreadMutex.spec.Step s.abs (ev.filterMap CppEvent.api?) s'.abs ∨ (ev.filterMap CppEvent.api? = [] ∧ s'.abs = s.abs) := by
  cases hs with
  | thread => exact Or.inl ⟨.thread, by simp [PthreadMutex.step, abs, CppPc.abs]⟩
  | @mutexLock i hi hfree =>
    exact Or.inl ⟨.mutexLock i, by simp [PthreadMutex.step, abs, hi, hfree, CppPc.abs, CppEvent.api?, List.map_set]⟩
  | @unlockUlock i u w l hi hu hl hown hdel =>
    exact Or.inl ⟨.mutexUnlock i, by simp [PthreadMutex.step, abs, hi, CppPc.abs, List.filterMap_cons, CppEvent.api?, List.map_set]⟩
  | unlockError hi hu hbad => exact absurd hbad (h.unlock_ok hc hi hu)
  | @unlockMutex i w hi hu =>
    exact Or.inl ⟨.mutexUnlock i, by simp [PthreadMutex.step, abs, hi, CppPc.abs, CppEvent.api?, List.map_set]⟩
  | @delete i u hi =>
    obtain ⟨l, hl, hown⟩ := h.owns i _ (leases_getElem? hi)
    refine Or.inr ⟨rfl, ?_⟩
    have hset : (s.threads.set i .out).map CppPc.abs = s.threads.map CppPc.abs := map_set_same CppPc.abs hi rfl
    simp [abs, hl, hown, hset]
  | @condWait i cond w hi =>
    exact Or.inl ⟨.condWait i cond, by simp [PthreadMutex.step, abs, hi, CppPc.abs, CppEvent.api?, List.map_set]⟩
  | condWaitFails hi => exact absurd hc.1 nofun
  | @wake i cond u hi hfree =>
    exact Or.inl ⟨.wake i, by simp [PthreadMutex.step, abs, hi, hfree, CppPc.abs, CppEvent.api?, List.map_set]⟩
  | @spurious i cond u b hi =>
    exact Or.inl ⟨.spurious i, by simp [PthreadMutex.step, abs, hi, CppPc.abs, List.map_set]⟩
  | @condSignal i cond ks pc hi hpc =>
    refine Or.inl ⟨.condSignal i cond ks, ?_⟩
    rcases CppPc.abs_of_free hpc with hpc | hpc <;>
      simp [PthreadMutex.step, abs, hi, hpc, CppEvent.api?, CppPc.signal_abs]
  | @condBroadcast i cond pc hi hpc =>
    refine Or.inl ⟨.condBroadcast i cond, ?_⟩
    rcases CppPc.abs_of_free hpc with hpc | hpc <;>
      simp [PthreadMutex.step, abs, hi, hpc, CppEvent.api?, CppPc.broadcast_abs]

/-- `pthread_cond_wait` returns 0. -/
theorem pthread_condWait {p p' : PthreadMutex} {l : List ThreadEvent} (hs : PthreadMutex.spec.Step p l p') {i : Nat} {ret : Int}
    (he : .condWait i ret ∈ l) : ret = 0 := by
  obtain ⟨b, hb⟩ := hs
  cases b with
  | thread =>
    cases hb
    cases he
  | wake j =>
    simp only [PthreadMutex.step] at hb
    split at hb <;> cases hb
    cases List.mem_singleton.1 he
    rfl
  | spurious j =>
    simp only [PthreadMutex.step] at hb
    split at hb <;> cases hb
    cases he
  | mutexLock j | mutexUnlock j | condWait j cond | condSignal j cond ks | condBroadcast j cond =>
    simp only [PthreadMutex.step] at hb
    split at hb <;> cases hb <;> cases List.mem_singleton.1 he

theorem pthread_condWait_of_reach {p : PthreadMutex} {l : List ThreadEvent} (h : PthreadMutex.spec.Reach PthreadMutex.init p l) :
    ∀ i ret, .condWait i ret ∈ l → ret = 0 := by
  refine h.invariant (I := fun _ l => ∀ i ret, .condWait i ret ∈ l → ret = 0) nofun ?_
  intro t l ev t' hi hs i ret he
  rcases List.mem_append.1 he with he | he
  · exact hi i ret he
  · exact pthread_condWait hs he

/-! ## Unique_locks that are lost -/

/-- The unique_lock is not in the mutex, and no thread is about to delete it. -/
structure Lost (u : Nat) (s : CppThreads) : Prop where
  live : ∃ l, s.ulocks[u]? = some l ∧ l.deletions = 0
  field : s.mutex.ulock ≠ some u
  kept : ∀ pc ∈ s.threads, pc ≠ .deleting u

namespace Lost

variable {u : Nat}

theorem live_modify {ulocks : List UniqueLock} (h : ∃ l, ulocks[u]? = some l ∧ l.deletions = 0) {v : Nat}
    {f : UniqueLock → UniqueLock} (hf : v ≠ u ∨ ∀ l, (f l).deletions = l.deletions) :
    ∃ l, (ulocks.modify v f)[u]? = some l ∧ l.deletions = 0 := by
  obtain ⟨l, hl, hdel⟩ := h
  rw [List.getElem?_modify, hl]
  refine ⟨_, rfl, ?_⟩
  split
  · rename_i hv
    exact ((hf.resolve_left (fun hne => hne hv)) l).trans hdel
  · exact hdel

theorem kept_set {threads : List CppPc} (h : ∀ pc ∈ threads, pc ≠ .deleting u) {i : Nat} {pc : CppPc} (hpc : pc ≠ .deleting u) :
    ∀ pc' ∈ threads.set i pc, pc' ≠ .deleting u := by
  intro pc' hpc'
  rcases List.mem_or_eq_of_mem_set hpc' with hpc' | rfl
  · exact h pc' hpc'
  · exact hpc

theorem kept_woken {threads threads' : List CppPc} (h : ∀ pc ∈ threads, pc ≠ .deleting u) {cond : Nat}
    (hw : @Woken _ (CppPc.sleeperOn cond) threads threads') : ∀ pc ∈ threads', pc ≠ .deleting u := by
  let _ := CppPc.sleeperOn cond
  intro pc hpc
  obtain ⟨i, hi⟩ := List.mem_iff_getElem?.1 hpc
  obtain ⟨pc₀, hi₀, rfl | rfl⟩ := hw.getElem? hi
  · exact h pc (List.mem_of_getElem? hi₀)
  · have := h pc₀ (List.mem_of_getElem? hi₀)
    cases pc₀ with
    | deleting v => exact this
    | _ => nofun

/-- No step finds it again. -/
theorem step (h : Lost u s) (hs : StepCase s a s' ev) : Lost u s' := by
  cases hs with
  | thread =>
    refine ⟨h.live, h.field, fun pc hpc => ?_⟩
    rcases List.mem_append.1 hpc with hpc | hpc
    · exact h.kept pc hpc
    · rw [List.mem_singleton.1 hpc]
      nofun
  | mutexLock hi hfree => exact ⟨h.live, h.field, kept_set h.kept nofun⟩
  | unlockUlock hi hu hl hown hdel =>
    refine ⟨live_modify h.live (Or.inr fun _ => rfl), nofun, kept_set h.kept (fun e => ?_)⟩
    cases e
    exact h.field hu
  | unlockError hi hu hbad => exact ⟨h.live, nofun, h.kept⟩
  | unlockMutex hi hu => exact ⟨h.live, h.field, kept_set h.kept nofun⟩
  | @delete i v hi =>
    have hv : v ≠ u := fun e => h.kept _ (List.mem_of_getElem? hi) (e ▸ rfl)
    refine ⟨live_modify h.live (Or.inl hv), ?_, kept_set h.kept nofun⟩
    dsimp only
    split <;> exact h.field
  | condWait hi =>
    obtain ⟨l, hl, hdel⟩ := h.live
    have hlt := (List.getElem?_eq_some_iff.1 hl).1
    refine ⟨⟨l, (List.getElem?_append_left hlt).trans hl, hdel⟩, fun e => ?_, kept_set h.kept nofun⟩
    exact absurd (Option.some.inj e) (Nat.ne_of_gt hlt)
  | condWaitFails hi => exact h
  | wake hi hfree => exact ⟨live_modify h.live (Or.inr fun _ => rfl), h.field, kept_set h.kept nofun⟩
  | spurious hi => exact ⟨h.live, h.field, kept_set h.kept nofun⟩
  | condSignal hi hpc => exact ⟨h.live, h.field, kept_woken h.kept (@signal_woken _ (CppPc.sleeperOn _) _ _)⟩
  | condBroadcast hi hpc => exact ⟨h.live, h.field, kept_woken h.kept (@broadcast_woken _ (CppPc.sleeperOn _) _)⟩

/-- It is never deleted. -/
theorem of_run (h : Lost u s) {log : List CppEvent} (hr : machine.Reach s s' log) : ∃ l, s'.ulocks[u]? = some l ∧ l.deletions = 0 :=
  (hr.stateInv h (fun _ _ _ _ _ _ hi _ hs => hi.step (step_cases hs).2)).live

end Lost

/-! ## Main results -/

/-- Thread 1 locks and unlocks the mutex while thread 0 waits: its `mutex_unlock` calls `unlock` on the unique_lock of thread 0 and fails.
And a thread that waits twice before it unlocks loses its first unique_lock. -/
theorem unlock_takes_ulock_of_waiter :
    (∃ s log s' ev, machine.Reach init s log ∧ s.threads = [.waiting 0 0 false, .holding none] ∧
      s.step (.mutexUnlock 1) = some (s', ev) ∧ ev = [.ulockUnlock 1 0] ∧ s'.terminated = true) ∧
    (∃ s log, machine.Reach init s log ∧ s.threads = [.out] ∧ s.ulocks = [⟨true, 0⟩, ⟨false, 1⟩]) := by
  constructor
  · have hexec : (machine.exec init [.thread, .thread, .mutexLock 0, .condWait 0 0 true, .mutexLock 1]).map
        (fun r => (r.1.threads, (r.1.step (.mutexUnlock 1)).map (fun r' => (r'.2, r'.1.terminated)))) =
        some ([.waiting 0 0 false, .holding none], some ([.ulockUnlock 1 0], true)) := by decide
    obtain ⟨s, log, h, hval⟩ := Machine.exists_of_exec (fun (s : CppThreads) _ =>
      (s.threads, (s.step (.mutexUnlock 1)).map (fun r' => (r'.2, r'.1.terminated)))) hexec
    obtain ⟨hthreads, hstep⟩ := Prod.mk.inj hval
    obtain ⟨⟨s', ev⟩, hs, hr⟩ := Option.map_eq_some_iff.1 hstep
    obtain ⟨hev, hterm⟩ := Prod.mk.inj hr
    exact ⟨s, log, s', ev, h, hthreads, hs, hev, hterm⟩
  · have hexec : (machine.exec init [.thread, .mutexLock 0, .condWait 0 0 true, .spurious 0, .wake 0, .condWait 0 0 true, .spurious 0,
        .wake 0, .mutexUnlock 0, .delete 0]).map (fun r => (r.1.threads, r.1.ulocks)) =
        some ([.out], [⟨true, 0⟩, ⟨false, 1⟩]) := by decide
    obtain ⟨s, log, h, hval⟩ := Machine.exists_of_exec (fun (s : CppThreads) _ => (s.threads, s.ulocks)) hexec
    obtain ⟨hthreads, hulocks⟩ := Prod.mk.inj hval
    exact ⟨s, log, h, hthreads, hulocks⟩

/-- Under the invariant the holder's `mutex_unlock` succeeds and frees the mutex. -/
theorem Inv.unlock_succeeds (h : Inv s) {i : Nat} {w : Option Nat} (hi : s.threads[i]? = some (.holding w))
    (hc : s.OneWaitAtATime (.mutexUnlock i)) :
    ∃ s' ev, s.step (.mutexUnlock i) = some (s', ev) ∧ s'.mutex.owner = none ∧ .api (.mutexUnlock i 0) ∈ ev := by
  have hsome : ∃ s' ev, s.step (.mutexUnlock i) = some (s', ev) := by
    unfold CppThreads.step
    rw [h.running, if_neg nofun]
    change ∃ s' ev, s.mutexUnlock i = some (s', ev)
    unfold mutexUnlock
    rw [hi]
    dsimp only
    split
    · split <;> exact ⟨_, _, rfl⟩
    · exact ⟨_, _, rfl⟩
  obtain ⟨s', ev, hs⟩ := hsome
  refine ⟨s', ev, hs, ?_⟩
  cases (step_cases hs).2 with
  | unlockUlock _ _ _ _ _ => exact ⟨rfl, by simp⟩
  | unlockError hi hu hbad => exact absurd hbad (h.unlock_ok hc hi hu)
  | unlockMutex _ _ => exact ⟨rfl, by simp⟩

/-- Under the invariant nobody unlocks or deletes the unique_lock of a thread inside `cond_wait`. -/
theorem Inv.ulock_not_of_waiter (h : Inv s) (hc : s.OneWaitAtATime a) (hs : StepCase s a s' ev) {i u : Nat}
    (he : .ulockUnlock i u ∈ ev ∨ .deleted i u ∈ ev) : ∀ cond b, CppPc.waiting cond u b ∉ s.threads := by
  intro cond b hmem
  obtain ⟨j, hj⟩ := List.mem_iff_getElem?.1 hmem
  have hwaiter : s.leases[j]? = some (some ⟨u, false, true⟩) := leases_getElem? hj
  cases hs with
  | unlockUlock hi hu hl hown hdel => exact absurd (hc _ hmem) nofun
  | unlockError hi hu hbad => exact absurd (hc _ hmem) nofun
  | unlockMutex hi hu => simp at he
  | delete hi =>
    simp at he
    obtain ⟨rfl, rfl⟩ := he
    have hlease := leases_getElem? hi
    obtain rfl := h.unique hlease hwaiter rfl
    nomatch hlease.symm.trans hwaiter
  | _ => simp at he

/-- The unique_lock of a thread inside `cond_wait` is in the mutex, and does not own it. -/
theorem Inv.of_not_unlock (h : Inv s) {i : Nat} (hc : ¬ s.OneWaitAtATime (.mutexUnlock i)) :
    ∃ u cond b, .waiting cond u b ∈ s.threads ∧ s.mutex.ulock = some u ∧ ∀ l, s.ulocks[u]? = some l → l.owns = false := by
  obtain ⟨pc, hpc, hwait⟩ : ∃ pc ∈ s.threads, pc.isWaiting = true := by simpa [OneWaitAtATime] using hc
  obtain ⟨j, hj⟩ := List.mem_iff_getElem?.1 hpc
  cases pc with
  | waiting cond u b =>
    have hlease : s.leases[j]? = some (some ⟨u, false, true⟩) := leases_getElem? hj
    obtain ⟨l, hl, hown⟩ := h.owns j _ hlease
    refine ⟨u, cond, b, hpc, h.opened j _ hlease rfl, fun m hm => ?_⟩
    cases hl.symm.trans hm
    exact hown
  | _ => nomatch hwait

/-- A unique_lock that is in the mutex when another takes its place is lost. -/
theorem Inv.lost_of_wait (h : Inv s) {i cond : Nat} (hc : ¬ s.OneWaitAtATime (.condWait i cond true))
    (hs : StepCase s (.condWait i cond true) s' ev) : ∃ u, Lost u s' := by
  obtain ⟨pc, hpc, hwaited⟩ : ∃ pc ∈ s.threads, pc.hasWaited = true := by simpa [OneWaitAtATime] using hc
  obtain ⟨j, hj⟩ := List.mem_iff_getElem?.1 hpc
  obtain ⟨x, hx, hopen⟩ := (Option.any_eq_true _ _).1 hwaited
  have hlease : s.leases[j]? = some (some x) := hx ▸ leases_getElem? hj
  obtain ⟨l, hl, -⟩ := h.owns j x hlease
  have hlt := (List.getElem?_eq_some_iff.1 hl).1
  refine ⟨x.ulock, ?_⟩
  cases hs with
  | condWait hi =>
    refine ⟨⟨l, (List.getElem?_append_left hlt).trans hl, h.not_deleted hlease hl⟩, fun e => ?_, Lost.kept_set ?_ nofun⟩
    · exact absurd (Option.some.inj e) (Nat.ne_of_gt hlt)
    · rintro pc' hpc' rfl
      obtain ⟨k, hk⟩ := List.mem_iff_getElem?.1 hpc'
      have hdeleting : s.leases[k]? = some (some ⟨x.ulock, false, false⟩) := leases_getElem? hk
      obtain rfl := h.unique hdeleting hlease rfl
      have hx : ⟨x.ulock, false, false⟩ = x := Option.some.inj (Option.some.inj (hdeleting.symm.trans hlease))
      nomatch (congrArg Lease.isOpen hx).trans hopen

/-- A step with a second wait, with an unlock under a wait, or with no memory for a unique_lock does what must not be done. -/
theorem Inv.broken (h : Inv s) (hc : ¬ s.OneWaitAtATime a) (hs : StepCase s a s' ev) :
    (∃ i u cond b, .ulockUnlock i u ∈ ev ∧ .waiting cond u b ∈ s.threads ∧ s'.terminated = true) ∨ (∃ u, Lost u s') ∨
      ∃ i w, s.threads[i]? = some (.holding w) ∧ s' = s ∧ ev = [.api (.condWait i (-ENOMEM))] := by
  cases hs with
  | unlockUlock hi hu hl hown hdel =>
    obtain ⟨u, cond, b, hmem, hfield, hfree⟩ := h.of_not_unlock hc
    cases hu.symm.trans hfield
    nomatch hown.symm.trans (hfree _ hl)
  | @unlockError i v w hi hu hbad =>
    obtain ⟨u, cond, b, hmem, hfield, -⟩ := h.of_not_unlock hc
    cases hu.symm.trans hfield
    exact Or.inl ⟨i, v, cond, b, List.mem_singleton_self _, hmem, rfl⟩
  | unlockMutex hi hu =>
    obtain ⟨u, cond, b, hmem, hfield, -⟩ := h.of_not_unlock hc
    nomatch hu.symm.trans hfield
  | condWait hi => exact Or.inr (Or.inl (h.lost_of_wait hc (StepCase.condWait hi)))
  | condWaitFails hi => exact Or.inr (Or.inr ⟨_, _, hi, rfl, rfl⟩)
  | _ => exact absurd trivial hc

/-- The C++ backend, for any number of threads and condition variables. In a run with one wait at a time it does what the pthread backend
may do, each unique_lock has been deleted once or is that of one thread that has yet to delete it, and the holder's `mutex_unlock`
succeeds, frees the mutex and leaves the unique_locks of waiters alone. The first step that is not so unlocks the unique_lock of a
waiter, which is an error, or loses a unique_lock that is then never deleted, or is a `cond_wait` that returns at once with an error,
which no run of the pthread backend has. -/
theorem cpp_backend_refines_pthread (s : CppThreads) (log : List CppEvent) (h : machine.Run OneWaitAtATime init s log) :
    (PthreadMutex.spec.Reach PthreadMutex.init s.abs (log.filterMap CppEvent.api?) ∧ s.terminated = false ∧
      (∀ (u : Nat) (l : UniqueLock), s.ulocks[u]? = some l → l.deletions + s.leases.countP (isUlock u) = 1) ∧
      (∀ (i : Nat) w, s.threads[i]? = some (.holding w) → s.OneWaitAtATime (.mutexUnlock i) →
        ∃ s' ev, s.step (.mutexUnlock i) = some (s', ev) ∧ s'.mutex.owner = none ∧ .api (.mutexUnlock i 0) ∈ ev) ∧
      (∀ a s' ev, s.OneWaitAtATime a → s.step a = some (s', ev) → ∀ i u, .ulockUnlock i u ∈ ev ∨ .deleted i u ∈ ev →
        ∀ cond b, CppPc.waiting cond u b ∉ s.threads)) ∧
    (∀ a s' ev, ¬ s.OneWaitAtATime a → s.step a = some (s', ev) →
      (∃ i u cond b, .ulockUnlock i u ∈ ev ∧ .waiting cond u b ∈ s.threads ∧ s'.terminated = true) ∨
      (∃ u : Nat, ∀ s₂ log₂, machine.Reach s' s₂ log₂ → ∃ l, s₂.ulocks[u]? = some l ∧ l.deletions = 0) ∨
      (∃ i w, s.threads[i]? = some (.holding w) ∧ s' = s ∧ ev = [.api (.condWait i (-ENOMEM))] ∧
        ∀ p l, PthreadMutex.spec.Reach PthreadMutex.init p l → .condWait i (-ENOMEM) ∉ l)) := by
  have hinv := Inv.of_run h
  refine ⟨⟨?_, hinv.running, hinv.books, fun i w hi hc => hinv.unlock_succeeds hi hc,
    fun a s' ev hc hs i u he => hinv.ulock_not_of_waiter hc (step_cases hs).2 he⟩, fun a s' ev hc hs => ?_⟩
  · exact h.refines abs CppEvent.api? (fun s a s' ev log hr hc hs => step_abs (Inv.of_run hr) hc (step_cases hs).2)
  · rcases hinv.broken hc (step_cases hs).2 with herr | ⟨u, hlost⟩ | ⟨i, w, hi, hsame, hev⟩
    · exact Or.inl herr
    · exact Or.inr (Or.inl ⟨u, fun s₂ log₂ hr => hlost.of_run hr⟩)
    · refine Or.inr (Or.inr ⟨i, w, hi, hsame, hev, fun p l hr he => ?_⟩)
      exact absurd (pthread_condWait_of_reach hr i _ he) (by decide)

/-- Thread 0 waits until thread 1, which does not lock the mutex before, has signalled. -/
theorem cpp_backend_refines_pthread_small : ∃ s log, machine.Run OneWaitAtATime init s log ∧ s.threads = [.out, .out] ∧
    s.ulocks = [⟨false, 1⟩] ∧ PthreadMutex.spec.Reach PthreadMutex.init s.abs (log.filterMap CppEvent.api?) := by
  have hexec : (machine.execIf OneWaitAtATime init [.thread, .thread, .mutexLock 0, .condWait 0 0 true, .condSignal 1 0 [], .wake 0,
      .mutexUnlock 0, .mutexLock 1, .delete 0, .mutexUnlock 1]).map (fun r => (r.1.threads, r.1.ulocks)) =
      some ([.out, .out], [⟨false, 1⟩]) := by decide
  obtain ⟨s, log, h, hval⟩ := Machine.exists_of_exec (fun (s : CppThreads) _ => (s.threads, s.ulocks)) hexec
  obtain ⟨hthreads, hulocks⟩ := Prod.mk.inj hval
  exact ⟨s, log, h, hthreads, hulocks, (cpp_backend_refines_pthread s log h).1.1⟩

end CppThreads

end GwBot

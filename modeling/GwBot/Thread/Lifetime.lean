import GwBot.Errno
import GwBot.Lib.Machine
import GwBot.Lib.Threads

/-!
# The life of a thread in the C++ backend

Under `CONFIG_CPP_THREAD` a thread has a `struct thread_struct`, which `thread_create` allocates, into which the thread writes what its
function has returned, and which `thread_join` and `thread_detach` free. Any number of threads are created, each is joined or detached at
most once, and they go on in any order. What the callers see is what pthread does, with two differences. `thread_detach` does not wait,
and a thread that comes to write its result after it writes into freed memory. And where the system has no thread to give,
`pthread_create` returns an error, while here the constructor of `std::thread` throws; nobody catches it, and the process terminates.
-/

namespace GwBot

open Lib

/-- Where `__thread_entry` stands: in the function, before the store of what that has returned, or ended. -/
inductive EntryPc (V : Type) where
  | running
  | storing (ret : V)
  | ended (ret : V)
  deriving DecidableEq, Repr

/-- `struct thread_struct` and its thread; `ret` is `none` as long as nothing has been stored to it. -/
structure ThreadStruct (V : Type) where
  entry : EntryPc V
  ret : Option V
  freed : Bool
  deriving DecidableEq, Repr

/-- What happens to threads. `wild` is a store into a struct that has been freed, `thrown` the exception of `std::thread`. -/
inductive LifeEvent (V : Type) where
  | created (i : Nat)
  | refused
  | thrown
  | returned (i : Nat) (ret : V)
  | stored (i : Nat)
  | wild (i : Nat)
  | joined (i : Nat) (ret : Option V)
  | detached (i : Nat)
  deriving DecidableEq, Repr

variable {V : Type}

/-- The threads that have been created. -/
structure CppLives (V : Type) where
  threads : List (ThreadStruct V)
  /-- An exception has left `thread_create`. -/
  terminated : Bool
  deriving DecidableEq, Repr

namespace CppLives

/-- The steps: calls of the three functions, and what the threads do. -/
inductive Act (V : Type) where
  /-- `malloc` says whether there is memory for the struct, `grants` whether the system has a thread to give. -/
  | create (malloc grants : Bool)
  | finish (i : Nat) (ret : V)
  | store (i : Nat)
  | join (i : Nat)
  | detach (i : Nat)
  deriving DecidableEq, Repr

variable (s : CppLives V)

/-- Before any call. -/
def init : CppLives V := ⟨[], false⟩

/-- Thread `i` after a step of its own. -/
def set (i : Nat) (t : ThreadStruct V) : CppLives V := { s with threads := s.threads.set i t }

/-- `thread_create`. -/
def threadCreate (malloc grants : Bool) : CppLives V × List (LifeEvent V) :=
  if malloc then
    if grants then ({ s with threads := s.threads ++ [⟨.running, none, false⟩] }, [.created s.threads.length])
    else ({ s with terminated := true }, [.thrown])
  else (s, [.refused])

/-- `__thread_entry`, from the return of the function on. -/
def threadEntry (i : Nat) (t : ThreadStruct V) : Option (CppLives V × List (LifeEvent V)) :=
  match t.entry with
  | .storing ret =>
    if t.freed then some (s.set i { t with entry := .ended ret }, [.stored i, .wild i])
    else some (s.set i { t with entry := .ended ret, ret := some ret }, [.stored i])
  | _ => none

/-- `thread_join`, which waits for the end of the thread. -/
def threadJoin (i : Nat) (t : ThreadStruct V) : Option (CppLives V × List (LifeEvent V)) :=
  match t.entry with
  | .ended _ => some (s.set i { t with freed := true }, [.joined i t.ret])
  | _ => none

/-- `thread_detach`. -/
def threadDetach (i : Nat) (t : ThreadStruct V) : CppLives V × List (LifeEvent V) := (s.set i { t with freed := true }, [.detached i])

/-- A step; nothing moves after an exception. A thread that has been joined or detached is neither joined nor detached again. -/
def step (a : Act V) : Option (CppLives V × List (LifeEvent V)) :=
  if s.terminated then none
  else
    match a with
    | .create malloc grants => some (s.threadCreate malloc grants)
    | .finish i ret =>
      match s.threads[i]? with
      | some ⟨.running, r, freed⟩ => some (s.set i ⟨.storing ret, r, freed⟩, [.returned i ret])
      | _ => none
    | .store i => s.threads[i]?.bind (s.threadEntry i)
    | .join i => (s.threads[i]?.filter (fun t => !t.freed)).bind (s.threadJoin i)
    | .detach i => (s.threads[i]?.filter (fun t => !t.freed)).map (s.threadDetach i)

/-- The threads as a machine. -/
def machine : Machine (CppLives V) (Act V) (LifeEvent V) := ⟨step⟩

end CppLives

/-! ## pthread -/

/-- A thread of pthread: what its function has returned, and whether it may be joined. -/
structure PthreadThread (V : Type) where
  result : Option V
  joinable : Bool
  deriving DecidableEq, Repr

/-- What pthread does. -/
inductive PthreadLives.Step : List (PthreadThread V) → List (LifeEvent V) → List (PthreadThread V) → Prop where
  | create (s : List (PthreadThread V)) : Step s [.created s.length] (s ++ [⟨none, true⟩])
  | refuse (s : List (PthreadThread V)) : Step s [.refused] s
  | finish {s : List (PthreadThread V)} {i : Nat} {joinable : Bool} (ret : V) : s[i]? = some ⟨none, joinable⟩ →
      Step s [.returned i ret] (s.set i ⟨some ret, joinable⟩)
  | join {s : List (PthreadThread V)} {i : Nat} {ret : V} : s[i]? = some ⟨some ret, true⟩ →
      Step s [.joined i (some ret)] (s.set i ⟨some ret, false⟩)
  | detach {s : List (PthreadThread V)} {i : Nat} {result : Option V} : s[i]? = some ⟨result, true⟩ →
      Step s [.detached i] (s.set i ⟨result, false⟩)

/-- pthread as an abstract system. -/
def PthreadLives.spec (V : Type) : Spec (List (PthreadThread V)) (LifeEvent V) := ⟨PthreadLives.Step⟩

/-- What the callers and the threads' functions see of an event. After an exception nobody is left to see it. -/
def LifeEvent.api? : LifeEvent V → Option (LifeEvent V)
  | .stored _ | .wild _ | .thrown => none
  | e => some e

/-- A thread as pthread has it. -/
def ThreadStruct.abs (t : ThreadStruct V) : PthreadThread V :=
  ⟨match t.entry with
    | .running => none
    | .storing ret | .ended ret => some ret, !t.freed⟩

/-- The event is about a thread. -/
def LifeEvent.thread? : LifeEvent V → Option Nat
  | .created i | .returned i _ | .stored i | .wild i | .joined i _ | .detached i => some i
  | .refused | .thrown => none

/-- The event frees the struct of a thread. -/
def LifeEvent.frees (i : Nat) : LifeEvent V → Bool
  | .joined j _ | .detached j => j == i
  | _ => false

namespace CppLives

variable {s s' : CppLives V} {a : Act V} {log ev : List (LifeEvent V)} {i : Nat} {t t' : ThreadStruct V}

/-! ## Each step -/

/-- What a step does to the thread it is about. -/
inductive ThreadStep (i : Nat) : ThreadStruct V → ThreadStruct V → List (LifeEvent V) → Prop where
  | finish (r : Option V) (freed : Bool) (ret : V) : ThreadStep i ⟨.running, r, freed⟩ ⟨.storing ret, r, freed⟩ [.returned i ret]
  | store (r : Option V) (ret : V) : ThreadStep i ⟨.storing ret, r, false⟩ ⟨.ended ret, some ret, false⟩ [.stored i]
  | wild (r : Option V) (ret : V) : ThreadStep i ⟨.storing ret, r, true⟩ ⟨.ended ret, r, true⟩ [.stored i, .wild i]
  | join (r : Option V) (ret : V) : ThreadStep i ⟨.ended ret, r, false⟩ ⟨.ended ret, r, true⟩ [.joined i r]
  | detach (entry : EntryPc V) (r : Option V) : ThreadStep i ⟨entry, r, false⟩ ⟨entry, r, true⟩ [.detached i]

/-- What a step does. -/
inductive StepCase (s : CppLives V) : CppLives V → List (LifeEvent V) → Prop where
  | create : StepCase s { s with threads := s.threads ++ [⟨.running, none, false⟩] } [.created s.threads.length]
  | refuse : StepCase s s [.refused]
  | throws : StepCase s { s with terminated := true } [.thrown]
  | thread {i : Nat} {t t' : ThreadStruct V} {ev : List (LifeEvent V)} : s.threads[i]? = some t → ThreadStep i t t' ev →
      StepCase s (s.set i t') ev

/-- A step is one of the cases, and nothing has been thrown before it. -/
theorem step_cases (hs : s.step a = some (s', ev)) : s.terminated = false ∧ StepCase s s' ev := by
  unfold step at hs
  split at hs
  · nomatch hs
  rename_i hrun
  refine ⟨Bool.not_eq_true _ ▸ hrun, ?_⟩
  cases a with
  | create malloc grants =>
    simp only [threadCreate] at hs
    split at hs
    · split at hs
      · cases hs
        exact .create
      · cases hs
        exact .throws
    · cases hs
      exact .refuse
  | finish i ret =>
    simp only at hs
    split at hs
    · rename_i r freed hi
      cases hs
      exact .thread hi (.finish r freed ret)
    · cases hs
  | store i =>
    simp only [Option.bind_eq_some_iff] at hs
    obtain ⟨⟨entry, r, freed⟩, hi, hs⟩ := hs
    cases entry with
    | storing ret =>
      cases freed with
      | true =>
        cases hs
        exact .thread hi (.wild r ret)
      | false =>
        cases hs
        exact .thread hi (.store r ret)
    | running | ended _ => cases hs
  | join i =>
    simp only [Option.bind_eq_some_iff, Option.filter_eq_some_iff] at hs
    obtain ⟨⟨entry, r, freed⟩, ⟨hi, hfreed⟩, hs⟩ := hs
    obtain rfl : freed = false := by simpa using hfreed
    cases entry with
    | ended ret =>
      cases hs
      exact .thread hi (.join r ret)
    | running | storing _ => cases hs
  | detach i =>
    simp only [Option.map_eq_some_iff, Option.filter_eq_some_iff] at hs
    obtain ⟨⟨entry, r, freed⟩, ⟨hi, hfreed⟩, hs⟩ := hs
    obtain rfl : freed = false := by simpa using hfreed
    cases hs
    exact .thread hi (.detach entry r)

/-- A thread's steps log events about it. -/
theorem ThreadStep.thread?_eq (h : ThreadStep i t t' ev) : ∀ e ∈ ev, e.thread? = some i := by
  intro e he
  cases h <;> simp only [List.mem_cons, List.not_mem_nil, or_false] at he
  case wild =>
    rcases he with rfl | rfl <;> rfl
  all_goals
    subst he
    rfl

/-! ## The struct of each thread -/

/-- A pair in a log that goes on without the second of them. -/
theorem pair_sublist_append_iff {α : Type} {a b : α} {l m : List α} (hb : b ∉ m) : [a, b].Sublist (l ++ m) ↔ [a, b].Sublist l := by
  refine ⟨fun h => ?_, fun h => h.trans (List.sublist_append_left l m)⟩
  obtain ⟨l₁, l₂, heq, h1, h2⟩ := List.sublist_append_iff.1 h
  rcases List.eq_nil_or_concat l₂ with rfl | ⟨init, x, rfl⟩
  · rw [List.append_nil] at heq
    exact heq ▸ h1
  · obtain rfl : x = b := by
      have hlast := congrArg List.getLast? heq
      simpa using hlast.symm
    exact absurd (h2.subset (by simp)) hb

/-- What the log says of the struct of a thread. -/
structure ThreadInv (i : Nat) (t : Option (ThreadStruct V)) (log : List (LifeEvent V)) : Prop where
  result : ∀ ret r, t = some ⟨.ended ret, r, false⟩ → r = some ret
  frees : log.countP (LifeEvent.frees i) = if t.any ThreadStruct.freed then 1 else 0
  detached : ∀ u, t = some u → u.freed = true → (∃ ret, u.entry = .ended ret) ∨ .detached i ∈ log
  wild : .wild i ∈ log ↔ [.detached i, .stored i].Sublist log

/-- As long as the struct of a thread is there, the thread has not been detached. -/
theorem ThreadInv.not_detached (h : ThreadInv i (some t) log) (ht : t.freed = false) : .detached i ∉ log := by
  intro hm
  have hpos : 0 < log.countP (LifeEvent.frees i) := List.countP_pos_iff.2 ⟨_, hm, by simp [LifeEvent.frees]⟩
  rw [h.frees] at hpos
  simp [ht] at hpos

/-- A log that goes on without a store of the thread. -/
theorem ThreadInv.wild_append {t : Option (ThreadStruct V)} (h : ThreadInv i t log) (hstored : .stored i ∉ ev) (hwild : .wild i ∉ ev) :
    .wild i ∈ log ++ ev ↔ [.detached i, .stored i].Sublist (log ++ ev) := by
  rw [List.mem_append, or_iff_left hwild, pair_sublist_append_iff hstored]
  exact h.wild

/-- A log that goes on without a free of the struct. -/
theorem ThreadInv.frees_append {t : Option (ThreadStruct V)} (h : ThreadInv i t log) (hev : ev.countP (LifeEvent.frees i) = 0) :
    (log ++ ev).countP (LifeEvent.frees i) = if t.any ThreadStruct.freed then 1 else 0 := by
  rw [List.countP_append, hev, h.frees]
  rfl

/-- Events that are about other threads. -/
theorem ThreadInv.frame {t : Option (ThreadStruct V)} (h : ThreadInv i t log) (hev : ∀ e ∈ ev, e.thread? ≠ some i) :
    ThreadInv i t (log ++ ev) := by
  have hfrees : ev.countP (LifeEvent.frees i) = 0 := by
    refine List.countP_eq_zero.2 (fun e he hf => hev e he ?_)
    cases e <;> simp_all [LifeEvent.frees, LifeEvent.thread?]
  refine ⟨h.result, h.frees_append hfrees, ?_, h.wild_append (fun hm => hev _ hm rfl) (fun hm => hev _ hm rfl)⟩
  intro u hu hfreed
  exact (h.detached u hu hfreed).imp_right (List.mem_append_left _)

/-- The steps of the thread. -/
theorem ThreadInv.step (h : ThreadInv i (some t) log) (hs : ThreadStep i t t' ev) : ThreadInv i (some t') (log ++ ev) := by
  cases hs with
  | finish r freed ret =>
    refine ⟨by simp, h.frees_append rfl, ?_, h.wild_append (by simp) (by simp)⟩
    rintro u ⟨⟩ hfreed
    rcases h.detached _ rfl hfreed with ⟨_, hret⟩ | hm
    · cases hret
    · exact Or.inr (List.mem_append_left _ hm)
  | store r ret =>
    have hnd : LifeEvent.detached i ∉ log ++ [.stored i] := by simpa using h.not_detached rfl
    refine ⟨?_, h.frees_append rfl, ?_, ?_⟩
    · intro ret' r' heq
      cases heq
      rfl
    · rintro u ⟨⟩ hfreed
      cases hfreed
    · constructor
      · intro hm
        have hw : LifeEvent.wild i ∈ log := by simpa using hm
        exact absurd ((h.wild.1 hw).subset (by simp)) (h.not_detached rfl)
      · intro hsub
        exact absurd (hsub.subset (by simp)) hnd
  | wild r ret =>
    have hm : LifeEvent.detached i ∈ log := by
      rcases h.detached _ rfl rfl with ⟨_, hret⟩ | hm
      · cases hret
      · exact hm
    refine ⟨by simp, h.frees_append rfl, fun _ _ _ => Or.inr (List.mem_append_left _ hm), fun _ => ?_, fun _ => by simp⟩
    exact (List.singleton_sublist.2 hm).append (List.singleton_sublist.2 (by simp))
  | join r ret =>
    refine ⟨by simp, ?_, ?_, h.wild_append (by simp) (by simp)⟩
    · rw [List.countP_append, h.frees]
      simp [LifeEvent.frees]
    · rintro u ⟨⟩ _
      exact Or.inl ⟨ret, rfl⟩
  | detach entry r =>
    refine ⟨by simp, ?_, ?_, h.wild_append (by simp) (by simp)⟩
    · rw [List.countP_append, h.frees]
      simp [LifeEvent.frees]
    · exact fun _ _ _ => Or.inr (by simp)

/-- Each step. -/
theorem StepCase.inv (h : ∀ i, ThreadInv i s.threads[i]? log) (hs : StepCase s s' ev) (i : Nat) :
    ThreadInv i s'.threads[i]? (log ++ ev) := by
  cases hs with
  | create =>
    by_cases hi : i = s.threads.length
    · subst hi
      have hnone : s.threads[s.threads.length]? = none := List.getElem?_eq_none (le_refl _)
      have h := h s.threads.length
      rw [hnone] at h
      rw [List.getElem?_concat_length]
      refine ⟨by simp, h.frees_append rfl, ?_, h.wild_append (by simp) (by simp)⟩
      rintro u ⟨⟩ hfreed
      cases hfreed
    · have heq : (s.threads ++ [⟨.running, none, false⟩])[i]? = s.threads[i]? := by
        rw [List.getElem?_append]
        split
        · rfl
        · rw [List.getElem?_eq_none (by simp; omega), List.getElem?_eq_none (by omega)]
      rw [heq]
      refine (h i).frame (fun e he => ?_)
      rw [List.mem_singleton.1 he]
      exact fun h => hi (Option.some.inj h).symm
  | refuse | throws => exact (h i).frame (by simp [LifeEvent.thread?])
  | @thread j t t' _ hj hs =>
    have hlt := (List.getElem?_eq_some_iff.1 hj).1
    by_cases hi : j = i
    · subst hi
      rw [CppLives.set, List.getElem?_set_self hlt]
      exact (hj ▸ h j : ThreadInv j (some t) log).step hs
    · rw [CppLives.set, List.getElem?_set_ne hi]
      refine (h i).frame (fun e he => ?_)
      rw [hs.thread?_eq e he]
      exact fun h => hi (Option.some.inj h)

/-- Each run. -/
theorem threadInv_of_reach (hr : (machine (V := V)).Reach init s log) : ∀ i, ThreadInv i s.threads[i]? log := by
  refine hr.invariant (I := fun s log => ∀ i, ThreadInv i s.threads[i]? log) (fun i => ?_) ?_
  · exact ⟨by simp [init], rfl, by simp [init], by simp⟩
  · intro s log a s' ev _ hi _ hs
    exact (step_cases hs).2.inv hi

/-- The process is terminated when a constructor of `std::thread` has thrown, and then only. -/
theorem terminated_iff (hr : (machine (V := V)).Reach init s log) : s.terminated = true ↔ .thrown ∈ log := by
  refine hr.invariant (I := fun s log => s.terminated = true ↔ .thrown ∈ log) (by simp [init]) ?_
  intro s log a s' ev _ hi _ hs
  obtain ⟨hrun, hcase⟩ := step_cases hs
  rw [List.mem_append, ← hi, hrun]
  cases hcase with
  | create | refuse => simp [hrun]
  | throws => simp
  | thread _ hs => cases hs <;> simp [set, hrun]

/-! ## As pthread does it -/

/-- The threads as pthread has them. -/
def abs (s : CppLives V) : List (PthreadThread V) := s.threads.map ThreadStruct.abs

/-- Each step is one of pthread's, or the thread's alone. -/
theorem StepCase.refines (h : ∀ i, ThreadInv i s.threads[i]? log) (hs : StepCase s s' ev) :
    PthreadLives.Step s.abs (ev.filterMap LifeEvent.api?) s'.abs ∨ (ev.filterMap LifeEvent.api? = [] ∧ s'.abs = s.abs) := by
  cases hs with
  | create =>
    refine Or.inl ?_
    have hstep := PthreadLives.Step.create s.abs
    rw [abs, List.length_map] at hstep
    rw [abs, abs, List.map_append]
    exact hstep
  | refuse => exact Or.inl (.refuse _)
  | throws => exact Or.inr ⟨rfl, rfl⟩
  | @thread i t t' _ hi hs =>
    have hget : s.abs[i]? = some t.abs := by rw [abs, List.getElem?_map, hi]; rfl
    rw [show (s.set i t').abs = s.abs.set i t'.abs from List.map_set]
    cases hs with
    | finish r freed ret => exact Or.inl (.finish ret hget)
    | store r ret | wild r ret =>
      obtain ⟨hlt, heq⟩ := List.getElem?_eq_some_iff.1 hget
      exact Or.inr ⟨rfl, heq ▸ List.set_getElem_self hlt⟩
    | join r ret =>
      obtain rfl := (h i).result ret r hi
      exact Or.inl (.join hget)
    | detach entry r => exact Or.inl (.detach hget)

/-- A thread whose function has returned, and that may be joined, can be: at once, or after it has stored what it returned. -/
theorem join_of_result {ret : V} (h : ThreadInv i s.threads[i]? log) (hrun : s.terminated = false)
    (hi : s.abs[i]? = some ⟨some ret, true⟩) :
    ∃ s' ev, (machine (V := V)).Reach s s' ev ∧ ev.filterMap LifeEvent.api? = [.joined i (some ret)] := by
  rw [abs, List.getElem?_map, Option.map_eq_some_iff] at hi
  obtain ⟨⟨entry, r, freed⟩, hi, habs⟩ := hi
  obtain ⟨hresult, hfreed⟩ := PthreadThread.mk.inj habs
  obtain rfl : freed = false := by simpa using hfreed
  have hjoin : ∀ {s : CppLives V} {r : Option V}, s.terminated = false → s.threads[i]? = some ⟨.ended ret, r, false⟩ →
      machine.step s (.join i) = some (s.set i ⟨.ended ret, r, true⟩, [.joined i r]) := by
    intro s r hrun hi
    simp only [machine, step, hrun, hi]
    rfl
  cases entry with
  | running => cases hresult
  | storing ret' =>
    obtain rfl : ret' = ret := Option.some.inj hresult
    have hstore : machine.step s (.store i) = some (s.set i ⟨.ended ret', some ret', false⟩, [.stored i]) := by
      simp only [machine, step, hrun, hi]
      rfl
    have hset : (s.set i ⟨.ended ret', some ret', false⟩).threads[i]? = some ⟨.ended ret', some ret', false⟩ :=
      List.getElem?_set_self (List.getElem?_eq_some_iff.1 hi).1
    exact ⟨_, _, .step _ (.step _ .init trivial hstore) trivial (hjoin hrun hset), rfl⟩
  | ended ret' =>
    obtain rfl : ret' = ret := Option.some.inj hresult
    obtain rfl := h.result ret' r hi
    exact ⟨_, _, .step _ .init trivial (hjoin hrun hi), rfl⟩

/-- Whatever the threads' order, a run is one of pthread's, up to where a constructor of `std::thread` throws, and unless one has, a join
that pthread allows comes about. The struct of a thread is freed once, by the join or by the detach, and is written after that exactly
when the thread was detached before it stored. -/
theorem threads_live_as_pthreads (hr : (machine (V := V)).Reach init s log) :
    (PthreadLives.spec V).Reach [] s.abs (log.filterMap LifeEvent.api?) ∧
    (s.terminated = true ↔ .thrown ∈ log) ∧
    (s.terminated = false → ∀ i ret, s.abs[i]? = some ⟨some ret, true⟩ →
      ∃ s' ev, (machine (V := V)).Reach s s' ev ∧ ev.filterMap LifeEvent.api? = [.joined i (some ret)]) ∧
    ∀ i, log.countP (LifeEvent.frees i) = (if s.threads[i]?.any ThreadStruct.freed then 1 else 0) ∧
      (.wild i ∈ log ↔ [.detached i, .stored i].Sublist log) := by
  have hinv := threadInv_of_reach hr
  refine ⟨?_, terminated_iff hr, fun hrun i ret hi => join_of_result (hinv i) hrun hi,
    fun i => ⟨(hinv i).frees, (hinv i).wild⟩⟩
  exact hr.refines (S := PthreadLives.spec V) abs LifeEvent.api?
    (fun s a s' ev log hr _ hs => (step_cases hs).2.refines (threadInv_of_reach hr))

/-- A thread that is detached while it runs, and one that is joined; the third is not to be had. -/
theorem threads_live_as_pthreads_two : ∃ (s : CppLives Nat) (log : List (LifeEvent Nat)), machine.Reach init s log ∧
    log.filterMap LifeEvent.api? = [.created 0, .created 1, .detached 0, .returned 1 5, .returned 0 7, .joined 1 (some 5)] ∧
    .wild 0 ∈ log ∧ .wild 1 ∉ log ∧ s.terminated = true := by
  have hrun : ((machine (V := Nat)).exec init
      [.create true true, .create true true, .detach 0, .finish 1 5, .finish 0 7, .store 0, .store 1, .join 1, .create true false]).map
        (fun r => r.2) = some [.created 0, .created 1, .detached 0, .returned 1 5, .returned 0 7, .stored 0, .wild 0, .stored 1,
          .joined 1 (some 5), .thrown] := rfl
  obtain ⟨s, log, h, hlog⟩ := Machine.exists_of_exec (fun _ log => log) hrun
  obtain ⟨-, hthrown, -, hstructs⟩ := threads_live_as_pthreads h
  refine ⟨s, log, h, ?_, (hstructs 0).2.2 ?_, fun hm => ?_, hthrown.2 ?_⟩
  · rw [hlog]
    rfl
  · rw [hlog]
    decide
  · have hsub := (hstructs 1).2.1 hm
    rw [hlog] at hsub
    exact absurd hsub (by decide)
  · rw [hlog]
    decide

end CppLives

end GwBot

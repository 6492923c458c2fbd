import GwBot.Lib.Machine
import GwBot.Lib.Threads

/-!
# A queue of jobs that are run once

The abstract system behind a pool of workers: jobs are accepted into a first-in-first-out list, a worker takes the oldest,
calls its function and then its deleter (either may be missing), and the pending jobs may be dropped, each getting only its
deleter. What the log of such a system must look like is counted here, for the jobs that satisfy any predicate `p`:
`Balance` says where every accepted job is, and how often its function and its deleter have been called by then.
-/

namespace GwBot.Lib

/-- How far a worker is with the job it holds: taken and not yet started, inside its function, past it, inside its deleter. -/
inductive Stage where
  | taken
  | running
  | ran
  | deleting
  deriving DecidableEq, Repr

/-- What happens to a job. -/
inductive JobKind where
  | accept
  | take
  | drop
  | call
  | ret
  | del
  | fin
  deriving DecidableEq, Repr

/-- An event of the queue: what happened, and to which job. -/
structure JobEvent (J : Type) where
  kind : JobKind
  job : J
  deriving DecidableEq, Repr

/-- The queue: the pending jobs, oldest first, and what each worker holds. -/
structure JobQueue (J : Type) where
  pending : List J
  held : List (Option (Stage × J))

namespace JobQueue

variable {J : Type}

/-- The events of dropping a job: it leaves the queue and its deleter, if it has one, is called. -/
def dropEvents (hasDel : J → Bool) (j : J) : List (JobEvent J) :=
  ⟨.drop, j⟩ :: if hasDel j then [⟨.del, j⟩] else []

/-- The steps of the queue, for jobs of which `hasFunc` says whether there is a function and `hasDel` whether there is a deleter. -/
inductive Step (hasFunc hasDel : J → Bool) : JobQueue J → List (JobEvent J) → JobQueue J → Prop where
  | accept {q : JobQueue J} (j : J) : Step hasFunc hasDel q [⟨.accept, j⟩] { q with pending := q.pending ++ [j] }
  | take {q : JobQueue J} (k : Nat) (j : J) (rest : List J) : q.pending = j :: rest → q.held[k]? = some none →
      Step hasFunc hasDel q [⟨.take, j⟩] { pending := rest, held := q.held.set k (some (.taken, j)) }
  | call {q : JobQueue J} (k : Nat) (j : J) : q.held[k]? = some (some (.taken, j)) → hasFunc j = true →
      Step hasFunc hasDel q [⟨.call, j⟩] { q with held := q.held.set k (some (.running, j)) }
  | skip {q : JobQueue J} (k : Nat) (j : J) : q.held[k]? = some (some (.taken, j)) → hasFunc j = false →
      Step hasFunc hasDel q [] { q with held := q.held.set k (some (.ran, j)) }
  | ret {q : JobQueue J} (k : Nat) (j : J) : q.held[k]? = some (some (.running, j)) →
      Step hasFunc hasDel q [⟨.ret, j⟩] { q with held := q.held.set k (some (.ran, j)) }
  | del {q : JobQueue J} (k : Nat) (j : J) : q.held[k]? = some (some (.ran, j)) → hasDel j = true →
      Step hasFunc hasDel q [⟨.del, j⟩] { q with held := q.held.set k (some (.deleting, j)) }
  | fin {q : JobQueue J} (k : Nat) (j : J) : q.held[k]? = some (some (.deleting, j)) →
      Step hasFunc hasDel q [⟨.fin, j⟩] { q with held := q.held.set k none }
  | finNoDel {q : JobQueue J} (k : Nat) (j : J) : q.held[k]? = some (some (.ran, j)) → hasDel j = false →
      Step hasFunc hasDel q [⟨.fin, j⟩] { q with held := q.held.set k none }
  | drop {q : JobQueue J} : Step hasFunc hasDel q (q.pending.flatMap (dropEvents hasDel)) { q with pending := [] }

/-- The queue as an abstract system. -/
def spec (hasFunc hasDel : J → Bool) : Spec (JobQueue J) (JobEvent J) := ⟨Step hasFunc hasDel⟩

/-! ## Counting -/

/-- How many events of kind `k` the log holds for jobs that satisfy `p`. -/
def countOf (k : JobKind) (p : J → Bool) (log : List (JobEvent J)) : Nat :=
  log.countP (fun e => e.kind == k && p e.job)

/-- How many workers hold, at stage `st`, a job that satisfies `p`. -/
def heldAt (st : Stage) (p : J → Bool) (held : List (Option (Stage × J))) : Nat :=
  held.countP (fun h => match h with
    | some (st', j) => st' == st && p j
    | none => false)

/-- The pending jobs that satisfy `p`. -/
def pendingCount (p : J → Bool) (q : JobQueue J) : Nat := q.pending.countP p

/-- The jobs that satisfy `p` and are held, at whatever stage. -/
def heldCount (p : J → Bool) (q : JobQueue J) : Nat :=
  heldAt .taken p q.held + heldAt .running p q.held + heldAt .ran p q.held + heldAt .deleting p q.held

@[simp] theorem countOf_nil (k : JobKind) (p : J → Bool) : countOf k p [] = 0 := rfl

theorem countOf_append (k : JobKind) (p : J → Bool) (l l' : List (JobEvent J)) :
    countOf k p (l ++ l') = countOf k p l + countOf k p l' := by
  simp [countOf, List.countP_append]

theorem countOf_singleton (k k' : JobKind) (p : J → Bool) (j : J) :
    countOf k p [⟨k', j⟩] = if k' = k ∧ p j = true then 1 else 0 := by
  simp [countOf, List.countP_cons]

theorem countOf_cons (k k' : JobKind) (p : J → Bool) (j : J) (l : List (JobEvent J)) :
    countOf k p (⟨k', j⟩ :: l) = countOf k p l + if k' = k ∧ p j = true then 1 else 0 := by
  simp [countOf, List.countP_cons]

/-- Dropping a list of jobs logs a drop for each, and nothing else but the calls of their deleters. -/
theorem countOf_drops (hasDel : J → Bool) (k : JobKind) (p : J → Bool) (l : List J) :
    countOf k p (l.flatMap (dropEvents hasDel)) =
      if k = .drop then l.countP p else if k = .del then l.countP (fun j => p j && hasDel j) else 0 := by
  induction l with
  | nil => simp
  | cons j js ih =>
    rw [List.flatMap_cons, countOf_append, ih]
    cases hd : hasDel j <;> cases hp : p j <;> cases k <;>
      simp [dropEvents, hd, hp, countOf_cons] <;> omega

/-- How the held jobs at a stage change when worker `n` moves. -/
theorem heldAt_set {held : List (Option (Stage × J))} {n : Nat} {x y : Option (Stage × J)} (st : Stage) (p : J → Bool)
    (h : held[n]? = some x) :
    heldAt st p (held.set n y) + heldAt st p [x] = heldAt st p held + heldAt st p [y] := by
  have := countP_set (y := y) (fun h => match h with
    | some (st', j) => st' == st && p j
    | none => false) h
  simp only [heldAt, List.countP_cons, List.countP_nil] at *
  omega

@[simp] theorem heldAt_none (st : Stage) (p : J → Bool) : heldAt st p [none] = 0 := rfl

@[simp] theorem heldAt_some (st st' : Stage) (p : J → Bool) (j : J) :
    heldAt st p [some (st', j)] = if st' = st ∧ p j = true then 1 else 0 := by
  simp [heldAt, List.countP_cons]

theorem heldAt_eq_zero (st : Stage) (p : J → Bool) {held : List (Option (Stage × J))} (h : ∀ x ∈ held, x = none) :
    heldAt st p held = 0 := by
  rw [heldAt, List.countP_eq_zero]
  intro x hx
  rw [h x hx]
  simp

/-- When no worker holds a job none is held. -/
theorem heldCount_eq_zero (p : J → Bool) {q : JobQueue J} (h : ∀ x ∈ q.held, x = none) : heldCount p q = 0 := by
  simp [heldCount, heldAt_eq_zero _ p h]

/-- A worker holds its job at one stage. -/
theorem heldCount_le (p : J → Bool) (q : JobQueue J) : heldCount p q ≤ q.held.length := by
  unfold heldCount
  induction q.held with
  | nil => exact Nat.le_refl 0
  | cons x held ih =>
    have hcons : ∀ st, heldAt st p (x :: held) = heldAt st p held + heldAt st p [x] := by
      intro st
      rw [heldAt, List.countP_cons]
      simp [heldAt, List.countP_cons]
    rw [hcons, hcons, hcons, hcons, List.length_cons]
    cases x with
    | none =>
      simp only [heldAt_none]
      omega
    | some x =>
      obtain ⟨st, j⟩ := x
      cases st <;> cases hp : p j <;> simp [hp] <;> omega

/-- How all the counts that the books of the queue mention change when worker `n` moves. -/
theorem heldAt_moves {held : List (Option (Stage × J))} {n : Nat} {x : Option (Stage × J)} (y : Option (Stage × J))
    (p f : J → Bool) (h : held[n]? = some x) :
    heldAt .taken p (held.set n y) + heldAt .taken p [x] = heldAt .taken p held + heldAt .taken p [y] ∧
    heldAt .running p (held.set n y) + heldAt .running p [x] = heldAt .running p held + heldAt .running p [y] ∧
    heldAt .ran p (held.set n y) + heldAt .ran p [x] = heldAt .ran p held + heldAt .ran p [y] ∧
    heldAt .deleting p (held.set n y) + heldAt .deleting p [x] = heldAt .deleting p held + heldAt .deleting p [y] ∧
    heldAt .taken (fun j => p j && f j) (held.set n y) + heldAt .taken (fun j => p j && f j) [x] =
      heldAt .taken (fun j => p j && f j) held + heldAt .taken (fun j => p j && f j) [y] :=
  ⟨heldAt_set _ _ h, heldAt_set _ _ h, heldAt_set _ _ h, heldAt_set _ _ h, heldAt_set _ _ h⟩

/-! ## Where every accepted job is -/

/-- The books of the queue for the jobs that satisfy `p`: every accepted job is pending, held or has left (finished or
dropped); a function has been called for exactly the taken jobs that are past that stage, a deleter for exactly those past
the next one and for the dropped ones. -/
structure Balance (hasFunc hasDel p : J → Bool) (q : JobQueue J) (log : List (JobEvent J)) : Prop where
  accepted : countOf .accept p log = pendingCount p q + countOf .take p log + countOf .drop p log
  taken : countOf .take p log = heldCount p q + countOf .fin p log
  called : countOf .call p log + heldAt .taken (fun j => p j && hasFunc j) q.held =
    countOf .take (fun j => p j && hasFunc j) log
  returned : countOf .call p log = heldAt .running p q.held + countOf .ret p log
  deleted : countOf .del p log = heldAt .deleting p q.held + countOf .fin (fun j => p j && hasDel j) log +
    countOf .drop (fun j => p j && hasDel j) log
  deleters : ∀ j, some (Stage.deleting, j) ∈ q.held → hasDel j = true

/-- A worker that moves elsewhere than into a deleter keeps the last clause of the books. -/
theorem deleters_set {hasDel : J → Bool} {held : List (Option (Stage × J))} (n : Nat) {y : Option (Stage × J)}
    (h : ∀ j, some (Stage.deleting, j) ∈ held → hasDel j = true) (hy : ∀ j, y = some (.deleting, j) → hasDel j = true) :
    ∀ j, some (Stage.deleting, j) ∈ held.set n y → hasDel j = true := by
  intro j hj
  rcases List.mem_or_eq_of_mem_set hj with h1 | h1
  · exact h j h1
  · exact hy j h1.symm

/-- Every step keeps the books. -/
theorem Balance.step {hasFunc hasDel p : J → Bool} {q q' : JobQueue J} {log ev : List (JobEvent J)}
    (h : Balance hasFunc hasDel p q log) (hs : Step hasFunc hasDel q ev q') :
    Balance hasFunc hasDel p q' (log ++ ev) := by
  obtain ⟨ha, ht, hc, hr, hd, hh⟩ := h
  simp only [pendingCount, heldCount] at ha ht
  cases hs with
  | accept j =>
    refine ⟨?_, ?_, ?_, ?_, ?_, hh⟩ <;>
      simp only [countOf_append, countOf_singleton, pendingCount, heldCount, List.countP_append, List.countP_singleton,
        reduceCtorEq, false_and, if_false, true_and] <;> omega
  | take k j rest hp hk =>
    obtain ⟨h1, h2, h3, h4, h5⟩ := heldAt_moves (some (.taken, j)) p hasFunc hk
    simp only [heldAt_none, heldAt_some, reduceCtorEq, false_and, if_false, true_and] at h1 h2 h3 h4 h5
    rw [hp, List.countP_cons] at ha
    refine ⟨?_, ?_, ?_, ?_, ?_, deleters_set k hh (by simp)⟩ <;>
      simp only [countOf_append, countOf_singleton, pendingCount, heldCount, reduceCtorEq, false_and, if_false,
        true_and] <;> omega
  | call k j hk hf =>
    obtain ⟨h1, h2, h3, h4, h5⟩ := heldAt_moves (some (.running, j)) p hasFunc hk
    simp only [heldAt_some, hf, Bool.and_true, reduceCtorEq, false_and, if_false, true_and] at h1 h2 h3 h4 h5
    refine ⟨?_, ?_, ?_, ?_, ?_, deleters_set k hh (by simp)⟩ <;>
      simp only [countOf_append, countOf_singleton, pendingCount, heldCount, reduceCtorEq, false_and, if_false,
        true_and] <;> omega
  | skip k j hk hf =>
    obtain ⟨h1, h2, h3, h4, h5⟩ := heldAt_moves (some (.ran, j)) p hasFunc hk
    simp only [heldAt_some, hf, Bool.and_false, Bool.false_eq_true, and_false, reduceCtorEq, false_and, if_false,
      true_and] at h1 h2 h3 h4 h5
    rw [List.append_nil]
    refine ⟨?_, ?_, ?_, ?_, ?_, deleters_set k hh (by simp)⟩ <;> simp only [pendingCount, heldCount] <;> omega
  | ret k j hk =>
    obtain ⟨h1, h2, h3, h4, h5⟩ := heldAt_moves (some (.ran, j)) p hasFunc hk
    simp only [heldAt_some, reduceCtorEq, false_and, if_false, true_and] at h1 h2 h3 h4 h5
    refine ⟨?_, ?_, ?_, ?_, ?_, deleters_set k hh (by simp)⟩ <;>
      simp only [countOf_append, countOf_singleton, pendingCount, heldCount, reduceCtorEq, false_and, if_false,
        true_and] <;> omega
  | del k j hk hf =>
    obtain ⟨h1, h2, h3, h4, h5⟩ := heldAt_moves (some (.deleting, j)) p hasFunc hk
    simp only [heldAt_some, reduceCtorEq, false_and, if_false, true_and] at h1 h2 h3 h4 h5
    refine ⟨?_, ?_, ?_, ?_, ?_, deleters_set k hh (by simpa using hf)⟩ <;>
      simp only [countOf_append, countOf_singleton, pendingCount, heldCount, reduceCtorEq, false_and, if_false,
        true_and] <;> omega
  | fin k j hk =>
    obtain ⟨h1, h2, h3, h4, h5⟩ := heldAt_moves none p hasFunc hk
    have hj := hh j (List.mem_of_getElem? hk)
    simp only [heldAt_none, heldAt_some, reduceCtorEq, false_and, if_false, true_and] at h1 h2 h3 h4 h5
    refine ⟨?_, ?_, ?_, ?_, ?_, deleters_set k hh (by simp)⟩ <;>
      simp only [countOf_append, countOf_singleton, pendingCount, heldCount, hj, Bool.and_true, reduceCtorEq, false_and,
        if_false, true_and] <;> omega
  | finNoDel k j hk hf =>
    obtain ⟨h1, h2, h3, h4, h5⟩ := heldAt_moves none p hasFunc hk
    simp only [heldAt_none, heldAt_some, reduceCtorEq, false_and, if_false, true_and] at h1 h2 h3 h4 h5
    refine ⟨?_, ?_, ?_, ?_, ?_, deleters_set k hh (by simp)⟩ <;>
      simp only [countOf_append, countOf_singleton, pendingCount, heldCount, hf, Bool.and_false, Bool.false_eq_true,
        and_false, reduceCtorEq, false_and, if_false, true_and] <;> omega
  | drop =>
    refine ⟨?_, ?_, ?_, ?_, ?_, hh⟩ <;>
      simp only [countOf_append, countOf_drops, pendingCount, heldCount, List.countP_nil, reduceCtorEq, if_false,
        if_true] <;> omega

/-- The books of an empty queue. -/
theorem Balance.init (hasFunc hasDel p : J → Bool) {q : JobQueue J} (hp : q.pending = []) (hh : ∀ h ∈ q.held, h = none) :
    Balance hasFunc hasDel p q [] := by
  have hz : ∀ st p, heldAt st p q.held = 0 := fun st p => heldAt_eq_zero st p hh
  refine ⟨?_, ?_, ?_, ?_, ?_, ?_⟩
  · simp [pendingCount, hp]
  · simp [heldCount, hz]
  · simp [hz]
  · simp [hz]
  · simp [hz]
  · intro j hj
    nomatch hh _ hj

/-- The books of every reachable queue. -/
theorem balance_of_reach {hasFunc hasDel : J → Bool} {q₀ q : JobQueue J} {log : List (JobEvent J)} (p : J → Bool)
    (hp : q₀.pending = []) (hh : ∀ h ∈ q₀.held, h = none) (h : (spec hasFunc hasDel).Reach q₀ q log) :
    Balance hasFunc hasDel p q log :=
  h.invariant (Balance.init _ _ _ hp hh) (fun _ _ _ _ hb hs => hb.step hs)

/-! ## A job that is accepted once -/

theorem countOf_pos {k : JobKind} {p : J → Bool} {log : List (JobEvent J)} {e : JobEvent J} (he : e ∈ log)
    (hk : e.kind = k) (hp : p e.job = true) : 0 < countOf k p log :=
  List.countP_pos_iff.2 ⟨e, he, by simp [hk, hp]⟩

theorem heldAt_pos {st : Stage} {p : J → Bool} {held : List (Option (Stage × J))} {j : J} (hm : some (st, j) ∈ held)
    (hp : p j = true) : 0 < heldAt st p held :=
  List.countP_pos_iff.2 ⟨some (st, j), hm, by simp [hp]⟩

/-- Jobs of which none has been accepted are nowhere. -/
theorem Balance.none_of_not_accepted {hasFunc hasDel p : J → Bool} {q : JobQueue J} {log : List (JobEvent J)}
    (h : Balance hasFunc hasDel p q log) (h0 : countOf .accept p log = 0) :
    (∀ e ∈ log, p e.job = false) ∧ (∀ j ∈ q.pending, p j = false) ∧ (∀ st j, some (st, j) ∈ q.held → p j = false) := by
  obtain ⟨ha, ht, hc, hr, hd, -⟩ := h
  have hfin : countOf .fin (fun j => p j && hasDel j) log ≤ countOf .fin p log :=
    List.countP_mono_left (fun e _ h1 => by simp_all)
  have hdrop : countOf .drop (fun j => p j && hasDel j) log ≤ countOf .drop p log :=
    List.countP_mono_left (fun e _ h1 => by simp_all)
  have htake : countOf .take (fun j => p j && hasFunc j) log ≤ countOf .take p log :=
    List.countP_mono_left (fun e _ h1 => by simp_all)
  simp only [heldCount] at ht
  refine ⟨?_, ?_, ?_⟩
  · intro e he
    rw [← Bool.not_eq_true]
    intro hp
    have hpos := countOf_pos he rfl hp
    cases hk : e.kind <;> rw [hk] at hpos <;> omega
  · intro j hj
    rw [← Bool.not_eq_true]
    intro hp
    have hpos : 0 < pendingCount p q := List.countP_pos_iff.2 ⟨j, hj, hp⟩
    omega
  · intro st j hj
    rw [← Bool.not_eq_true]
    intro hp
    have hpos := heldAt_pos hj hp
    cases st <;> omega

/-- What becomes of a job `j` that has been accepted once, of which `p` holds and of no other job that was: it is in one place, its
function and its deleter are called at most once and the deleter only when the function has returned, and when it has left the
queue both have been called, or only the deleter if it was dropped. -/
structure Once (hasFunc hasDel p : J → Bool) (j : J) (q : JobQueue J) (log : List (JobEvent J)) : Prop where
  placed : pendingCount p q + heldCount p q + (countOf .fin p log + countOf .drop p log) = 1
  called : countOf .call p log ≤ if hasFunc j then 1 else 0
  deleted : countOf .del p log ≤ if hasDel j then 1 else 0
  dropped : countOf .drop p log = 1 → countOf .call p log = 0
  ordered : countOf .del p log = 1 → countOf .drop p log = 0 → hasFunc j = true → countOf .ret p log = 1
  settled : pendingCount p q = 0 → heldCount p q = 0 → countOf .del p log = (if hasDel j then 1 else 0) ∧
    (countOf .drop p log = 0 → countOf .call p log = if hasFunc j then 1 else 0)
  same : (∀ e ∈ log, p e.job = true → e.job = j) ∧ (∀ j' ∈ q.pending, p j' = true → j' = j) ∧
    ∀ st j', some (st, j') ∈ q.held → p j' = true → j' = j

/-- Where all jobs with `p` are `j`, what the log is asked about them beside `p` is asked of `j`. -/
theorem countOf_and {k : JobKind} {p g : J → Bool} {j : J} {log : List (JobEvent J)}
    (h : ∀ e ∈ log, p e.job = true → e.job = j) :
    countOf k (fun x => p x && g x) log = if g j then countOf k p log else 0 := by
  by_cases hg : g j = true
  · rw [if_pos hg]
    refine List.countP_congr (fun e he => ?_)
    simp only [Bool.and_eq_true]
    constructor
    · intro h1
      exact ⟨h1.1, h1.2.1⟩
    · intro h1
      exact ⟨h1.1, h1.2, (h e he h1.2).symm ▸ hg⟩
  · rw [if_neg hg]
    refine List.countP_eq_zero.2 (fun e he h1 => ?_)
    simp only [Bool.and_eq_true] at h1
    exact hg (h e he h1.2.1 ▸ h1.2.2)

/-- The same of the jobs that are held. -/
theorem heldAt_and {st : Stage} {p g : J → Bool} {j : J} {held : List (Option (Stage × J))}
    (h : ∀ st j', some (st, j') ∈ held → p j' = true → j' = j) :
    heldAt st (fun x => p x && g x) held = if g j then heldAt st p held else 0 := by
  by_cases hg : g j = true
  · rw [if_pos hg]
    refine List.countP_congr (fun x hx => ?_)
    cases x with
    | none => rfl
    | some x =>
      simp only [Bool.and_eq_true]
      constructor
      · intro h1
        exact ⟨h1.1, h1.2.1⟩
      · intro h1
        exact ⟨h1.1, h1.2, (h _ _ hx h1.2).symm ▸ hg⟩
  · rw [if_neg hg]
    refine List.countP_eq_zero.2 (fun x hx h1 => ?_)
    cases x with
    | none => nomatch h1
    | some x =>
      simp only [Bool.and_eq_true] at h1
      exact hg (h _ _ hx h1.2.1 ▸ h1.2.2)

/-- When every accepted job with `p` is `j`, every job with `p` is, wherever it is. -/
theorem same_of_balance {hasFunc hasDel p : J → Bool} {j : J} {q : JobQueue J} {log : List (JobEvent J)}
    (hb : ∀ p, Balance hasFunc hasDel p q log) (hu : ∀ e ∈ log, e.kind = .accept → p e.job = true → e.job = j) :
    (∀ e ∈ log, p e.job = true → e.job = j) ∧ (∀ j' ∈ q.pending, p j' = true → j' = j) ∧
      ∀ st j', some (st, j') ∈ q.held → p j' = true → j' = j := by
  classical
  have h0 : countOf .accept (fun j' => p j' && !decide (j' = j)) log = 0 := by
    rw [countOf, List.countP_eq_zero]
    intro e he
    simp only [Bool.and_eq_true, beq_iff_eq, Bool.not_eq_true', decide_eq_false_iff_not, not_and, not_not]
    exact hu e he
  obtain ⟨h1, h2, h3⟩ := (hb _).none_of_not_accepted h0
  simp only [Bool.and_eq_false_imp, Bool.not_eq_false', decide_eq_true_eq] at h1 h2 h3
  exact ⟨h1, h2, h3⟩

/-- The books give it of every such job. -/
theorem once_of_balance {hasFunc hasDel p : J → Bool} {j : J} {q : JobQueue J} {log : List (JobEvent J)}
    (hb : ∀ p, Balance hasFunc hasDel p q log) (h1 : countOf .accept p log = 1)
    (hu : ∀ e ∈ log, e.kind = .accept → p e.job = true → e.job = j) : Once hasFunc hasDel p j q log := by
  have hsame := same_of_balance hb hu
  obtain ⟨ha, ht, hc, hr, hd, hdel⟩ := hb p
  have hdeleting : heldAt .deleting p q.held = 0 ∨ hasDel j = true := by
    by_cases h0 : heldAt .deleting p q.held = 0
    · exact Or.inl h0
    · right
      obtain ⟨x, hx, hxp⟩ := List.countP_pos_iff.1 (Nat.pos_of_ne_zero h0)
      cases x with
      | none => nomatch hxp
      | some x =>
        simp only [Bool.and_eq_true, beq_iff_eq] at hxp
        obtain ⟨st, j'⟩ := x
        obtain ⟨rfl, hp⟩ := hxp
        rw [← hsame.2.2 _ _ hx hp]
        exact hdel j' hx
  rw [countOf_and hsame.1, heldAt_and hsame.2.2] at hc
  rw [countOf_and hsame.1, countOf_and hsame.1] at hd
  have hle : heldAt .taken p q.held + heldAt .running p q.held + heldAt .deleting p q.held ≤ heldCount p q := by
    unfold heldCount
    omega
  refine ⟨?_, ?_, ?_, ?_, fun hd1 hd0 hf => ?_, fun hp hh => ⟨?_, fun hd0 => ?_⟩, hsame⟩ <;> generalize hasFunc j = f at * <;>
    generalize hasDel j = d at * <;> cases f <;> cases d <;>
    simp only [if_true, Bool.false_eq_true, if_false, or_false, or_true] at * <;> omega

/-! ## First in, first out -/

/-- The jobs of the events of the kinds `ks`, in order. -/
def jobsOf (ks : List JobKind) (log : List (JobEvent J)) : List J :=
  (log.filter (fun e => ks.contains e.kind)).map (·.job)

theorem jobsOf_append (ks : List JobKind) (l l' : List (JobEvent J)) : jobsOf ks (l ++ l') = jobsOf ks l ++ jobsOf ks l' := by
  simp [jobsOf]

/-- Dropping the pending jobs takes them out in order. -/
theorem jobsOf_drops (hasDel : J → Bool) (l : List J) :
    jobsOf [.take, .drop] (l.flatMap (dropEvents hasDel)) = l ∧ jobsOf [.accept] (l.flatMap (dropEvents hasDel)) = [] := by
  induction l with
  | nil => exact ⟨rfl, rfl⟩
  | cons j js ih =>
    rw [List.flatMap_cons, jobsOf_append, jobsOf_append, ih.1, ih.2]
    cases hd : hasDel j <;> simp [dropEvents, hd, jobsOf]

/-- The jobs accepted so far are, in order, those taken out (by a worker or by a drop) followed by the pending ones. -/
def Fifo (q : JobQueue J) (log : List (JobEvent J)) : Prop :=
  jobsOf [.accept] log = jobsOf [.take, .drop] log ++ q.pending

theorem Fifo.step {hasFunc hasDel : J → Bool} {q q' : JobQueue J} {log ev : List (JobEvent J)} (h : Fifo q log)
    (hs : Step hasFunc hasDel q ev q') : Fifo q' (log ++ ev) := by
  unfold Fifo at *
  rw [jobsOf_append, jobsOf_append, h]
  cases hs with
  | accept j => simp [jobsOf]
  | take k j rest hp hk => simp [jobsOf, hp]
  | call k j hk hf => simp [jobsOf]
  | skip k j hk hf => simp [jobsOf]
  | ret k j hk => simp [jobsOf]
  | del k j hk hf => simp [jobsOf]
  | fin k j hk => simp [jobsOf]
  | finNoDel k j hk hf => simp [jobsOf]
  | drop =>
    rw [(jobsOf_drops hasDel q.pending).1, (jobsOf_drops hasDel q.pending).2]

/-- Every reachable queue is first in, first out. -/
theorem fifo_of_reach {hasFunc hasDel : J → Bool} {q₀ q : JobQueue J} {log : List (JobEvent J)} (hp : q₀.pending = [])
    (h : (spec hasFunc hasDel).Reach q₀ q log) : Fifo q log :=
  h.invariant (by simp [Fifo, jobsOf, hp]) (fun _ _ _ _ hf hs => hf.step hs)

end JobQueue

end GwBot.Lib

import GwBot.Curl.Table
import Mathlib.Data.List.Dedup
import Mathlib.Data.List.Perm.Subperm

/-!
# The curl handle of a thread

`gw_curl_thread_init` starts with what `current_thread_curl_handle` holds, and nothing ever stores to that: every call of a thread makes a
handle of its own (`second_handle`). What is so of any run is that no handle goes to two threads.
-/

namespace GwBot

open Lib

namespace CurlData

variable {τ H : Type} {log ev : List (CurlEvent τ H)} {s s' : CurlData τ H} {a : Act τ H}

/-- The calls of `gw_curl_thread_init`, by their threads. -/
def callers (log : List (CurlEvent τ H)) : List τ :=
  log.filterMap (fun e => match e with | .called thread => some thread | _ => none)

theorem mem_callers {thread : τ} : thread ∈ callers log ↔ .called thread ∈ log := by
  unfold callers
  rw [List.mem_filterMap]
  constructor
  · rintro ⟨e, he, hh⟩
    cases e <;> simp only [Option.some.injEq, reduceCtorEq] at hh
    subst hh
    exact he
  · exact fun he => ⟨_, he, rfl⟩

/-- No handle goes to two threads. -/
theorem Inv.thread_unique (h : Inv s log) {thread thread' : τ} {handle : H} (hr : .returned thread handle ∈ log)
    (hr' : .returned thread' handle ∈ log) : thread = thread' := by
  have hmem := List.mem_append_left s.calls ((h.returned _ _).1 hr)
  have hmem' := List.mem_append_left s.calls ((h.returned _ _).1 hr')
  exact (Prod.mk.inj (List.inj_on_of_nodup_map h.nodup hmem hmem' rfl)).1

/-- A handle that a call has made is none that was returned. -/
theorem Inv.ne_of_call (h : Inv s log) {thread thread' : τ} {handle handle' : H} (hc : (thread, handle) ∈ s.calls)
    (ho : (thread', handle') ∈ s.owners) : handle' ≠ handle := by
  have hnodup := h.nodup
  rw [List.map_append, List.nodup_append] at hnodup
  exact hnodup.2.2 handle' (List.mem_map.2 ⟨_, ho, rfl⟩) handle (List.mem_map.2 ⟨_, hc, rfl⟩)

variable [DecidableEq τ]

/-- What `current_thread_curl_handle` is for: every call of a thread returns the same handle, no other thread gets it, and there are no more
handles than threads that have called. Of a run with a store outside of the block of the table that cannot be said. -/
structure HandlePerThread (s : CurlData τ H) (log : List (CurlEvent τ H)) : Prop where
  inside : s.undefined = false
  same : ∀ thread handle handle', .returned thread handle ∈ log → .returned thread handle' ∈ log → handle = handle'
  different : ∀ thread thread' handle, .returned thread handle ∈ log → .returned thread' handle ∈ log → thread = thread'
  nrHandles_le : s.data.nrHandles.toNat ≤ (callers log).dedup.length

/-- The step puts no second handle of a thread into the table: the thread has none there, or the table is full and does not grow. -/
def FirstHandle (s : CurlData τ H) : Act τ H → Prop
  | .lock thread _ realloc =>
    (s.data.nrHandles < s.data.allocated ∧ thread ∉ s.owners.map (·.1)) ∨ (s.data.allocated ≤ s.data.nrHandles ∧ realloc = false)
  | _ => True

instance (s : CurlData τ H) (a : Act τ H) : Decidable (s.FirstHandle a) :=
  match a with
  | .lock _ _ _ => inferInstanceAs (Decidable (_ ∨ _))
  | .threadInit _ _ | .cleanup => .isTrue trivial

omit [DecidableEq τ] in
/-- A handle that is the first of its thread goes into a free cell. -/
theorem FirstHandle.noGrowth (h : s.FirstHandle a) : s.NoGrowth a := by
  cases a with
  | lock thread handle realloc => exact h.imp (·.1) (·.2)
  | _ => trivial

/-- When each thread has one handle in the table at most, each has one. -/
theorem Inv.handlePerThread (h : Inv s log) (hin : s.undefined = false) (hone : (s.owners.map (·.1)).Nodup) :
    HandlePerThread s log := by
  refine ⟨hin, fun thread handle handle' hr hr' => ?_, fun _ _ _ => h.thread_unique, ?_⟩
  · exact (Prod.mk.inj (List.inj_on_of_nodup_map hone ((h.returned _ _).1 hr) ((h.returned _ _).1 hr') rfl)).2
  · have hsubset : s.owners.map (·.1) ⊆ (callers log).dedup := by
      intro thread ht
      obtain ⟨c, hc, rfl⟩ := List.mem_map.1 ht
      rw [List.mem_dedup, mem_callers]
      exact h.called c (List.mem_append_left _ hc)
    calc s.data.nrHandles.toNat
        _ ≤ s.owners.length := by
          rw [h.nrHandles, UInt64.toNat_ofNat']
          exact Nat.mod_le _ _
        _ = (s.owners.map (·.1)).length := (List.length_map _).symm
        _ ≤ (callers log).dedup.length := (List.subperm_of_subset hone hsubset).length_le

variable [DecidableEq H]

/-- A call stores its handle when it finds the table not full, and only then. -/
theorem lock_cases {thread : τ} {handle : H} {realloc : Bool} (h : Fits s log) (hi : Inv s log)
    (hs : s.step (.lock thread handle realloc) = some (s', ev)) :
    (s.data.nrHandles < s.data.allocated ∧ (thread, handle) ∈ s.calls ∧ s'.owners = s.owners ++ [(thread, handle)]) ∨
    (s.data.allocated ≤ s.data.nrHandles ∧ s'.owners = s.owners) := by
  obtain ⟨-, hcl, hcase⟩ := step_cases hs
  rcases UInt64.lt_or_le s.data.nrHandles s.data.allocated with hlt | hge
  · have hc : (thread, handle) ∈ s.calls := by cases hcase <;> assumption
    obtain ⟨handles, hsection⟩ := threadInitSection_of_lt h hi hlt thread handle realloc
    rw [step_lock h hcl hc, hsection] at hs
    cases hs
    exact Or.inl ⟨hlt, hc, rfl⟩
  · refine Or.inr ⟨hge, ?_⟩
    cases hcase with
    | full | outside => rfl
    | stored _ hgrow _ =>
      by_cases hno : s.NoGrowth (.lock thread handle realloc)
      · exact absurd (Fits.growTable_of_noGrowth hno hgrow).2 (UInt64.not_lt.2 hge)
      · have hu := h.undefined_of_growth hno hs
        exact absurd (h.inside.symm.trans hu) Bool.false_ne_true

/-- The threads of the handles stay distinct. -/
theorem FirstHandle.step (h : Fits s log) (hi : Inv s log) (hone : (s.owners.map (·.1)).Nodup) (hc : s.FirstHandle a)
    (hs : s.step a = some (s', ev)) : (s'.owners.map (·.1)).Nodup := by
  cases a with
  | lock thread handle realloc =>
    rcases lock_cases h hi hs with ⟨hlt, -, ho⟩ | ⟨-, ho⟩
    · rw [ho, List.map_append, List.nodup_append]
      refine ⟨hone, List.nodup_singleton _, ?_⟩
      rintro x hx y hy rfl
      obtain rfl := List.mem_singleton.1 hy
      exact (hc.resolve_right (fun hfull => UInt64.not_le.2 hlt hfull.1)).2 hx
    · rw [ho]
      exact hone
  | _ =>
    obtain ⟨-, -, hcase⟩ := step_cases hs
    cases hcase <;> exact hone

/-- In a run in which no thread gets a second handle and the table does not grow, each has its own in every state; and the first step
that gives a second handle, or stores outside of the block of the table, ends that. -/
theorem handle_per_thread {env : InitEnv} {s₀ : CurlData τ H} (h0 : gwCurlGlobalInit env = .ok s₀)
    (h : (machine τ H).Run FirstHandle s₀ s log) :
    HandlePerThread s log ∧ ∀ a s' ev, s.step a = some (s', ev) → (HandlePerThread s' (log ++ ev) ↔ s.FirstHandle a) := by
  have hi := Inv.of_run h0 h
  have hf : ∀ {s log}, (machine τ H).Run FirstHandle s₀ s log → Fits s log :=
    fun hr => Fits.of_noGrowth h0 (hr.mono (fun _ _ hc => hc.noGrowth))
  have hone : (s.owners.map (·.1)).Nodup := by
    refine Machine.Run.stateInv (I := fun s => (s.owners.map (·.1)).Nodup) ?_ (fun s log a s' ev hr hone hc hs => ?_) h
    · rw [gwCurlGlobalInit_ok h0]
      exact List.nodup_nil
    · exact FirstHandle.step (hf hr) (Inv.of_run h0 hr) hone hc hs
  refine ⟨hi.handlePerThread (hf h).inside hone, fun a s' ev hs => ⟨fun hper => ?_, fun hc => ?_⟩⟩
  · cases a with
    | lock thread handle realloc =>
      rcases lock_cases (hf h) hi hs with ⟨hlt, hcall, ho⟩ | ⟨hge, -⟩
      · refine Or.inl ⟨hlt, fun hthread => ?_⟩
        obtain ⟨⟨thread', handle'⟩, hown, hth⟩ := List.mem_map.1 hthread
        obtain rfl : thread' = thread := hth
        have hreturned := (hi.step hs).returned
        rw [ho] at hreturned
        refine hi.ne_of_call hcall hown (hper.same thread' handle' handle ((hreturned _ _).2 ?_) ((hreturned _ _).2 ?_))
        · exact List.mem_append_left _ hown
        · exact List.mem_append_right _ (List.mem_singleton_self _)
      · refine Or.inr ⟨hge, ?_⟩
        -- a table that grows is stored to outside of its block
        by_contra hrealloc
        have hgrows : ¬s.NoGrowth (.lock thread handle realloc) :=
          fun hno => hno.elim (fun hlt => UInt64.not_lt.2 hge hlt) hrealloc
        exact absurd (hper.inside.symm.trans ((hf h).undefined_of_growth hgrows hs)) nofun
    | _ => trivial
  · have hf' := (hf h).step hi hc.noGrowth hs
    exact (hi.step hs).handlePerThread hf'.inside (FirstHandle.step (hf h) hi hone hc hs)

/-- Two threads get a handle each. -/
theorem handle_per_thread_small : ∃ (s₀ s : CurlData Nat Nat) (log : List (CurlEvent Nat Nat)),
    gwCurlGlobalInit ⟨true, true, 0, true⟩ = .ok s₀ ∧ (machine Nat Nat).Run FirstHandle s₀ s log ∧
    log = [.called 0, .called 1, .returned 1 7, .returned 0 5] ∧ s.data.nrHandles = 2 ∧ HandlePerThread s log := by
  have hrun : ∃ s₀ : CurlData Nat Nat, gwCurlGlobalInit ⟨true, true, 0, true⟩ = .ok s₀ ∧
      ((machine Nat Nat).execIf FirstHandle s₀ [.threadInit 0 (some 5), .threadInit 1 (some 7), .lock 1 7 false, .lock 0 5 false]).map
        (fun r => (r.2, r.1.data.nrHandles)) = some ([.called 0, .called 1, .returned 1 7, .returned 0 5], 2) := ⟨_, rfl, by decide⟩
  obtain ⟨s₀, h0, he⟩ := hrun
  obtain ⟨s, log, h, hval⟩ := Machine.exists_of_exec (fun (s : CurlData Nat Nat) log => (log, s.data.nrHandles)) he
  obtain ⟨hlog, hnr⟩ := Prod.mk.inj hval
  exact ⟨s₀, s, log, h0, h, hlog, hnr, (handle_per_thread h0 h).1⟩

/-- A thread calls `gw_curl_thread_init` twice and gets two handles. -/
theorem second_handle : ∃ (s₀ s : CurlData Nat Nat) (log : List (CurlEvent Nat Nat)),
    gwCurlGlobalInit ⟨true, true, 0, true⟩ = .ok s₀ ∧ (machine Nat Nat).Reach s₀ s log ∧
    log = [.called 0, .returned 0 5, .called 0, .returned 0 7] ∧ s.data.nrHandles = 2 ∧ (callers log).dedup = [0] ∧
    ¬HandlePerThread s log := by
  have hrun : ∃ s₀ : CurlData Nat Nat, gwCurlGlobalInit ⟨true, true, 0, true⟩ = .ok s₀ ∧
      ((machine Nat Nat).exec s₀ [.threadInit 0 (some 5), .lock 0 5 false, .threadInit 0 (some 7), .lock 0 7 false]).map
        (fun r => (r.2, r.1.data.nrHandles)) = some ([.called 0, .returned 0 5, .called 0, .returned 0 7], 2) := ⟨_, rfl, by decide⟩
  obtain ⟨s₀, h0, he⟩ := hrun
  obtain ⟨s, log, h, hval⟩ := Machine.exists_of_exec (fun (s : CurlData Nat Nat) log => (log, s.data.nrHandles)) he
  obtain ⟨rfl, hnr⟩ := Prod.mk.inj hval
  refine ⟨s₀, s, _, h0, h, rfl, hnr, by decide, fun hper => ?_⟩
  exact absurd (hper.same 0 5 7 (by decide) (by decide)) (by decide)

end CurlData

end GwBot

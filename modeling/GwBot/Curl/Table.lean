import GwBot.Curl.Defs
import Mathlib.Data.List.Nodup

/-!
# The table of the curl handles

`gw_curl_realloc_handles` doubles `allocated` but asks `realloc` for that many bytes, not handles: the 1025th handle makes the block shrink
to 256 handles and is stored outside of it (`table_shrinks`). Until the table grows it is what it should be: the handles that were
returned, in order, in a block with room for 1024.
-/

namespace GwBot

open Lib

namespace CurlData

variable {τ H : Type} {log ev : List (CurlEvent τ H)}

/-- The handles that were returned, in order. -/
def returnedHandles (log : List (CurlEvent τ H)) : List H :=
  log.filterMap (fun e => match e with | .returned _ handle => some handle | _ => none)

/-- The handles that `gw_curl_global_cleanup` has cleaned up, in order. -/
def cleanedHandles (log : List (CurlEvent τ H)) : List H :=
  log.filterMap (fun e => match e with | .cleanedUp handle => some handle | _ => none)

theorem cleanedHandles_append (l l' : List (CurlEvent τ H)) : cleanedHandles (l ++ l') = cleanedHandles l ++ cleanedHandles l' :=
  List.filterMap_append

theorem mem_returnedHandles {handle : H} : handle ∈ returnedHandles log ↔ ∃ thread, .returned thread handle ∈ log := by
  unfold returnedHandles
  rw [List.mem_filterMap]
  constructor
  · rintro ⟨e, he, hh⟩
    cases e <;> simp only [Option.some.injEq, reduceCtorEq] at hh
    subst hh
    exact ⟨_, he⟩
  · rintro ⟨thread, he⟩
    exact ⟨_, he, rfl⟩

variable {s s' : CurlData τ H} {a : Act τ H}

/-! ## The handles -/

/-- `gw_curl_global_init` leaves an empty table with room for 1024 handles. -/
theorem gwCurlGlobalInit_ok {env : InitEnv} (h0 : gwCurlGlobalInit env = .ok s) : s =
    { data := { handles := Block.calloc 1024 sizeofHandle, allocated := 1024, nrHandles := 0 }
      currentThreadCurlHandle := fun _ => none, calls := [], live := [], owners := [], undefined := false, cleaned := false } := by
  unfold gwCurlGlobalInit at h0
  repeat' split at h0
  all_goals simp only [Except.ok.injEq, reduceCtorEq] at h0
  exact h0.symm

/-- What holds of the handles whatever becomes of the table: those in it and those of the calls under way are live and all different, no
thread has one of its own, and the ones in it are those that were returned. -/
structure Inv (s : CurlData τ H) (log : List (CurlEvent τ H)) : Prop where
  nrHandles : s.data.nrHandles = UInt64.ofNat s.owners.length
  uncached : ∀ thread, s.currentThreadCurlHandle thread = none
  nodup : ((s.owners ++ s.calls).map (·.2)).Nodup
  live : ∀ c ∈ s.owners ++ s.calls, c.2 ∈ s.live
  called : ∀ c ∈ s.owners ++ s.calls, .called c.1 ∈ log
  returned : ∀ thread handle, .returned thread handle ∈ log ↔ (thread, handle) ∈ s.owners
  uncleaned : s.cleaned = false → cleanedHandles log = []

namespace Inv

/-- The log when nothing is returned or cleaned up. -/
theorem log_quiet (h : Inv s log) (ev : List (CurlEvent τ H))
    (hcalled : ∀ e ∈ ev, ∀ thread handle, e ≠ .returned thread handle) (hclean : cleanedHandles ev = []) :
    (∀ c ∈ s.owners ++ s.calls, .called c.1 ∈ log ++ ev) ∧
      (∀ thread handle, .returned thread handle ∈ log ++ ev ↔ (thread, handle) ∈ s.owners) ∧
      (s.cleaned = false → cleanedHandles (log ++ ev) = []) := by
  refine ⟨fun c hc => List.mem_append_left _ (h.called c hc), fun thread handle => ?_, fun hcl => ?_⟩
  · rw [List.mem_append, h.returned]
    exact or_iff_left (fun he => hcalled _ he thread handle rfl)
  · rw [cleanedHandles_append, h.uncleaned hcl, hclean]
    rfl

theorem of_init {env : InitEnv} (h0 : gwCurlGlobalInit env = .ok s) : Inv s [] := by
  rw [gwCurlGlobalInit_ok h0]
  exact ⟨rfl, fun _ => rfl, List.nodup_nil, nofun, nofun, fun _ _ => iff_of_false nofun nofun, fun _ => rfl⟩

end Inv

/-- A table that grows keeps its number of handles. -/
theorem growTable_nrHandles {realloc : Bool} {cd : CurlHandleList H} (h : s.growTable realloc = some cd) :
    cd.nrHandles = s.data.nrHandles := by
  unfold growTable gwCurlReallocHandles at h
  split at h
  · split at h
    · cases h
      rfl
    · nomatch h
  · cases h
    rfl

/-! ## Before the table grows -/

/-- The step does not make the table grow: it finds a free cell, or `realloc` fails. -/
def NoGrowth (s : CurlData τ H) : Act τ H → Prop
  | .lock _ _ realloc => s.data.nrHandles < s.data.allocated ∨ realloc = false
  | _ => True

instance (s : CurlData τ H) (a : Act τ H) : Decidable (s.NoGrowth a) := by
  cases a <;> unfold NoGrowth <;> infer_instance

/-- The table before it first grows: the first cells of a block of 1024 hold the handles that were returned. -/
structure Fits (s : CurlData τ H) (log : List (CurlEvent τ H)) : Prop where
  allocated : s.data.allocated = 1024
  size : s.data.handles.size = 1024 * sizeofHandle
  owners_le : s.owners.length ≤ 1024
  holds : s.data.handles.Holds (s.owners.map (·.2))
  inside : s.undefined = false
  cleanedUp : s.cleaned = true → cleanedHandles log = s.owners.map (·.2)

namespace Fits

theorem of_init {env : InitEnv} (h0 : gwCurlGlobalInit env = .ok s) : Fits s [] := by
  rw [gwCurlGlobalInit_ok h0]
  exact ⟨rfl, rfl, Nat.zero_le _, nofun, rfl, nofun⟩

theorem nrHandles_toNat (h : Fits s log) (hi : Inv s log) : s.data.nrHandles.toNat = s.owners.length := by
  rw [hi.nrHandles, UInt64.toNat_ofNat_of_lt']
  exact Nat.lt_of_le_of_lt h.owners_le (by decide)

theorem nrHandles_eq (h : Fits s log) (hi : Inv s log) : s.data.nrHandles.toNat = (s.owners.map (·.2)).length :=
  (h.nrHandles_toNat hi).trans (List.length_map _).symm

/-- With a free cell the table is stored to as it is, and inside of the block. -/
theorem inside_of_lt (h : Fits s log) (hi : Inv s log) (hlt : s.data.nrHandles < s.data.allocated) :
    s.owners.length < 1024 ∧ s.data.handles.Inside sizeofHandle s.data.nrHandles.toNat := by
  rw [h.allocated, UInt64.lt_iff_toNat_lt, h.nrHandles_toNat hi] at hlt
  refine ⟨hlt, ?_⟩
  rw [Block.Inside, h.size, h.nrHandles_toNat hi]
  exact Nat.mul_le_mul_right _ hlt

/-- Without growth the table that is stored to is the old one, with a free cell. -/
theorem growTable_of_noGrowth {thread : τ} {handle : H} {realloc : Bool} {cd : CurlHandleList H}
    (hc : s.NoGrowth (.lock thread handle realloc)) (hgrow : s.growTable realloc = some cd) :
    cd = s.data ∧ s.data.nrHandles < s.data.allocated := by
  unfold growTable gwCurlReallocHandles at hgrow
  rcases UInt64.lt_or_le s.data.nrHandles s.data.allocated with hlt | hge
  · rw [if_neg (UInt64.not_le.2 hlt)] at hgrow
    exact ⟨(Option.some.inj hgrow).symm, hlt⟩
  · obtain rfl := hc.resolve_left (UInt64.not_lt.2 hge)
    rw [if_pos hge] at hgrow
    nomatch hgrow

/-- A table that grows has room for 2048 handles in `allocated`, and 2048 bytes. -/
theorem growTable_of_growth (h : Fits s log) {thread : τ} {handle : H} {realloc : Bool} (hc : ¬s.NoGrowth (.lock thread handle realloc)) :
    ∃ cd, s.growTable realloc = some cd ∧ cd.allocated = 2048 ∧ cd.handles.size = 2048 := by
  simp only [NoGrowth, not_or, UInt64.not_lt, Bool.not_eq_false] at hc
  unfold growTable gwCurlReallocHandles
  rw [if_pos hc.1, if_pos hc.2, h.allocated]
  exact ⟨_, rfl, rfl, rfl⟩

end Fits

/-! ## The block of the table -/

variable [DecidableEq H]

/-- What the table is for: it has room for `allocated` handles and no more are in it, every store was inside of the block, every handle that
was returned is still in it, and `gw_curl_global_cleanup` has cleaned up each of those once. -/
structure TableSafe (s : CurlData τ H) (log : List (CurlEvent τ H)) : Prop where
  nrHandles_le : s.data.nrHandles ≤ s.data.allocated
  room : s.data.allocated.toNat * sizeofHandle ≤ s.data.handles.size
  inside : s.undefined = false
  kept : ∀ handle ∈ returnedHandles log, ∃ i < s.data.nrHandles.toNat, s.data.handles.cells i = some handle
  cleanedUp : s.cleaned = true → ∀ handle, (cleanedHandles log).count handle = if handle ∈ returnedHandles log then 1 else 0

/-- The table is safe before it grows. -/
theorem Fits.tableSafe (h : Fits s log) (hi : Inv s log) : TableSafe s log := by
  have hreturned : ∀ handle, handle ∈ returnedHandles log ↔ handle ∈ s.owners.map (·.2) := by
    intro handle
    rw [mem_returnedHandles, List.mem_map]
    simp only [hi.returned, Prod.exists, exists_eq_right]
  refine ⟨?_, ?_, h.inside, ?_, ?_⟩
  · rw [h.allocated, UInt64.le_iff_toNat_le, h.nrHandles_toNat hi]
    exact h.owners_le
  · rw [h.allocated, h.size]
    exact Nat.le_refl _
  · intro handle hh
    obtain ⟨i, hlt, hget⟩ := List.mem_iff_getElem.1 ((hreturned handle).1 hh)
    refine ⟨i, ?_, h.holds i handle (List.getElem?_eq_some_iff.2 ⟨hlt, hget⟩)⟩
    rw [h.nrHandles_eq hi]
    exact hlt
  · intro hcl handle
    have hnodup : (s.owners.map (·.2)).Nodup := by
      have := hi.nodup
      rw [List.map_append] at this
      exact this.of_append_left
    rw [h.cleanedUp hcl, hnodup.count]
    simp only [hreturned]

variable [DecidableEq τ]

/-! ## The cases of a step -/

/-- The ways a step goes. -/
inductive StepCase (s : CurlData τ H) : Act τ H → CurlData τ H → List (CurlEvent τ H) → Prop where
  | cached {thread : τ} {handle : H} (easyInit : Option H) : s.currentThreadCurlHandle thread = some handle →
      StepCase s (.threadInit thread easyInit) s [.called thread, .returned thread handle]
  | noHandle (thread : τ) : StepCase s (.threadInit thread none) s [.called thread, .failed thread]
  | newHandle {thread : τ} {handle : H} : handle ∉ s.live → StepCase s (.threadInit thread (some handle))
      { s with calls := s.calls ++ [(thread, handle)], live := s.live ++ [handle] } [.called thread]
  | full {thread : τ} {handle : H} {realloc : Bool} : (thread, handle) ∈ s.calls → s.growTable realloc = none →
      StepCase s (.lock thread handle realloc)
        { s with calls := s.calls.erase (thread, handle), live := s.live.erase handle } [.dropped handle, .failed thread]
  | outside {thread : τ} {handle : H} {realloc : Bool} {cd : CurlHandleList H} : (thread, handle) ∈ s.calls →
      s.growTable realloc = some cd → ¬cd.handles.Inside sizeofHandle cd.nrHandles.toNat →
      StepCase s (.lock thread handle realloc)
        { s with calls := s.calls.erase (thread, handle), data := cd, undefined := true } []
  | stored {thread : τ} {handle : H} {realloc : Bool} {cd : CurlHandleList H} {handles : Block H} : (thread, handle) ∈ s.calls →
      s.growTable realloc = some cd → cd.handles.store sizeofHandle cd.nrHandles.toNat handle = some handles →
      StepCase s (.lock thread handle realloc)
        { s with
          calls := s.calls.erase (thread, handle)
          data := { cd with handles := handles, nrHandles := cd.nrHandles + 1 }
          owners := s.owners ++ [(thread, handle)] } [.returned thread handle]
  | cleanup : s.calls = [] → StepCase s .cleanup s.gwCurlGlobalCleanup.1 s.gwCurlGlobalCleanup.2

theorem threadInitSection_cases {thread : τ} {handle : H} (realloc : Bool) (hc : (thread, handle) ∈ s.calls) :
    StepCase s (.lock thread handle realloc) (s.threadInitSection thread handle realloc).1
      (s.threadInitSection thread handle realloc).2 := by
  unfold threadInitSection
  cases hgrow : s.growTable realloc with
  | none => exact StepCase.full hc hgrow
  | some cd =>
    cases hstore : cd.handles.store sizeofHandle cd.nrHandles.toNat handle with
    | none =>
      simp only [hstore]
      refine StepCase.outside hc hgrow (fun hin => ?_)
      rw [Block.store, if_pos hin] at hstore
      nomatch hstore
    | some handles =>
      simp only [hstore]
      exact StepCase.stored hc hgrow hstore

theorem step_cases (hs : s.step a = some (s', ev)) : s.undefined = false ∧ s.cleaned = false ∧ StepCase s a s' ev := by
  unfold step at hs
  split at hs
  · nomatch hs
  · rename_i hlive
    simp only [not_or, Bool.not_eq_true] at hlive
    refine ⟨hlive.1, hlive.2, ?_⟩
    cases a with
    | threadInit thread easyInit =>
      simp only at hs
      split at hs
      · nomatch hs
      · unfold threadInitCall at hs
        split at hs
        · rename_i hcached
          cases hs
          exact StepCase.cached easyInit hcached
        · split at hs
          · cases hs
            exact StepCase.noHandle thread
          · split at hs
            · nomatch hs
            · rename_i hnew
              cases hs
              exact StepCase.newHandle hnew
    | lock thread handle realloc =>
      simp only at hs
      split at hs
      · rename_i hc
        have hcase := threadInitSection_cases realloc hc
        rw [Option.some.inj hs] at hcase
        exact hcase
      · nomatch hs
    | cleanup =>
      simp only at hs
      split at hs
      · rename_i hc
        cases hs
        exact StepCase.cleanup hc
      · nomatch hs

namespace Inv

/-- Putting a call under way into the table reorders what there is. -/
theorem owners_perm {c : τ × H} (hc : c ∈ s.calls) : (s.owners ++ [c] ++ s.calls.erase c).Perm (s.owners ++ s.calls) := by
  rw [List.append_assoc]
  exact List.Perm.append_left _ (List.perm_cons_erase hc).symm

/-- What is left without a call under way does not have its handle. -/
theorem rest (h : Inv s log) {c : τ × H} (hc : c ∈ s.calls) : ((s.owners ++ s.calls.erase c).map (·.2)).Nodup ∧
    ∀ d ∈ s.owners ++ s.calls.erase c, d ∈ s.owners ++ s.calls ∧ d.2 ≠ c.2 := by
  have hperm : (c :: (s.owners ++ s.calls.erase c)).Perm (s.owners ++ s.calls) :=
    List.perm_middle.symm.trans (List.Perm.append_left _ (List.perm_cons_erase hc).symm)
  have hnodup := (hperm.map (·.2)).nodup_iff.2 h.nodup
  rw [List.map_cons, List.nodup_cons] at hnodup
  refine ⟨hnodup.2, fun d hd => ⟨hperm.subset (List.mem_cons_of_mem c hd), fun e => hnodup.1 ?_⟩⟩
  rw [← e]
  exact List.mem_map_of_mem hd

theorem step (h : Inv s log) (hs : s.step a = some (s', ev)) : Inv s' (log ++ ev) := by
  obtain ⟨-, hcl, hcase⟩ := step_cases hs
  cases hcase with
  | cached _ hcached => exact absurd ((h.uncached _).symm.trans hcached) nofun
  | noHandle thread =>
    obtain ⟨h1, h2, h3⟩ := h.log_quiet [.called thread, .failed thread] (by simp) rfl
    exact { h with called := h1, returned := h2, uncleaned := h3 }
  | @newHandle thread handle hnew =>
    obtain ⟨h1, h2, h3⟩ := h.log_quiet [.called thread] (by simp) rfl
    refine ⟨h.nrHandles, h.uncached, ?_, ?_, ?_, h2, h3⟩
    · show ((s.owners ++ (s.calls ++ [(thread, handle)])).map (·.2)).Nodup
      rw [← List.append_assoc, List.map_append, List.nodup_append]
      refine ⟨h.nodup, List.nodup_singleton _, ?_⟩
      rintro x hx y hy rfl
      obtain ⟨c, hc, rfl⟩ := List.mem_map.1 hx
      rw [List.map_singleton, List.mem_singleton] at hy
      have hlive := h.live c hc
      rw [hy] at hlive
      exact hnew hlive
    · intro c hc
      rw [← List.append_assoc, List.mem_append, List.mem_singleton] at hc
      rcases hc with hc | rfl
      · exact List.mem_append_left _ (h.live c hc)
      · exact List.mem_append_right _ (List.mem_singleton_self _)
    · intro c hc
      rw [← List.append_assoc, List.mem_append, List.mem_singleton] at hc
      rcases hc with hc | rfl
      · exact h1 c hc
      · exact List.mem_append_right _ (List.mem_singleton_self _)
  | @full thread handle realloc hc hgrow =>
    obtain ⟨h1, h2, h3⟩ := h.log_quiet [.dropped handle, .failed thread] (by simp) rfl
    obtain ⟨hnodup, hrest⟩ := h.rest hc
    refine ⟨h.nrHandles, h.uncached, hnodup, ?_, fun c hc' => h1 c (hrest c hc').1, h2, h3⟩
    intro c hc'
    exact (List.mem_erase_of_ne (hrest c hc').2).2 (h.live c (hrest c hc').1)
  | @outside thread handle realloc cd hc hgrow _ =>
    obtain ⟨h1, h2, h3⟩ := h.log_quiet [] (by simp) rfl
    obtain ⟨hnodup, hrest⟩ := h.rest hc
    exact ⟨(growTable_nrHandles hgrow).trans h.nrHandles, h.uncached, hnodup, fun c hc' => h.live c (hrest c hc').1,
      fun c hc' => h1 c (hrest c hc').1, h2, h3⟩
  | @stored thread handle realloc cd handles hc hgrow hstore =>
    have hperm := owners_perm hc
    refine ⟨?_, h.uncached, (hperm.map (·.2)).nodup_iff.2 h.nodup, fun c hc' => h.live c (hperm.subset hc'),
      fun c hc' => List.mem_append_left _ (h.called c (hperm.subset hc')), ?_, ?_⟩
    · show cd.nrHandles + 1 = UInt64.ofNat (s.owners ++ [(thread, handle)]).length
      rw [growTable_nrHandles hgrow, h.nrHandles, List.length_append, UInt64.ofNat_add]
      rfl
    · intro t x
      rw [List.mem_append, List.mem_append, h.returned, List.mem_singleton, List.mem_singleton]
      simp
    · intro _
      rw [cleanedHandles_append, h.uncleaned hcl]
      rfl
  | cleanup hc =>
    refine ⟨h.nrHandles, h.uncached, h.nodup, h.live, fun c hc' => List.mem_append_left _ (h.called c hc'), ?_, nofun⟩
    intro thread handle
    rw [List.mem_append, h.returned]
    refine or_iff_left (fun he => ?_)
    obtain ⟨x, -, hx⟩ := List.mem_map.1 he
    nomatch hx

theorem of_run {C : CurlData τ H → Act τ H → Prop} {env : InitEnv} {s₀ : CurlData τ H} (h0 : gwCurlGlobalInit env = .ok s₀)
    (h : (machine τ H).Run C s₀ s log) : Inv s log :=
  h.invariant (of_init h0) (fun _ _ _ _ _ _ hi _ hs => hi.step hs)

end Inv

namespace Fits

theorem step (h : Fits s log) (hi : Inv s log) (hc : s.NoGrowth a) (hs : s.step a = some (s', ev)) : Fits s' (log ++ ev) := by
  obtain ⟨-, hcl, hcase⟩ := step_cases hs
  have hopen : ∀ {l : List (CurlEvent τ H)} {handles : List H}, s.cleaned = true → cleanedHandles l = handles :=
    fun e => nomatch hcl.symm.trans e
  cases hcase with
  | cached | noHandle | newHandle | full => exact { h with cleanedUp := hopen }
  | outside _ hgrow hout =>
    obtain ⟨rfl, hlt⟩ := growTable_of_noGrowth hc hgrow
    exact absurd (h.inside_of_lt hi hlt).2 hout
  | stored _ hgrow hstore =>
    obtain ⟨rfl, hlt⟩ := growTable_of_noGrowth hc hgrow
    refine ⟨h.allocated, (Block.store_eq_some hstore).2.1.trans h.size, ?_, ?_, h.inside, hopen⟩
    · rw [List.length_append]
      exact (h.inside_of_lt hi hlt).1
    · rw [List.map_append]
      rw [h.nrHandles_eq hi] at hstore
      exact h.holds.store hstore
  | cleanup =>
    refine { h with cleanedUp := fun _ => ?_ }
    rw [cleanedHandles_append, hi.uncleaned hcl, gwCurlGlobalCleanup, cleanedHandles, List.filterMap_map]
    simp only [Function.comp_def, List.filterMap_some, List.nil_append]
    rw [h.nrHandles_eq hi]
    exact h.holds.filterMap_range

/-- The handle that makes the table grow is stored outside of it. -/
theorem undefined_of_growth (h : Fits s log) (hc : ¬s.NoGrowth a) (hs : s.step a = some (s', ev)) :
    s'.undefined = true := by
  obtain ⟨-, -, hcase⟩ := step_cases hs
  cases hcase with
  | cached | noHandle | newHandle | cleanup => exact absurd trivial hc
  | full _ hgrow =>
    obtain ⟨cd, hcd, -⟩ := h.growTable_of_growth hc
    nomatch hgrow.symm.trans hcd
  | outside => rfl
  | stored _ hgrow hstore =>
    obtain ⟨cd, hcd, -, hsize⟩ := h.growTable_of_growth hc
    obtain rfl := Option.some.inj (hgrow.symm.trans hcd)
    have hin := (Block.store_eq_some hstore).1
    simp only [NoGrowth, not_or, UInt64.not_lt, h.allocated, UInt64.le_iff_toNat_le] at hc
    rw [Block.Inside, hsize, growTable_nrHandles hgrow] at hin
    have : (1024 : UInt64).toNat = 1024 := rfl
    rw [this] at hc
    unfold sizeofHandle at hin
    omega

/-- Up to a store outside of the block every run has a table that has not grown. -/
theorem of_run {C : CurlData τ H → Act τ H → Prop} {env : InitEnv} {s₀ : CurlData τ H} (h0 : gwCurlGlobalInit env = .ok s₀)
    (h : (machine τ H).Run C s₀ s log) (hu : s.undefined = false) : Fits s log := by
  induction h with
  | init => exact of_init h0
  | @step s s' log ev a hr hc hs ih =>
    have hf := ih (step_cases hs).1
    have hi := Inv.of_run h0 hr
    by_cases hno : s.NoGrowth a
    · exact hf.step hi hno hs
    · nomatch hu.symm.trans (hf.undefined_of_growth hno hs)

theorem of_noGrowth {env : InitEnv} {s₀ : CurlData τ H} (h0 : gwCurlGlobalInit env = .ok s₀) (h : (machine τ H).Run NoGrowth s₀ s log) :
    Fits s log :=
  h.invariant (of_init h0) (fun _ _ _ _ _ hr hf hc hs => hf.step (Inv.of_run h0 hr) hc hs)

end Fits

/-- In a run in which the table does not grow it is safe in every state; and the first step that makes it grow ends that. -/
theorem table_safe {env : InitEnv} {s₀ : CurlData τ H} (h0 : gwCurlGlobalInit env = .ok s₀) (h : (machine τ H).Run NoGrowth s₀ s log) :
    TableSafe s log ∧ ∀ a s' ev, s.step a = some (s', ev) → (TableSafe s' (log ++ ev) ↔ s.NoGrowth a) := by
  have hi := Inv.of_run h0 h
  have hf := Fits.of_noGrowth h0 h
  refine ⟨hf.tableSafe hi, fun a s' ev hs => ⟨fun hsafe => ?_, fun hc => (hf.step hi hc hs).tableSafe (hi.step hs)⟩⟩
  by_contra hc
  nomatch hsafe.inside.symm.trans (hf.undefined_of_growth hc hs)

/-- Two threads get a handle, and both handles are cleaned up. -/
theorem table_safe_small : ∃ (s₀ s : CurlData Nat Nat) (log : List (CurlEvent Nat Nat)),
    gwCurlGlobalInit ⟨true, true, 0, true⟩ = .ok s₀ ∧ (machine Nat Nat).Run NoGrowth s₀ s log ∧
    returnedHandles log = [7, 5] ∧ cleanedHandles log = [7, 5] ∧ TableSafe s log := by
  have hrun : ∃ s₀ : CurlData Nat Nat, gwCurlGlobalInit ⟨true, true, 0, true⟩ = .ok s₀ ∧
      ((machine Nat Nat).execIf NoGrowth s₀
        [.threadInit 0 (some 5), .threadInit 1 (some 7), .lock 1 7 false, .lock 0 5 true, .cleanup]).map
        (fun r => (returnedHandles r.2, cleanedHandles r.2)) = some ([7, 5], [7, 5]) := ⟨_, rfl, by decide⟩
  obtain ⟨s₀, h0, he⟩ := hrun
  obtain ⟨s, log, h, hval⟩ := Machine.exists_of_exec (fun (_ : CurlData Nat Nat) log => (returnedHandles log, cleanedHandles log)) he
  obtain ⟨hret, hcl⟩ := Prod.mk.inj hval
  exact ⟨s₀, s, log, h0, h, hret, hcl, (table_safe h0 h).1⟩

/-! ## The 1025th handle -/

theorem step_threadInit (h : Fits s log) (hi : Inv s log) (hcl : s.cleaned = false) (hcalls : s.calls = []) (thread : τ) {handle : H}
    (hnew : handle ∉ s.live) :
    s.step (.threadInit thread (some handle)) =
      some ({ s with calls := [(thread, handle)], live := s.live ++ [handle] }, [.called thread]) := by
  simp [CurlData.step, threadInitCall, h.inside, hcl, hcalls, hi.uncached, hnew]

theorem step_lock (h : Fits s log) (hcl : s.cleaned = false) {thread : τ} {handle : H} (hc : (thread, handle) ∈ s.calls)
    (realloc : Bool) : s.step (.lock thread handle realloc) = some (s.threadInitSection thread handle realloc) := by
  simp [CurlData.step, h.inside, hcl, hc]

theorem threadInitSection_of_lt (h : Fits s log) (hi : Inv s log) (hlt : s.data.nrHandles < s.data.allocated) (thread : τ) (handle : H)
    (realloc : Bool) : ∃ handles, s.threadInitSection thread handle realloc =
      ({ s with
          calls := s.calls.erase (thread, handle)
          data := { s.data with handles := handles, nrHandles := s.data.nrHandles + 1 }
          owners := s.owners ++ [(thread, handle)] }, [.returned thread handle]) := by
  have hgrow : s.growTable realloc = some s.data := if_neg (UInt64.not_le.2 hlt)
  have hin := (h.inside_of_lt hi hlt).2
  exact ⟨_, by simp only [threadInitSection, hgrow, Block.store, if_pos hin]; rfl⟩

/-- One thread that calls `gw_curl_thread_init` over and over fills the table. -/
theorem exists_filled {s₀ : CurlData Nat Nat} {env : InitEnv} (h0 : gwCurlGlobalInit env = .ok s₀) (n : Nat) (hn : n ≤ 1024) :
    ∃ s log, (machine Nat Nat).Run NoGrowth s₀ s log ∧ s.cleaned = false ∧ s.calls = [] ∧ s.owners.length = n ∧ ∀ x ∈ s.live, x < n := by
  induction n with
  | zero =>
    refine ⟨s₀, [], Machine.Run.init, ?_⟩
    rw [gwCurlGlobalInit_ok h0]
    exact ⟨rfl, rfl, rfl, nofun⟩
  | succ n ih =>
    obtain ⟨s, log, h, hcl, hcalls, hlen, hlive⟩ := ih (Nat.le_of_succ_le hn)
    have hi := Inv.of_run h0 h
    have hf := Fits.of_noGrowth h0 h
    have hlt : s.data.nrHandles < s.data.allocated := by
      rw [hf.allocated, UInt64.lt_iff_toNat_lt, hf.nrHandles_toNat hi, hlen]
      exact hn
    have hcall := step_threadInit hf hi hcl hcalls 0 (fun hm => Nat.lt_irrefl n (hlive n hm))
    have hrun := Machine.Run.step (Act.threadInit 0 (some n)) h trivial hcall
    have hi' := Inv.of_run h0 hrun
    have hf' := Fits.of_noGrowth h0 hrun
    obtain ⟨handles, hsection⟩ := threadInitSection_of_lt hf' hi' hlt 0 n false
    have hlock := step_lock hf' hcl (List.mem_singleton_self _) false
    rw [hsection] at hlock
    refine ⟨_, _, Machine.Run.step (Act.lock 0 n false) hrun (Or.inl hlt) hlock, hcl, by simp, by simp [hlen], ?_⟩
    intro x hx
    rcases List.mem_append.1 hx with hx | hx
    · exact Nat.lt_succ_of_lt (hlive x hx)
    · exact Nat.lt_succ_of_le (Nat.le_of_eq (List.mem_singleton.1 hx))

/-- 1025 calls of `gw_curl_thread_init`: the last makes the table grow from 8192 to 2048 bytes and stores handle 1024 outside of it. -/
theorem table_shrinks : ∃ (s₀ s : CurlData Nat Nat) (log : List (CurlEvent Nat Nat)),
    gwCurlGlobalInit ⟨true, true, 0, true⟩ = .ok s₀ ∧ (machine Nat Nat).Reach s₀ s log ∧
    s.data.nrHandles = 1024 ∧ s.data.allocated = 2048 ∧ s.data.handles.size = 2048 ∧ s.undefined = true ∧ ¬TableSafe s log := by
  have h0 : ∃ s₀ : CurlData Nat Nat, gwCurlGlobalInit ⟨true, true, 0, true⟩ = .ok s₀ := ⟨_, rfl⟩
  obtain ⟨s₀, h0⟩ := h0
  obtain ⟨s, log, h, hcl, hcalls, hlen, hlive⟩ := exists_filled h0 1024 (Nat.le_refl _)
  have hi := Inv.of_run h0 h
  have hf := Fits.of_noGrowth h0 h
  have hcall := step_threadInit hf hi hcl hcalls 0 (fun hm => Nat.lt_irrefl 1024 (hlive 1024 hm))
  have hrun := Machine.Run.step (Act.threadInit 0 (some 1024)) h trivial hcall
  have hf' := Fits.of_noGrowth h0 hrun
  have hnr : s.data.nrHandles = 1024 := by
    rw [hi.nrHandles, hlen]
    rfl
  have hno : ¬NoGrowth { s with calls := [(0, 1024)], live := s.live ++ [1024] } (.lock 0 1024 true) := by
    simp [NoGrowth, hnr, hf.allocated]
  obtain ⟨cd, hgrow, hallocated, hsize⟩ := hf'.growTable_of_growth hno
  have hnr' : cd.nrHandles = 1024 := (growTable_nrHandles hgrow).trans hnr
  have hout : ¬cd.handles.Inside sizeofHandle cd.nrHandles.toNat := by
    rw [Block.Inside, hsize, hnr']
    decide
  have hlock := step_lock hf' hcl (List.mem_singleton_self _) true
  simp only [threadInitSection, hgrow, Block.store, if_neg hout] at hlock
  exact ⟨s₀, _, _, h0, Machine.Run.step (Act.lock 0 1024 true) hrun.reach trivial hlock, hnr', hallocated, hsize, rfl,
    fun hsafe => nomatch hsafe.inside⟩

end CurlData

end GwBot

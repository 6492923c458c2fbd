import GwBot.Modules.Defs

/-!
# What is initialised is shut down

`gw_shutdown_modules` tests its hook the wrong way round: it calls the hook of a module that has none, and never one that is there. And
when an init hook fails, `gw_init_modules` returns without a look back at the modules before. So a run is in order exactly when it leaves
nothing to shut down.
-/

namespace GwBot

variable {Hook : Type} {allowFail : Bool} {initRet : Nat → Int} {mods : List (GwBotModule Hook)}

/-- The index of the module whose shutdown hook is called. -/
def HookEvent.shutdownIndex : HookEvent → Option Nat
  | .shutdown i => some i
  | _ => none

/-- The module has no init hook, or it succeeds. -/
def GwBotModule.Initialised (mod : GwBotModule Hook) (initRet : Nat → Int) (i : Nat) : Prop := mod.init = none ∨ initRet i = 0

/-- Every module that is initialised is shut down, exactly once, by `gw_shutdown_modules` or before `gw_init_modules` returns an error;
and no hook is called that is missing. -/
structure LifecyclePaired (allowFail : Bool) (initRet : Nat → Int) (mods : List (GwBotModule Hook)) : Prop where
  shutDown : (gwInitModules allowFail initRet mods).2 = 0 → ∀ (i : Nat) mod, mods[i]? = some mod → mod.shutdown.isSome = true →
    mod.Initialised initRet i → (runTgBot allowFail initRet mods).count (.shutdown i) = 1
  inOrder : (gwInitModules allowFail initRet mods).2 = 0 →
    ((runTgBot allowFail initRet mods).filterMap HookEvent.shutdownIndex).Pairwise (· < ·)
  rolledBack : ∀ f, (gwInitModules allowFail initRet mods).2 ≠ 0 →
    .init f (gwInitModules allowFail initRet mods).2 ∈ (gwInitModules allowFail initRet mods).1 → ∀ i mod, i < f → mods[i]? = some mod →
    mod.shutdown.isSome = true → mod.Initialised initRet i → (runTgBot allowFail initRet mods).count (.shutdown i) = 1
  noneAbsent : ∀ i, .absent i ∉ runTgBot allowFail initRet mods
  noneAbsentHandle : ∀ up handleRet i, .absent i ∉ (gwModuleHandle up handleRet mods).1

/-- Failures are not allowed, and module `f` is the first whose init hook fails. -/
structure FailsAt (allowFail : Bool) (initRet : Nat → Int) (mods : List (GwBotModule Hook)) (f : Nat) : Prop where
  notAllowed : allowFail = false
  fails : ∃ mod, mods[f]? = some mod ∧ ¬mod.Initialised initRet f
  first : ∀ i mod, i < f → mods[i]? = some mod → mod.Initialised initRet i

/-- No module before the one whose init hook fails has a shutdown hook; if none fails, or that is allowed, every module has one, and no
module is initialised. -/
def NothingToShutDown (allowFail : Bool) (initRet : Nat → Int) (mods : List (GwBotModule Hook)) : Prop :=
  (∃ f, FailsAt allowFail initRet mods f ∧ ∀ i mod, i < f → mods[i]? = some mod → mod.shutdown = none) ∨
  (¬∃ f, FailsAt allowFail initRet mods f) ∧
    ∀ (i : Nat) (mod : GwBotModule Hook), mods[i]? = some mod → mod.shutdown.isSome = true ∧ ¬mod.Initialised initRet i

theorem FailsAt.eq {f f' : Nat} (h : FailsAt allowFail initRet mods f) (h' : FailsAt allowFail initRet mods f') : f = f' := by
  obtain ⟨-, ⟨mod, hm, hn⟩, hfirst⟩ := h
  obtain ⟨-, ⟨mod', hm', hn'⟩, hfirst'⟩ := h'
  rcases Nat.lt_trichotomy f f' with hlt | heq | hgt
  · exact absurd (hfirst' f mod hlt hm) hn
  · exact heq
  · exact absurd (hfirst f' mod' hgt hm') hn'

/-! ## The table -/

/-- The modules of a table before one of them are those of a smaller index. -/
theorem mem_zipIdx_left {l₁ l₂ : List (GwBotModule Hook × Nat)} {mod : GwBotModule Hook} {f : Nat}
    (h : mods.zipIdx = l₁ ++ (mod, f) :: l₂) (m : GwBotModule Hook) (i : Nat) : (m, i) ∈ l₁ ↔ i < f ∧ mods[i]? = some m := by
  have hget : ∀ k : Nat, (mods[k]?).map (fun a => (a, k)) = (l₁ ++ (mod, f) :: l₂)[k]? := by
    intro k
    rw [← h, List.getElem?_zipIdx, Nat.zero_add]
  have hf : f = l₁.length := by
    have := hget l₁.length
    rw [List.getElem?_append_right (Nat.le_refl _), Nat.sub_self, List.getElem?_cons_zero, Option.map_eq_some_iff] at this
    obtain ⟨a, -, ha⟩ := this
    exact (Prod.mk.inj ha).2.symm
  rw [hf]
  constructor
  · intro hm
    obtain ⟨k, hk, hkm⟩ := List.getElem_of_mem hm
    have := hget k
    rw [List.getElem?_append_left hk, List.getElem?_eq_getElem hk, hkm, Option.map_eq_some_iff] at this
    obtain ⟨a, ha, hak⟩ := this
    obtain ⟨rfl, rfl⟩ := Prod.mk.inj hak
    exact ⟨hk, ha⟩
  · rintro ⟨hi, hm⟩
    have := hget i
    rw [hm, List.getElem?_append_left hi, Option.map_some] at this
    exact List.mem_of_getElem? this.symm

/-! ## The init hooks -/

/-- The init hook of the module fails, and that is not allowed. -/
def Stops (allowFail : Bool) (initRet : Nat → Int) (e : GwBotModule Hook × Nat) : Prop :=
  allowFail = false ∧ ¬e.1.Initialised initRet e.2

/-- The calls of the init hooks that there are, in the order of the table. -/
def initCalls (initRet : Nat → Int) (l : List (GwBotModule Hook × Nat)) : List HookEvent :=
  (l.filter fun e => e.1.init.isSome).map fun e => .init e.2 (initRet e.2)

theorem initCalls_cons (e : GwBotModule Hook × Nat) (l : List (GwBotModule Hook × Nat)) :
    initCalls initRet (e :: l) = initCalls initRet [e] ++ initCalls initRet l := by
  rw [initCalls, initCalls, initCalls, ← List.map_append, ← List.filter_append, List.singleton_append]

/-- An init hook that is called is there, and what it returns is given. -/
theorem of_mem_initCalls {l : List (GwBotModule Hook × Nat)} {ev : HookEvent} (h : ev ∈ initCalls initRet l) :
    ∃ e ∈ l, e.1.init.isSome = true ∧ ev = .init e.2 (initRet e.2) := by
  obtain ⟨e, he, rfl⟩ := List.mem_map.1 h
  obtain ⟨hel, hes⟩ := List.mem_filter.1 he
  exact ⟨e, hel, hes, rfl⟩

/-- `gw_init_modules` calls the init hooks one after the other, up to the first that fails when that is not allowed. -/
theorem initModules_cases (allowFail : Bool) (initRet : Nat → Int) (l : List (GwBotModule Hook × Nat)) :
    (∀ e ∈ l, ¬Stops allowFail initRet e) ∧ initModules allowFail initRet l = (initCalls initRet l, 0) ∨
    ∃ l₁ mod f l₂, l = l₁ ++ (mod, f) :: l₂ ∧ (∀ e ∈ l₁, ¬Stops allowFail initRet e) ∧ Stops allowFail initRet (mod, f) ∧
      initModules allowFail initRet l =
        (initCalls initRet l₁ ++ [.init f (initRet f), .stderr ("Failed to init module " ++ mod.name ++ "\n")], initRet f) := by
  induction l with
  | nil => exact Or.inl ⟨fun _ h => absurd h List.not_mem_nil, rfl⟩
  | cons e l ih =>
    obtain ⟨mod, i⟩ := e
    by_cases hs : Stops allowFail initRet (mod, i)
    · refine Or.inr ⟨[], mod, i, l, rfl, fun _ h => absurd h List.not_mem_nil, hs, ?_⟩
      obtain ⟨ha, hi⟩ := hs
      obtain ⟨hi, hr⟩ := not_or.1 hi
      obtain ⟨hook, hi⟩ := Option.ne_none_iff_exists'.1 hi
      rw [initModules, hi]
      exact if_pos ⟨hr, ha⟩
    · have hgo : initModules allowFail initRet ((mod, i) :: l) =
          (initCalls initRet [(mod, i)] ++ (initModules allowFail initRet l).1, (initModules allowFail initRet l).2) := by
        rw [initModules]
        cases hi : mod.init with
        | none => simp [initCalls, hi]
        | some hook =>
          have hn : ¬(initRet i ≠ 0 ∧ allowFail = false) := fun hn => hs ⟨hn.2, not_or.2 ⟨by simp [hi], hn.1⟩⟩
          simp [initCalls, hi, hn]
      rcases ih with ⟨hall, heq⟩ | ⟨l₁, mod', f, l₂, rfl, hall, hstop, heq⟩
      · refine Or.inl ⟨List.forall_mem_cons.2 ⟨hs, hall⟩, ?_⟩
        rw [hgo, heq, initCalls_cons (mod, i) l]
      · refine Or.inr ⟨(mod, i) :: l₁, mod', f, l₂, rfl, List.forall_mem_cons.2 ⟨hs, hall⟩, hstop, ?_⟩
        rw [hgo, heq, initCalls_cons (mod, i) l₁, List.append_assoc]

/-- The module that stops the loop is the one at which `gw_init_modules` fails. -/
theorem FailsAt.of_split {l₁ l₂ : List (GwBotModule Hook × Nat)} {mod : GwBotModule Hook} {f : Nat}
    (h : mods.zipIdx = l₁ ++ (mod, f) :: l₂) (hall : ∀ e ∈ l₁, ¬Stops allowFail initRet e) (hs : Stops allowFail initRet (mod, f)) :
    FailsAt allowFail initRet mods f := by
  have hmem : (mod, f) ∈ mods.zipIdx := by
    rw [h]
    exact List.mem_append_right _ List.mem_cons_self
  refine ⟨hs.1, ⟨mod, List.mem_zipIdx_iff_getElem?.1 hmem, hs.2⟩, fun i m hi hm => ?_⟩
  have := hall _ ((mem_zipIdx_left h m i).2 ⟨hi, hm⟩)
  by_contra hn
  exact this ⟨hs.1, hn⟩

/-- `gw_init_modules` returns 0, or what the init hook returns at which it fails. -/
theorem gwInitModules_cases (allowFail : Bool) (initRet : Nat → Int) (mods : List (GwBotModule Hook)) :
    (gwInitModules allowFail initRet mods).2 = 0 ∧ (¬∃ f, FailsAt allowFail initRet mods f) ∨
    ∃ f, FailsAt allowFail initRet mods f ∧ (gwInitModules allowFail initRet mods).2 = initRet f ∧ initRet f ≠ 0 ∧
      ∀ f', .init f' (initRet f) ∈ (gwInitModules allowFail initRet mods).1 ↔ f' = f := by
  rcases initModules_cases allowFail initRet mods.zipIdx with ⟨hall, heq⟩ | ⟨l₁, mod, f, l₂, hl, hall, hs, heq⟩
  · refine Or.inl ⟨congrArg Prod.snd heq, ?_⟩
    rintro ⟨f, hna, ⟨mod, hf, hfail⟩, -⟩
    exact hall (mod, f) (List.mem_zipIdx_iff_getElem?.2 hf) ⟨hna, hfail⟩
  · have hne : initRet f ≠ 0 := (not_or.1 hs.2).2
    refine Or.inr ⟨f, FailsAt.of_split hl hall hs, congrArg Prod.snd heq, hne, fun f' => ?_⟩
    rw [gwInitModules, heq]
    constructor
    · intro h
      rcases List.mem_append.1 h with h | h
      · -- a hook that was called before and returned the same would have stopped the loop
        obtain ⟨e, he, hi, hev⟩ := of_mem_initCalls h
        obtain ⟨rfl, hr⟩ := HookEvent.init.inj hev
        exact absurd ⟨hs.1, not_or.2 ⟨Option.isSome_iff_ne_none.1 hi, hr ▸ hne⟩⟩ (hall e he)
      · simpa using h
    · rintro rfl
      exact List.mem_append_right _ List.mem_cons_self

/-- `gw_init_modules` calls init hooks only, and only those that are there. -/
theorem of_mem_gwInitModules {ev : HookEvent} (h : ev ∈ (gwInitModules allowFail initRet mods).1) :
    (∃ i ret, ev = .init i ret) ∨ ∃ text, ev = .stderr text := by
  rcases initModules_cases allowFail initRet mods.zipIdx with ⟨-, heq⟩ | ⟨l₁, mod, f, l₂, -, -, -, heq⟩
  · rw [gwInitModules, heq] at h
    obtain ⟨e, -, -, rfl⟩ := of_mem_initCalls h
    exact Or.inl ⟨_, _, rfl⟩
  · rw [gwInitModules, heq] at h
    rcases List.mem_append.1 h with h | h
    · obtain ⟨e, -, -, rfl⟩ := of_mem_initCalls h
      exact Or.inl ⟨_, _, rfl⟩
    · rcases List.mem_pair.1 h with rfl | rfl
      · exact Or.inl ⟨_, _, rfl⟩
      · exact Or.inr ⟨_, rfl⟩

/-! ## The shutdown and the handle hooks -/

/-- `gw_shutdown_modules` does nothing, or calls the hook of a module that has none. -/
theorem shutdownModules_cases (l : List (GwBotModule Hook × Nat)) :
    shutdownModules l = [] ∧ (∀ e ∈ l, e.1.shutdown.isSome = true) ∨ ∃ e ∈ l, e.1.shutdown = none ∧ shutdownModules l = [.absent e.2] := by
  induction l with
  | nil => exact Or.inl ⟨rfl, fun _ h => absurd h List.not_mem_nil⟩
  | cons e l ih =>
    obtain ⟨mod, i⟩ := e
    cases hs : mod.shutdown with
    | none => exact Or.inr ⟨(mod, i), List.mem_cons_self, hs, by simp only [shutdownModules, hs]⟩
    | some hook =>
      have hgo : shutdownModules ((mod, i) :: l) = shutdownModules l := by simp only [shutdownModules, hs]
      rw [hgo]
      rcases ih with ⟨heq, hall⟩ | ⟨e, he, hn, heq⟩
      · exact Or.inl ⟨heq, List.forall_mem_cons.2 ⟨Option.isSome_iff_exists.2 ⟨hook, hs⟩, hall⟩⟩
      · exact Or.inr ⟨e, List.mem_cons_of_mem _ he, hn, heq⟩

/-- `gw_module_handle` calls handle hooks only, and only those that are there. -/
theorem of_mem_handleModules {type : UInt64} {handleRet : Nat → Int} {l : List (GwBotModule Hook × Nat)} {ev : HookEvent}
    (h : ev ∈ (handleModules type handleRet l).1) : ∃ e ∈ l, e.1.handle.isSome = true ∧ ev = .handle e.2 (handleRet e.2) := by
  induction l with
  | nil => nomatch h
  | cons e l ih =>
    obtain ⟨mod, i⟩ := e
    have later : ev ∈ (handleModules type handleRet l).1 →
        ∃ e ∈ (mod, i) :: l, e.1.handle.isSome = true ∧ ev = .handle e.2 (handleRet e.2) := by
      intro h
      obtain ⟨e, he, hh⟩ := ih h
      exact ⟨e, List.mem_cons_of_mem _ he, hh⟩
    cases hh : mod.handle with
    | none =>
      simp only [handleModules, hh] at h
      exact later h
    | some hook =>
      have here : ev = .handle i (handleRet i) → ∃ e ∈ (mod, i) :: l, e.1.handle.isSome = true ∧ ev = .handle e.2 (handleRet e.2) :=
        fun hev => ⟨(mod, i), List.mem_cons_self, Option.isSome_iff_exists.2 ⟨hook, hh⟩, hev⟩
      simp only [handleModules, hh] at h
      split at h
      · exact later h
      · split at h
        · exact here (List.mem_singleton.1 h)
        · rcases List.mem_cons.1 h with h | h
          · exact here h
          · exact later h

/-! ## The run -/

/-- No shutdown hook is ever called. -/
theorem shutdown_not_mem_runTgBot (i : Nat) : .shutdown i ∉ runTgBot allowFail initRet mods := by
  have hinit : HookEvent.shutdown i ∉ (gwInitModules allowFail initRet mods).1 := by
    intro h
    rcases of_mem_gwInitModules h with ⟨_, _, h⟩ | ⟨_, h⟩ <;> nomatch h
  have hshut : HookEvent.shutdown i ∉ gwShutdownModules mods := by
    rcases shutdownModules_cases mods.zipIdx with ⟨heq, -⟩ | ⟨e, -, -, heq⟩
    · rw [gwShutdownModules, heq]
      exact List.not_mem_nil
    · rw [gwShutdownModules, heq]
      simp
  rw [runTgBot]
  split
  · exact hinit
  · rw [List.mem_append, not_or]
    exact ⟨hinit, hshut⟩

/-- A missing hook is called when the modules are shut down and one of them has no shutdown hook, and never else. -/
theorem absent_not_mem_runTgBot_iff : (∀ i, .absent i ∉ runTgBot allowFail initRet mods) ↔
    ((gwInitModules allowFail initRet mods).2 = 0 →
      ∀ (i : Nat) (mod : GwBotModule Hook), mods[i]? = some mod → mod.shutdown.isSome = true) := by
  have hinit : ∀ i, HookEvent.absent i ∉ (gwInitModules allowFail initRet mods).1 := by
    intro i h
    rcases of_mem_gwInitModules h with ⟨_, _, h⟩ | ⟨_, h⟩ <;> nomatch h
  by_cases hr : (gwInitModules allowFail initRet mods).2 = 0
  · rw [runTgBot, if_neg (not_not.2 hr), gwShutdownModules]
    rcases shutdownModules_cases mods.zipIdx with ⟨heq, hall⟩ | ⟨e, he, hn, heq⟩
    · rw [heq, List.append_nil]
      exact iff_of_true hinit fun _ i mod hm => hall (mod, i) (List.mem_zipIdx_iff_getElem?.2 hm)
    · rw [heq]
      refine iff_of_false (fun h => h e.2 (by simp)) fun h => ?_
      have := h hr e.2 e.1 (List.mem_zipIdx_iff_getElem?.1 he)
      rw [hn] at this
      nomatch this
  · rw [runTgBot, if_pos hr]
    exact iff_of_true hinit fun h => absurd h hr

theorem count_shutdown_runTgBot (i : Nat) : (runTgBot allowFail initRet mods).count (.shutdown i) ≠ 1 := by
  rw [List.count_eq_zero.2 (shutdown_not_mem_runTgBot i)]
  decide

theorem shutdownIndex_runTgBot : (runTgBot allowFail initRet mods).filterMap HookEvent.shutdownIndex = [] := by
  refine List.filterMap_eq_nil_iff.2 fun ev hev => ?_
  cases ev with
  | shutdown i => exact absurd hev (shutdown_not_mem_runTgBot i)
  | init | handle | absent | stderr => rfl

/-- A missing handle hook is never called. -/
theorem absent_not_mem_gwModuleHandle (up : TgUpdate) (handleRet : Nat → Int) (i : Nat) :
    .absent i ∉ (gwModuleHandle up handleRet mods).1 := by
  intro h
  obtain ⟨e, -, -, h⟩ := of_mem_handleModules h
  nomatch h

/-- A run that comes to `gw_shutdown_modules` is in order when every module has the hook that is not called, and none needs it. -/
theorem lifecyclePaired_iff_of_zero (hr : (gwInitModules allowFail initRet mods).2 = 0) : LifecyclePaired allowFail initRet mods ↔
    ∀ (i : Nat) (mod : GwBotModule Hook), mods[i]? = some mod → mod.shutdown.isSome = true ∧ ¬mod.Initialised initRet i := by
  constructor
  · intro h i mod hm
    have hsome := absent_not_mem_runTgBot_iff.1 h.noneAbsent hr i mod hm
    exact ⟨hsome, fun hinit => count_shutdown_runTgBot i (h.shutDown hr i mod hm hsome hinit)⟩
  · intro hall
    refine ⟨fun _ i mod hm _ hinit => absurd hinit (hall i mod hm).2, fun _ => ?_, fun _ hne => absurd hr hne,
      absent_not_mem_runTgBot_iff.2 fun _ i mod hm => (hall i mod hm).1, absent_not_mem_gwModuleHandle⟩
    rw [shutdownIndex_runTgBot]
    exact List.Pairwise.nil

/-- A run that ends at a failing init hook is in order when the modules before have nothing to shut down. -/
theorem lifecyclePaired_iff_of_failsAt {f : Nat} (hf : FailsAt allowFail initRet mods f)
    (hr : (gwInitModules allowFail initRet mods).2 = initRet f) (hne : initRet f ≠ 0)
    (hlast : ∀ f', .init f' (initRet f) ∈ (gwInitModules allowFail initRet mods).1 ↔ f' = f) : LifecyclePaired allowFail initRet mods ↔
    ∀ (i : Nat) (mod : GwBotModule Hook), i < f → mods[i]? = some mod → mod.shutdown = none := by
  rw [← hr] at hne hlast
  constructor
  · intro h i mod hi hm
    by_contra hn
    exact count_shutdown_runTgBot i
      (h.rolledBack f hne ((hlast f).2 rfl) i mod hi hm (Option.isSome_iff_ne_none.2 hn) (hf.first i mod hi hm))
  · intro hnone
    refine ⟨fun h => absurd h hne, fun h => absurd h hne, fun f' _ hmem i mod hi hm hsome _ => ?_,
      absent_not_mem_runTgBot_iff.2 fun h => absurd h hne, absent_not_mem_gwModuleHandle⟩
    obtain rfl := (hlast f').1 hmem
    rw [hnone i mod hi hm] at hsome
    nomatch hsome

/-- The hooks of the modules are called in pairs exactly when there is nothing to shut down. -/
theorem lifecyclePaired_iff (allowFail : Bool) (initRet : Nat → Int) (mods : List (GwBotModule Hook)) :
    LifecyclePaired allowFail initRet mods ↔ NothingToShutDown allowFail initRet mods := by
  rcases gwInitModules_cases allowFail initRet mods with ⟨hr, hnone⟩ | ⟨f, hf, hr, hne, hlast⟩
  · rw [lifecyclePaired_iff_of_zero hr]
    constructor
    · intro hall
      exact Or.inr ⟨hnone, hall⟩
    · rintro (⟨f, hf, -⟩ | ⟨-, hall⟩)
      · exact absurd ⟨f, hf⟩ hnone
      · exact hall
  · rw [lifecyclePaired_iff_of_failsAt hf hr hne hlast]
    constructor
    · intro hall
      exact Or.inl ⟨f, hf, hall⟩
    · rintro (⟨f', hf', hall⟩ | ⟨hnot, -⟩)
      · rwa [hf.eq hf']
      · exact absurd ⟨f, hf⟩ hnot

/-- The module of the tree is initialised, and never shut down. -/
theorem ping_not_shutDown : ¬LifecyclePaired true (fun _ => 0) [gwModInfoPing] := by
  intro h
  have hone := h.shutDown rfl 0 gwModInfoPing rfl rfl (Or.inr rfl)
  exact absurd hone (by decide)

end GwBot

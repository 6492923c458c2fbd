import Mathlib.Data.List.Basic

/-!
# Machines and their runs

A machine is a partial step function: an action that is not enabled in a state has no step, and a step that is taken
leaves a new state and the events it logs. Every property of "any interleaving" is a property of the runs of a machine,
so the induction over runs is here once (`Machine.Run.invariant`), and so is the passage from a machine to the abstract
system it refines (`Machine.Run.refines`).
-/

namespace GwBot.Lib

/-- A machine on states `σ`, driven by actions `α`, logging events `ε`. -/
structure Machine (σ α ε : Type) where
  step : σ → α → Option (σ × List ε)

namespace Machine

variable {σ α ε : Type} (M : Machine σ α ε)

/-- A run from `s₀`, all of whose steps satisfy `C` (a condition on the state before the step and the action): the state
it reaches and the log it leaves. -/
inductive Run (C : σ → α → Prop) (s₀ : σ) : σ → List ε → Prop where
  | init : Run C s₀ s₀ []
  | step {s s' : σ} {log ev : List ε} (a : α) :
      Run C s₀ s log → C s a → M.step s a = some (s', ev) → Run C s₀ s' (log ++ ev)

/-- The states and logs that some run reaches, whatever its steps. -/
abbrev Reach (s₀ : σ) : σ → List ε → Prop := M.Run (fun _ _ => True) s₀

/-- Carry out a list of actions; `none` when one of them is not enabled or does not satisfy `C`. -/
def execIf (C : σ → α → Prop) [∀ s a, Decidable (C s a)] : σ → List α → Option (σ × List ε)
  | s, [] => some (s, [])
  | s, a :: as =>
    if C s a then
      match M.step s a with
      | none => none
      | some (s₁, e₁) =>
        match execIf C s₁ as with
        | none => none
        | some (s₂, e₂) => some (s₂, e₁ ++ e₂)
    else none

/-- Carry out a list of actions; `none` when one of them is not enabled. -/
abbrev exec : σ → List α → Option (σ × List ε) := M.execIf (fun _ _ => True)

variable {M} {C C' : σ → α → Prop} {s₀ s s' : σ} {log ev : List ε}

/-- A run whose steps satisfy a condition satisfies every weaker one. -/
theorem Run.mono (h : M.Run C s₀ s log) (hC : ∀ s a, C s a → C' s a) : M.Run C' s₀ s log := by
  induction h with
  | init => exact Run.init
  | step a _ hc hs ih => exact Run.step a ih (hC _ _ hc) hs

/-- What a run under a condition reaches is reachable. -/
theorem Run.reach (h : M.Run C s₀ s log) : M.Reach s₀ s log :=
  h.mono (fun _ _ _ => trivial)

/-- A run goes on from where another arrived. -/
theorem Run.trans {log' : List ε} (h : M.Run C s₀ s log) (h' : M.Run C s s' log') : M.Run C s₀ s' (log ++ log') := by
  induction h' with
  | init =>
    rw [List.append_nil]
    exact h
  | step a _ hc hs ih =>
    rw [← List.append_assoc]
    exact Run.step a ih hc hs

/-- A property of the state and the log that holds at the start and is kept by every step that the run may take holds
wherever the run arrives. -/
theorem Run.invariant {I : σ → List ε → Prop} (h0 : I s₀ [])
    (hstep : ∀ s log a s' ev, M.Run C s₀ s log → I s log → C s a → M.step s a = some (s', ev) → I s' (log ++ ev))
    (h : M.Run C s₀ s log) : I s log := by
  induction h with
  | init => exact h0
  | step a hr hc hs ih => exact hstep _ _ a _ _ hr ih hc hs

/-- The invariant rule for a property of the state alone. -/
theorem Run.stateInv {I : σ → Prop} (h0 : I s₀)
    (hstep : ∀ s log a s' ev, M.Run C s₀ s log → I s → C s a → M.step s a = some (s', ev) → I s')
    (h : M.Run C s₀ s log) : I s :=
  Run.invariant (I := fun s _ => I s) h0 (fun s log a s' ev hr hi hc hs => hstep s log a s' ev hr hi hc hs) h

/-- Running on from where a run arrived, by actions that also satisfy the condition of that run. -/
theorem Run.append_exec_of [∀ s a, Decidable (C s a)] (as : List α) (hC : ∀ a ∈ as, ∀ s, C s a → C' s a) (h : M.Run C' s₀ s log)
    (he : M.execIf C s as = some (s', ev)) : M.Run C' s₀ s' (log ++ ev) := by
  induction as generalizing s log ev with
  | nil =>
    simp only [execIf, Option.some.injEq, Prod.mk.injEq] at he
    obtain ⟨rfl, rfl⟩ := he
    rw [List.append_nil]
    exact h
  | cons a as ih =>
    simp only [execIf] at he
    split at he
    · rename_i hc
      split at he
      · nomatch he
      · rename_i s₁ e₁ h1
        split at he
        · nomatch he
        · rename_i s₂ e₂ h2
          simp only [Option.some.injEq, Prod.mk.injEq] at he
          obtain ⟨rfl, rfl⟩ := he
          have hstep := Run.step a h (hC a List.mem_cons_self s hc) h1
          rw [← List.append_assoc]
          exact ih (fun b hb => hC b (List.mem_cons_of_mem a hb)) hstep h2
    · nomatch he

theorem Run.append_exec [∀ s a, Decidable (C s a)] (as : List α) (h : M.Run C s₀ s log) (he : M.execIf C s as = some (s', ev)) :
    M.Run C s₀ s' (log ++ ev) :=
  h.append_exec_of as (fun _ _ _ hc => hc) he

/-- What executing a list of actions computes is so of the state and log that some run reaches. -/
theorem exists_of_exec [∀ s a, Decidable (C s a)] {β : Type} {as : List α} (f : σ → List ε → β) {b : β}
    (h : (M.execIf C s₀ as).map (fun r => f r.1 r.2) = some b) : ∃ s log, M.Run C s₀ s log ∧ f s log = b := by
  obtain ⟨⟨s, log⟩, hr, hb⟩ := Option.map_eq_some_iff.1 h
  have h0 : M.Run C s₀ s₀ [] := Run.init
  exact ⟨s, log, Run.append_exec as h0 hr, hb⟩

/-- Of a condition that cannot be computed it is enough that it holds of each action of the list, whatever the state. -/
theorem exists_of_exec_all {β : Type} {as : List α} (hC : ∀ a ∈ as, ∀ s, C s a) (f : σ → List ε → β) {b : β}
    (h : (M.exec s₀ as).map (fun r => f r.1 r.2) = some b) : ∃ s log, M.Run C s₀ s log ∧ f s log = b := by
  obtain ⟨⟨s, log⟩, hr, hb⟩ := Option.map_eq_some_iff.1 h
  have h0 : M.Run C s₀ s₀ [] := Run.init
  exact ⟨s, log, h0.append_exec_of as (fun a ha s _ => hC a ha s) hr, hb⟩

end Machine

/-- An abstract system: a relation between states that says which events a step makes. -/
structure Spec (τ δ : Type) where
  Step : τ → List δ → τ → Prop

/-- The states and logs an abstract system reaches from `t₀`. -/
inductive Spec.Reach {τ δ : Type} (S : Spec τ δ) (t₀ : τ) : τ → List δ → Prop where
  | init : S.Reach t₀ t₀ []
  | step {t t' : τ} {log ev : List δ} : S.Reach t₀ t log → S.Step t ev t' → S.Reach t₀ t' (log ++ ev)

/-- The invariant rule of an abstract system. -/
theorem Spec.Reach.invariant {τ δ : Type} {S : Spec τ δ} {t₀ t : τ} {log : List δ} {I : τ → List δ → Prop} (h0 : I t₀ [])
    (hstep : ∀ t log ev t', I t log → S.Step t ev t' → I t' (log ++ ev)) (h : S.Reach t₀ t log) : I t log := by
  induction h with
  | init => exact h0
  | step _ hs ih => exact hstep _ _ _ _ ih hs

/-- A machine refines an abstract system when each of its steps, seen through `f` on states and `g` on events, is a step of
the system or leaves it where it is: then each of its runs is one of the system's. -/
theorem Machine.Run.refines {σ α ε τ δ : Type} {M : Machine σ α ε} {S : Spec τ δ} {C : σ → α → Prop} {s₀ s : σ}
    {log : List ε} (f : σ → τ) (g : ε → Option δ) (h : M.Run C s₀ s log)
    (hstep : ∀ s a s' ev log, M.Run C s₀ s log → C s a → M.step s a = some (s', ev) →
      S.Step (f s) (ev.filterMap g) (f s') ∨ (ev.filterMap g = [] ∧ f s' = f s)) :
    S.Reach (f s₀) (f s) (log.filterMap g) := by
  induction h with
  | init => exact Spec.Reach.init
  | @step s s' log ev a hr hc hs ih =>
    rw [List.filterMap_append]
    rcases hstep s a s' ev log hr hc hs with h1 | ⟨h1, h2⟩
    · exact Spec.Reach.step ih h1
    · rw [h1, h2, List.append_nil]
      exact ih

/-- A machine that is a part of another: when each step of the whole, seen through `f` on states and `g` on events, is a step of the
part or leaves it where it is, then each run of the whole is one of the part. -/
theorem Machine.Run.project {σ α ε σ' α' ε' : Type} {M : Machine σ α ε} {N : Machine σ' α' ε'} {C : σ → α → Prop} {s₀ s : σ}
    {log : List ε} (f : σ → σ') (g : ε → Option ε')
    (hstep : ∀ s a s' ev, C s a → M.step s a = some (s', ev) →
      (∃ b, N.step (f s) b = some (f s', ev.filterMap g)) ∨ (f s' = f s ∧ ev.filterMap g = []))
    (h : M.Run C s₀ s log) : N.Reach (f s₀) (f s) (log.filterMap g) := by
  induction h with
  | init => exact Run.init
  | step a _ hc hs ih =>
    rw [List.filterMap_append]
    rcases hstep _ a _ _ hc hs with ⟨b, hb⟩ | ⟨h1, h2⟩
    · exact Run.step b ih trivial hb
    · rw [h1, h2, List.append_nil]
      exact ih

end GwBot.Lib

import GwBot.Lib.Machine
import GwBot.Lib.Threads

/-!
# Machines that come to rest

When every step of a kind takes a measure down, no run of steps of that kind is longer than the measure, and from every state such a run
ends where no step of the kind is left. The measure of a pool of threads is a sum over the pool, which a move of one thread changes by
what it changes of that thread.
-/

namespace GwBot.Lib

namespace Machine

variable {σ α ε : Type} (M : Machine σ α ε)

/-- No action of the kind `K` is enabled. -/
def Settled (K : α → Prop) (s : σ) : Prop := ∀ a, K a → M.step s a = none

/-- In the states with `I`, every step of the kind `K` takes `μ` down, and stays in them. -/
structure Descends (I : σ → Prop) (K : α → Prop) (μ : σ → Nat) : Prop where
  kept : ∀ s a s' ev, I s → K a → M.step s a = some (s', ev) → I s'
  less : ∀ s a s' ev, I s → K a → M.step s a = some (s', ev) → μ s' < μ s

variable {M} {I : σ → Prop} {K : α → Prop} {μ : σ → Nat} {s s' : σ} {log : List ε}

/-- The first action of a list that is carried out, and the rest. -/
theorem exec_cons {a : α} {as : List α} (h : M.exec s (a :: as) = some (s', log)) :
    ∃ s₁ e₁ e₂, M.step s a = some (s₁, e₁) ∧ M.exec s₁ as = some (s', e₂) ∧ log = e₁ ++ e₂ := by
  simp only [execIf, if_true] at h
  split at h
  · cases h
  · rename_i s₁ e₁ h1
    split at h
    · cases h
    · rename_i s₂ e₂ h2
      cases h
      exact ⟨s₁, e₁, e₂, h1, h2, rfl⟩

theorem exec_cons_eq {a : α} {as : List α} {s₁ : σ} {e₁ e₂ : List ε} (h1 : M.step s a = some (s₁, e₁))
    (h2 : M.exec s₁ as = some (s', e₂)) : M.exec s (a :: as) = some (s', e₁ ++ e₂) := by
  simp only [execIf, if_true, h1]
  rw [show M.execIf (fun _ _ => True) s₁ as = some (s', e₂) from h2]

/-- A list of actions that is carried out is a run of them. -/
theorem run_of_exec {as : List α} (h : M.exec s as = some (s', log)) (hK : ∀ a ∈ as, K a) : M.Run (fun _ a => K a) s s' log := by
  have hall : ∀ (as : List α) (s₁ : σ) (log₁ e : List ε), M.Run (fun _ a => K a) s s₁ log₁ → (∀ a ∈ as, K a) →
      M.exec s₁ as = some (s', e) → M.Run (fun _ a => K a) s s' (log₁ ++ e) := by
    intro as
    induction as with
    | nil =>
      intro s₁ log₁ e hr _ he
      cases he
      rwa [List.append_nil]
    | cons a as ih =>
      intro s₁ log₁ e hr hK he
      obtain ⟨s₂, e₁, e₂, h1, h2, rfl⟩ := exec_cons he
      rw [← List.append_assoc]
      exact ih s₂ (log₁ ++ e₁) e₂ (Run.step a hr (hK a List.mem_cons_self) h1) (fun b hb => hK b (List.mem_cons_of_mem _ hb)) h2
  exact hall as s [] log Run.init hK h

/-- The potential argument. Each step whose events `Q` allows takes the measure down by one, but for what its action gains: then no more
steps are taken than the measure and the gains together allow. -/
theorem exec_length_le {Q : List ε → Prop} {gain : α → Nat} (hQ : ∀ l l', Q (l ++ l') → Q l ∧ Q l')
    (hstep : ∀ s a s' ev, I s → M.step s a = some (s', ev) → Q ev → I s' ∧ μ s' + 1 ≤ μ s + gain a) (hs : I s) {as : List α}
    (he : M.exec s as = some (s', log)) (hlog : Q log) : as.length + μ s' ≤ μ s + (as.map gain).sum ∧ I s' := by
  induction as generalizing s log with
  | nil =>
    cases he
    exact ⟨Nat.le_of_eq (Nat.add_comm _ _), hs⟩
  | cons a as ih =>
    obtain ⟨s₁, e₁, e₂, h1, h2, rfl⟩ := exec_cons he
    obtain ⟨hq₁, hq₂⟩ := hQ _ _ hlog
    obtain ⟨hs₁, hless⟩ := hstep _ _ _ _ hs h1 hq₁
    obtain ⟨hle, hs'⟩ := ih hs₁ h2 hq₂
    refine ⟨?_, hs'⟩
    rw [List.length_cons, List.map_cons, List.sum_cons]
    omega

namespace Descends

/-- A list of actions of the kind that is carried out takes the measure down by its length. -/
theorem length_le (h : M.Descends I K μ) (hs : I s) {as : List α} (hK : ∀ a ∈ as, K a) (he : M.exec s as = some (s', log)) :
    as.length + μ s' ≤ μ s ∧ I s' := by
  induction as generalizing s log with
  | nil =>
    cases he
    exact ⟨Nat.le_of_eq (Nat.zero_add _), hs⟩
  | cons a as ih =>
    obtain ⟨s₁, e₁, e₂, h1, h2, -⟩ := exec_cons he
    have ha := hK a List.mem_cons_self
    have hless := h.less _ _ _ _ hs ha h1
    obtain ⟨hle, hs'⟩ := ih (h.kept _ _ _ _ hs ha h1) (fun b hb => hK b (List.mem_cons_of_mem _ hb)) h2
    refine ⟨?_, hs'⟩
    rw [List.length_cons]
    omega

/-- Carried on for as long as there is one of the kind, the actions come to an end. -/
theorem exists_settled (h : M.Descends I K μ) (hs : I s) :
    ∃ as s' log, M.exec s as = some (s', log) ∧ (∀ a ∈ as, K a) ∧ M.Settled K s' := by
  generalize hn : μ s = n
  induction n using Nat.strongRecOn generalizing s with
  | _ n ih =>
    by_cases hrest : M.Settled K s
    · exact ⟨[], s, [], rfl, nofun, hrest⟩
    · simp only [Settled, not_forall] at hrest
      obtain ⟨a, ha, hstep⟩ := hrest
      obtain ⟨⟨s₁, e₁⟩, h1⟩ := Option.ne_none_iff_exists'.1 hstep
      have hless := h.less _ _ _ _ hs ha h1
      rw [hn] at hless
      obtain ⟨as, s', log, he, hK, hset⟩ := ih (μ s₁) hless (h.kept _ _ _ _ hs ha h1) rfl
      refine ⟨a :: as, s', _, exec_cons_eq h1 he, fun b hb => ?_, hset⟩
      rcases List.mem_cons.1 hb with rfl | hb
      · exact ha
      · exact hK b hb

end Descends

end Machine

/-! ## Sums over a pool -/

/-- What a pool weighs, when each of its members has a weight. -/
def poolWeight {β : Type} (w : β → Nat) (l : List β) : Nat := (l.map w).sum

theorem poolWeight_set {β : Type} {l : List β} {k : Nat} {x : β} (w : β → Nat) (h : l[k]? = some x) (y : β) :
    poolWeight w (l.set k y) + w x = poolWeight w l + w y := by
  unfold poolWeight
  induction l generalizing k with
  | nil => nomatch h
  | cons z zs ih =>
    cases k with
    | zero =>
      cases h
      rw [List.set_cons_zero, List.map_cons, List.map_cons, List.sum_cons, List.sum_cons]
      omega
    | succ k =>
      have := ih h
      rw [List.set_cons_succ, List.map_cons, List.map_cons, List.sum_cons, List.sum_cons]
      omega

/-- A pool whose members weigh at most `n` each. -/
theorem poolWeight_le {β : Type} {w : β → Nat} {n : Nat} (l : List β) (h : ∀ x, w x ≤ n) : poolWeight w l ≤ n * l.length := by
  unfold poolWeight
  induction l with
  | nil => exact Nat.le_refl 0
  | cons x xs ih =>
    have := h x
    rw [List.map_cons, List.sum_cons, List.length_cons, Nat.mul_succ]
    omega

/-- Notifications add no more than one for each member. -/
theorem poolWeight_woken {τ : Type} [Sleeper τ] {w : τ → Nat} (hw : ∀ x, w (Sleeper.wake x) ≤ w x + 1) {l l' : List τ} (h : Woken l l') :
    poolWeight w l' ≤ poolWeight w l + l.length := by
  unfold poolWeight
  induction h with
  | nil => exact Nat.le_refl 0
  | @cons x x' _ _ hx _ ih =>
    have hle : w x' ≤ w x + 1 := by
      rcases hx with rfl | rfl
      · exact Nat.le_succ _
      · exact hw x
    rw [List.map_cons, List.sum_cons, List.map_cons, List.sum_cons, List.length_cons]
    omega

end GwBot.Lib

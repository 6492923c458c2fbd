import GwBot.Errno
import GwBot.Lib.Window

/-!
# Attributes of a workqueue

`validate_and_adjust_workqueue_attr` and the rounding loop it shares with `gw_ring_init`. An `AcceptedAttr` is an attribute record
that passed: it carries what the rest of the workqueue relies on, so a queue whose size is not a power of two cannot be built.
The name of the queue is never read and is left out.
-/

namespace GwBot

open Lib

/-- `while (max < req) max *= 2u`, for as many rounds as there is fuel. -/
def roundUpLoop (req : UInt32) : Nat → UInt32 → Option UInt32
  | 0, _ => none
  | n + 1, max => if max < req then roundUpLoop req n (max * 2) else some max

/-- The rounding loop from `max = 2u`. Within 32 rounds it has either ended or wrapped `max` to zero, where it stays below
`req` for ever: `none` stands for the loop that does not end. -/
def roundUpPow2 (req : UInt32) : Option UInt32 := roundUpLoop req 32 2

/-- What the loop returns is the power of two it started from, doubled some number of times. -/
theorem roundUpLoop_pow {req max r : UInt32} {n k : Nat} (hk : 1 ≤ k) (hn : n + k ≤ 33) (hmax : max.toNat = 2 ^ k % 2 ^ 32)
    (h : roundUpLoop req n max = some r) (hpos : k ≤ 31 ∨ req ≠ 0) : ∃ j, 1 ≤ j ∧ j ≤ 31 ∧ r.toNat = 2 ^ j := by
  induction n generalizing max k with
  | zero => nomatch h
  | succ n ih =>
    simp only [roundUpLoop] at h
    by_cases hlt : max < req
    · rw [if_pos hlt] at h
      have hreq : req ≠ 0 := by
        rintro rfl
        exact absurd hlt (by simp [UInt32.lt_iff_toNat_lt])
      refine ih (k := k + 1) (by omega) (by omega) ?_ h (Or.inr hreq)
      rw [UInt32.toNat_mul, hmax, show (2 : UInt32).toNat = 2 from rfl, Nat.mod_mul_mod, ← Nat.pow_succ]
    · rw [if_neg hlt] at h
      cases h
      rcases Nat.lt_or_ge k 32 with hk32 | hk32
      · refine ⟨k, hk, by omega, ?_⟩
        rw [hmax, Nat.mod_eq_of_lt (Nat.pow_lt_pow_right (by decide) hk32)]
      · -- the counter has wrapped to zero, which is below every request but zero
        exfalso
        have h32 : k = 32 := by omega
        subst h32
        apply hlt
        rw [UInt32.lt_iff_toNat_lt, hmax]
        have : req.toNat ≠ 0 := fun e => (hpos.resolve_left (by decide)) (UInt32.toNat_inj.1 (by simpa using e))
        simpa using Nat.pos_of_ne_zero this

/-- It is a power of 2, and no less than 2. -/
theorem roundUpPow2_pow {req r : UInt32} (h : roundUpPow2 req = some r) : ∃ k, 1 ≤ k ∧ k ≤ 31 ∧ r.toNat = 2 ^ k :=
  roundUpLoop_pow (k := 1) (by decide) (by decide) (by decide) h (Or.inl (by decide))

/-- `struct workqueue_attr`. -/
structure WorkqueueAttr where
  flags : UInt32
  maxThreads : UInt32
  minThreads : UInt32
  maxPendingWorks : UInt32
  deriving DecidableEq, Repr

def WQ_F_LAZY_THREAD_CREATION : UInt32 := 1

def WQ_F_ALL : UInt32 := WQ_F_LAZY_THREAD_CREATION

/-- The attributes of a workqueue after `validate_and_adjust_workqueue_attr`. -/
structure AcceptedAttr extends WorkqueueAttr where
  maxThreads_pos : 0 < maxThreads.toNat
  minThreads_le : minThreads.toNat ≤ maxThreads.toNat
  maxPendingWorks_pow : ∃ k, 1 ≤ k ∧ k ≤ 31 ∧ maxPendingWorks.toNat = 2 ^ k

/-- The defaults that `validate_and_adjust_workqueue_attr` fills in. -/
def WorkqueueAttr.withDefaults (attr : WorkqueueAttr) : WorkqueueAttr :=
  if attr.maxThreads = 0 then { attr with maxThreads := 4 } else attr

theorem WorkqueueAttr.withDefaults_pos (attr : WorkqueueAttr) : 0 < attr.withDefaults.maxThreads.toNat := by
  unfold withDefaults
  split
  · exact Nat.zero_lt_succ 3
  · rename_i h
    exact Nat.pos_of_ne_zero (fun e => h (UInt32.toNat_inj.1 (by simpa using e)))

/-- `validate_and_adjust_workqueue_attr`; `none` when its rounding loop does not end. -/
def validateAndAdjustWorkqueueAttr (attr : WorkqueueAttr) : Option (Except Int AcceptedAttr) :=
  if attr.flags &&& ~~~WQ_F_ALL ≠ 0 then some (.error (-EINVAL))
  else if hmin : attr.withDefaults.minThreads > attr.withDefaults.maxThreads then some (.error (-EINVAL))
  else
    match hr : roundUpPow2 attr.maxPendingWorks with
    | none => none
    | some max =>
      some (.ok
        { attr.withDefaults with
          maxPendingWorks := max
          maxThreads_pos := attr.withDefaults_pos
          minThreads_le := by
            rw [gt_iff_lt, UInt32.lt_iff_toNat_lt] at hmin
            omega
          maxPendingWorks_pow := roundUpPow2_pow hr })

namespace AcceptedAttr

variable (attr : AcceptedAttr)

/-- `wq->mask = attr.max_pending_works - 1u`. -/
def mask : UInt32 := attr.maxPendingWorks - 1

/-- No more than 2 ^ 31 works can be pending. -/
theorem maxPendingWorks_le : attr.maxPendingWorks.toNat ≤ 2 ^ 31 := by
  obtain ⟨k, _, h31, hk⟩ := attr.maxPendingWorks_pow
  rw [hk]
  exact Nat.pow_le_pow_right (by decide) h31

theorem maxPendingWorks_pos : 0 < attr.maxPendingWorks.toNat := by
  obtain ⟨k, _, _, hk⟩ := attr.maxPendingWorks_pow
  rw [hk]
  exact Nat.two_pow_pos k

/-- The mask is one less than the number of slots. -/
theorem mask_succ : attr.mask.toNat + 1 = attr.maxPendingWorks.toNat := by
  obtain ⟨k, _, _, hk⟩ := attr.maxPendingWorks_pow
  have hpos := Nat.two_pow_pos k
  have hle : (1 : UInt32) ≤ attr.maxPendingWorks := by
    rw [UInt32.le_iff_toNat_le, hk]
    exact hpos
  rw [mask, UInt32.toNat_sub_of_le _ _ hle, hk]
  have : (1 : UInt32).toNat = 1 := rfl
  omega

theorem isMask : IsMask attr.mask := by
  obtain ⟨k, _, _, hk⟩ := attr.maxPendingWorks_pow
  exact ⟨k, attr.mask_succ.trans hk⟩

theorem mask_le : attr.mask.toNat + 1 ≤ 2 ^ 31 := attr.mask_succ ▸ attr.maxPendingWorks_le

/-- `nr_thread_to_create` of `alloc_workers`. -/
def nrThreadToCreate : UInt32 :=
  if attr.flags &&& WQ_F_LAZY_THREAD_CREATION ≠ 0 then attr.minThreads else attr.maxThreads

/-- No more threads are created at once than there may be. -/
theorem nrThreadToCreate_le : attr.nrThreadToCreate.toNat ≤ attr.maxThreads.toNat := by
  unfold nrThreadToCreate
  split
  · exact attr.minThreads_le
  · exact Nat.le_refl _

end AcceptedAttr

end GwBot

import GwBot.Ring.Completion
import Mathlib.Order.Bounds.Basic

/-!
# The sizes of the queues

`validate_and_adjust_workqueue_attr` and `gw_ring_init` round the size that is asked for up to a power of two, by doubling a `uint32_t`.
Above 2^31 no power of two fits, the counter wraps to zero and the loop never ends; and above 2^30 the completion queue of the ring,
which is twice as long, does not fit: `cq_mask + 1u` is zero. Neither request is rejected.
-/

namespace GwBot

open Lib

/-! ## The rounding loop -/

/-- `max` is the least power of two that is at least 2 and at least the request. -/
def RoundedUp (req max : UInt32) : Prop := IsLeast {n : Nat | (∃ k, n = 2 ^ k) ∧ 2 ≤ n ∧ req.toNat ≤ n} max.toNat

/-- Doubling a power of two below 2^31 does not wrap. -/
theorem toNat_double {max : UInt32} {k : Nat} (hmax : max.toNat = 2 ^ k) (hk : k < 31) : (max * 2).toNat = 2 ^ (k + 1) := by
  have hpow : 2 ^ (k + 1) < 2 ^ 32 := Nat.pow_lt_pow_right (by decide) (by omega)
  rw [UInt32.toNat_mul, hmax, show (2 : UInt32).toNat = 2 from rfl, ← Nat.pow_succ, Nat.mod_eq_of_lt hpow]

/-- The loop, from a power of two below which no power of two is enough. -/
theorem roundUpLoop_roundedUp {req max r : UInt32} {n k : Nat} (hmax : max.toNat = 2 ^ k) (hk : 1 ≤ k)
    (hlow : k = 1 ∨ 2 ^ (k - 1) < req.toNat) (hreq : req.toNat ≤ 2 ^ 31) (h : roundUpLoop req n max = some r) : RoundedUp req r := by
  induction n generalizing max k with
  | zero => nomatch h
  | succ n ih =>
    rw [roundUpLoop] at h
    by_cases hlt : max < req
    · rw [if_pos hlt] at h
      rw [UInt32.lt_iff_toNat_lt, hmax] at hlt
      have hk31 : k < 31 := (Nat.pow_lt_pow_iff_right (by decide)).1 (Nat.lt_of_lt_of_le hlt hreq)
      exact ih (toNat_double hmax hk31) (by omega) (Or.inr hlt) h
    · rw [if_neg hlt] at h
      cases h
      rw [UInt32.lt_iff_toNat_lt, hmax, Nat.not_lt] at hlt
      have htwo : 2 ≤ 2 ^ k := Nat.pow_le_pow_right (n := 2) (by decide) hk
      refine ⟨⟨⟨k, hmax⟩, hmax ▸ htwo, hmax ▸ hlt⟩, ?_⟩
      rintro m ⟨⟨j, rfl⟩, h2, hle⟩
      rw [hmax]
      refine Nat.pow_le_pow_right (by decide) ?_
      rcases hlow with rfl | hlow
      · exact (Nat.pow_le_pow_iff_right (a := 2) (n := 1) (by decide)).1 h2
      · have := (Nat.pow_lt_pow_iff_right (a := 2) (by decide)).1 (Nat.lt_of_lt_of_le hlow hle)
        omega

/-- A request of at most 2^31 is reached before the counter can wrap. -/
theorem roundUpLoop_isSome {req max : UInt32} {n k : Nat} (hmax : max.toNat = 2 ^ k) (hk : k ≤ 31) (hn : 32 ≤ n + k)
    (hreq : req.toNat ≤ 2 ^ 31) : (roundUpLoop req n max).isSome = true := by
  induction n generalizing max k with
  | zero => omega
  | succ n ih =>
    rw [roundUpLoop]
    by_cases hlt : max < req
    · rw [if_pos hlt]
      rw [UInt32.lt_iff_toNat_lt, hmax] at hlt
      have hk31 : k < 31 := (Nat.pow_lt_pow_iff_right (by decide)).1 (Nat.lt_of_lt_of_le hlt hreq)
      exact ih (toNat_double hmax hk31) (by omega) (by omega)
    · rw [if_neg hlt]
      rfl

theorem exists_roundUpPow2 {req : UInt32} (hreq : req.toNat ≤ 2 ^ 31) : ∃ max, roundUpPow2 req = some max :=
  Option.isSome_iff_exists.1 (roundUpLoop_isSome (k := 1) rfl (by decide) (by decide) hreq)

/-- A larger one is not: the counter wraps to zero, and stays there. -/
theorem roundUpLoop_diverges {req max : UInt32} {k : Nat} (hmax : max.toNat = 2 ^ k % 2 ^ 32) (hreq : 2 ^ 31 < req.toNat) (n : Nat) :
    roundUpLoop req n max = none := by
  induction n generalizing max k with
  | zero => rfl
  | succ n ih =>
    have hle : max.toNat ≤ 2 ^ 31 := by
      rw [hmax]
      rcases Nat.lt_or_ge k 32 with hlt | hge
      · rw [Nat.mod_eq_of_lt (Nat.pow_lt_pow_right (by decide) hlt)]
        exact Nat.pow_le_pow_right (by decide) (by omega)
      · rw [Nat.mod_eq_zero_of_dvd (Nat.pow_dvd_pow 2 hge)]
        exact Nat.zero_le _
    have hlt : max < req := UInt32.lt_iff_toNat_lt.2 (Nat.lt_of_le_of_lt hle hreq)
    rw [roundUpLoop, if_pos hlt]
    refine ih (k := k + 1) ?_
    rw [UInt32.toNat_mul, hmax, show (2 : UInt32).toNat = 2 from rfl, Nat.mod_mul_mod, ← Nat.pow_succ]

/-- The loop ends exactly for the requests that a power of two of 32 bits is enough for. -/
theorem roundUpLoop_ends_iff (req : UInt32) : (∃ n, (roundUpLoop req n 2).isSome = true) ↔ req.toNat ≤ 2 ^ 31 := by
  constructor
  · rintro ⟨n, hn⟩
    by_contra hgt
    rw [roundUpLoop_diverges (k := 1) rfl (Nat.not_le.1 hgt)] at hn
    nomatch hn
  · intro hreq
    obtain ⟨max, hmax⟩ := exists_roundUpPow2 hreq
    exact ⟨32, Option.isSome_iff_exists.2 ⟨max, hmax⟩⟩

/-- What the loop returns is right, whenever it returns. -/
theorem roundUpPow2_roundedUp {req max : UInt32} (h : roundUpPow2 req = some max) : RoundedUp req max := by
  have hreq : req.toNat ≤ 2 ^ 31 := (roundUpLoop_ends_iff req).1 ⟨32, Option.isSome_iff_exists.2 ⟨max, h⟩⟩
  exact roundUpLoop_roundedUp (k := 1) rfl (by decide) (Or.inl rfl) hreq h

theorem RoundedUp.le {req max : UInt32} (h : RoundedUp req max) {k : Nat} (hk : 1 ≤ k) (hreq : req.toNat ≤ 2 ^ k) : max.toNat ≤ 2 ^ k :=
  h.2 ⟨⟨k, rfl⟩, Nat.pow_le_pow_right (n := 2) (by decide) hk, hreq⟩

/-! ## The workqueue -/

namespace WorkqueueAttr

/-- `validate_and_adjust_workqueue_attr` rejects the attributes before it comes to the size. -/
def Rejected (attr : WorkqueueAttr) : Prop :=
  attr.flags &&& ~~~WQ_F_ALL ≠ 0 ∨ attr.withDefaults.minThreads > attr.withDefaults.maxThreads

/-- The size of a workqueue is rounded up as it should be: the loop ends if the code comes to it, an accepted size is the least power of
two with `mask` one less, and a request for which there is no such power is rejected. -/
structure SizeRight (attr : WorkqueueAttr) : Prop where
  ends : attr.Rejected ∨ ∃ n, (roundUpLoop attr.maxPendingWorks n 2).isSome = true
  rounded : ∀ accepted, validateAndAdjustWorkqueueAttr attr = some (.ok accepted) →
    RoundedUp attr.maxPendingWorks accepted.maxPendingWorks ∧ accepted.mask.toNat + 1 = accepted.maxPendingWorks.toNat
  rejected : (∀ max, ¬RoundedUp attr.maxPendingWorks max) → ∃ ret, validateAndAdjustWorkqueueAttr attr = some (.error ret)

/-- What `validate_and_adjust_workqueue_attr` comes to. -/
theorem validate_cases (attr : WorkqueueAttr) :
    (attr.Rejected ∧ validateAndAdjustWorkqueueAttr attr = some (.error (-EINVAL))) ∨
    (¬attr.Rejected ∧ roundUpPow2 attr.maxPendingWorks = none ∧ validateAndAdjustWorkqueueAttr attr = none) ∨
    (¬attr.Rejected ∧ ∃ accepted, roundUpPow2 attr.maxPendingWorks = some accepted.maxPendingWorks ∧
      validateAndAdjustWorkqueueAttr attr = some (.ok accepted)) := by
  unfold validateAndAdjustWorkqueueAttr
  by_cases hflags : attr.flags &&& ~~~WQ_F_ALL ≠ 0
  · exact Or.inl ⟨Or.inl hflags, if_pos hflags⟩
  by_cases hthreads : attr.withDefaults.minThreads > attr.withDefaults.maxThreads
  · exact Or.inl ⟨Or.inr hthreads, (if_neg hflags).trans (dif_pos hthreads)⟩
  have hno : ¬attr.Rejected := fun h => h.elim hflags hthreads
  rw [if_neg hflags, dif_neg hthreads]
  right
  split
  · rename_i hr
    exact Or.inl ⟨hno, hr, rfl⟩
  · rename_i max hr
    exact Or.inr ⟨hno, _, hr, rfl⟩

theorem sizeRight_iff (attr : WorkqueueAttr) : attr.SizeRight ↔ attr.Rejected ∨ attr.maxPendingWorks.toNat ≤ 2 ^ 31 := by
  constructor
  · intro h
    exact h.ends.imp_right (roundUpLoop_ends_iff _).1
  · intro h
    refine ⟨h.imp_right (roundUpLoop_ends_iff _).2, fun accepted hok => ?_, fun hnone => ?_⟩
    · rcases attr.validate_cases with ⟨-, he⟩ | ⟨-, -, he⟩ | ⟨-, accepted', hr, he⟩
      · nomatch he.symm.trans hok
      · nomatch he.symm.trans hok
      · cases he.symm.trans hok
        exact ⟨roundUpPow2_roundedUp hr, accepted.mask_succ⟩
    · rcases attr.validate_cases with ⟨-, he⟩ | ⟨hno, hr, -⟩ | ⟨-, accepted, hr, -⟩
      · exact ⟨_, he⟩
      · obtain ⟨max, hmax⟩ := exists_roundUpPow2 (h.resolve_left hno)
        nomatch hr.symm.trans hmax
      · exact absurd (roundUpPow2_roundedUp hr) (hnone _)

end WorkqueueAttr

/-! ## The ring -/

namespace GwRing

/-- The number of entries that `gw_ring_init` allocates for completions, the first argument of its `calloc`. -/
def nrCqes (ring : GwRing) : Nat := (ring.cq.cqMask + 1).toNat

/-- The size of a ring is rounded up as it should be: the loop ends, the submission queue of a ring that is returned has the least power
of two of entries and the completion queue twice as many, and a request for which that is not possible is rejected. -/
structure SizeRight (size : UInt32) : Prop where
  ends : ∃ n, (roundUpLoop size n 2).isSome = true
  rounded : ∀ env ring, gwRingInit size env = some (.ok ring) →
    RoundedUp size (ring.sqMask + 1) ∧ ring.sqMask.toNat + 1 = (ring.sqMask + 1).toNat ∧
    (ring.cq.cqMask + 1).toNat = 2 * (ring.sqMask.toNat + 1) ∧ (ring.cq.cqMask + 1).toNat = ring.nrCqes
  rejected : (∀ max, RoundedUp size max → 2 ^ 32 ≤ 2 * max.toNat) → ∀ env, ∃ ret, gwRingInit size env = some (.error ret)

/-- When nothing fails a ring is returned. -/
theorem exists_gwRingInit {size max : UInt32} (hmax : roundUpPow2 size = some max) :
    ∃ ring, gwRingInit size InitEnv.ok = some (.ok ring) := by
  have hwq : ∃ wq : WorkqueueStruct SqeFn WqSqeData,
      WorkqueueStruct.allocWorkqueue wqAttr WorkqueueStruct.AllocEnv.ok = some (.ok wq) := ⟨_, rfl⟩
  obtain ⟨wq, hwq⟩ := hwq
  rw [gwRingInit, hmax]
  simp only [InitEnv.ok, hwq]
  exact ⟨_, rfl⟩

/-- The masks of a ring that is returned. -/
theorem masks_of_init {size : UInt32} {env : InitEnv} {ring : GwRing} (h : gwRingInit size env = some (.ok ring)) :
    RoundedUp size (ring.sqMask + 1) ∧ ring.sqMask.toNat + 1 = (ring.sqMask + 1).toNat ∧
      ring.cq.cqMask + 1 = (ring.sqMask + 1) * 2 := by
  obtain ⟨max, hmax, hfresh⟩ := gwRingInit_fresh h
  have hround := roundUpPow2_roundedUp hmax
  have hsq : ring.sqMask + 1 = max := by rw [hfresh.sqMask, UInt32.sub_add_cancel]
  have hcq : ring.cq.cqMask + 1 = max * 2 := by
    rw [hfresh.cq]
    exact UInt32.sub_add_cancel _ _
  have hle : (1 : UInt32) ≤ max := UInt32.le_iff_toNat_le.2 (Nat.le_trans (by decide) hround.1.2.1)
  have hmask : ring.sqMask.toNat + 1 = max.toNat := by
    have := hround.1.2.1
    rw [hfresh.sqMask, UInt32.toNat_sub_of_le _ _ hle, show (1 : UInt32).toNat = 1 from rfl]
    omega
  rw [hsq]
  exact ⟨hround, hmask, hcq⟩

/-- Twice the rounded size fits exactly when the request is at most 2^30. -/
theorem double_eq_iff {size max : UInt32} (h : RoundedUp size max) : (max * 2).toNat = 2 * max.toNat ↔ size.toNat ≤ 2 ^ 30 := by
  obtain ⟨⟨⟨k, hk⟩, h2, hle⟩, -⟩ := id h
  constructor
  · intro hdouble
    have := (max * 2).toNat_lt
    have hk30 : k < 31 := (Nat.pow_lt_pow_iff_right (a := 2) (by decide)).1 (by omega)
    calc size.toNat
      _ ≤ 2 ^ k := hk ▸ hle
      _ ≤ 2 ^ 30 := Nat.pow_le_pow_right (by decide) (by omega)
  · intro hsize
    have hmax := h.le (k := 30) (by decide) hsize
    have hk31 : k < 31 := (Nat.pow_lt_pow_iff_right (a := 2) (by decide)).1 (by omega)
    rw [toNat_double hk hk31, hk, Nat.pow_succ, Nat.mul_comm]

theorem sizeRight_iff (size : UInt32) : SizeRight size ↔ size.toNat ≤ 2 ^ 30 := by
  constructor
  · intro h
    have hsize := (roundUpLoop_ends_iff size).1 h.ends
    obtain ⟨max, hmax⟩ := exists_roundUpPow2 hsize
    obtain ⟨ring, hring⟩ := exists_gwRingInit hmax
    obtain ⟨hround, hsq, hcq⟩ := masks_of_init hring
    obtain ⟨-, -, hdouble, -⟩ := h.rounded _ ring hring
    rw [hcq, hsq] at hdouble
    exact (double_eq_iff hround).1 hdouble
  · intro hsize
    have hends := (roundUpLoop_ends_iff size).2 (Nat.le_trans hsize (by decide))
    refine ⟨hends, fun env ring hring => ?_, fun hbig env => ?_⟩
    · obtain ⟨hround, hsq, hcq⟩ := masks_of_init hring
      refine ⟨hround, hsq, ?_, rfl⟩
      rw [hcq, hsq]
      exact (double_eq_iff hround).2 hsize
    · obtain ⟨max, hmax⟩ := exists_roundUpPow2 (Nat.le_trans hsize (by decide))
      have hround := roundUpPow2_roundedUp hmax
      have hle := hround.le (k := 30) (by decide) hsize
      have hge := hbig max hround
      omega

end GwRing

/-- Requests are rounded up as they should be exactly up to 2^31 for a workqueue, whose attributes may be rejected before, and up to 2^30
for a ring. -/
theorem sizes_round_up_iff (attr : WorkqueueAttr) (size : UInt32) :
    (attr.SizeRight ↔ attr.Rejected ∨ attr.maxPendingWorks.toNat ≤ 2 ^ 31) ∧ (GwRing.SizeRight size ↔ size.toNat ≤ 2 ^ 30) :=
  ⟨attr.sizeRight_iff, GwRing.sizeRight_iff size⟩

/-- The rounding loops do not end for 2^31 + 1, and a ring of 2^30 + 1 entries, which is returned, has room for 2^31 of them and for no
completion. -/
theorem sizes_not_rounded :
    (∀ n, roundUpLoop 2147483649 n 2 = none) ∧ validateAndAdjustWorkqueueAttr ⟨0, 1, 1, 2147483649⟩ = none ∧
    (∀ env, GwRing.gwRingInit 2147483649 env = none) ∧
    (∃ ring, GwRing.gwRingInit 1073741825 GwRing.InitEnv.ok = some (.ok ring) ∧ ring.sqMask + 1 = 2147483648 ∧ ring.nrCqes = 0) ∧
    ¬(⟨0, 1, 1, 2147483649⟩ : WorkqueueAttr).SizeRight ∧ ¬GwRing.SizeRight 2147483649 ∧ ¬GwRing.SizeRight 1073741825 := by
  have hdiverges : ∀ n, roundUpLoop 2147483649 n 2 = none := roundUpLoop_diverges (k := 1) rfl (by decide)
  have hmax : roundUpPow2 (1073741825 : UInt32) = some 2147483648 := rfl
  have hring : ∃ ring, GwRing.gwRingInit 1073741825 GwRing.InitEnv.ok = some (.ok ring) := GwRing.exists_gwRingInit hmax
  obtain ⟨ring, hring⟩ := hring
  obtain ⟨max, hmax, hfresh⟩ := GwRing.gwRingInit_fresh hring
  obtain rfl : (2147483648 : UInt32) = max := Option.some.inj ((show roundUpPow2 1073741825 = some 2147483648 from rfl).symm.trans hmax)
  refine ⟨hdiverges, rfl, fun env => ?_, ⟨ring, hring, by rw [hfresh.sqMask]; rfl, by rw [GwRing.nrCqes, hfresh.cq]; rfl⟩, ?_, ?_, ?_⟩
  · rw [GwRing.gwRingInit, roundUpPow2, hdiverges]
  · rw [WorkqueueAttr.sizeRight_iff]
    rintro ((h | h) | h) <;> exact absurd h (by decide)
  · rw [GwRing.sizeRight_iff]
    decide
  · rw [GwRing.sizeRight_iff]
    decide

end GwBot

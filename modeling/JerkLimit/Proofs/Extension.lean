import Mathlib
import JerkLimit.Proofs.Chain

/-!
# Proofs/Extension — how durations grow from attempt to attempt

An attempt stretches the durations by a power of the extension factor, and the exponent is the
number of the attempt as a signed 32-bit word. So the scale is multiplied by the factor from one
attempt to the next, except where that word turns negative: there it falls far below 1
(`Chain.attemptScale_lt_one`). **`Chain.growing_iff`** says how many attempts it takes for that to
happen. Arithmetic is exact here.
-/

namespace JerkLimit

namespace Chain

open Scalar

/-! ## The number of an attempt as a word -/

/-- Whether a number turns negative as a signed 32-bit word. -/
def Wraps (k : ℕ) : Prop := k % 2 ^ 32 = 2 ^ 31

theorem word_succ {k : ℕ} (h : ¬ Wraps (k + 1)) :
    Int.bmod (k + 1 : ℕ) 0x100000000 = 1 + Int.bmod k 0x100000000 := by
  rw [Wraps] at h
  simp only [Int.bmod]
  omega

theorem word_of_wraps {k : ℕ} (h : Wraps k) : Int.bmod k 0x100000000 = -2 ^ 31 := by
  rw [Wraps] at h
  simp only [Int.bmod]
  omega

theorem wraps_first : Wraps (2 ^ 31 - 1 + 1) := by
  rw [Wraps]
  norm_num

/-- The number before is the largest one that does not. -/
theorem word_nonneg {k : ℕ} (h : Wraps (k + 1)) : 0 ≤ Int.bmod k 0x100000000 := by
  rw [Wraps] at h
  simp only [Int.bmod]
  omega

/-! ## The scale of an attempt -/

variable {settings : ChainSettings ℝ} {k : ℕ}

theorem attemptScale_eq (settings : ChainSettings ℝ) (k : ℕ) :
    attemptScale settings k = settings.extensionFactor ^ Int.bmod k 0x100000000 := by
  rw [attemptScale, pow_real]

theorem attemptScale_succ (h : 0 < settings.extensionFactor) (hk : ¬ Wraps (k + 1)) :
    attemptScale settings (k + 1) = settings.extensionFactor * attemptScale settings k := by
  rw [attemptScale_eq, attemptScale_eq, word_succ hk, zpow_one_add₀ h.ne']

/-- Where the word turns negative, durations are not stretched but shrunk. -/
theorem attemptScale_lt_one (h : 1 < settings.extensionFactor) (hk : Wraps k) :
    attemptScale settings k < 1 := by
  rw [attemptScale_eq, word_of_wraps hk]
  exact zpow_lt_one_of_neg₀ h (by norm_num)

theorem one_le_attemptScale (h : 1 < settings.extensionFactor) (hk : Wraps (k + 1)) :
    1 ≤ attemptScale settings k := by
  rw [attemptScale_eq]
  exact one_le_zpow₀ h.le (word_nonneg hk)

/-- The scale grows by the factor from attempt `k` to the next one. -/
structure Grows (settings : ChainSettings ℝ) (k : ℕ) : Prop where
  next : attemptScale settings (k + 1) = settings.extensionFactor * attemptScale settings k
  lt : attemptScale settings k < attemptScale settings (k + 1)

/-- Scales start at 1 and grow by the factor as long as there are attempts. -/
structure Growing (settings : ChainSettings ℝ) : Prop where
  first : attemptScale settings 0 = 1
  grows : ∀ k, k + 1 < settings.maxAttempts → Grows settings k

theorem grows_iff (h : 1 < settings.extensionFactor) : Grows settings k ↔ ¬ Wraps (k + 1) := by
  have hpos : 0 < settings.extensionFactor := one_pos.trans h
  refine ⟨fun hgrows hwraps => ?_, fun hk => ?_⟩
  · have hless := hgrows.lt.trans (attemptScale_lt_one h hwraps)
    exact hless.not_ge (one_le_attemptScale h hwraps)
  · have hnext := attemptScale_succ hpos hk
    refine ⟨hnext, ?_⟩
    rw [hnext]
    exact lt_mul_of_one_lt_left (attemptScale_pos hpos k) h

/-- **Durations grow**, until there have been 2 ^ 31 attempts. -/
theorem growing_iff (h : 1 < settings.extensionFactor) :
    (∀ k, Grows settings k ↔ ¬ Wraps (k + 1)) ∧
      (Growing settings ↔ settings.maxAttempts ≤ 2 ^ 31) := by
  refine ⟨fun k => grows_iff h, fun hgrowing => ?_, fun hmax => ⟨attemptScale_zero settings, ?_⟩⟩
  · by_contra hmax
    have hlast : 2 ^ 31 - 1 + 1 < settings.maxAttempts := by omega
    exact (grows_iff h).mp (hgrowing.grows _ hlast) wraps_first
  · intro k hk
    refine (grows_iff h).mpr ?_
    rw [Wraps]
    omega

/-- By default there are five attempts, with a factor of 1.1. -/
theorem growing_default : 1 < (default : ChainSettings ℝ).extensionFactor ∧
    Growing (default : ChainSettings ℝ) := by
  have hfactor : 1 < (default : ChainSettings ℝ).extensionFactor := by
    change (1 : ℝ) < 1.1
    norm_num
  have hmax : (default : ChainSettings ℝ).maxAttempts ≤ 2 ^ 31 := by decide
  exact ⟨hfactor, (growing_iff hfactor).2.mpr hmax⟩

/-- Settings for one attempt more than can be counted. -/
noncomputable def tireless : ChainSettings ℝ :=
  { (default : ChainSettings ℝ) with extensionFactor := 1.000000001, maxAttempts := 2 ^ 31 + 1 }

/-- The last attempt is not longer, but shorter than the one before, and than the first one. -/
theorem tireless_not_growing : 1 < tireless.extensionFactor ∧
    2 ^ 31 < tireless.maxAttempts ∧
    attemptScale tireless (2 ^ 31) < 1 ∧ 1 ≤ attemptScale tireless (2 ^ 31 - 1) ∧
    ¬ Growing tireless := by
  have hfactor : 1 < tireless.extensionFactor := by
    change (1 : ℝ) < 1.000000001
    norm_num
  have hmax : 2 ^ 31 < tireless.maxAttempts := Nat.lt_succ_self (2 ^ 31)
  have hgrows : ¬ Grows tireless (2 ^ 31 - 1) := fun h => (grows_iff hfactor).mp h wraps_first
  exact ⟨hfactor, hmax, attemptScale_lt_one hfactor wraps_first,
    one_le_attemptScale hfactor wraps_first, fun h => hgrows (h.grows _ hmax)⟩

end Chain

end JerkLimit

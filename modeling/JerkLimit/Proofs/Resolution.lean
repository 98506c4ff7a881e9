import Mathlib
import JerkLimit.Proofs.Motion

/-!
# Proofs/Resolution — how finely a peak is computed

`Proofs/Peak` compares a computed peak with the largest value of a polynomial that has no more
coefficients than those of a motion. Here the error is compared with the size of the coefficients,
and there may be any number `n` of them: a polynomial stays below its computed peak up to
`n ! / 2 ^ 60` of its size (`abs_eval_le_peak_add_size`).

The induction is over the degree, as in `Poly.roots`. A derivative is at most as many times larger
than its polynomial as that has coefficients (`size_derivative_mul_le`), and every degree leaves one
more bracket of the bisection open (`cutError_le`).

So a profile that is accepted exceeds a limit by no more than the slack of the comparison and the
resolution of the peak (`peaks_bound_profile`). The slack is relative and absolute, and beside tiny
limits it is the absolute part that counts (`creeping_exceeds`).
-/

namespace JerkLimit

open Scalar Set JerkLimit.Poly
open scoped Nat

namespace Poly

/-! ## The size of a derivative -/

theorem size_timesPower_le {T : ℝ} (hT : 0 ≤ T) (k : ℕ) (cs : List ℝ) :
    size T (timesPower k cs) ≤ (k + cs.length - 1) * size T cs := by
  induction cs generalizing k with
  | nil => simp [timesPower_nil, size]
  | cons c cs ih =>
    have hrest : 0 ≤ cs.length * |c| := by positivity
    rw [timesPower_cons, size_cons, size_cons, abs_mul, Nat.abs_cast, List.length_cons]
    calc size T (timesPower (k + 1) cs) * T + k * |c|
        ≤ ((k + 1 : ℕ) + cs.length - 1) * size T cs * T + k * |c| := by gcongr; exact ih (k + 1)
      _ ≤ (k + (cs.length + 1 : ℕ) - 1) * (size T cs * T + |c|) := by push_cast; linarith

/-- **The derivative over an interval is no larger than the polynomial**, but for its degree. -/
theorem size_derivative_mul_le {T : ℝ} (hT : 0 ≤ T) (cs : List ℝ) :
    size T (derivative cs) * T ≤ (cs.length - 1 : ℕ) * size T cs := by
  cases cs with
  | nil => simp [derivative, size]
  | cons c cs =>
    have hsize := size_timesPower_le hT 1 cs
    rw [Nat.cast_one, add_sub_cancel_left] at hsize
    rw [derivative_cons, size_cons, List.length_cons, Nat.add_sub_cancel]
    calc size T (timesPower 1 cs) * T ≤ cs.length * size T cs * T := by gcongr
      _ ≤ cs.length * (size T cs * T + |c|) := by
        rw [mul_assoc]
        gcongr
        exact le_add_of_nonneg_right (abs_nonneg c)

/-! ## The error of the cuts -/

/-- One more degree multiplies a bound by at most the number of coefficients. -/
theorem factorial_succ_bound (n : ℕ) : (n ! + 1) * n ≤ (n + 1)! := by
  rw [Nat.factorial_succ, add_mul, add_mul, one_mul, one_mul, mul_comm n]
  exact Nat.add_le_add_left n.self_le_factorial _

/-- **The error of the cuts is small beside the size of the coefficients.** -/
theorem cutError_le {T : ℝ} (hT : 0 ≤ T) (cs : List ℝ) :
    cutError T cs ≤ cs.length ! / 2 ^ 60 * size T cs := by
  induction cs using cutError.induct with
  | case1 c₀ c₁ c₂ cs ih =>
    have hderivative := size_derivative_mul_le hT (c₀ :: c₁ :: c₂ :: cs)
    rw [cutError, show (2.0 : ℝ) ^ halvings = 2 ^ 60 by norm_num [halvings]]
    rw [length_derivative] at ih
    generalize derivative (c₀ :: c₁ :: c₂ :: cs) = d at ih hderivative ⊢
    have hsize := size_nonneg hT (c₀ :: c₁ :: c₂ :: cs)
    obtain ⟨n, hn⟩ : ∃ n, (c₀ :: c₁ :: c₂ :: cs).length = n + 1 := ⟨_, rfl⟩
    rw [hn, Nat.add_sub_cancel] at ih hderivative
    rw [hn]
    have hfactor : ((n ! : ℝ) + 1) * n ≤ (n + 1)! := mod_cast factorial_succ_bound n
    calc cutError T d * T + size T d * (T / 2 ^ 60)
        ≤ n ! / 2 ^ 60 * size T d * T + size T d * (T / 2 ^ 60) := by gcongr
      _ = (n ! + 1) / 2 ^ 60 * (size T d * T) := by ring
      _ ≤ (n ! + 1) / 2 ^ 60 * (n * size T (c₀ :: c₁ :: c₂ :: cs)) := by gcongr
      _ = (n ! + 1) * n / 2 ^ 60 * size T (c₀ :: c₁ :: c₂ :: cs) := by ring
      _ ≤ (n + 1)! / 2 ^ 60 * size T (c₀ :: c₁ :: c₂ :: cs) := by gcongr
  | case2 cs h =>
    rw [cutError.eq_2 T cs h]
    exact mul_nonneg (by positivity) (size_nonneg hT cs)

/-- **A polynomial stays below its computed peak**, up to a share of the size of its
coefficients. -/
theorem abs_eval_le_peak_add_size {T t : ℝ} (ht : t ∈ Icc 0 T) (cs : List ℝ) :
    |eval cs t| ≤ peak cs T + cs.length ! / 2 ^ 60 * size T cs := by
  have hT : 0 ≤ T := ht.1.trans ht.2
  refine (abs_eval_le_peak_add ht cs).trans (add_le_add_right ?_ _)
  have hcut := cutError_le hT (derivative cs)
  have hderivative := size_derivative_mul_le hT cs
  have hsize := size_nonneg hT cs
  rw [length_derivative] at hcut
  have hfactor : ((cs.length - 1)! * (cs.length - 1 : ℕ) : ℝ) ≤ cs.length ! := by
    norm_cast
    cases cs.length with
    | zero => simp
    | succ n => exact (Nat.mul_le_mul_right n (Nat.le_succ _)).trans (factorial_succ_bound n)
  calc cutError T (derivative cs) * T
      ≤ (cs.length - 1)! / 2 ^ 60 * size T (derivative cs) * T := by gcongr
    _ = (cs.length - 1)! / 2 ^ 60 * (size T (derivative cs) * T) := by ring
    _ ≤ (cs.length - 1)! / 2 ^ 60 * ((cs.length - 1 : ℕ) * size T cs) := by gcongr
    _ = (cs.length - 1)! * (cs.length - 1 : ℕ) / 2 ^ 60 * size T cs := by ring
    _ ≤ cs.length ! / 2 ^ 60 * size T cs := by gcongr

/-- The share of the coefficients' size that may stay unresolved. -/
noncomputable def resolution : ℝ := 1 / 2.0 ^ 40

/-- The computed peak of a polynomial with at most five coefficients. -/
theorem abs_eval_le_peak_add_resolution {T t : ℝ} (ht : t ∈ Icc 0 T) {cs : List ℝ}
    (hcs : cs.length ≤ 5) : |eval cs t| ≤ peak cs T + resolution * size T cs := by
  refine (abs_eval_le_peak_add_size ht cs).trans ?_
  have hsize := size_nonneg (ht.1.trans ht.2) cs
  have hfactorial : (cs.length ! : ℝ) ≤ 120 := mod_cast Nat.factorial_le hcs
  have hshare : (cs.length ! : ℝ) / 2 ^ 60 ≤ resolution :=
    calc (cs.length ! : ℝ) / 2 ^ 60 ≤ 120 / 2 ^ 60 := by gcongr
      _ ≤ resolution := by norm_num [resolution]
  gcongr

end Poly

namespace Quintic

/-- The limits of a profile with the slack of a comparison and the resolution of a peak. -/
noncomputable def resolved (q : Quintic ℝ) (l : JointLimits ℝ) : JointLimits ℝ :=
  ⟨(slack l).velocity + resolution * size q.duration (derivative q.coeffs),
    (slack l).acceleration + resolution * size q.duration (derivative (derivative q.coeffs)),
    (slack l).jerk
      + resolution * size q.duration (derivative (derivative (derivative q.coeffs)))⟩

/-- **An accepted profile exceeds no limit** at any instant, up to slack and resolution. -/
theorem staysWithin_resolved {q : Quintic ℝ} {l : JointLimits ℝ} (hq : q.coeffs.length ≤ 6)
    (h : q.within l = true) : q.StaysWithin (q.resolved l) := by
  obtain ⟨hvelocity, hacceleration, hjerk⟩ := within_iff.mp h
  rw [withinLimit_real] at hvelocity hacceleration hjerk
  intro t ht
  refine ⟨?_, ?_, ?_⟩
  · exact (abs_eval_le_peak_add_resolution ht (by rw [length_derivative]; omega)).trans
      (add_le_add_left hvelocity _)
  · exact (abs_eval_le_peak_add_resolution ht (by simp only [length_derivative]; omega)).trans
      (add_le_add_left hacceleration _)
  · exact (abs_eval_le_peak_add_resolution ht (by simp only [length_derivative]; omega)).trans
      (add_le_add_left hjerk _)

/-- **The peak search bounds the whole profile**: a polynomial with up to five coefficients stays
below its computed peak up to the resolution, so what is accepted keeps its limits at every instant
up to slack and resolution. -/
theorem peaks_bound_profile :
    (∀ cs : List ℝ, cs.length ≤ 5 → ∀ T, 0 < T → ∀ t ∈ Icc 0 T,
        |eval cs t| ≤ peak cs T + resolution * size T cs)
      ∧ ∀ (q : Quintic ℝ) (l : JointLimits ℝ), q.coeffs.length ≤ 6 → 0 < q.duration →
        q.within l = true → q.StaysWithin (q.resolved l) :=
  ⟨fun _ hcs _ _ _ ht => abs_eval_le_peak_add_resolution ht hcs,
    fun _ _ hq _ h => staysWithin_resolved hq h⟩

/-- One unit from rest to rest in two seconds, fastest after one. -/
theorem hopping_resolved :
    ((hopping 0).profile 2).within (hopping 0).limits = true
      ∧ ((hopping 0).profile 2).StaysWithin (((hopping 0).profile 2).resolved (hopping 0).limits)
      ∧ |eval (derivative ((hopping 0).profile 2).coeffs) 1|
        ≤ peak (derivative ((hopping 0).profile 2).coeffs) 2
          + resolution * size 2 (derivative ((hopping 0).profile 2).coeffs) := by
  have hwithin : ((hopping 0).profile 2).within (hopping 0).limits = true :=
    feasible_hopping 0 le_rfl
  have hduration : ((hopping 0).profile 2).duration = 2 := between_duration _ _ two_pos
  have hlength : ((hopping 0).profile 2).coeffs.length = 6 := by
    rw [Task.profile, between_of_pos _ _ two_pos]
    rfl
  refine ⟨hwithin, ?_, ?_⟩
  · exact peaks_bound_profile.2 _ _ hlength.le (by rw [hduration]; exact two_pos) hwithin
  · exact peaks_bound_profile.1 _ (by rw [length_derivative, hlength]) 2 two_pos 1
      ⟨zero_le_one, one_le_two⟩

/-- A tiny way from rest to rest in one second, at a speed limit that is tinier still. -/
noncomputable def creeping : Task ℝ := ⟨⟨0, 0, 0⟩, ⟨1e-17, 0, 0⟩, ⟨1e-18, 1, 1⟩⟩

/-- **The relative tolerance is not all of the slack.** Beside a tiny limit the absolute part of the
comparison is large: this profile is accepted at eighteen times its speed limit. -/
theorem creeping_exceeds : (creeping.profile 1).within creeping.limits = true
    ∧ creeping.limits.velocity * (1 + 1e-9)
        + resolution * size 1 (derivative (creeping.profile 1).coeffs)
      < |((creeping.profile 1).stateAt (1 / 2 * 1)).velocity| := by
  constructor
  · refine within_of_staysWithin_slack ?_ (staysWithin_rest_to_rest one_pos ?_ ?_ ?_)
    · exact zero_le_one.trans_eq (between_duration _ _ one_pos).symm
    all_goals norm_num [slack, creeping]
  · obtain ⟨hstate, -⟩ := rest_to_rest 0 1e-17 (1 / 2) one_pos
    have hcoeffs := congrArg Quintic.coeffs (between_of_pos ⟨0, 0, 0⟩ ⟨1e-17, 0, 0⟩ one_pos)
    rw [Task.profile, creeping, hstate, hcoeffs]
    simp only [derivative_cons, timesPower_cons, timesPower_nil, size_cons]
    norm_num [size, resolution]

end Quintic

end JerkLimit

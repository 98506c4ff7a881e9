import Mathlib
import JerkLimit.Proofs.Roots

/-!
# Proofs/Peak — a computed peak against the true one

`Poly.peak` looks at the ends and at the isolated roots of the derivative, so it never exceeds the
largest magnitude on the interval (`peak_le`). It may fall short, because the roots are only near
where they should be: by at most the error of the cuts (`abs_eval_le_peak_add`). For the polynomials
of a motion, which have at most five coefficients, that is less than one part in `10 ^ 13`
(`abs_eval_le_peak`), because the coefficients are bounded by the values at five points.
-/

namespace JerkLimit.Poly

open Scalar Set

theorem peak_real (cs : List ℝ) (T : ℝ) :
    peak cs T = maxFrom (|eval cs 0| ⊔ |eval cs T|)
      ((roots (derivative cs) 0 T).map fun r => |eval cs r|) := by
  have hzero : (0.0 : ℝ) = 0 := by norm_num
  rw [peak]
  change maxFrom (Scalar.max |eval cs (0.0 : ℝ)| |eval cs T|)
    ((roots (derivative cs) (0.0 : ℝ) T).map fun r => |eval cs r|) = _
  rw [hzero, max_real]

/-- **A computed peak is the magnitude of some value on the interval.** -/
theorem peak_le {T B : ℝ} {cs : List ℝ} (hT : 0 ≤ T) (h : ∀ t ∈ Icc 0 T, |eval cs t| ≤ B) :
    peak cs T ≤ B := by
  rw [peak_real, maxFrom_le_iff]
  refine ⟨max_le (h 0 ⟨le_rfl, hT⟩) (h T ⟨hT, le_rfl⟩), ?_⟩
  intro x hx
  obtain ⟨r, hr, rfl⟩ := List.mem_map.mp hx
  exact h r ((pieces_roots hT (derivative cs)).mem_Icc hr)

theorem abs_eval_zero_le_peak (cs : List ℝ) (T : ℝ) : |eval cs 0| ≤ peak cs T := by
  rw [peak_real]
  exact (le_max_left _ _).trans (le_maxFrom _ _)

theorem abs_eval_end_le_peak (cs : List ℝ) (T : ℝ) : |eval cs T| ≤ peak cs T := by
  rw [peak_real]
  exact (le_max_right _ _).trans (le_maxFrom _ _)

/-- Between cuts at which a polynomial is at most `P`, it is at most `P` up to the drift. -/
theorem Pieces.abs_eval_le {η hi a P T : ℝ} {cs rs : List ℝ}
    (h : Pieces η (eval (derivative cs)) hi a rs) (hη : 0 ≤ η) (hT : hi - a ≤ T)
    (ha : |eval cs a| ≤ P) (hrs : ∀ r ∈ rs, |eval cs r| ≤ P) (hhi : |eval cs hi| ≤ P) {t : ℝ}
    (ht : t ∈ Icc a hi) : |eval cs t| ≤ P + η * T := by
  induction rs generalizing a with
  | nil =>
    obtain ⟨-, τ, hτ⟩ := h
    exact (abs_eval_le_of_ends hτ hη ha hhi ht).trans (by gcongr)
  | cons r rs ih =>
    obtain ⟨⟨har, τ, hτ⟩, hrest⟩ := h
    have hr : |eval cs r| ≤ P := hrs r List.mem_cons_self
    rcases le_total t r with htr | hrt
    · refine (abs_eval_le_of_ends hτ hη ha hr ⟨ht.1, htr⟩).trans ?_
      gcongr
      linarith [hrest.le]
    · exact ih hrest (by linarith) hr (fun s hs => hrs s (List.mem_cons_of_mem r hs)) ⟨hrt, ht.2⟩

/-- **A polynomial stays below its computed peak**, up to the error of the cuts. -/
theorem abs_eval_le_peak_add {T t : ℝ} (ht : t ∈ Icc 0 T) (cs : List ℝ) :
    |eval cs t| ≤ peak cs T + cutError T (derivative cs) * T := by
  have hT : 0 ≤ T := ht.1.trans ht.2
  refine (pieces_roots hT (derivative cs)).abs_eval_le (cutError_nonneg hT _) (by simp)
    (abs_eval_zero_le_peak cs T) ?_ (abs_eval_end_le_peak cs T) ht
  intro r hr
  rw [peak_real]
  exact le_maxFrom_of_mem (List.mem_map.mpr ⟨r, hr, rfl⟩)

/-! ## Five coefficients

The values at `0`, `T/4`, `T/2`, `3T/4` and `T` determine the coefficients, so a bound on the values
is one on the coefficients. -/

/-- The magnitudes of the scaled coefficients of a quartic that is at most `M` at five points. -/
theorem coeffs_le_of_five (d₀ d₁ d₂ d₃ d₄ : ℝ) {M : ℝ}
    (h : ∀ x : ℝ, 0 ≤ x → x ≤ 1 → |d₀ + d₁ * x + d₂ * x ^ 2 + d₃ * x ^ 3 + d₄ * x ^ 4| ≤ M) :
    |d₁| ≤ 43 * M ∧ |d₂| ≤ 214 * M ∧ |d₃| ≤ 342 * M ∧ |d₄| ≤ 171 * M := by
  have h₀ := abs_le.mp (h 0 (by norm_num) (by norm_num))
  have h₁ := abs_le.mp (h (1 / 4) (by norm_num) (by norm_num))
  have h₂ := abs_le.mp (h (1 / 2) (by norm_num) (by norm_num))
  have h₃ := abs_le.mp (h (3 / 4) (by norm_num) (by norm_num))
  have h₄ := abs_le.mp (h 1 (by norm_num) (by norm_num))
  refine ⟨?_, ?_, ?_, ?_⟩ <;> exact abs_le.mpr ⟨by linarith, by linarith⟩

/-- The relative error of a computed peak. -/
noncomputable def peakError : ℝ := 1e-13

/-- If the drift is at most `10 ^ -14` of the largest value, the peak is nearly that value. -/
theorem abs_eval_le_of_drift {T t : ℝ} {cs : List ℝ} (ht : t ∈ Icc 0 T)
    (h : ∀ M, (∀ x ∈ Icc 0 T, |eval cs x| ≤ M) → cutError T (derivative cs) * T ≤ 1e-14 * M) :
    |eval cs t| ≤ peak cs T * (1 + peakError) := by
  obtain ⟨m, hm, hmax⟩ := isCompact_Icc.exists_isMaxOn ⟨t, ht⟩
    (continuous_eval cs).abs.continuousOn
  have hle : ∀ x ∈ Icc 0 T, |eval cs x| ≤ |eval cs m| := fun x hx => hmax hx
  have hpeak := abs_eval_le_peak_add hm cs
  have hdrift := h _ hle
  have hM : |eval cs m| ≤ peak cs T * (1 + peakError) := by
    have hpos : 0 ≤ peak cs T := (abs_nonneg _).trans (abs_eval_zero_le_peak cs T)
    have hscaled : |eval cs m| * (1 - 1e-14) ≤ peak cs T := by linarith
    have : (1 - 1e-14 : ℝ) * (1 + peakError) ≥ 1 := by norm_num [peakError]
    nlinarith [abs_nonneg (eval cs m)]
  exact (hle t ht).trans hM

/-- The terms of a quartic that is at most `M` on `[0, T]`. -/
theorem terms_le_of_quartic {T M c₀ c₁ c₂ c₃ c₄ : ℝ} (hT : 0 ≤ T)
    (h : ∀ x ∈ Icc 0 T, |eval [c₀, c₁, c₂, c₃, c₄] x| ≤ M) :
    |c₂| * T ^ 2 ≤ 214 * M ∧ |c₃| * T ^ 3 ≤ 342 * M ∧ |c₄| * T ^ 4 ≤ 171 * M := by
  have hscaled : ∀ x : ℝ, 0 ≤ x → x ≤ 1 →
      |c₀ + c₁ * T * x + c₂ * T ^ 2 * x ^ 2 + c₃ * T ^ 3 * x ^ 3 + c₄ * T ^ 4 * x ^ 4| ≤ M := by
    intro x hx hx1
    have hxT := h (x * T) ⟨mul_nonneg hx hT, mul_le_of_le_one_left hT hx1⟩
    simp only [eval_cons, eval_nil] at hxT
    convert hxT using 2
    ring
  obtain ⟨-, h₂, h₃, h₄⟩ := coeffs_le_of_five _ _ _ _ _ hscaled
  simp only [abs_mul, abs_pow, abs_of_nonneg hT] at h₂ h₃ h₄
  exact ⟨h₂, h₃, h₄⟩

/-- **The peak of a quartic is computed up to one part in `10 ^ 13`.** -/
theorem abs_eval_le_peak {T t : ℝ} (ht : t ∈ Icc 0 T) (c₀ c₁ c₂ c₃ c₄ : ℝ) :
    |eval [c₀, c₁, c₂, c₃, c₄] t| ≤ peak [c₀, c₁, c₂, c₃, c₄] T * (1 + peakError) := by
  refine abs_eval_le_of_drift ht ?_
  intro M hM
  obtain ⟨h₂, h₃, h₄⟩ := terms_le_of_quartic (ht.1.trans ht.2) hM
  have herr : cutError T (derivative [c₀, c₁, c₂, c₃, c₄]) * T
      = ((6 * (|c₃| * T ^ 3) + 24 * (|c₄| * T ^ 4))
        + (2 * (|c₂| * T ^ 2) + 6 * (|c₃| * T ^ 3) + 12 * (|c₄| * T ^ 4))) / 2 ^ 60 := by
    simp only [derivative_cons, timesPower_cons, timesPower_nil, cutError, size, halvings,
      List.map_cons, List.map_nil, eval_cons, eval_nil, abs_mul]
    norm_num
    ring
  have hM₀ : 0 ≤ M := (abs_nonneg _).trans (hM t ht)
  rw [herr, div_le_iff₀ (by norm_num)]
  linarith

/-- The same for a cubic. -/
theorem abs_eval_le_peak_cubic {T t : ℝ} (ht : t ∈ Icc 0 T) (c₀ c₁ c₂ c₃ : ℝ) :
    |eval [c₀, c₁, c₂, c₃] t| ≤ peak [c₀, c₁, c₂, c₃] T * (1 + peakError) := by
  refine abs_eval_le_of_drift ht ?_
  intro M hM
  have hquartic : ∀ x ∈ Icc 0 T, |eval [c₀, c₁, c₂, c₃, 0] x| ≤ M := by
    intro x hx
    simpa using hM x hx
  obtain ⟨h₂, h₃, -⟩ := terms_le_of_quartic (ht.1.trans ht.2) hquartic
  have herr : cutError T (derivative [c₀, c₁, c₂, c₃]) * T
      = (2 * (|c₂| * T ^ 2) + 6 * (|c₃| * T ^ 3)) / 2 ^ 60 := by
    simp only [derivative_cons, timesPower_cons, timesPower_nil, cutError, size, halvings,
      List.map_cons, List.map_nil, eval_cons, eval_nil, abs_mul]
    norm_num
    ring
  have hM₀ : 0 ≤ M := (abs_nonneg _).trans (hM t ht)
  rw [herr, div_le_iff₀ (by norm_num)]
  linarith

end JerkLimit.Poly

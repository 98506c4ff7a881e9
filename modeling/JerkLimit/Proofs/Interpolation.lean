import Mathlib
import JerkLimit.Proofs.Profile

/-!
# Proofs/Interpolation — the one polynomial between two states

Position, velocity and acceleration at both ends of an interval are six numbers, and they leave one
polynomial of degree five. **`Quintic.between_interpolates`** says that the profile between two
states is this polynomial, that sampling it before its start and after its end gives the ends, and
that planning anew from a point on the way changes nothing of what is still to come.

Polynomials are the ones of Mathlib here, and so are their derivatives; `Poly.toPolynomial` reads a
list of coefficients as one.
-/

namespace JerkLimit

open Scalar Polynomial

/-! ## Lists of coefficients as polynomials -/

namespace Poly

/-- The polynomial with the given coefficients. -/
noncomputable def toPolynomial : List ℝ → ℝ[X]
  | [] => 0
  | c :: cs => toPolynomial cs * X + C c

theorem eval_toPolynomial (cs : List ℝ) (t : ℝ) : (toPolynomial cs).eval t = eval cs t := by
  induction cs with
  | nil => simp [toPolynomial]
  | cons c cs ih => simp [toPolynomial, ih]

theorem coeff_toPolynomial (cs : List ℝ) (i : ℕ) : (toPolynomial cs).coeff i = cs.getD i 0 := by
  induction cs generalizing i with
  | nil => simp [toPolynomial]
  | cons c cs ih =>
    cases i with
    | zero => simp [toPolynomial]
    | succ i => simp [toPolynomial, ih]

theorem getD_timesPower (k : ℕ) (cs : List ℝ) (i : ℕ) :
    (timesPower k cs).getD i 0 = (k + i) * cs.getD i 0 := by
  induction cs generalizing k i with
  | nil => simp [timesPower_nil]
  | cons c cs ih =>
    cases i with
    | zero => simp [timesPower_cons]
    | succ i =>
      have h := ih (k + 1) i
      push_cast at h
      simp only [timesPower_cons, List.getD_cons_succ, h]
      push_cast
      ring

theorem derivative_toPolynomial (cs : List ℝ) :
    Polynomial.derivative (toPolynomial cs) = toPolynomial (derivative cs) := by
  ext i
  rw [coeff_derivative, coeff_toPolynomial, coeff_toPolynomial]
  cases cs with
  | nil => simp [derivative]
  | cons c cs =>
    rw [derivative_cons, getD_timesPower, List.getD_cons_succ]
    push_cast
    ring

/-- A polynomial is the list of its coefficients. -/
theorem eq_toPolynomial_iff {p : ℝ[X]} {cs : List ℝ} :
    p = toPolynomial cs ↔ ∀ i, p.coeff i = cs.getD i 0 := by
  simp only [Polynomial.ext_iff, coeff_toPolynomial]

end Poly

namespace Quintic

open JerkLimit.Poly

/-! ## Motions along polynomials -/

/-- Where a motion along a polynomial is at a time. -/
noncomputable def motionAt (p : ℝ[X]) (t : ℝ) : JointState ℝ :=
  ⟨p.eval t, p.derivative.eval t, p.derivative.derivative.eval t⟩

theorem motionAt_toPolynomial (cs : List ℝ) (T t : ℝ) :
    motionAt (toPolynomial cs) t = stateAt ⟨cs, T⟩ t := by
  simp only [motionAt, stateAt, derivative_toPolynomial, eval_toPolynomial]

theorem natDegree_toPolynomial_le {c₀ c₁ c₂ c₃ c₄ c₅ : ℝ} :
    (toPolynomial [c₀, c₁, c₂, c₃, c₄, c₅]).natDegree ≤ 5 := by
  refine natDegree_le_iff_coeff_eq_zero.mpr fun i hi => ?_
  rw [coeff_toPolynomial]
  exact List.getD_eq_default _ _ hi

/-- A polynomial of degree five has six coefficients. -/
theorem exists_eq_toPolynomial {p : ℝ[X]} (hp : p.natDegree ≤ 5) :
    ∃ c₀ c₁ c₂ c₃ c₄ c₅, p = toPolynomial [c₀, c₁, c₂, c₃, c₄, c₅] := by
  refine ⟨p.coeff 0, p.coeff 1, p.coeff 2, p.coeff 3, p.coeff 4, p.coeff 5,
    eq_toPolynomial_iff.mpr fun i => ?_⟩
  match i with
  | 0 | 1 | 2 | 3 | 4 | 5 => rfl
  | i + 6 => exact natDegree_le_iff_coeff_eq_zero.mp hp (i + 6) (by omega)

/-- **There is one motion of degree five** from one state to another, and the profile has its
coefficients. -/
theorem interpolates_iff {p : ℝ[X]} {s g : JointState ℝ} {T : ℝ} (hT : 0 < T) :
    p.natDegree ≤ 5 ∧ motionAt p 0 = s ∧ motionAt p T = g ↔
      p = toPolynomial (between s g T).coeffs := by
  constructor
  · rintro ⟨hdegree, rfl, rfl⟩
    obtain ⟨c₀, c₁, c₂, c₃, c₄, c₅, rfl⟩ := exists_eq_toPolynomial hdegree
    rw [motionAt_toPolynomial _ T, motionAt_toPolynomial _ T, between_self _ _ _ _ _ _ hT]
  · rintro rfl
    have hstart := between_stateAt_zero s g hT
    have hgoal := between_stateAt_end s g hT
    obtain ⟨c₀, c₁, c₂, c₃, c₄, c₅, hq⟩ := exists_coeffs s g hT
    rw [hq] at hstart hgoal ⊢
    exact ⟨natDegree_toPolynomial_le, (motionAt_toPolynomial _ T 0).trans hstart,
      (motionAt_toPolynomial _ T T).trans hgoal⟩

/-! ## Sampling -/

section Sampling

variable (s g : JointState ℝ) {T t : ℝ}

/-- **Before its time** a profile is at its start. -/
theorem sample_of_nonpos (hT : 0 < T) (ht : t ≤ 0) : (between s g T).sample t = .ok s := by
  have hclamp : clamp t 0 T = 0 := by
    change (if t < 0 then 0 else if T < t then T else t) = 0
    split_ifs <;> linarith
  rw [sample_between s g hT, hclamp, between_stateAt_zero s g hT]

/-- **After its time** a profile is at its goal. -/
theorem sample_of_ge (hT : 0 < T) (ht : T ≤ t) : (between s g T).sample t = .ok g := by
  have hclamp : clamp t 0 T = T := by
    change (if t < 0 then 0 else if T < t then T else t) = T
    split_ifs <;> linarith
  rw [sample_between s g hT, hclamp, between_stateAt_end s g hT]

/-- **A motion that is planned anew on its way** is sampled as the rest of the first one. -/
theorem sample_replanned (ht : t ∈ Set.Ico 0 T) {u : ℝ} (hu : u ∈ Set.Icc 0 (T - t)) :
    ∃ x y, (between s g T).sample t = .ok x ∧ (between s g T).sample (t + u) = .ok y
      ∧ (between x g (T - t)).sample u = .ok y := by
  have hT : 0 < T := ht.1.trans_lt ht.2
  have hsum : t + u ∈ Set.Icc 0 T := ⟨add_nonneg ht.1 hu.1, by linarith [hu.2]⟩
  refine ⟨_, _, sample_of_mem s g ⟨ht.1, ht.2.le⟩ hT, sample_of_mem s g hsum hT, ?_⟩
  rw [sample_of_mem _ g hu (sub_pos.mpr ht.2), (between_stateAt s g hT ht.2 u).1]

end Sampling

/-- **The profile is the one motion of degree five** between its ends. Sampled outside of its time
it is at one of them, every polynomial of degree five that agrees with it at both ends has its
coefficients, and planning anew on the way reproduces the rest of it. -/
theorem between_interpolates (s g : JointState ℝ) {T : ℝ} (hT : 0 < T) :
    (∀ t ≤ 0, (between s g T).sample t = .ok s)
      ∧ (∀ t ≥ T, (between s g T).sample t = .ok g)
      ∧ (∀ p : ℝ[X], p.natDegree ≤ 5 ∧ motionAt p 0 = s ∧ motionAt p T = g ↔
        ∀ i, p.coeff i = (between s g T).coeffs.getD i 0)
      ∧ ∀ t ∈ Set.Ico 0 T, ∀ u ∈ Set.Icc 0 (T - t), ∃ x y, (between s g T).sample t = .ok x
        ∧ (between s g T).sample (t + u) = .ok y ∧ (between x g (T - t)).sample u = .ok y := by
  refine ⟨fun t => sample_of_nonpos s g hT, fun t => sample_of_ge s g hT, fun p => ?_,
    fun t ht u => sample_replanned s g ht⟩
  rw [interpolates_iff hT, eq_toPolynomial_iff]

/-- A joint that starts backward and turns around on the way: before and after its two seconds, and
planned anew after half a second of them. -/
theorem interpolates_turning :
    let turning := between (⟨0.2, -0.5, 1⟩ : JointState ℝ) ⟨1.5, 0.3, -0.25⟩ 2
    (0 : ℝ) < 2 ∧ turning.sample (-1) = .ok ⟨0.2, -0.5, 1⟩
      ∧ turning.sample 3 = .ok ⟨1.5, 0.3, -0.25⟩
      ∧ motionAt (toPolynomial turning.coeffs) 2 = ⟨1.5, 0.3, -0.25⟩
      ∧ ∃ x y, turning.sample (1 / 2) = .ok x ∧ turning.sample (1 / 2 + 1) = .ok y
        ∧ (between x ⟨1.5, 0.3, -0.25⟩ (2 - 1 / 2)).sample 1 = .ok y := by
  intro turning
  obtain ⟨hbefore, hafter, hunique, hreplanned⟩ :=
    between_interpolates (⟨0.2, -0.5, 1⟩ : JointState ℝ) ⟨1.5, 0.3, -0.25⟩ (two_pos : (0 : ℝ) < 2)
  have hcoeffs := (hunique (toPolynomial turning.coeffs)).mpr (coeff_toPolynomial _)
  exact ⟨two_pos, hbefore (-1) (by norm_num), hafter 3 (by norm_num), hcoeffs.2.2,
    hreplanned (1 / 2) (by norm_num) 1 (by norm_num)⟩

end Quintic

end JerkLimit

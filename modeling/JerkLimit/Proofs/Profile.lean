import Mathlib
import JerkLimit.Proofs.Peak

/-!
# Proofs/Profile — the quintic between two states

Over `ℝ` a profile starts and ends where it should (`between_stateAt_zero`, `between_stateAt_end`),
and it is the only quintic that does (`between_self`). So a motion that is planned anew from a point
of its own profile, over the time that is left, goes on along the same profile
(`between_stateAt`).

The second half compares `within`, which works with computed peaks, with `StaysWithin`, which speaks
of every instant: staying within the limits is enough to be accepted (`within_of_staysWithin`), and
what is accepted exceeds the limits by no more than the slack (`abs_velocity_le_of_within`,
`abs_acceleration_le_of_within`).
-/

namespace JerkLimit.Quintic

open Scalar Set JerkLimit.Poly

/-- The jerk at a time on or off the profile. -/
noncomputable def jerkAt (q : Quintic ℝ) (t : ℝ) : ℝ :=
  eval (derivative (derivative (derivative q.coeffs))) t

/-! ## Six coefficients -/

/-- The state on a profile, written out. -/
theorem stateAt_mk (c₀ c₁ c₂ c₃ c₄ c₅ T t : ℝ) :
    stateAt ⟨[c₀, c₁, c₂, c₃, c₄, c₅], T⟩ t
      = ⟨c₀ + c₁ * t + c₂ * t ^ 2 + c₃ * t ^ 3 + c₄ * t ^ 4 + c₅ * t ^ 5,
        c₁ + 2 * c₂ * t + 3 * c₃ * t ^ 2 + 4 * c₄ * t ^ 3 + 5 * c₅ * t ^ 4,
        2 * c₂ + 6 * c₃ * t + 12 * c₄ * t ^ 2 + 20 * c₅ * t ^ 3⟩ := by
  rw [stateAt, JointState.mk.injEq]
  simp only [derivative_cons, timesPower_cons, timesPower_nil, eval_cons, eval_nil]
  refine ⟨?_, ?_, ?_⟩ <;> push_cast <;> ring

theorem jerkAt_mk (c₀ c₁ c₂ c₃ c₄ c₅ T t : ℝ) :
    jerkAt ⟨[c₀, c₁, c₂, c₃, c₄, c₅], T⟩ t = 6 * c₃ + 24 * c₄ * t + 60 * c₅ * t ^ 2 := by
  simp only [jerkAt, derivative_cons, timesPower_cons, timesPower_nil, eval_cons, eval_nil]
  push_cast
  ring

/-- The coefficients of a profile that takes some time. -/
theorem between_of_pos (s g : JointState ℝ) {T : ℝ} (hT : 0 < T) :
    between s g T
      = ⟨[s.position, s.velocity, s.acceleration / 2,
          (20 * (g.position - s.position) - (8 * g.velocity + 12 * s.velocity) * T
            - (3 * s.acceleration - g.acceleration) * T ^ 2) / (2 * T ^ 3),
          (-30 * (g.position - s.position) + (14 * g.velocity + 16 * s.velocity) * T
            + (3 * s.acceleration - 2 * g.acceleration) * T ^ 2) / (2 * T ^ 4),
          (12 * (g.position - s.position) - 6 * (g.velocity + s.velocity) * T
            + (g.acceleration - s.acceleration) * T ^ 2) / (2 * T ^ 5)], T⟩ := by
  have hT' : ¬ T ≤ (0.0 : ℝ) := by
    norm_num
    exact hT
  rw [between]
  refine (if_neg hT').trans ?_
  change (⟨[s.position, s.velocity, (0.5 : ℝ) * s.acceleration,
    ((20.0 : ℝ) * (g.position - s.position) - ((8.0 : ℝ) * g.velocity + (12.0 : ℝ) * s.velocity) * T
      - ((3.0 : ℝ) * s.acceleration - g.acceleration) * (T * T)) / ((2.0 : ℝ) * (T * T * T)),
    (-(30.0 : ℝ) * (g.position - s.position)
      + ((14.0 : ℝ) * g.velocity + (16.0 : ℝ) * s.velocity) * T
      + ((3.0 : ℝ) * s.acceleration - (2.0 : ℝ) * g.acceleration) * (T * T))
        / ((2.0 : ℝ) * (T * T * T) * T),
    ((12.0 : ℝ) * (g.position - s.position) - (6.0 : ℝ) * (g.velocity + s.velocity) * T
      + (g.acceleration - s.acceleration) * (T * T)) / ((2.0 : ℝ) * (T * T * T) * (T * T))], T⟩
        : Quintic ℝ) = _
  rw [Quintic.mk.injEq]
  refine ⟨?_, rfl⟩
  congr 1
  congr 1
  norm_num
  refine ⟨by ring, ?_, ?_, ?_⟩ <;> congr 1 <;> ring

/-- Without any time the profile is its goal. -/
theorem between_of_nonpos (s g : JointState ℝ) {T : ℝ} (hT : T ≤ 0) :
    between s g T = ⟨[g.position, g.velocity, g.acceleration / 2, 0, 0, 0], 0⟩ := by
  have hT' : T ≤ (0.0 : ℝ) := by
    norm_num
    exact hT
  have hzero : (0.0 : ℝ) = 0 := by norm_num
  rw [between]
  refine (if_pos hT').trans ?_
  change (⟨[g.position, g.velocity, (0.5 : ℝ) * g.acceleration, (0.0 : ℝ), (0.0 : ℝ), (0.0 : ℝ)],
    (0.0 : ℝ)⟩ : Quintic ℝ) = _
  rw [hzero, show (0.5 : ℝ) * g.acceleration = g.acceleration / 2 by ring]

@[simp] theorem between_duration (s g : JointState ℝ) {T : ℝ} (hT : 0 < T) :
    (between s g T).duration = T := by rw [between_of_pos s g hT]

/-- **A quintic is the profile between its own ends.** -/
theorem between_self (c₀ c₁ c₂ c₃ c₄ c₅ : ℝ) {T : ℝ} (hT : 0 < T) :
    between (stateAt ⟨[c₀, c₁, c₂, c₃, c₄, c₅], T⟩ 0) (stateAt ⟨[c₀, c₁, c₂, c₃, c₄, c₅], T⟩ T) T
      = ⟨[c₀, c₁, c₂, c₃, c₄, c₅], T⟩ := by
  rw [between_of_pos _ _ hT, Quintic.mk.injEq]
  refine ⟨?_, rfl⟩
  simp only [stateAt_mk, List.cons.injEq, and_true]
  refine ⟨by ring, by ring, by ring, ?_, ?_, ?_⟩ <;> field_simp <;> ring

/-- A profile has six coefficients. -/
theorem exists_coeffs (s g : JointState ℝ) {T : ℝ} (hT : 0 < T) :
    ∃ c₀ c₁ c₂ c₃ c₄ c₅, between s g T = ⟨[c₀, c₁, c₂, c₃, c₄, c₅], T⟩ :=
  ⟨_, _, _, _, _, _, between_of_pos s g hT⟩

/-- **A profile starts at its start.** -/
theorem between_stateAt_zero (s g : JointState ℝ) {T : ℝ} (hT : 0 < T) :
    (between s g T).stateAt 0 = s := by
  obtain ⟨p, v, a⟩ := s
  rw [between_of_pos _ g hT, stateAt_mk, JointState.mk.injEq]
  refine ⟨?_, ?_, ?_⟩ <;> ring

/-- **A profile ends at its goal.** -/
theorem between_stateAt_end (s g : JointState ℝ) {T : ℝ} (hT : 0 < T) :
    (between s g T).stateAt T = g := by
  obtain ⟨p, v, a⟩ := g
  rw [between_of_pos s _ hT, stateAt_mk, JointState.mk.injEq]
  refine ⟨?_, ?_, ?_⟩ <;> field_simp <;> ring

/-! ## Sampling -/

/-- Sampling moves a time to the nearest one of the profile. -/
theorem sample_between (s g : JointState ℝ) {T : ℝ} (hT : 0 < T) (t : ℝ) :
    (between s g T).sample t = .ok ((between s g T).stateAt (clamp t 0 T)) := by
  have hzero : (0.0 : ℝ) = 0 := by norm_num
  have hle : (0.0 : ℝ) ≤ (between s g T).duration := by
    rw [hzero, between_duration s g hT]
    exact hT.le
  refine (if_pos hle).trans ?_
  change Except.ok ((between s g T).stateAt (clamp t (0.0 : ℝ) (between s g T).duration)) = _
  rw [hzero, between_duration s g hT]

theorem sample_of_mem (s g : JointState ℝ) {T t : ℝ} (ht : t ∈ Icc 0 T) (hT : 0 < T) :
    (between s g T).sample t = .ok ((between s g T).stateAt t) := by
  rw [sample_between s g hT, clamp_real ht.1 ht.2]

/-! ## Planning anew -/

/-- The profile seen from time `τ` on: the coefficients of `q (τ + ·)`. -/
theorem exists_shift (c₀ c₁ c₂ c₃ c₄ c₅ T τ : ℝ) :
    ∃ d₀ d₁ d₂ d₃ d₄ d₅, (∀ t, stateAt ⟨[d₀, d₁, d₂, d₃, d₄, d₅], T - τ⟩ t
        = stateAt ⟨[c₀, c₁, c₂, c₃, c₄, c₅], T⟩ (τ + t))
      ∧ ∀ t, jerkAt ⟨[d₀, d₁, d₂, d₃, d₄, d₅], T - τ⟩ t
        = jerkAt ⟨[c₀, c₁, c₂, c₃, c₄, c₅], T⟩ (τ + t) := by
  refine ⟨c₀ + c₁ * τ + c₂ * τ ^ 2 + c₃ * τ ^ 3 + c₄ * τ ^ 4 + c₅ * τ ^ 5,
    c₁ + 2 * c₂ * τ + 3 * c₃ * τ ^ 2 + 4 * c₄ * τ ^ 3 + 5 * c₅ * τ ^ 4,
    c₂ + 3 * c₃ * τ + 6 * c₄ * τ ^ 2 + 10 * c₅ * τ ^ 3,
    c₃ + 4 * c₄ * τ + 10 * c₅ * τ ^ 2, c₄ + 5 * c₅ * τ, c₅, fun t => ?_, fun t => ?_⟩
  · rw [stateAt_mk, stateAt_mk, JointState.mk.injEq]
    refine ⟨?_, ?_, ?_⟩ <;> ring
  · rw [jerkAt_mk, jerkAt_mk]
    ring

/-- **A motion that is planned anew on its way goes on along the same profile.** -/
theorem between_stateAt (s g : JointState ℝ) {T τ : ℝ} (hT : 0 < T) (hτ : τ < T) (t : ℝ) :
    (between ((between s g T).stateAt τ) g (T - τ)).stateAt t = (between s g T).stateAt (τ + t)
      ∧ (between ((between s g T).stateAt τ) g (T - τ)).jerkAt t
        = (between s g T).jerkAt (τ + t) := by
  have hend := between_stateAt_end s g hT
  obtain ⟨c₀, c₁, c₂, c₃, c₄, c₅, hq⟩ := exists_coeffs s g hT
  obtain ⟨d₀, d₁, d₂, d₃, d₄, d₅, hstate, hjerk⟩ := exists_shift c₀ c₁ c₂ c₃ c₄ c₅ T τ
  rw [hq] at hend ⊢
  have hstart := hstate 0
  have hgoal := hstate (T - τ)
  rw [add_zero] at hstart
  rw [add_sub_cancel, hend] at hgoal
  rw [← hstart, ← hgoal, between_self _ _ _ _ _ _ (sub_pos.mpr hτ)]
  exact ⟨hstate t, hjerk t⟩

/-! ## Within limits -/

/-- At every instant of the profile velocity, acceleration and jerk are within the limits. -/
def StaysWithin (q : Quintic ℝ) (l : JointLimits ℝ) : Prop :=
  ∀ t ∈ Icc 0 q.duration, |(q.stateAt t).velocity| ≤ l.velocity
    ∧ |(q.stateAt t).acceleration| ≤ l.acceleration ∧ |q.jerkAt t| ≤ l.jerk

theorem StaysWithin.mono {q : Quintic ℝ} {l l' : JointLimits ℝ} (h : q.StaysWithin l)
    (hv : l.velocity ≤ l'.velocity) (ha : l.acceleration ≤ l'.acceleration)
    (hj : l.jerk ≤ l'.jerk) : q.StaysWithin l' := by
  intro t ht
  obtain ⟨hvelocity, hacceleration, hjerk⟩ := h t ht
  exact ⟨hvelocity.trans hv, hacceleration.trans ha, hjerk.trans hj⟩

/-- The rest of a profile stays within what all of it stays within. -/
theorem StaysWithin.rest {s g : JointState ℝ} {l : JointLimits ℝ} {T τ : ℝ} (hτ : 0 ≤ τ)
    (hT : τ < T) (h : (between s g T).StaysWithin l) :
    (between ((between s g T).stateAt τ) g (T - τ)).StaysWithin l := by
  intro t ht
  rw [between_duration _ _ (sub_pos.mpr hT)] at ht
  obtain ⟨hstate, hjerk⟩ := between_stateAt s g (hτ.trans_lt hT) hT t
  rw [hstate, hjerk]
  refine h (τ + t) ⟨by linarith [ht.1], ?_⟩
  rw [between_duration _ _ (hτ.trans_lt hT)]
  linarith [ht.2]

theorem within_iff {q : Quintic ℝ} {l : JointLimits ℝ} :
    q.within l = true ↔ withinLimit q.peaks.velocity l.velocity = true
      ∧ withinLimit q.peaks.acceleration l.acceleration = true
      ∧ withinLimit q.peaks.jerk l.jerk = true := by
  rw [within, Bool.and_eq_true, Bool.and_eq_true, and_assoc]

/-- A nonnegative limit leaves room for itself. -/
theorem withinLimit_of_le {value limit : ℝ} (h0 : 0 ≤ limit) (h : value ≤ limit) :
    withinLimit value limit = true := by
  rw [withinLimit_real]
  linarith [mul_nonneg h0 (by norm_num : (0 : ℝ) ≤ 1e-9)]

/-- The limits with the slack of a comparison. -/
noncomputable def slack (l : JointLimits ℝ) : JointLimits ℝ :=
  ⟨l.velocity * (1 + 1e-9) + 1 / 4503599627370496,
    l.acceleration * (1 + 1e-9) + 1 / 4503599627370496,
    l.jerk * (1 + 1e-9) + 1 / 4503599627370496⟩

/-- A profile that stays within the slack of its limits is accepted. -/
theorem within_of_staysWithin_slack {q : Quintic ℝ} {l : JointLimits ℝ} (hq : 0 ≤ q.duration)
    (h : q.StaysWithin (slack l)) : q.within l = true := by
  rw [within_iff, withinLimit_real, withinLimit_real, withinLimit_real]
  exact ⟨peak_le hq fun t ht => (h t ht).1, peak_le hq fun t ht => (h t ht).2.1,
    peak_le hq fun t ht => (h t ht).2.2⟩

/-- **A profile that stays within its limits is accepted.** -/
theorem within_of_staysWithin {q : Quintic ℝ} {l : JointLimits ℝ} (hq : 0 ≤ q.duration)
    (h : q.StaysWithin l) : q.within l = true := by
  obtain ⟨hv, ha, hj⟩ := h 0 ⟨le_rfl, hq⟩
  have hslack {x : ℝ} (hx : 0 ≤ x) : x ≤ x * (1 + 1e-9) + 1 / 4503599627370496 := by linarith
  exact within_of_staysWithin_slack hq (h.mono (hslack ((abs_nonneg _).trans hv))
    (hslack ((abs_nonneg _).trans ha)) (hslack ((abs_nonneg _).trans hj)))

/-- **A profile that starts with too much jerk is rejected.** -/
theorem within_eq_false {q : Quintic ℝ} {l : JointLimits ℝ}
    (h : l.jerk * (1 + 1e-9) + 1 / 4503599627370496 < |q.jerkAt 0|) : q.within l = false := by
  by_contra hwithin
  have hpeak := (within_iff.mp (by simpa using hwithin)).2.2
  rw [withinLimit_real] at hpeak
  exact absurd (abs_eval_zero_le_peak _ q.duration) (not_le.mpr (hpeak.trans_lt h))

/-- A magnitude that is accepted against `limit`, with the error of the computed peak. -/
noncomputable def slackened (limit : ℝ) : ℝ :=
  (limit * (1 + 1e-9) + 1 / 4503599627370496) * (1 + peakError)

theorem le_slackened {limit peak value : ℝ} (h : withinLimit peak limit = true)
    (hvalue : value ≤ peak * (1 + peakError)) : value ≤ slackened limit := by
  have herr : (0 : ℝ) ≤ 1 + peakError := by norm_num [peakError]
  exact hvalue.trans (mul_le_mul_of_nonneg_right (withinLimit_real.mp h) herr)

/-- **The velocity of an accepted profile** never exceeds its limit by more than the slack. -/
theorem abs_velocity_le_of_within {s g : JointState ℝ} {l : JointLimits ℝ} {T t : ℝ} (hT : 0 < T)
    (h : (between s g T).within l = true) (ht : t ∈ Icc 0 T) :
    |((between s g T).stateAt t).velocity| ≤ slackened l.velocity := by
  obtain ⟨c₀, c₁, c₂, c₃, c₄, c₅, hq⟩ := exists_coeffs s g hT
  rw [hq] at h ⊢
  exact le_slackened (within_iff.mp h).1 (abs_eval_le_peak ht _ _ _ _ _)

/-- **The acceleration of an accepted profile** never exceeds its limit by more than the slack. -/
theorem abs_acceleration_le_of_within {s g : JointState ℝ} {l : JointLimits ℝ} {T t : ℝ}
    (hT : 0 < T) (h : (between s g T).within l = true) (ht : t ∈ Icc 0 T) :
    |((between s g T).stateAt t).acceleration| ≤ slackened l.acceleration := by
  obtain ⟨c₀, c₁, c₂, c₃, c₄, c₅, hq⟩ := exists_coeffs s g hT
  rw [hq] at h ⊢
  exact le_slackened (within_iff.mp h).2.1 (abs_eval_le_peak_cubic ht _ _ _ _)

/-! ## At constant speed -/

/-- At constant speed the profile of the right time is a straight line. -/
theorem cruise (p v : ℝ) {D : ℝ} (hD : 0 < D) :
    between ⟨p, v, 0⟩ ⟨p + v * D, v, 0⟩ D = ⟨[p, v, 0, 0, 0, 0], D⟩ := by
  rw [between_of_pos _ _ hD, Quintic.mk.injEq]
  simp only [List.cons.injEq, and_true, true_and]
  refine ⟨by ring, ?_, ?_, ?_⟩ <;> field_simp <;> ring

/-- A profile of another time has to catch up or to hold back from the start. -/
theorem jerkAt_zero_cruise (p v D : ℝ) {T : ℝ} (hT : 0 < T) :
    (between ⟨p, v, 0⟩ ⟨p + v * D, v, 0⟩ T).jerkAt 0 = 60 * v * (D - T) / T ^ 3 := by
  rw [between_of_pos _ _ hT, jerkAt_mk]
  field_simp
  ring

/-- Constant speed within its limit keeps all limits. -/
theorem staysWithin_cruise {p v D : ℝ} {l : JointLimits ℝ} (hD : 0 < D) (hv : |v| ≤ l.velocity)
    (ha : 0 ≤ l.acceleration) (hj : 0 ≤ l.jerk) :
    (between ⟨p, v, 0⟩ ⟨p + v * D, v, 0⟩ D).StaysWithin l := by
  rw [cruise p v hD]
  intro t _
  rw [stateAt_mk, jerkAt_mk]
  simpa using ⟨hv, ha, hj⟩

/-! ## To rest, and from rest to rest -/

/-- A time on the profile is a fraction of all its time. -/
theorem exists_fraction {T t : ℝ} (hT : 0 < T) (ht : t ∈ Icc 0 T) :
    ∃ s, 0 ≤ s ∧ s ≤ 1 ∧ t = s * T :=
  ⟨t / T, div_nonneg ht.1 hT.le, div_le_one_of_le₀ ht.2 hT.le, (div_mul_cancel₀ t hT.ne').symm⟩

/-- What a fraction and the rest of it have as product. -/
theorem mul_one_sub_mem {s : ℝ} (h0 : 0 ≤ s) (h1 : s ≤ 1) : s * (1 - s) ∈ Icc 0 (1 / 4 : ℝ) :=
  ⟨mul_nonneg h0 (by linarith), by nlinarith [sq_nonneg (s - 1 / 2)]⟩

/-- How far a fraction is from the middle. -/
theorem abs_one_sub_two_mul_le {s : ℝ} (h0 : 0 ≤ s) (h1 : s ≤ 1) : |1 - 2 * s| ≤ 1 :=
  abs_le.mpr ⟨by linarith, by linarith⟩

/-- The profile that brings a moving joint to rest at the fraction `s` of its time; `w` says how far
beyond `3 / 5 * v * T` it goes. -/
theorem to_rest (p v w s : ℝ) {T : ℝ} (hT : 0 < T) :
    ((between ⟨p, v, 0⟩ ⟨p + (18 + w) / 30 * v * T, 0, 0⟩ T).stateAt (s * T)).velocity
        = v * (1 - 4 * s ^ 3 + 3 * s ^ 4 + w * s ^ 2 * (1 - s) ^ 2)
      ∧ ((between ⟨p, v, 0⟩ ⟨p + (18 + w) / 30 * v * T, 0, 0⟩ T).stateAt (s * T)).acceleration
        = v / T * (2 * s * (1 - s) * (w * (1 - 2 * s) - 6 * s))
      ∧ (between ⟨p, v, 0⟩ ⟨p + (18 + w) / 30 * v * T, 0, 0⟩ T).jerkAt (s * T)
        = v / T ^ 2 * (w * (2 - 12 * s + 12 * s ^ 2) - 24 * s + 36 * s ^ 2) := by
  rw [between_of_pos _ _ hT, stateAt_mk, jerkAt_mk]
  refine ⟨?_, ?_, ?_⟩ <;> field_simp <;> ring

section ToRest

variable (w : ℝ) {s : ℝ} (h0 : 0 ≤ s) (h1 : s ≤ 1)

include h0 h1

/-- The speed of a profile that comes to rest, as a share of the speed at its start. -/
theorem abs_speed_to_rest_le :
    |1 - 4 * s ^ 3 + 3 * s ^ 4 + w * s ^ 2 * (1 - s) ^ 2| ≤ 1 + |w| / 16 := by
  obtain ⟨hu0, hu1⟩ := mul_one_sub_mem h0 h1
  -- Without `w` the speed falls from 1 to 0.
  have hfall : |1 - 4 * s ^ 3 + 3 * s ^ 4| ≤ 1 := by
    have hleft : 1 - 4 * s ^ 3 + 3 * s ^ 4 = (1 - s) ^ 2 * (1 + 2 * s + 3 * s ^ 2) := by ring
    have hlost : 4 * s ^ 3 - 3 * s ^ 4 = s ^ 3 * (4 - 3 * s) := by ring
    have hleft0 : 0 ≤ (1 - s) ^ 2 * (1 + 2 * s + 3 * s ^ 2) := by positivity
    have hlost0 : 0 ≤ s ^ 3 * (4 - 3 * s) := mul_nonneg (by positivity) (by linarith)
    exact abs_le.mpr ⟨by linarith, by linarith⟩
  have hbeyond : |w * s ^ 2 * (1 - s) ^ 2| ≤ |w| / 16 := by
    rw [show w * s ^ 2 * (1 - s) ^ 2 = w * (s * (1 - s)) ^ 2 by ring, abs_mul, abs_sq]
    calc |w| * (s * (1 - s)) ^ 2 ≤ |w| * (1 / 4) ^ 2 := by gcongr
      _ = |w| / 16 := by ring
  exact (abs_add_le _ _).trans (add_le_add hfall hbeyond)

/-- Its acceleration, apart from the scale. -/
theorem abs_acceleration_to_rest_le :
    |2 * s * (1 - s) * (w * (1 - 2 * s) - 6 * s)| ≤ |w| / 2 + 3 := by
  obtain ⟨hu0, hu1⟩ := mul_one_sub_mem h0 h1
  have hslope : |w * (1 - 2 * s) - 6 * s| ≤ |w| + 6 := by
    refine (abs_sub _ _).trans (add_le_add ?_ ?_)
    · rw [abs_mul]
      exact mul_le_of_le_one_right (abs_nonneg w) (abs_one_sub_two_mul_le h0 h1)
    · rw [abs_of_nonneg (by positivity)]
      linarith
  rw [mul_assoc 2 s, abs_mul, abs_of_nonneg (by positivity : 0 ≤ 2 * (s * (1 - s)))]
  calc 2 * (s * (1 - s)) * |w * (1 - 2 * s) - 6 * s| ≤ 2 * (1 / 4) * (|w| + 6) := by gcongr
    _ = |w| / 2 + 3 := by ring

/-- Its jerk, apart from the scale. -/
theorem abs_jerk_to_rest_le :
    |w * (2 - 12 * s + 12 * s ^ 2) - 24 * s + 36 * s ^ 2| ≤ 2 * |w| + 12 := by
  obtain ⟨hu0, hu1⟩ := mul_one_sub_mem h0 h1
  have hbeyond : |w * (2 - 12 * (s * (1 - s)))| ≤ 2 * |w| := by
    rw [abs_mul, mul_comm]
    gcongr
    exact abs_le.mpr ⟨by linarith, by linarith⟩
  have hstop : |12 * s - 36 * (s * (1 - s))| ≤ 12 := abs_le.mpr ⟨by nlinarith, by linarith⟩
  rw [show w * (2 - 12 * s + 12 * s ^ 2) - 24 * s + 36 * s ^ 2
    = w * (2 - 12 * (s * (1 - s))) + (12 * s - 36 * (s * (1 - s))) by ring]
  exact (abs_add_le _ _).trans (add_le_add hbeyond hstop)

end ToRest

/-- **To rest** a profile stays within limits that are wide enough for its time. -/
theorem staysWithin_to_rest {p v w T : ℝ} {l : JointLimits ℝ} (hT : 0 < T)
    (hv : |v| * (1 + |w| / 16) ≤ l.velocity) (ha : |v| / T * (|w| / 2 + 3) ≤ l.acceleration)
    (hj : |v| / T ^ 2 * (2 * |w| + 12) ≤ l.jerk) :
    (between ⟨p, v, 0⟩ ⟨p + (18 + w) / 30 * v * T, 0, 0⟩ T).StaysWithin l := by
  intro t ht
  rw [between_duration _ _ hT] at ht
  obtain ⟨s, h0, h1, rfl⟩ := exists_fraction hT ht
  obtain ⟨hvelocity, hacceleration, hjerk⟩ := to_rest p v w s hT
  rw [hvelocity, hacceleration, hjerk]
  refine ⟨le_trans ?_ hv, le_trans ?_ ha, le_trans ?_ hj⟩
  · rw [abs_mul]
    gcongr
    exact abs_speed_to_rest_le w h0 h1
  · rw [abs_mul, abs_div, abs_of_pos hT]
    gcongr
    exact abs_acceleration_to_rest_le w h0 h1
  · rw [abs_mul, abs_div, abs_of_pos (pow_pos hT 2)]
    gcongr
    exact abs_jerk_to_rest_le w h0 h1

/-- The profile from rest to rest at the fraction `s` of its time. -/
theorem rest_to_rest (p q s : ℝ) {T : ℝ} (hT : 0 < T) :
    (between ⟨p, 0, 0⟩ ⟨q, 0, 0⟩ T).stateAt (s * T)
        = ⟨p + (q - p) * s ^ 3 * (10 - 15 * s + 6 * s ^ 2), 30 * (s * (1 - s)) ^ 2 * ((q - p) / T),
          60 * (s * (1 - s)) * (1 - 2 * s) * ((q - p) / T ^ 2)⟩
      ∧ (between ⟨p, 0, 0⟩ ⟨q, 0, 0⟩ T).jerkAt (s * T)
        = 60 * (1 - 6 * (s * (1 - s))) * ((q - p) / T ^ 3) := by
  rw [between_of_pos _ _ hT, stateAt_mk, jerkAt_mk, JointState.mk.injEq]
  refine ⟨⟨?_, ?_, ?_⟩, ?_⟩ <;> field_simp <;> ring

/-- **From rest to rest** a profile stays within limits that are wide enough for its time. -/
theorem staysWithin_rest_to_rest {p q T : ℝ} {l : JointLimits ℝ} (hT : 0 < T)
    (hv : 15 / 8 * (|q - p| / T) ≤ l.velocity) (ha : 15 * (|q - p| / T ^ 2) ≤ l.acceleration)
    (hj : 60 * (|q - p| / T ^ 3) ≤ l.jerk) : (between ⟨p, 0, 0⟩ ⟨q, 0, 0⟩ T).StaysWithin l := by
  intro t ht
  rw [between_duration _ _ hT] at ht
  obtain ⟨s, h0, h1, rfl⟩ := exists_fraction hT ht
  -- All three bounds come from `0 ≤ s * (1 - s) ≤ 1 / 4`.
  obtain ⟨hu0, hu1⟩ := mul_one_sub_mem h0 h1
  have hs := abs_one_sub_two_mul_le h0 h1
  obtain ⟨hstate, hjerk⟩ := rest_to_rest p q s hT
  rw [hstate, hjerk]
  refine ⟨le_trans ?_ hv, le_trans ?_ ha, le_trans ?_ hj⟩
  · rw [abs_mul, abs_div, abs_of_pos hT, abs_of_nonneg (by positivity)]
    gcongr
    nlinarith
  · rw [abs_mul, abs_div, abs_of_pos (pow_pos hT 2), abs_mul, abs_of_nonneg (by positivity)]
    gcongr
    calc 60 * (s * (1 - s)) * |1 - 2 * s| ≤ 60 * (1 / 4) * 1 := by gcongr
      _ = 15 := by norm_num
  · rw [abs_mul, abs_div, abs_of_pos (pow_pos hT 3)]
    gcongr
    exact abs_le.mpr ⟨by linarith, by linarith⟩

/-! ## The same speed at both ends -/

/-- The profile with one speed at both ends and opposite accelerations, at the fraction `s` of its
time. -/
theorem same_speed (p v a h s : ℝ) {T : ℝ} (hT : 0 < T) :
    ((between ⟨p, v, a⟩ ⟨p + h, v, -a⟩ T).stateAt (s * T)).velocity
        = v + 30 * (s * (1 - s)) ^ 2 * (h / T - v)
          + a * T * (s * (1 - s)) * (1 - 5 * (s * (1 - s)))
      ∧ ((between ⟨p, v, a⟩ ⟨p + h, v, -a⟩ T).stateAt (s * T)).acceleration
        = (1 - 2 * s) * (60 * (s * (1 - s)) * ((h / T - v) / T) + a * (1 - 10 * (s * (1 - s))))
      ∧ (between ⟨p, v, a⟩ ⟨p + h, v, -a⟩ T).jerkAt (s * T)
        = 60 * (1 - 6 * (s * (1 - s))) * ((h / T - v) / T ^ 2)
          - 12 * (1 - 5 * (s * (1 - s))) * (a / T) := by
  rw [between_of_pos _ _ hT, stateAt_mk, jerkAt_mk]
  refine ⟨?_, ?_, ?_⟩ <;> field_simp <;> ring

/-- **With more time than constant speed takes**, a profile slows down on the way and may even turn
back, but it never gets faster. -/
theorem staysWithin_detour {p v D T : ℝ} {l : JointLimits ℝ} (hD : 0 ≤ D) (hT : 0 < T)
    (hDT : D ≤ T) (h0 : 0 ≤ v) (hv : v ≤ l.velocity) (ha : 15 * (v / T) ≤ l.acceleration)
    (hj : 60 * (v / T ^ 2) ≤ l.jerk) :
    (between ⟨p, v, 0⟩ ⟨p + v * D, v, 0⟩ T).StaysWithin l := by
  intro t ht
  rw [between_duration _ _ hT] at ht
  obtain ⟨s, hs0, hs1, rfl⟩ := exists_fraction hT ht
  obtain ⟨hvelocity, hacceleration, hjerk⟩ := same_speed p v 0 (v * D) s hT
  rw [neg_zero] at hvelocity hacceleration hjerk
  obtain ⟨hw0, hw1⟩ := mul_one_sub_mem hs0 hs1
  rw [hvelocity, hacceleration, hjerk]
  have hs := abs_one_sub_two_mul_le hs0 hs1
  generalize s * (1 - s) = w at hw0 hw1 ⊢
  -- `u` is the share of the time by which the profile is late.
  obtain ⟨u, hu⟩ : ∃ u, u = 1 - D / T := ⟨_, rfl⟩
  have hu0 : 0 ≤ u := by rw [hu, sub_nonneg]; exact div_le_one_of_le₀ hDT hT.le
  have hu1 : u ≤ 1 := by rw [hu, sub_le_self_iff]; exact div_nonneg hD hT.le
  have hlate : v * D / T - v = -(u * v) := by rw [hu]; ring
  rw [hlate]
  have huv0 : 0 ≤ u * v := mul_nonneg hu0 h0
  have huv : u * v ≤ v := mul_le_of_le_one_left h0 hu1
  have hw2 : w ^ 2 ≤ 1 / 16 := by nlinarith
  refine ⟨le_trans ?_ hv, le_trans ?_ ha, le_trans ?_ hj⟩
  · have hdip : w ^ 2 * (u * v) ≤ 1 / 16 * v := mul_le_mul hw2 huv huv0 (by norm_num)
    have hdip0 : 0 ≤ w ^ 2 * (u * v) := by positivity
    exact abs_le.mpr ⟨by linarith, by linarith⟩
  · rw [zero_mul, add_zero, abs_mul, abs_mul, abs_div, abs_neg, abs_of_nonneg huv0, abs_of_pos hT,
      abs_of_nonneg (by positivity : 0 ≤ 60 * w)]
    calc |1 - 2 * s| * (60 * w * (u * v / T)) ≤ 1 * (60 * (1 / 4) * (v / T)) := by gcongr
      _ = 15 * (v / T) := by ring
  · rw [zero_div, mul_zero, sub_zero, abs_mul, abs_div, abs_neg, abs_of_nonneg huv0,
      abs_of_pos (pow_pos hT 2)]
    gcongr
    exact abs_le.mpr ⟨by linarith, by linarith⟩

end JerkLimit.Quintic

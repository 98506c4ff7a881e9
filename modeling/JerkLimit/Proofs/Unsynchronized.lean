import Mathlib
import JerkLimit.Proofs.Answer
import JerkLimit.Proofs.Motion

/-!
# Proofs/Unsynchronized — joints that take no common duration

Joints are synchronized by stretching what the slowest of them needs in 32 steps of 5 %. An answer
without synchronization says that none of these durations is common to all joints
(`stretch_eq_none_iff`). Between two of them and beyond the last one nothing is tried (`Skipped`),
and the answer means that there is no common duration at all exactly if there is none in these gaps
either (`unsynchronized_iff`).

Two joints that cruise at their speed limits can only agree on a duration that is long enough to
slow down and to turn back in. It is more than the search ever gets to
(`exists_unsynchronized_common`).
-/

namespace JerkLimit

open Scalar Quintic Set

/-! ## What is tried -/

/-- **The stretching gives up** exactly if none of the durations that it tries is feasible for all
joints. -/
theorem stretch_eq_none_iff {tasks : List (Task ℝ)} {n : ℕ} {d : ℝ} :
    stretch tasks n d = none ↔ ∀ k < n, allFeasible tasks (d * 1.05 ^ k) = false := by
  induction n generalizing d with
  | zero => simp [stretch]
  | succ n ih =>
    rw [stretch_succ, Nat.forall_lt_succ_left, pow_zero, mul_one]
    simp only [pow_succ', ← mul_assoc]
    split_ifs with hd
    · simp [hd]
    · rw [ih]
      simp [hd]

/-- A duration from `first` on that is not tried: between two that are, or beyond the last. -/
def Skipped (first T : ℝ) : Prop :=
  (∃ k < 31, T ∈ Ioo (first * 1.05 ^ k) (first * 1.05 ^ (k + 1))) ∨ first * 1.05 ^ 31 < T

/-- From `first` on a duration is either tried or skipped. -/
theorem le_iff_tried_or_skipped {first T : ℝ} (h0 : 0 < first) :
    first ≤ T ↔ (∃ k < 32, T = first * 1.05 ^ k) ∨ Skipped first T := by
  have hge (k : ℕ) : first ≤ first * 1.05 ^ k :=
    le_mul_of_one_le_right h0.le (one_le_pow₀ (by norm_num))
  constructor
  · intro hle
    obtain ⟨k, hk, hk'⟩ := exists_nat_pow_near ((one_le_div h0).mpr hle)
      (by norm_num : (1 : ℝ) < 1.05)
    rw [le_div_iff₀' h0] at hk
    rw [div_lt_iff₀' h0] at hk'
    rcases Nat.lt_or_ge k 31 with hlast | hlast
    · rcases hk.eq_or_lt with heq | hlt
      · exact .inl ⟨k, by omega, heq.symm⟩
      · exact .inr (.inl ⟨k, hlast, hlt, hk'⟩)
    · have hle31 : first * 1.05 ^ 31 ≤ T :=
        (mul_le_mul_of_nonneg_left (pow_le_pow_right₀ (by norm_num) hlast) h0.le).trans hk
      rcases hle31.eq_or_lt with heq | hlt
      · exact .inl ⟨31, by omega, heq.symm⟩
      · exact .inr (.inr hlt)
  · rintro (⟨k, -, rfl⟩ | ⟨k, -, hlt, -⟩ | hlt)
    · exact hge k
    · exact (hge k).trans hlt.le
    · exact (hge 31).trans hlt.le

/-! ## Common durations -/

section Slowest

variable {tasks : List (Task ℝ)} {ds : List ℝ}

/-- Nothing less than what the slowest joint needs is enough for every joint. -/
theorem slowest_le_iff (hds : minimalDurations 0 tasks = .ok ds) (hne : tasks ≠ []) {T : ℝ} :
    slowest ds ≤ T ↔ ∀ t ∈ tasks, ∃ d ≤ T, t.minimalDuration = some d := by
  have hall := minimalDurations_eq_ok.mp hds
  constructor
  · intro hle t ht
    obtain ⟨d, hd, hmin⟩ := exists_of_mem_right hall.flip ht
    exact ⟨d, (le_slowest hd).trans hle, hmin⟩
  · intro h
    obtain ⟨t, ht, hmin⟩ := exists_of_mem_right hall (slowest_mem (own_minimalDurations hds) hne)
    obtain ⟨d, hle, hd⟩ := h t ht
    obtain rfl := Option.some.inj (hmin.symm.trans hd)
    exact hle

/-- Without synchronization the search starts above 0, and nothing that it tries is common. -/
theorem infeasible_of_commonDuration {minimum : Option ℝ}
    (h : commonDuration tasks ds minimum = none) : 0 < slowest ds ⊔ minimum.getD 0
      ∧ ∀ k < 32, allFeasible tasks ((slowest ds ⊔ minimum.getD 0) * 1.05 ^ k) = false := by
  rw [commonDuration_eq] at h
  split_ifs at h with hpos
  exact ⟨not_le.mp hpos, stretch_eq_none_iff.mp h⟩

end Slowest

/-- A duration in range that is enough for every joint on its own, not below the requested minimum,
and feasible for all joints. -/
structure Request.CommonDuration (r : Request ℝ) (T : ℝ) : Prop where
  minimal : ∀ t ∈ r.raised, ∃ d ≤ T, t.minimalDuration = some d
  minimum : ∀ m, r.minimumDuration = some m → m ≤ T
  le_max : T ≤ 1e4
  feasible : allFeasible r.raised T = true

theorem Request.commonDuration_iff {r : Request ℝ} {ds : List ℝ}
    (hds : minimalDurations 0 r.raised = .ok ds) (hne : r.raised ≠ []) {T : ℝ} :
    r.CommonDuration T ↔ slowest ds ⊔ r.minimumDuration.getD 0 ≤ T ∧ T ≤ 1e4
      ∧ allFeasible r.raised T = true := by
  have hminimum (h0 : 0 ≤ T) :
      r.minimumDuration.getD 0 ≤ T ↔ ∀ m, r.minimumDuration = some m → m ≤ T := by
    cases r.minimumDuration <;> simp [h0]
  constructor
  · rintro ⟨hminimal, hminimum', hmax, hfeasible⟩
    have hslow := (slowest_le_iff hds hne).mpr hminimal
    exact ⟨sup_le hslow ((hminimum ((slowest_nonneg ds).trans hslow)).mpr hminimum'), hmax,
      hfeasible⟩
  · rintro ⟨hle, hmax, hfeasible⟩
    obtain ⟨hslow, hrequested⟩ := sup_le_iff.mp hle
    exact ⟨(slowest_le_iff hds hne).mp hslow,
      (hminimum ((slowest_nonneg ds).trans hslow)).mp hrequested, hmax, hfeasible⟩

/-! ## At the speed limit -/

/-- A joint at its speed limit `v`, with as far to go as it gets in the time `D`. -/
noncomputable def atLimit (v D : ℝ) : Task ℝ := ⟨⟨0, v, 0⟩, ⟨0 + v * D, v, 0⟩, ⟨v, 10.0, 20.0⟩⟩

section AtLimit

variable {v D T : ℝ}

/-- At constant speed it takes the time `D` and could not be faster. -/
theorem minimalDuration_atLimit (hv : 0 < v) (hD : 1e-6 ≤ D) :
    (atLimit v D).minimalDuration = some D := by
  have hpos : 0 < D := lt_of_lt_of_le (by norm_num) hD
  have hdistance : |0 + v * D - 0| / v = D := by
    rw [zero_add, sub_zero, abs_of_pos (mul_pos hv hpos), mul_div_cancel_left₀ D hv.ne']
  have hlower : (atLimit v D).lowerBound = D := by
    refine le_antisymm (Task.lowerBound_le_iff.mpr ⟨hD, hdistance.le, ?_, ?_⟩) ?_
    · simpa [atLimit] using hpos.le
    · simpa [atLimit] using hpos.le
    · exact hdistance.ge.trans (Task.lowerBound_le_iff.mp (le_refl (atLimit v D).lowerBound)).2.1
  have hfeasible : (atLimit v D).feasible D = true := by
    refine within_of_staysWithin ?_ (staysWithin_cruise hpos ?_ ?_ ?_)
    · exact hpos.le.trans_eq (between_duration _ _ hpos).symm
    · exact (abs_of_pos hv).le
    · norm_num [atLimit]
    · norm_num [atLimit]
  have hmoves : (atLimit v D).isStationary = false := Task.isStationary_eq_false hv.ne'
  rw [Task.minimalDuration_of_feasible hmoves (by rwa [hlower]), hlower]

/-- With a little more time than that it would have to slow down too abruptly. -/
theorem not_feasible_atLimit (hv : 1 ≤ v) (h0 : 0 < T) (hDT : 2 * D ≤ T) (hT : T ≤ 1) :
    (atLimit v D).feasible T = false := by
  refine within_eq_false ?_
  change (20.0 : ℝ) * (1 + 1e-9) + 1 / 4503599627370496 < |(between _ _ T).jerkAt 0|
  rw [atLimit, jerkAt_zero_cruise 0 v D h0, abs_div, abs_of_pos (pow_pos h0 3),
    lt_div_iff₀ (pow_pos h0 3)]
  have hlate : 30 * T ≤ |60 * v * (D - T)| := by
    refine le_trans ?_ (neg_le_abs _)
    nlinarith [mul_nonneg (sub_nonneg.mpr hv) (by linarith : 0 ≤ T - D)]
  have hcube : T ^ 3 ≤ T := pow_le_of_le_one h0.le hT (by norm_num)
  nlinarith [pow_pos h0 3]

/-- With a lot more time it can slow down, turn back, and come along once more. -/
theorem staysWithin_atLimit (hv : 0 ≤ v) (hD : 0 ≤ D) (hDT : D ≤ T) (hvT : 2 * v ≤ T)
    (hT : 2 ≤ T) : ((atLimit v D).profile T).StaysWithin (atLimit v D).limits := by
  have h0 : 0 < T := by linarith
  have hshare : v / T ≤ 1 / 2 := (div_le_iff₀ h0).mpr (by linarith)
  refine staysWithin_detour hD h0 hDT hv le_rfl ?_ ?_
  · change 15 * (v / T) ≤ 10.0
    linarith
  · change 60 * (v / T ^ 2) ≤ 20.0
    rw [pow_two, ← div_div]
    have hjerk : v / T / T ≤ 1 / 2 / 2 := by gcongr
    linarith

end AtLimit

/-- Two joints at their speed limits, the faster one with half the time to go, and four seconds for
both of them. -/
noncomputable def abreast : Leg 2 where
  start := ⟨[0, 0], [2.0, 1], [0, 0]⟩
  goal := ⟨[0 + 2.0 * 0.01, 0 + 1 * 0.02], [2.0, 1], [0, 0]⟩
  limits := ⟨[2.0, 1], [10.0, 10.0], [20.0, 20.0]⟩
  duration := 4.0
  start_joints := rfl
  goal_joints := rfl
  limits_positive := by
    refine Limits.ofLists_eq_ok.mpr ⟨⟨rfl, rfl⟩, ?_, rfl⟩
    norm_num [Limits.joints]
  limits_joints := rfl
  duration_pos := by norm_num

theorem motions_abreast : abreast.motions = [atLimit 2.0 0.01, atLimit 1 0.02] := rfl

theorem motions_abreast_raised :
    abreast.motions.map Task.raised = [atLimit 2.0 0.01, atLimit 1 0.02] := by
  norm_num [motions_abreast, Task.raised, Task.ofLimits, atLimit]

theorem keepsLimits_abreast : abreast.KeepsLimits := by
  have hfast : ((atLimit 2.0 0.01).profile 4.0).StaysWithin (atLimit 2.0 0.01).limits := by
    apply staysWithin_atLimit <;> norm_num
  have hslow : ((atLimit 1 0.02).profile 4.0).StaysWithin (atLimit 1 0.02).limits := by
    apply staysWithin_atLimit <;> norm_num
  rw [Leg.KeepsLimits, motions_abreast]
  exact List.forall_mem_cons.mpr ⟨hfast, List.forall_mem_singleton.mpr hslow⟩

/-- The faster joint can slow down in none of the durations that are tried. -/
theorem commonDuration_abreast :
    commonDuration [atLimit 2.0 0.01, atLimit 1 0.02] [0.01, 0.02] none = none := by
  have hslow : slowest ([0.01, 0.02] : List ℝ) = 0.02 := by
    refine le_antisymm (maxFrom_le_iff.mpr ⟨by norm_num, ?_⟩) (le_slowest (by simp))
    norm_num
  rw [commonDuration_eq, hslow, Option.getD_none, sup_of_le_left (by norm_num),
    if_neg (by norm_num), stretch_eq_none_iff]
  intro k hk
  have hone : (1 : ℝ) ≤ 1.05 ^ k := one_le_pow₀ (by norm_num)
  have hpow : (1.05 : ℝ) ^ k ≤ 1.05 ^ 32 := pow_le_pow_right₀ (by norm_num) hk.le
  rw [← Bool.not_eq_true, allFeasible_iff, List.forall_mem_cons, not_and_or]
  norm_num at hone hpow ⊢
  exact .inl (not_feasible_atLimit (by norm_num) (by linarith) (by linarith) (by linarith))

/-- So the planner does not synchronize the two. -/
theorem update_abreast : ∃ reply, Planner.update ⟨2, 0.005⟩ (abreast.request none) = .ok reply
    ∧ reply.status = .unsynchronized := by
  have hds : minimalDurations 0 [atLimit 2.0 0.01, atLimit 1 0.02] = .ok [0.01, 0.02] :=
    minimalDurations_eq_ok.mpr (.cons (minimalDuration_atLimit (by norm_num) (by norm_num))
      (.cons (minimalDuration_atLimit (by norm_num) (by norm_num)) .nil))
  have htasks := Leg.request_tasks keepsLimits_abreast none
  rw [motions_abreast_raised] at htasks
  rw [Planner.update_of_not_requested htasks rfl]
  exact ⟨_, Planner.search_eq_unsynchronized (by norm_num) hds commonDuration_abreast, rfl⟩

/-! ## The answer -/

namespace Planner

variable {p : Planner ℝ} {r : Request ℝ} {reply : Reply ℝ}

/-- **What an answer without synchronization means**: nothing that was tried is a common duration.
There is none at all exactly if none was skipped. -/
theorem unsynchronized_iff (h : p.update r = .ok reply) (hstatus : reply.status = .unsynchronized) :
    (∀ k < 32, ¬r.CommonDuration ((reply.duration ⊔ r.minimumDuration.getD 0) * 1.05 ^ k))
      ∧ ((¬∃ T, r.CommonDuration T) ↔
        ∀ T ≤ 1e4, Skipped (reply.duration ⊔ r.minimumDuration.getD 0) T →
          allFeasible r.raised T = false) := by
  obtain ⟨tasks, htasks, hexit⟩ := exit_of_update h
  obtain ⟨rfl, -, -⟩ := Request.tasks_ok htasks
  cases hexit with
  | requested => exact nomatch hstatus
  | finished => exact nomatch hstatus
  | working => exact nomatch hstatus
  | @unsynchronized ds s hds hd _ =>
    have hne : r.raised ≠ [] := fun hnil => commonDuration_nil (hnil ▸ hd)
    obtain ⟨hpos, htried⟩ := infeasible_of_commonDuration hd
    simp only [Request.commonDuration_iff hds hne, not_exists, not_and, Bool.not_eq_true]
    refine ⟨fun k hk _ _ => htried k hk, forall_congr' fun T => ?_⟩
    rw [le_iff_tried_or_skipped hpos]
    constructor
    · exact fun hnone hmax hskipped => hnone (.inr hskipped) hmax
    · rintro hnone (⟨k, hk, rfl⟩ | hskipped) hmax
      · exact htried k hk
      · exact hnone hmax hskipped

/-- The answer for two joints at their speed limits, and what it means. -/
theorem exists_unsynchronized_abreast : ∃ reply,
    Planner.update ⟨2, 0.005⟩ (abreast.request none) = .ok reply
      ∧ reply.status = .unsynchronized
      ∧ (∀ k < 32, ¬(abreast.request none).CommonDuration ((reply.duration ⊔ 0) * 1.05 ^ k))
      ∧ ((¬∃ T, (abreast.request none).CommonDuration T) ↔
        ∀ T ≤ 1e4, Skipped (reply.duration ⊔ 0) T →
          allFeasible (abreast.request none).raised T = false) := by
  obtain ⟨reply, hreply, hstatus⟩ := update_abreast
  exact ⟨reply, hreply, hstatus, unsynchronized_iff hreply hstatus⟩

/-- **A common duration is missed.** The planner does not synchronize the two joints, but four
seconds are a common duration of both. -/
theorem exists_unsynchronized_common : ∃ reply,
    Planner.update ⟨2, 0.005⟩ (abreast.request none) = .ok reply
      ∧ reply.status = .unsynchronized ∧ (abreast.request none).CommonDuration 4.0 := by
  obtain ⟨reply, hreply, hstatus⟩ := update_abreast
  have hraised : (abreast.request none).raised = [atLimit 2.0 0.01, atLimit 1 0.02] :=
    motions_abreast_raised
  refine ⟨reply, hreply, hstatus, ⟨?_, nofun, by norm_num, ?_⟩⟩
  · rw [hraised]
    refine List.forall_mem_cons.mpr ⟨⟨0.01, by norm_num, ?_⟩, List.forall_mem_singleton.mpr
      ⟨0.02, by norm_num, ?_⟩⟩
    · exact minimalDuration_atLimit (by norm_num) (by norm_num)
    · exact minimalDuration_atLimit (by norm_num) (by norm_num)
  · exact Leg.allFeasible_raised keepsLimits_abreast

end Planner

end JerkLimit

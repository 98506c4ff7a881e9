import Mathlib
import JerkLimit.Proofs.Answer
import JerkLimit.Proofs.Motion

/-!
# Proofs/Arrival — how far a finished update jumps

A finished update puts every joint at its target, wherever that is. It does so only if the target is
within reach: position, velocity and acceleration change by no more than the limits of the joint
allow in one time step (`withinReach_of_finished`).

What carries this is the lower bound at which the search for a joint's duration starts. Scan and
bisection stay above it, a common duration is no shorter than any joint's own, and a joint that
takes no time at all has nowhere to go.
-/

namespace JerkLimit

open Scalar

namespace Task

/-- The state `s` differs from the start by no more than the limits, raised to what the joint starts
with, allow in the time `T`. -/
structure WithinReach (m : Task ℝ) (T : ℝ) (s : JointState ℝ) : Prop where
  position : |s.position - m.start.position| ≤ (m.limits.velocity ⊔ |m.start.velocity|) * T
  velocity :
    |s.velocity - m.start.velocity| ≤ (m.limits.acceleration ⊔ |m.start.acceleration|) * T
  acceleration : |s.acceleration - m.start.acceleration| ≤ m.limits.jerk * T

variable {m : Task ℝ} {T : ℝ}

/-- No goal is out of reach for the lower bound of its duration. -/
theorem withinReach_of_lowerBound_le (hm : m.Valid) (h : m.raised.lowerBound ≤ T) :
    m.WithinReach T m.goal := by
  obtain ⟨-, hposition, hvelocity, hacceleration⟩ := lowerBound_le_iff.mp h
  rw [raised_velocity, div_le_iff₀' (lt_sup_of_lt_left hm.velocity_pos)] at hposition
  rw [raised_acceleration, div_le_iff₀' (lt_sup_of_lt_left hm.acceleration_pos)] at hvelocity
  rw [raised_jerk, div_le_iff₀' hm.jerk_pos] at hacceleration
  exact ⟨hposition, hvelocity, hacceleration⟩

/-- A joint with nothing to do is within reach of its goal at any time. -/
theorem withinReach_of_isStationary (hm : m.Valid) (h0 : 0 ≤ T)
    (h : m.raised.isStationary = true) : m.WithinReach T m.goal := by
  obtain ⟨hstart : m.start = m.goal, -⟩ := isStationary_iff.mp h
  have hv : 0 ≤ m.limits.velocity ⊔ |m.start.velocity| := le_sup_of_le_left hm.velocity_pos.le
  have ha : 0 ≤ m.limits.acceleration ⊔ |m.start.acceleration| :=
    le_sup_of_le_left hm.acceleration_pos.le
  have hj : 0 ≤ m.limits.jerk := hm.jerk_pos.le
  rw [← hstart]
  refine ⟨?_, ?_, ?_⟩ <;> rw [sub_self, abs_zero] <;> positivity

/-- **A goal is within reach for any time that the search allots.** -/
theorem withinReach_of_minimalDuration (hm : m.Valid) {d : ℝ}
    (h : m.raised.minimalDuration = some d) (hd : d ≤ T) : m.WithinReach T m.goal := by
  rcases minimalDuration_eq_some h with ⟨hstationary, rfl⟩ | ⟨-, hlower, -⟩
  · exact withinReach_of_isStationary hm hd hstationary
  · exact withinReach_of_lowerBound_le hm (hlower.trans hd)

end Task

namespace Planner

variable {p : Planner ℝ} {r : Request ℝ} {reply : Reply ℝ}

/-- **A finished update moves no joint further than one time step allows.** -/
theorem withinReach_of_finished (h : p.update r = .ok reply) (hstatus : reply.status = .finished) :
    r.motions.length = p.jointCount
      ∧ List.Forall₂ (fun m s => m.WithinReach (p.timeStep * (1 + 1e-9)) s) r.motions
        reply.state.joints := by
  obtain ⟨tasks, htasks, hexit⟩ := exit_of_update h
  obtain ⟨hvalid, rfl⟩ := Request.tasks_eq_ok.mp htasks
  have hcurrent := State.length_joints hvalid.current
  have htarget := State.length_joints hvalid.target
  refine ⟨length_motions hcurrent htarget hvalid.joints, ?_⟩
  cases hexit with
  | requested => cases hstatus
  | @finished ds d hds hd hfit =>
    have hsearch : searchDuration r.raised r.minimumDuration = some d := by
      rw [searchDuration, hds]
      exact hd
    -- The state is the target, so every joint is at its goal.
    change List.Forall₂ _ r.motions r.target.joints
    rw [← map_goal_motions hcurrent htarget hvalid.joints, List.forall₂_map_right_iff]
    refine List.forall₂_same.mpr fun m hm => ?_
    obtain ⟨d', hle, hd'⟩ :=
      (searchDuration_eq_some hsearch).1 m.raised (List.mem_map_of_mem hm)
    exact Task.withinReach_of_minimalDuration (hvalid.motions m hm) hd'
      (hle.trans (fitsStep_iff.mp hfit))
  | working => cases hstatus
  | unsynchronized => cases hstatus

/-- A hop of one unit in a single time step of two seconds. -/
theorem withinReach_hop : ∃ reply, Planner.update ⟨1, 2⟩ ((hop 0).request none) = .ok reply
    ∧ reply.status = .finished ∧ ((hop 0).request none).motions.length = 1
    ∧ List.Forall₂ (fun m s => m.WithinReach (2 * (1 + 1e-9)) s) ((hop 0).request none).motions
      reply.state.joints := by
  obtain ⟨d, hd⟩ := update_hop 0
  exact ⟨_, hd, rfl, withinReach_of_finished hd rfl⟩

end Planner

end JerkLimit

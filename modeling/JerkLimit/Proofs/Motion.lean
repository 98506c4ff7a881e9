import Mathlib
import JerkLimit.Proofs.Planner

/-!
# Proofs/Motion — a motion of all joints that keeps its limits

`KeepsLimits` says that every joint's profile from one state to another, over a given time, stays
within the joint's limits. What is left of such a motion keeps them too (`KeepsLimits.rest`), so a
planner that is asked for the time that is left goes on along the same profiles
(`Leg.update_of_lt`) until no more than one time step is left. From there on it searches
(`Leg.update_of_le`): it misses a motion at constant speed (`lt_minimalDuration_cruising`) and finds
one from rest to rest (`minimalDuration_hopping`).
-/

namespace JerkLimit

open Scalar Quintic Set

/-- A share of the limits of a joint. -/
noncomputable def JointLimits.scaled (c : ℝ) (l : JointLimits ℝ) : JointLimits ℝ :=
  ⟨c * l.velocity, c * l.acceleration, c * l.jerk⟩

/-- Two states of `n` joints, positive limits for them, and some time to get from one to the
other. -/
structure Leg (n : ℕ) where
  start : State ℝ
  goal : State ℝ
  limits : Limits ℝ
  duration : ℝ
  start_joints : start.checkJointCount n = .ok ()
  goal_joints : goal.checkJointCount n = .ok ()
  limits_positive : limits.Positive
  limits_joints : limits.jointCount = n
  duration_pos : 0 < duration

namespace Leg

variable {n : ℕ} (l : Leg n)

def motions (l : Leg n) : List (Task ℝ) := JerkLimit.motions l.start l.goal l.limits

theorem length_start : l.start.joints.length = n := State.length_joints l.start_joints

theorem length_goal : l.goal.joints.length = n := State.length_joints l.goal_joints

theorem length_limits : l.limits.joints.length = n :=
  l.limits_positive.length_joints.trans l.limits_joints

theorem length_motions : l.motions.length = n :=
  JerkLimit.length_motions l.length_start l.length_goal l.length_limits

/-- The limits of a motion are those of its joint, so they are positive. -/
theorem limits_pos {m : Task ℝ} (hm : m ∈ l.motions) :
    0 < m.limits.velocity ∧ 0 < m.limits.acceleration ∧ 0 < m.limits.jerk := by
  refine l.limits_positive.pos ?_
  rw [← map_limits_motions l.length_start l.length_goal l.length_limits]
  exact List.mem_map_of_mem hm

/-- Every joint's profile over the leg stays within the share `c` of its limits. -/
def KeepsShare (c : ℝ) : Prop :=
  ∀ m ∈ l.motions, (m.profile l.duration).StaysWithin (m.limits.scaled c)

/-- Every joint's profile over the leg stays within its limits. -/
def KeepsLimits : Prop :=
  ∀ m ∈ l.motions, (m.profile l.duration).StaysWithin m.limits

/-- All joints at time `τ` of their profiles. -/
noncomputable def stateAt (τ : ℝ) : State ℝ :=
  State.ofJoints (l.motions.map fun m => (m.profile l.duration).stateAt τ)

theorem stateAt_zero : l.stateAt 0 = l.start := by
  rw [stateAt, ← State.ofJoints_joints l.start_joints,
    ← map_start_motions l.length_start l.length_goal l.length_limits]
  exact congrArg _ (List.map_congr_left fun m _ => between_stateAt_zero _ _ l.duration_pos)

theorem stateAt_joints (τ : ℝ) : (l.stateAt τ).checkJointCount n = .ok () := by
  have h := State.checkJointCount_ofJoints (l.motions.map fun m =>
    (m.profile l.duration).stateAt τ)
  rwa [List.length_map, l.length_motions] at h

/-- A planner's request for the leg. -/
def request (minimum : Option ℝ) : Request ℝ :=
  { current := l.start, target := l.goal, limits := l.limits, minimumDuration := minimum }

/-- What is left of the leg from time `τ` on. -/
noncomputable def rest (τ : ℝ) (h : τ < l.duration) : Leg n where
  start := l.stateAt τ
  goal := l.goal
  limits := l.limits
  duration := l.duration - τ
  start_joints := l.stateAt_joints τ
  goal_joints := l.goal_joints
  limits_positive := l.limits_positive
  limits_joints := l.limits_joints
  duration_pos := sub_pos.mpr h

variable {l}

theorem KeepsShare.keepsLimits {c : ℝ} (hc : c ≤ 1) (h : l.KeepsShare c) :
    l.KeepsLimits := by
  intro m hm
  obtain ⟨hv, ha, hj⟩ := l.limits_pos hm
  exact (h m hm).mono (mul_le_of_le_one_left hv.le hc) (mul_le_of_le_one_left ha.le hc)
    (mul_le_of_le_one_left hj.le hc)

/-! ## The rest of a leg -/

theorem motions_rest {τ : ℝ} (h : τ < l.duration) : (l.rest τ h).motions
    = l.motions.map fun m => { m with start := (m.profile l.duration).stateAt τ } :=
  motions_ofJoints l.length_start l.length_goal l.length_limits _

/-- **The rest of a leg runs along the same profiles.** -/
theorem stateAt_rest {τ : ℝ} (h : τ < l.duration) (t : ℝ) :
    (l.rest τ h).stateAt t = l.stateAt (τ + t) := by
  rw [stateAt, motions_rest h, List.map_map]
  exact congrArg _ (List.map_congr_left fun m _ =>
    (between_stateAt m.start m.goal l.duration_pos h t).1)

/-- **The rest of a leg keeps the limits** that all of it keeps. -/
theorem KeepsLimits.rest (hkeeps : l.KeepsLimits) {τ : ℝ} (hτ : 0 ≤ τ) (h : τ < l.duration) :
    (l.rest τ h).KeepsLimits := by
  rw [KeepsLimits, motions_rest h]
  refine List.forall_mem_map.mpr ?_
  intro m hm
  exact (hkeeps m hm).rest hτ h

/-! ## Planning a leg -/

theorem request_valid (h : l.KeepsLimits) (minimum : Option ℝ) : (l.request minimum).Valid n where
  current := l.start_joints
  target := l.goal_joints
  jointCount := l.limits_joints
  joints := l.length_limits
  motions m hm := Task.valid_of_staysWithin l.duration_pos (l.limits_pos hm) (h m hm)

theorem request_tasks (h : l.KeepsLimits) (minimum : Option ℝ) :
    (l.request minimum).tasks n = .ok (l.motions.map Task.raised) :=
  Request.tasks_eq_ok.mpr ⟨request_valid h minimum, rfl⟩

theorem allFeasible_raised (h : l.KeepsLimits) :
    allFeasible (l.motions.map Task.raised) l.duration = true :=
  allFeasible_iff.mpr <| List.forall_mem_map.mpr fun m hm =>
    Task.feasible_raised l.duration_pos (h m hm)

variable {p : Planner ℝ}

/-- **A planner that is asked for the time of a leg** takes one step along its profiles, as long as
that time is more than one step. -/
theorem update_of_lt (hp : p.jointCount = n) (h0 : 0 ≤ p.timeStep) (hkeeps : l.KeepsLimits)
    (hlong : p.timeStep < l.duration) :
    p.update (l.request (some l.duration))
      = .ok ⟨.working, l.stateAt p.timeStep, l.duration⟩ := by
  subst hp
  have htasks := request_tasks hkeeps (some l.duration)
  rw [Planner.update_of_requested h0 htasks
    (Planner.requested_eq_some.mpr ⟨rfl, hlong, allFeasible_raised hkeeps⟩), List.map_map]
  have hafter : ∀ m ∈ l.motions, m.raised.after p.timeStep l.duration
      = (m.profile l.duration).stateAt p.timeStep := fun m _ => if_neg hlong.not_ge
  rw [stateAt, ← List.map_congr_left hafter]
  rfl

/-- **The last step of a leg** is a search. -/
theorem update_of_le (hp : p.jointCount = n) (hkeeps : l.KeepsLimits) {minimum : Option ℝ}
    (hshort : ∀ d ∈ minimum, d ≤ p.timeStep) :
    p.update (l.request minimum) = p.search (l.request minimum) (l.motions.map Task.raised) := by
  subst hp
  have htasks := request_tasks hkeeps minimum
  refine Planner.update_of_not_requested htasks (Option.eq_none_iff_forall_ne_some.mpr ?_)
  intro d hd
  obtain ⟨hmin, hlt, -⟩ := Planner.requested_eq_some.mp hd
  exact (hshort d hmin).not_gt hlt

end Leg

/-! ## Constant speed -/

/-- A quarter of a second at constant speed. -/
noncomputable def cruising (p : ℝ) : Task ℝ :=
  ⟨⟨p, 2, 0⟩, ⟨p + 2 * 0.25, 2, 0⟩, ⟨2.05, 10, 20⟩⟩

theorem lowerBound_cruising (p : ℝ) : (cruising p).lowerBound = 10 / 41 := by
  refine le_antisymm (Task.lowerBound_le_iff.mpr ?_) ?_
  · norm_num [cruising]
  · refine le_trans ?_ (Task.lowerBound_le_iff.mp le_rfl).2.1
    norm_num [cruising]

/-- **The search misses a motion at constant speed.** The right time lies between the first two
candidates, and both of them need too much jerk. -/
theorem lt_minimalDuration_cruising (p : ℝ) {d : ℝ} (h : (cruising p).minimalDuration = some d) :
    0.256 < d := by
  have hinfeasible (T : ℝ) (hT : 0 < T) (hjerk : 21 * T ^ 3 < |60 * 2 * (0.25 - T)|) :
      (cruising p).feasible T = false := by
    refine within_eq_false ?_
    change _ < |(between _ _ T).jerkAt 0|
    rw [cruising, jerkAt_zero_cruise p 2 0.25 hT, abs_div, abs_of_pos (pow_pos hT 3),
      lt_div_iff₀ (pow_pos hT 3)]
    refine lt_of_le_of_lt ?_ hjerk
    gcongr
    norm_num
  have hmoves : (cruising p).isStationary = false := Task.isStationary_eq_false two_ne_zero
  have hlt := Task.lt_minimalDuration_of_infeasible hmoves
    (by rw [lowerBound_cruising]; exact hinfeasible _ (by norm_num) (by norm_num))
    (by rw [lowerBound_cruising]; exact hinfeasible _ (by norm_num) (by norm_num)) h
  rw [lowerBound_cruising] at hlt
  norm_num at hlt ⊢
  linarith

/-! ## From rest to rest -/

/-- One unit ahead, from rest to rest. -/
noncomputable def hopping (p : ℝ) : Task ℝ := ⟨⟨p, 0, 0⟩, ⟨p + 1, 0, 0⟩, ⟨5, 10, 20⟩⟩

theorem hopping_staysWithin (p : ℝ) {T : ℝ} (hT : 2 ≤ T) :
    ((hopping p).profile T).StaysWithin ((hopping p).limits.scaled 0.999) := by
  have h0 : 0 < T := by linarith
  have hone : |p + 1 - p| = 1 := by simp
  have hinv (k : ℕ) : 1 / T ^ k ≤ 1 / 2 ^ k := by gcongr
  have h1 := hinv 1
  have h2 := hinv 2
  have h3 := hinv 3
  refine staysWithin_rest_to_rest h0 ?_ ?_ ?_ <;> rw [hone] <;>
    norm_num [hopping, JointLimits.scaled] at h1 h2 h3 ⊢ <;> linarith

theorem hopping_raised (p : ℝ) : (hopping p).raised = hopping p := by
  norm_num [Task.raised, Task.ofLimits, hopping]

theorem feasible_hopping (p : ℝ) {T : ℝ} (hT : 2 ≤ T) : (hopping p).feasible T = true := by
  have hstays : ((hopping p).profile T).StaysWithin (hopping p).limits := by
    refine (hopping_staysWithin p hT).mono ?_ ?_ ?_ <;> norm_num [hopping, JointLimits.scaled]
  have h := Task.feasible_raised (by linarith) hstays
  rwa [hopping_raised] at h

theorem lowerBound_hopping (p : ℝ) : (hopping p).lowerBound ≤ 2 := by
  refine Task.lowerBound_le_iff.mpr ?_
  norm_num [hopping]

theorem minimalDuration_hopping (p : ℝ) :
    ∃ d, (hopping p).minimalDuration = some d ∧ d ≤ 2 * (1 + 1e-15) :=
  Task.minimalDuration_le_of_window (lowerBound_hopping p) (by norm_num) fun _ hT =>
    feasible_hopping p hT.1

/-- Two seconds for one unit from rest to rest. -/
noncomputable def hop (p : ℝ) : Leg 1 where
  start := ⟨[p], [0], [0]⟩
  goal := ⟨[p + 1], [0], [0]⟩
  limits := ⟨[5], [10], [20]⟩
  duration := 2
  start_joints := rfl
  goal_joints := rfl
  limits_positive := by
    refine Limits.ofLists_eq_ok.mpr ⟨⟨rfl, rfl⟩, ?_, rfl⟩
    norm_num [Limits.joints]
  limits_joints := rfl
  duration_pos := two_pos

theorem hop_keepsShare (p : ℝ) : (hop p).KeepsShare 0.999 :=
  List.forall_mem_singleton.mpr (hopping_staysWithin p le_rfl)

theorem motions_hop_raised (p : ℝ) : (hop p).motions.map Task.raised = [hopping p] :=
  congrArg (· :: []) (hopping_raised p)

/-- Where a hop is after one second: half way, and as fast as it gets. -/
theorem stateAt_hop (p : ℝ) : (hop p).stateAt 1 = ⟨[p + 0.5], [0.9375], [0]⟩ := by
  have hmiddle : ((hopping p).profile 2).stateAt (0.5 * 2) = ⟨p + 0.5, 0.9375, 0⟩ := by
    rw [Task.profile, hopping, (rest_to_rest p (p + 1) 0.5 two_pos).1, JointState.mk.injEq]
    norm_num
  rw [show (0.5 : ℝ) * 2 = 1 by norm_num] at hmiddle
  exact congrArg (fun j => State.ofJoints [j]) hmiddle

/-- The second half of a hop. -/
noncomputable def landing (p : ℝ) : Task ℝ := ⟨⟨p + 0.5, 0.9375, 0⟩, ⟨p + 1, 0, 0⟩, ⟨5, 10, 20⟩⟩

theorem landing_raised (p : ℝ) : (landing p).raised = landing p := by
  norm_num [Task.raised, Task.ofLimits, landing]

theorem motions_landing (p : ℝ) :
    (motions ((hop p).stateAt 1) (hop p).goal (hop p).limits).map Task.raised = [landing p] := by
  rw [stateAt_hop]
  exact congrArg (· :: []) (landing_raised p)

theorem lowerBound_landing (p : ℝ) : (landing p).lowerBound ≤ 1 := by
  refine Task.lowerBound_le_iff.mpr ?_
  norm_num [landing]

/-- Landing may take a little longer than the second that is left of a hop. -/
theorem landing_staysWithin (p : ℝ) {T : ℝ} (hT : T ∈ Icc 1 (1 * 1.05)) :
    ((landing p).profile T).StaysWithin (landing p).limits := by
  obtain ⟨h1, h2⟩ := hT
  have h0 : 0 < T := by linarith
  have hshare : 16 / T ∈ Icc 15 16 :=
    ⟨(le_div_iff₀ h0).mpr (by linarith), (div_le_iff₀ h0).mpr (by linarith)⟩
  have hw : |16 / T - 18| ≤ 3 := abs_le.mpr ⟨by linarith [hshare.1], by linarith [hshare.2]⟩
  have hgoal : p + 1 = p + 0.5 + (18 + (16 / T - 18)) / 30 * 0.9375 * T := by
    field_simp
    norm_num
    ring
  have hinv (k : ℕ) : 0.9375 / T ^ k ≤ 0.9375 :=
    div_le_self (by norm_num) (one_le_pow₀ h1)
  rw [Task.profile, landing, hgoal]
  refine staysWithin_to_rest h0 ?_ ?_ ?_
  · calc |(0.9375 : ℝ)| * (1 + |16 / T - 18| / 16) ≤ |(0.9375 : ℝ)| * (1 + 3 / 16) := by gcongr
      _ ≤ 5 := by norm_num
  · have hinv := hinv 1
    rw [pow_one] at hinv
    calc |(0.9375 : ℝ)| / T * (|16 / T - 18| / 2 + 3) ≤ 0.9375 * (3 / 2 + 3) := by
          rw [abs_of_pos (by norm_num)]
          gcongr
      _ ≤ 10 := by norm_num
  · calc |(0.9375 : ℝ)| / T ^ 2 * (2 * |16 / T - 18| + 12) ≤ 0.9375 * (2 * 3 + 12) := by
          rw [abs_of_pos (by norm_num)]
          gcongr
          exact hinv 2
      _ ≤ 20 := by norm_num

theorem feasible_landing (p : ℝ) {T : ℝ} (hT : T ∈ Icc 1 (1 * 1.05)) :
    (landing p).feasible T = true := by
  have h := Task.feasible_raised (one_pos.trans_le hT.1) (landing_staysWithin p hT)
  rwa [landing_raised] at h

/-- A planner with a time step of two seconds hops at once. -/
theorem update_hop (p : ℝ) : ∃ d, Planner.update ⟨1, 2⟩ ((hop p).request none)
    = .ok ⟨.finished, (hop p).goal, d⟩ := by
  obtain ⟨d, hd, hle⟩ := minimalDuration_hopping p
  refine ⟨d, ?_⟩
  rw [Leg.update_of_le rfl ((hop_keepsShare p).keepsLimits (by norm_num)) (by simp),
    motions_hop_raised]
  exact Planner.search_eq_finished (r := (hop p).request none) (searchDuration_singleton hd)
    (hle.trans (by norm_num))

end JerkLimit

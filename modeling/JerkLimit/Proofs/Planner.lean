import Mathlib
import JerkLimit.Proofs.Duration
import JerkLimit.Proofs.Request

/-!
# Proofs/Planner — one update of the built-in solver

An update checks its request and then answers in one of four ways: along the requested duration
(`update_of_requested`), with the target itself (`search_eq_finished`), along a common duration
(`search_eq_working`), or along each joint's own. `update_eq_ok` is what all four have in common:
every joint is at its goal, or one time step along a feasible profile toward it.
-/

namespace JerkLimit

open Scalar Quintic Set

namespace Task

/-- Where a joint is after `timeStep` on the profile that takes `d`. -/
noncomputable def after (t : Task ℝ) (timeStep d : ℝ) : JointState ℝ :=
  if d ≤ timeStep then t.goal else (t.profile d).stateAt timeStep

theorem advance_eq (t : Task ℝ) {timeStep d : ℝ} (h0 : 0 ≤ timeStep) :
    t.advance timeStep d = .ok (t.after timeStep d) := by
  rw [Task.advance, after]
  by_cases hd : d ≤ timeStep
  · rw [if_pos hd, if_pos hd]
  · have hlt : timeStep < d := not_le.mp hd
    rw [if_neg hd, if_neg hd]
    exact sample_of_mem t.start t.goal ⟨h0, hlt.le⟩ (h0.trans_lt hlt)

/-- A motion that stays within its limits is feasible. -/
theorem feasible_raised {m : Task ℝ} {T : ℝ} (hT : 0 < T)
    (h : (m.profile T).StaysWithin m.limits) : m.raised.feasible T = true := by
  have hduration : (m.profile T).duration = T := between_duration _ _ hT
  refine within_of_staysWithin (by rw [raised_profile, hduration]; exact hT.le) ?_
  exact h.mono (by simp) (by simp) le_rfl

/-- Where a profile that stays within positive limits ends is a valid goal. -/
theorem valid_of_staysWithin {m : Task ℝ} {T : ℝ} (hT : 0 < T)
    (hpos : 0 < m.limits.velocity ∧ 0 < m.limits.acceleration ∧ 0 < m.limits.jerk)
    (h : (m.profile T).StaysWithin m.limits) : m.Valid := by
  have hduration : (m.profile T).duration = T := between_duration _ _ hT
  obtain ⟨hv, ha, -⟩ := h T ⟨hT.le, hduration.ge⟩
  rw [profile, between_stateAt_end _ _ hT] at hv ha
  exact ⟨hpos.1, hpos.2.1, hpos.2.2, withinLimit_of_le hpos.1.le hv,
    withinLimit_of_le hpos.2.1.le ha⟩

end Task

theorem allFeasible_iff {tasks : List (Task ℝ)} {d : ℝ} :
    allFeasible tasks d = true ↔ ∀ t ∈ tasks, t.feasible d = true := List.all_eq_true

namespace Planner

theorem create_eq_ok {n : ℕ} {timeStep : ℝ} {p : Planner ℝ} :
    Planner.create n timeStep = .ok p ↔ 0 < timeStep ∧ ⟨n, timeStep⟩ = p := by
  simp only [Planner.create, checkTimeStep, bind_eq_ok, pure_eq_ok, ensure_eq_ok, isPositive_real,
    exists_const]

theorem advance_eq {timeStep : ℝ} (h0 : 0 ≤ timeStep) (tasks : List (Task ℝ)) (ds : List ℝ) :
    advance timeStep tasks ds
      = .ok (State.ofJoints (List.zipWith (fun t d => t.after timeStep d) tasks ds)) := by
  refine bind_eq_ok.mpr ⟨_, mapM_eq_ok.mpr ?_, rfl⟩
  rw [← List.map_uncurry_zip_eq_zipWith, List.forall₂_map_right_iff]
  exact List.forall₂_same.mpr fun td _ => td.1.advance_eq h0

theorem advanceAll_eq {timeStep : ℝ} (h0 : 0 ≤ timeStep) (tasks : List (Task ℝ)) (d : ℝ) :
    advanceAll timeStep tasks d
      = .ok (State.ofJoints (tasks.map fun t => t.after timeStep d)) := by
  rw [advanceAll, advance_eq h0, List.zipWith_map_right, List.zipWith_self]

variable {p : Planner ℝ} {r : Request ℝ} {tasks : List (Task ℝ)}

theorem solver_update_run (p : Planner ℝ) (r : Request ℝ) :
    (Planner.solver.update r).run.run p = (p.update r, p) := rfl

/-! ## The requested duration -/

theorem requested_eq_some {d : ℝ} : p.requested r tasks = some d ↔
    r.minimumDuration = some d ∧ p.timeStep < d ∧ allFeasible tasks d = true := by
  rw [requested, Option.filter_eq_some_iff, Bool.and_eq_true]
  exact Iff.and Iff.rfl (Iff.and decide_eq_true_iff Iff.rfl)

/-- **An update along the requested duration**, if that is more than a time step and feasible. -/
theorem update_of_requested (h0 : 0 ≤ p.timeStep) (htasks : r.tasks p.jointCount = .ok tasks)
    {d : ℝ} (hd : p.requested r tasks = some d) :
    p.update r
      = .ok ⟨.working, State.ofJoints (tasks.map fun t => t.after p.timeStep d), d⟩ := by
  refine bind_eq_ok.mpr ⟨tasks, htasks, ?_⟩
  rw [hd]
  exact bind_eq_ok.mpr ⟨_, (mapError_ok _ _).mpr (advanceAll_eq h0 tasks d), rfl⟩

theorem update_of_not_requested (htasks : r.tasks p.jointCount = .ok tasks)
    (hnone : p.requested r tasks = none) : p.update r = p.search r tasks := by
  rw [update, htasks]
  simp only [bind, Except.bind, hnone]

/-! ## The search -/

/-- A duration that counts as one time step. -/
def FitsStep (p : Planner ℝ) (d : ℝ) : Prop := d ≤ p.timeStep * (1 + 1e-9)

theorem fitsStep_iff {d : ℝ} :
    d ≤ p.timeStep * ((1.0 : ℝ) + (1e-9 : ℝ)) ↔ p.FitsStep d := by
  rw [FitsStep, show (1.0 : ℝ) = 1 by norm_num]

/-- The searches of the single joints come first, and their error is the error of the search. -/
theorem search_eq_error {e : SolverError ℝ} (h : minimalDurations 0 tasks = .error e) :
    p.search r tasks = .error (.error e) := by
  rw [search, h]
  rfl

/-- **A search that finds one time step** or less is finished. -/
theorem search_eq_finished {d : ℝ} (h : searchDuration tasks r.minimumDuration = some d)
    (hd : p.FitsStep d) : p.search r tasks = .ok ⟨.finished, r.target, d⟩ := by
  rw [searchDuration] at h
  cases hds : minimalDurations 0 tasks with
  | error e => simp [hds] at h
  | ok ds =>
    simp only [hds] at h
    refine bind_eq_ok.mpr ⟨ds, (mapError_ok _ _).mpr hds, ?_⟩
    rw [h]
    exact if_pos (fitsStep_iff.mpr hd)

/-- **A search that finds more than a time step** goes one step of the way. -/
theorem search_eq_working (h0 : 0 ≤ p.timeStep) {d : ℝ}
    (h : searchDuration tasks r.minimumDuration = some d) (hd : ¬p.FitsStep d) :
    p.search r tasks
      = .ok ⟨.working, State.ofJoints (tasks.map fun t => t.after p.timeStep d), d⟩ := by
  rw [searchDuration] at h
  cases hds : minimalDurations 0 tasks with
  | error e => simp [hds] at h
  | ok ds =>
    simp only [hds] at h
    refine bind_eq_ok.mpr ⟨ds, (mapError_ok _ _).mpr hds, ?_⟩
    rw [h]
    refine (if_neg (mt fitsStep_iff.mp hd)).trans ?_
    exact bind_eq_ok.mpr ⟨_, (mapError_ok _ _).mpr (advanceAll_eq h0 tasks d), rfl⟩

/-- Joints for which no common duration is found each take their own. -/
theorem search_eq_unsynchronized (h0 : 0 ≤ p.timeStep) {ds : List ℝ}
    (hds : minimalDurations 0 tasks = .ok ds)
    (h : commonDuration tasks ds r.minimumDuration = none) :
    p.search r tasks = .ok ⟨.unsynchronized,
      State.ofJoints (List.zipWith (fun t d => t.after p.timeStep d) tasks ds), slowest ds⟩ := by
  refine bind_eq_ok.mpr ⟨ds, (mapError_ok _ _).mpr hds, ?_⟩
  rw [h]
  exact bind_eq_ok.mpr ⟨_, (mapError_ok _ _).mpr (advance_eq h0 tasks ds), rfl⟩

/-- **A search is finished** exactly if the duration that it finds is one time step. -/
theorem search_finished_iff (h0 : 0 ≤ p.timeStep) :
    (∃ reply, p.search r tasks = .ok reply ∧ reply.status = .finished) ↔
      ∃ d, searchDuration tasks r.minimumDuration = some d ∧ p.FitsStep d := by
  constructor
  · rintro ⟨reply, h, hstatus⟩
    cases hds : minimalDurations 0 tasks with
    | error e => cases (search_eq_error hds).symm.trans h
    | ok ds =>
      cases hcommon : commonDuration tasks ds r.minimumDuration with
      | none =>
        obtain rfl := Except.ok.inj ((search_eq_unsynchronized h0 hds hcommon).symm.trans h)
        cases hstatus
      | some d =>
        have hd : searchDuration tasks r.minimumDuration = some d := by
          rw [searchDuration, hds]
          exact hcommon
        refine ⟨d, hd, ?_⟩
        by_contra hfit
        obtain rfl := Except.ok.inj ((search_eq_working h0 hd hfit).symm.trans h)
        cases hstatus
  · rintro ⟨d, h, hd⟩
    exact ⟨_, search_eq_finished h hd, rfl⟩

/-! ## What every update has in common -/

/-- The answer brings every joint to its goal, or one time step along a feasible profile. -/
def Reaches (timeStep : ℝ) (t : Task ℝ) (j : JointState ℝ) : Prop :=
  j = t.goal ∨ ∃ d, timeStep < d ∧ t.feasible d = true ∧ j = (t.profile d).stateAt timeStep

theorem reaches_after {timeStep d : ℝ} {t : Task ℝ} (h : timeStep < d → t.feasible d = true) :
    Reaches timeStep t (t.after timeStep d) := by
  rw [Task.after]
  split_ifs with hd
  · exact .inl rfl
  · exact .inr ⟨d, not_le.mp hd, h (not_le.mp hd), rfl⟩

theorem reaches_map_after {timeStep d : ℝ} (h : timeStep < d → allFeasible tasks d = true) :
    List.Forall₂ (Reaches timeStep) tasks (tasks.map fun t => t.after timeStep d) :=
  List.forall₂_map_right_iff.mpr <| List.forall₂_same.mpr fun t ht =>
    reaches_after fun hd => allFeasible_iff.mp (h hd) t ht

/-- The joints on their own, each over the minimal duration of its own. -/
theorem reaches_zipWith_after {timeStep : ℝ} (h0 : 0 < timeStep) {ds : List ℝ}
    (h : List.Forall₂ (fun t d => t.minimalDuration = some d) tasks ds) :
    List.Forall₂ (Reaches timeStep) tasks
      (List.zipWith (fun t d => t.after timeStep d) tasks ds) := by
  induction h with
  | nil => exact .nil
  | cons hd _ ih =>
    refine .cons (reaches_after fun hlt => ?_) ih
    rcases Task.minimalDuration_eq_some hd with ⟨-, rfl⟩ | ⟨-, -, hf⟩
    · exact absurd (h0.trans hlt) (lt_irrefl _)
    · exact hf

/-- **What every update has in common**: its request is valid, and every joint reaches its goal or
is under way on a feasible profile. -/
theorem update_eq_ok (h0 : 0 < p.timeStep) {reply : Reply ℝ} (h : p.update r = .ok reply) :
    r.Valid p.jointCount ∧ ∃ js, reply.state = State.ofJoints js
      ∧ List.Forall₂ (Reaches p.timeStep) r.raised js := by
  obtain ⟨tasks, htasks, -⟩ := bind_eq_ok.mp h
  obtain ⟨hvalid, rfl⟩ := Request.tasks_eq_ok.mp htasks
  refine ⟨hvalid, ?_⟩
  cases hrequested : p.requested r r.raised with
  | some d =>
    obtain rfl := Except.ok.inj ((update_of_requested h0.le htasks hrequested).symm.trans h)
    exact ⟨_, rfl, reaches_map_after fun _ => (requested_eq_some.mp hrequested).2.2⟩
  | none =>
    rw [update_of_not_requested htasks hrequested] at h
    cases hds : minimalDurations 0 r.raised with
    | error e => exact nomatch (search_eq_error hds).symm.trans h
    | ok ds =>
      cases hcommon : commonDuration r.raised ds r.minimumDuration with
      | none =>
        obtain rfl := Except.ok.inj ((search_eq_unsynchronized h0.le hds hcommon).symm.trans h)
        exact ⟨_, rfl, reaches_zipWith_after h0 (minimalDurations_eq_ok.mp hds)⟩
      | some d =>
        have hd : searchDuration r.raised r.minimumDuration = some d := by
          rw [searchDuration, hds]
          exact hcommon
        by_cases hfit : p.FitsStep d
        · obtain rfl := Except.ok.inj ((search_eq_finished hd hfit).symm.trans h)
          refine ⟨r.target.joints, (State.ofJoints_joints hvalid.target).symm, ?_⟩
          rw [← map_goal_motions (State.length_joints hvalid.current)
            (State.length_joints hvalid.target) hvalid.joints, Request.raised,
            List.forall₂_map_left_iff, List.forall₂_map_right_iff]
          exact List.forall₂_same.mpr fun m _ => .inl rfl
        · obtain rfl := Except.ok.inj ((search_eq_working h0.le hd hfit).symm.trans h)
          exact ⟨_, rfl, reaches_map_after fun hlt =>
            (searchDuration_eq_some hd).2.2 (h0.trans hlt)⟩

end Planner

end JerkLimit

import Mathlib
import JerkLimit.Correction
import JerkLimit.Proofs.Planner
import JerkLimit.Proofs.Retry

/-!
# Proofs/Correction — what a segment is like that was not corrected

A segment that the planner brings to its waypoint is taken over as it is (`segment_of_arrival`).
Conversely every correction shows: a segment whose state is not the planner's answer is collapsed or
counts at least one de-rating (`answer_of_segment`).
-/

namespace JerkLimit

open Scalar

namespace Correction

/-- What reaches its target does not lag. -/
theorem isLagging_self (xs : List ℝ) : isLagging xs xs = false := by
  induction xs with
  | nil => rfl
  | cons x xs ih =>
    have hratio : (!decide (x = (0.0 : ℝ)) && decide (x / x < (1.0 : ℝ))) = false := by
      by_cases hx : x = 0
      · norm_num [hx]
      · rw [div_self hx]
        norm_num
    rw [isLagging, ih, Bool.or_false]
    exact hratio

/-- The test of a segment, in words. -/
theorem keepsUp_iff {K : Type} [Scalar K] {reached target : List K} {floor : K} :
    (!(isLagging reached target && decide (floor < State.norm target))) = true
      ↔ ¬(isLagging reached target = true ∧ floor < State.norm target) := by
  rw [Bool.not_eq_true', Bool.eq_false_iff, ne_eq, Bool.and_eq_true, decide_eq_true_iff]

variable {σ : Type} {solver : Solver σ ℝ} {limits : Limits ℝ} {settings : ChainSettings ℝ}
  {current target : State ℝ} {duration : ℝ} {s s' : σ} {c : Correction ℝ}

/-- Settings that de-rate: a factor below one, and a floor above zero. -/
structure Derates (settings : ChainSettings ℝ) : Prop where
  factor_pos : 0 < settings.deratingFactor
  factor_lt_one : settings.deratingFactor < 1
  floor_pos : 0 < settings.speedFloor

theorem derates_default : Derates (default : ChainSettings ℝ) where
  factor_pos := by
    change (0 : ℝ) < 0.9
    norm_num
  factor_lt_one := by
    change (0.9 : ℝ) < 1
    norm_num
  floor_pos := by
    change (0 : ℝ) < 0.01
    norm_num

/-- De-rating takes at least one step. -/
theorem deratings_pos (hsettings : Derates settings) {first : Reply ℝ}
    (hfast : settings.speedFloor < State.norm target.velocity)
    (h : (derate solver limits settings current target duration first).run.run s = (.ok c, s')) :
    0 < c.deratings := by
  obtain ⟨n, hn⟩ := Nat.exists_eq_add_of_lt (deratingBound_pos hsettings.floor_pos hfast
    hsettings.factor_pos hsettings.factor_lt_one)
  rw [zero_add] at hn
  rw [derate, hn] at h
  obtain ⟨⟨attempts, trial⟩, s₁, hretry, hrest⟩ := run_bind_eq_ok.mp h
  obtain ⟨a, rfl, ha⟩ := of_run_ok (SatisfiesM_StateT_eq.mp (retryFrom_count _ _ n 0 none) _) hretry
  simp only at hrest
  split at hrest
  · exact nomatch (Prod.mk.inj hrest).1
  · obtain ⟨rfl, -⟩ := run_pure_eq_ok.mp hrest
    exact ha

/-! ## A segment with the planner -/

section Planner

variable {p p' : Planner ℝ}

theorem setTimeStep_run (hduration : 0 < duration) :
    (Planner.solver.setTimeStep duration).run.run p
      = (.ok (), { p with timeStep := duration }) := by
  have hset : p.setTimeStep duration = .ok { p with timeStep := duration } :=
    bind_eq_ok.mpr ⟨(), ensure_eq_ok.mpr ((isPositive_real duration).mpr hduration), rfl⟩
  change (Run.ofError id (p.setTimeStep duration) >>= fun q => set q :
    Run (Planner ℝ) (SolverError ℝ) Unit).run.run p = _
  rw [hset]
  rfl

/-- The planner's answer for a segment, which lasts one time step. -/
noncomputable def answer (jointCount : ℕ) (limits : Limits ℝ) (current target : State ℝ)
    (duration : ℝ) : Except (Stop (SolverError ℝ)) (Reply ℝ) :=
  Planner.update ⟨jointCount, duration⟩ { current, target, limits }

/-- Whether an answer gives rise to a correction. -/
def Lags (settings : ChainSettings ℝ) (target : State ℝ) (reply : Reply ℝ) : Prop :=
  isLagging reply.state.velocity target.velocity = true
    ∧ settings.speedFloor < State.norm target.velocity

/-- **A segment that does not lag** is what the planner answers. -/
theorem segment_of_not_lags (hduration : 0 < duration) {reply : Reply ℝ}
    (h : answer p.jointCount limits current target duration = .ok reply)
    (hlags : ¬Lags settings target reply) :
    (segment Planner.solver limits settings current target duration).run.run p
      = (.ok ⟨reply.state, reply.status, 0, false⟩, { p with timeStep := duration }) := by
  have hupdate : (Planner.solver.update ⟨current, target, limits, none⟩).run.run
      { p with timeStep := duration } = (.ok reply, { p with timeStep := duration }) :=
    congrArg (Prod.mk · ({ p with timeStep := duration } : Planner ℝ)) h
  rw [segment, run_bind_ok (setTimeStep_run hduration), run_bind_ok hupdate]
  dsimp only
  rw [if_pos (keepsUp_iff.mpr hlags)]
  rfl

/-- **A segment that arrives** is not corrected. -/
theorem segment_of_arrival (settings : ChainSettings ℝ) (hduration : 0 < duration) {reply : Reply ℝ}
    (h : answer p.jointCount limits current target duration = .ok reply)
    (hstate : reply.state = target) :
    (segment Planner.solver limits settings current target duration).run.run p
      = (.ok ⟨target, reply.status, 0, false⟩, { p with timeStep := duration }) := by
  subst hstate
  refine segment_of_not_lags hduration h ?_
  intro hlags
  rw [Lags, isLagging_self] at hlags
  exact nomatch hlags.1

/-- **A segment that was not corrected** is what the planner answers. -/
theorem answer_of_segment (hsettings : Derates settings) (hduration : 0 < duration)
    (h : (segment Planner.solver limits settings current target duration).run.run p = (.ok c, p'))
    (hderatings : c.deratings = 0) (hcollapsed : c.collapsed = false) :
    p' = { p with timeStep := duration } ∧
      ∃ reply, answer p.jointCount limits current target duration = .ok reply
        ∧ c.state = reply.state ∧ c.status = reply.status := by
  have hrun := h
  rw [segment, run_bind_ok (setTimeStep_run hduration)] at hrun
  obtain ⟨reply, p₁, hreply, hrest⟩ := run_bind_eq_ok.mp hrun
  obtain ⟨hanswer, rfl⟩ := Prod.mk.inj hreply
  by_cases hlags : Lags settings target reply
  · -- A lagging segment is collapsed or de-rated, and both are counted.
    dsimp only at hrest
    rw [if_neg (mt keepsUp_iff.mp (not_not_intro hlags))] at hrest
    split_ifs at hrest
    · obtain ⟨rfl, -⟩ := run_pure_eq_ok.mp hrest
      exact nomatch hcollapsed
    · exact absurd hderatings (deratings_pos hsettings hlags.2 hrest).ne'
  · obtain ⟨hc, rfl⟩ := Prod.mk.inj ((segment_of_not_lags hduration hanswer hlags).symm.trans h)
    obtain rfl := Except.ok.inj hc
    exact ⟨rfl, reply, hanswer, rfl, rfl⟩

end Planner

end Correction

end JerkLimit

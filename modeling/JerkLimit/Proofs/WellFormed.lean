import Mathlib
import JerkLimit.Proofs.Validated

/-!
# Proofs/WellFormed — a trajectory stays one

Whatever becomes of a smoothing run, its trajectory is written out. `Trajectory.Kept` is what is not
to change: the group, the joints, the first waypoint, one entry per joint in every state, and that
time passes from each waypoint to the next. Each end that a run can come to has it
(`Chain.Ended.kept`, `Dense.Ended.kept`, `Strategy.Streamed.kept`); only for a chained run is that
arithmetic, because a stretched duration has to stay above zero (`Chain.attemptScale_pos`).
-/

namespace JerkLimit

open Scalar Trajectory

section General

variable {K : Type} [Scalar K] {t t' : Trajectory K}

/-- What `t'` has in common with a trajectory `t` that has passed its checks. -/
structure Trajectory.Kept (t t' : Trajectory K) : Prop where
  group : t'.group = t.group
  joints : t'.joints = t.joints
  shape : ShapedAs t.jointCount t'.waypoints
  timing : t'.checkTiming = .ok ()
  /-- The first waypoint is as it was, in state and duration. -/
  head : t'.waypoints.head? = t.waypoints.head?

theorem Trajectory.Kept.refl (hshape : t.checkShape = .ok ()) (htiming : t.checkTiming = .ok ()) :
    t.Kept t :=
  ⟨rfl, rfl, shapedAs_of_checkShapeFrom hshape, htiming, rfl⟩

theorem Trajectory.kept_unwind (hshape : t.checkShape = .ok ()) (htiming : t.checkTiming = .ok ()) :
    t.Kept t.unwind.1 where
  group := rfl
  joints := rfl
  shape := (unwind_unwound hshape).2.2.2
  timing := checkTiming_eq_ok.mpr (t.durations_unwind ▸ checkTiming_eq_ok.mp htiming)
  head := (unwind_onlyMoved t).head

theorem Strategy.Streamed.kept {period : K} {report : Report K}
    (h : Streamed period t t' report) : t.Kept t' where
  group := h.group
  joints := h.joints
  shape := h.shape
  timing := by
    refine checkTiming_eq_ok.mpr fun x hx => ?_
    rw [h.durations] at hx
    exact List.eq_of_mem_replicate hx ▸ h.period_pos
  head := h.head

namespace Dense

variable {d : Dense K}

theorem Ended.kept {outcome : Outcome K} (h0 : isPositive d.settings.timeStep = true)
    (hshape : t.checkShape = .ok ()) (htiming : t.checkTiming = .ok ())
    (h : d.Ended t t' outcome) : t.Kept t' := by
  cases h with
  | failed h =>
    rcases h.left with rfl | ⟨-, rfl⟩
    · exact .refl hshape htiming
    · exact kept_unwind hshape htiming
  | composed _ _ hjoints h =>
    have hseed := kept_unwind hshape htiming
    exact {
      group := h.group.trans hseed.group
      joints := h.joints.trans hseed.joints
      shape := hjoints ▸ h.shape
      timing := by
        refine checkTiming_eq_ok.mpr fun x hx => ?_
        rw [h.durations_eq] at hx
        exact List.eq_of_mem_replicate hx ▸ h0
      head := h.head.trans (h.seed_head.symm.trans hseed.head) }

end Dense

end General

namespace Chain

variable {settings : ChainSettings ℝ} {t t' : Trajectory ℝ} {outcome : Outcome ℝ}

theorem kept_attempted (hfactor : 0 < settings.extensionFactor) (htiming : t.checkTiming = .ok ())
    {k : ℕ} {cs : List (Correction ℝ)}
    (hshape : ShapedAs t.jointCount (attempted settings t k cs).waypoints) :
    t.Kept (attempted settings t k cs) where
  group := rfl
  joints := rfl
  shape := hshape
  timing := by
    refine checkTiming_eq_ok.mpr fun x hx => (isPositive_real x).mpr ?_
    rw [durations_attempted] at hx
    obtain ⟨y, hy, rfl⟩ := List.mem_map.mp hx
    have hy0 := (isPositive_real y).mp (checkTiming_eq_ok.mp htiming y hy)
    exact mul_pos hy0 (attemptScale_pos hfactor k)
  head := head?_attempted settings t k cs

theorem Ended.kept (hfactor : 0 < settings.extensionFactor) (hshape : t.checkShape = .ok ())
    (htiming : t.checkTiming = .ok ()) (h : Ended settings t t' outcome) : t.Kept t' := by
  cases h with
  | rejected _ => exact .refl hshape htiming
  | cancelled _ => exact kept_unwind hshape htiming
  | noAttempt _ _ => exact kept_unwind hshape htiming
  | exhausted hleft => exact kept_attempted hfactor htiming hleft
  | succeeded hleft _ _ => exact kept_attempted hfactor htiming hleft

end Chain

namespace Strategy

/-- **Smoothing keeps a trajectory well formed**, with any checked settings and however it ends. -/
theorem smooth_kept {s : Settings ℝ} (hs : s.check = .ok ()) {t : Trajectory ℝ}
    (hshape : t.checkShape = .ok ()) (htiming : t.checkTiming = .ok ()) :
    ∃ strategy, ofSettings s = .ok strategy ∧ t.Kept (strategy.smooth t).1 := by
  have hvalid := Settings.check_eq_ok.mp hs
  obtain ⟨strategy, hstrategy⟩ := hvalid.exists_ofSettings
    (LowPass.exists_create.mpr ⟨isFinite_real _, hvalid.one_le_coefficient⟩)
  refine ⟨strategy, hstrategy, ?_⟩
  obtain ⟨⟨t', outcome⟩, hrun⟩ : ∃ r, strategy.smooth t = r := ⟨_, rfl⟩
  have hended := smooth_ended hrun
  rw [hrun]
  rcases ofSettings_cases hstrategy with rfl | rfl | rfl
  · cases hended with
    | rejected _ => exact .refl hshape htiming
    | streamed h => exact h.kept
  · cases hended with
    | chained h =>
      have hfactor : (1.0 : ℝ) < s.chained.extensionFactor := hvalid.one_lt_extensionFactor
      exact h.kept (by linarith) hshape htiming
  · cases hended with
    | segmentwise h =>
      have h0 : isPositive s.segmentwise.timeStep = true := hvalid.tunable .sampleTimeStep
      exact h.kept h0 hshape htiming

/-- A hop, by default settings. -/
theorem exists_kept_hop : ∃ strategy, ofSettings (default : Settings ℝ) = .ok strategy
    ∧ (Chain.oneSegment 5 (hop 0).start (hop 0).goal 2).Kept
      (strategy.smooth (Chain.oneSegment 5 (hop 0).start (hop 0).goal 2)).1 :=
  smooth_kept Settings.check_default rfl (Chain.oneSegment_timing two_pos _ _ _)

end Strategy

end JerkLimit

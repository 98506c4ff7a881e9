import Mathlib
import JerkLimit.Proofs.Endings
import JerkLimit.Proofs.Pace

/-!
# Proofs/Failures — runs that fail leave their input

A replay rewrites waypoints in place, and each of its cycles could still refuse the next command.
None does, once the stream has been started, so an error of a replay comes before the first change.
Dense smoothing works on a trajectory of its own; only the unwinding of the input is in place, and
that comes after all checks of the input (`Strategy.failed_leaves`).
-/

namespace JerkLimit

open Scalar Trajectory

variable {K : Type} [Scalar K]

namespace Strategy

/-- A replay that fails has not begun. -/
theorem smoothStream_failed [OrderedScalar K] {period : K} {fallbacks : Fallbacks K}
    {t t' : Trajectory K} {e : Stop (SmoothingError K)}
    (h : smoothStream period fallbacks t = (t', .error e)) : e.IsError ∧ t' = t := by
  rcases smoothStream_cases period fallbacks t with ⟨e', hrun, -⟩ | ⟨t₁, report, hrun, -⟩
  · obtain ⟨rfl, he⟩ := Prod.mk.inj (hrun.symm.trans h)
    exact ⟨⟨e', (Except.error.inj he).symm⟩, rfl⟩
  · exact nomatch (Prod.mk.inj (hrun.symm.trans h)).2

end Strategy

/-- Dense smoothing that fails has unwound its input, if anything. -/
theorem Dense.Failed.unwound {d : Dense K} {t t' : Trajectory K} {e : Stop (SmoothingError K)}
    (h : d.Failed t t' e) : t' = t ∨ t.unwind = (t', .ok ()) :=
  h.left.imp_right fun ⟨hshape, hleft⟩ => Prod.ext hleft.symm (unwind_unwound hshape).1

namespace Strategy

variable (K) in
/-- **A run that fails leaves its input.** A replay leaves it as it is, and dense smoothing as it is
or unwound, whatever the caller answers to the polls; nothing faults. -/
theorem failed_leaves [OrderedScalar K] :
    (∀ (period : K) (fallbacks : Fallbacks K) (t t' : Trajectory K) (e : Stop (SmoothingError K)),
        smoothStream period fallbacks t = (t', .error e) → e.IsError ∧ t' = t)
      ∧ ∀ (d : Dense K) (keepGoing : KeepGoing) (v a : K) (t t' : Trajectory K)
          (e : Stop (SmoothingError K)) (polls : ℕ),
        d.smooth keepGoing v a t = (t', .error e, polls) →
          e.IsError ∧ (t' = t ∨ t.unwind = (t', .ok ())) := by
  refine ⟨fun period fallbacks t t' e h => smoothStream_failed h, ?_⟩
  intro d keepGoing v a t t' e polls h
  have hfailed := Dense.smooth_failed h
  exact ⟨hfailed.error.1, hfailed.unwound⟩

end Strategy

namespace Dense

/-- Segments end where a later one does. -/
theorem segments_run_error {settings : DenseSettings K} {p : Planner K} {limits : Limits K}
    {keepGoing : KeepGoing} {current : State K} {index : ℕ} {w : Waypoint K}
    {ws : List (Waypoint K)} {samples : List (State K)} {e : Stop (SmoothingError K)} {s s' : ℕ}
    (hpoll : keepGoing s = true)
    (hsegment : segment settings p limits current w.state w.duration index = .ok samples)
    (hrest : (segments settings p limits keepGoing (samples.getLast?.getD current) (index + 1)
      ws).run.run (s + 1) = (.error e, s')) :
    (segments settings p limits keepGoing current index (w :: ws)).run.run s = (.error e, s') := by
  have hyes : (poll keepGoing : Run ℕ (SmoothingError K) Unit).run.run s = (.ok (), s + 1) := by
    rw [Chain.poll_run, if_pos hpoll]
  have hsamples : (ExceptT.mk (pure (segment settings p limits current w.state w.duration index)) :
      Run ℕ (SmoothingError K) (List (State K))).run.run (s + 1) = (.ok samples, s + 1) :=
    Prod.ext hsegment rfl
  rw [segments, run_bind_ok hyes]
  exact (run_bind_ok hsamples).trans (run_bind_error hrest)

/-- Samples that are not completed are dropped. -/
theorem smooth_of_segments_error {d : Dense K} {limits : Limits K} {keepGoing : KeepGoing} {v a : K}
    {t seed : Trajectory K} {planner : Planner K} {first : Waypoint K} {rest : List (Waypoint K)}
    {e : Stop (SmoothingError K)} {polls : ℕ} (hplanned : t.checkPlanned = .ok ())
    (hlimits : t.batchLimits d.fallbacks v a = .ok limits) (hunwind : t.unwind = (seed, .ok ()))
    (hcreate : Planner.create seed.jointCount d.settings.timeStep = .ok planner)
    (hwaypoints : seed.waypoints = first :: rest)
    (h : (segments d.settings planner limits keepGoing first.state 1 rest).run.run 0
      = (.error e, polls)) :
    d.smooth keepGoing v a t = (seed, .error e, polls) := by
  have hinput : (do
      t.checkPlanned
      t.batchLimits d.fallbacks v a) = .ok limits := bind_eq_ok.mpr ⟨(), hplanned, hlimits⟩
  have hplanner : (Run.ofError .solver (Planner.create seed.jointCount d.settings.timeStep) :
      Run ℕ (SmoothingError K) _).run.run 0 = (.ok planner, 0) :=
    Prod.ext ((mapError_ok _ _).mpr hcreate) rfl
  have hresample : (d.resample limits keepGoing seed).run.run 0 = (.error e, polls) := by
    rw [resample, run_bind_ok hplanner, hwaypoints]
    exact run_bind_error h
  simp only [smooth, hinput, hunwind, hresample]

end Dense

/-- A period of zero starts no stream, and a caller who has had enough after a hop gets nothing of
it. -/
theorem Strategy.hopAndStay_left :
    (∃ t' e, smoothStream 0 default (Dense.hopAndStay 3) = (t', .error e)
        ∧ e.IsError ∧ t' = Dense.hopAndStay 3)
      ∧ ∃ t' e polls, (⟨⟨1, 100⟩, default, default⟩ : Dense ℝ).smooth (fun n => n == 0) 1 1
            (Dense.hopAndStay 3) = (t', .error e, polls)
          ∧ e.IsError ∧ (t' = Dense.hopAndStay 3
            ∨ (Dense.hopAndStay 3).unwind = (t', .ok ())) := by
  constructor
  · have hperiod : isPositive (0 : ℝ) = false := by
      rw [Bool.eq_false_iff, ne_eq, isPositive_real]
      exact lt_irrefl 0
    have hcreate : Planner.create (Dense.hopAndStay 3).jointCount (0 : ℝ)
        = .error (.invalidTimeStep 0) := by
      rw [Planner.create, Planner.checkTimeStep, hperiod]
      rfl
    have hstart : startStream 0 default (hop 0).start (Dense.hopAndStay 3)
        = .error (.solver (.invalidTimeStep 0)) := by
      have hshape : (Dense.hopAndStay 3).checkShape = .ok () := rfl
      rw [startStream, CommandStream.createPlanner, hcreate, hshape]
      rfl
    have hrun : smoothStream 0 default (Dense.hopAndStay 3)
        = (Dense.hopAndStay 3, .error (.error (.solver (.invalidTimeStep 0)))) := by
      rw [smoothStream]
      simp only [Dense.hopAndStay, Chain.onArm] at hstart ⊢
      rw [hstart]
    exact ⟨_, _, hrun, (failed_leaves ℝ).1 _ _ _ _ _ hrun⟩
  · have hunwind : (Dense.hopAndStay 3).unwind = (Dense.hopAndStay 3, .ok ()) :=
      Chain.onArm_unwind
    have hcreate : Planner.create (Dense.hopAndStay 3).jointCount 1 = .ok (⟨1, 1⟩ : Planner ℝ) :=
      bind_eq_ok.mpr ⟨(), ensure_eq_ok.mpr ((isPositive_real 1).mpr one_pos), rfl⟩
    have hsegments : (Dense.segments ⟨1, 100⟩ ⟨1, 1⟩ (hop 0).limits (fun n => n == 0)
        (hop 0).start 1 [⟨(hop 0).goal, (hop 0).duration⟩, ⟨(hop 0).goal, 3⟩]).run.run 0
          = (.error (.error .cancelled), 2) :=
      Dense.segments_run_error rfl (Dense.segment_hop_eq 0 1) rfl
    have hrun := Dense.smooth_of_segments_error (d := ⟨⟨1, 100⟩, default, default⟩) rfl
      (Dense.hopAndStay_limits three_pos) hunwind hcreate rfl hsegments
    exact ⟨_, _, _, hrun, (failed_leaves ℝ).2 _ _ _ _ _ _ _ _ hrun⟩

end JerkLimit

import Mathlib
import JerkLimit.Proofs.History
import JerkLimit.Proofs.Replay
import JerkLimit.Proofs.Sampling

/-!
# Proofs/Endings — how a run ends and what it leaves

Each strategy rewrites a trajectory in its own way and has its own places to give up. A replay
leaves the input or all of its output (`Strategy.smoothStream_cases`). A chained run leaves the
input, the unwound input or its last attempt, as `Chain.Ended` lists, and dense smoothing the input,
the unwound input or all of its output (`Dense.Ended`). In none of these cases has anything faulted.
-/

namespace JerkLimit

open Scalar Trajectory

variable {σ K : Type} [Scalar K]

namespace Chain

variable {solver : Solver σ K} {settings : ChainSettings K} {fallbacks : Fallbacks K}
  {keepGoing : KeepGoing} {v a : K} {t t' : Trajectory K} {outcome : Outcome K}

/-- What an attempt with number `k` leaves of `t`, if it has made the corrections `cs`. -/
def attempted (settings : ChainSettings K) (t : Trajectory K) (k : ℕ) (cs : List (Correction K)) :
    Trajectory K :=
  { t with waypoints := rewritten cs (stretched settings t.unwind.1 k) }

theorem head?_attempted (settings : ChainSettings K) (t : Trajectory K) (k : ℕ)
    (cs : List (Correction K)) :
    (attempted settings t k cs).waypoints.head? = t.waypoints.head? := by
  rw [attempted, head?_rewritten, head?_stretched, (unwind_onlyMoved t).head]

/-- Corrections do not change times, and neither does unwinding. -/
theorem durations_attempted (settings : ChainSettings K) (t : Trajectory K) (k : ℕ)
    (cs : List (Correction K)) : (attempted settings t k cs).durations
      = t.durations.map (· * attemptScale settings k) := by
  rw [← t.durations_unwind, durations, durations, attempted, List.map_tail, durations_rewritten,
    durations_stretched, List.map_tail, List.map_tail, List.map_tail]

/-- How a chained run on `t` ends, with what it leaves. -/
inductive Ended (settings : ChainSettings K) (t : Trajectory K) :
    Trajectory K → Outcome K → Prop where
  /-- The input has not passed the checks. -/
  | rejected {e : SmoothingError K} (he : ¬e.IsInvalid) :
      Ended settings t t (.error (.error e))
  /-- There is no complete attempt. -/
  | cancelled (hinput : t.checkShape = .ok ()) :
      Ended settings t t.unwind.1 (.error (.error .cancelled))
  | noAttempt (hinput : t.checkShape = .ok ()) (hmax : settings.maxAttempts = 0) :
      Ended settings t t.unwind.1 (.error (.error (.invalid .extensionAttempts 0.0)))
  /-- The last attempt has failed. -/
  | exhausted {k attempts : ℕ} {cs : List (Correction K)} {status : Option Status}
      (hshape : ShapedAs t.jointCount (attempted settings t k cs).waypoints) :
      Ended settings t (attempted settings t k cs)
        (.error (.error (.infeasible attempts status)))
  | succeeded {k : ℕ} {cs : List (Correction K)} {report : Report K}
      (hshape : ShapedAs t.jointCount (attempted settings t k cs).waypoints)
      (hscale : report.durationScale = attemptScale settings k)
      (hcount : report.waypointCount = (attempted settings t k cs).waypointCount) :
      Ended settings t (attempted settings t k cs) (.ok report)

theorem checkInput_errs :
    ErrsIn (fun e => ¬e.IsInvalid) (checkInput fallbacks t.jointCount v a t) := by
  refine .bind t.checkPlanned_errs fun _ _ => .bind (.of_ok ⟨(), ?_⟩) fun _ _ =>
    t.batchLimits_errs fallbacks v a
  exact ensure_eq_ok.mpr (beq_self_eq_true _)

/-- **How attempts with any solver end**, if it gets and hands on one entry per joint. -/
theorem smoothWith_ended (hsolver : solver.Shaped t.jointCount) {s s' : Polled σ}
    (hcount : solver.jointCount s.inner = t.jointCount)
    (h : (smoothWith solver settings fallbacks keepGoing v a t).run s = ((t', outcome), s')) :
    Ended settings t t' outcome := by
  cases hinput : checkInput fallbacks (solver.jointCount s.inner) v a t with
  | error e =>
    rw [smoothWith_eq_of_invalid hinput] at h
    obtain ⟨rfl, rfl⟩ := Prod.mk.inj (Prod.mk.inj h).1
    rw [hcount] at hinput
    exact .rejected (checkInput_errs.of_error hinput)
  | ok limits =>
    have hshape : t.checkShape = .ok () := by
      obtain ⟨_, -, hlimits⟩ := bind_eq_ok.mp hinput
      obtain ⟨_, -, hlimits⟩ := bind_eq_ok.mp hlimits
      exact (shape_of_batchLimits hlimits).1
    obtain ⟨hunwind, hjoints, -, hseed, hne, hlimits⟩ := prepared_of_checkInput hinput
    rw [smoothWith_eq settings keepGoing hinput hunwind] at h
    obtain ⟨r, hr⟩ : ∃ r, (attempts solver limits settings keepGoing t.unwind.1).run.run s
        = (r, s') := ⟨_, Prod.ext rfl (Prod.mk.inj h).2⟩
    rw [hr] at h
    have hresult := (Prod.mk.inj h).1
    have hends := attempts_ends settings keepGoing (hjoints.symm ▸ hsolver) hlimits hseed hne
    match r with
    | .error e =>
      obtain rfl : e = _ := hends.stop hr
      obtain ⟨rfl, rfl⟩ := Prod.mk.inj hresult
      exact .cancelled hshape
    | .ok none =>
      obtain ⟨rfl, rfl⟩ := Prod.mk.inj hresult
      exact .noAttempt hshape (attempts_none hr)
    | .ok (some ⟨value, accepted, count⟩) =>
      obtain ⟨k, cs, hhistory⟩ := attempts_history hr
      obtain rfl : value = _ := hhistory.value
      have hattempt := hends.value hr _ rfl
      rw [hjoints] at hattempt
      cases accepted with
      | false =>
        obtain ⟨rfl, rfl⟩ := Prod.mk.inj hresult
        exact .exhausted hattempt
      | true =>
        rw [conclude_accepted] at hresult
        obtain ⟨rfl, rfl⟩ := Prod.mk.inj hresult
        exact .succeeded hattempt (by simp only) rfl

/-- **How a chained run ends.** -/
theorem smooth_ended [OrderedScalar K] {polls : ℕ}
    (h : smooth settings fallbacks keepGoing v a t = (t', outcome, polls)) :
    Ended settings t t' outcome := by
  rw [smooth] at h
  cases hcreate : Planner.create t.jointCount (firstTimeStep t) with
  | error e =>
    rw [hcreate] at h
    obtain ⟨rfl, hrest⟩ := Prod.mk.inj h
    obtain ⟨rfl, -⟩ := Prod.mk.inj hrest
    exact .rejected id
  | ok planner =>
    rw [hcreate] at h
    obtain ⟨⟨⟨t₁, outcome₁⟩, s⟩, hrun⟩ : ∃ r,
      (smoothWith Planner.solver settings fallbacks keepGoing v a t).run ⟨planner, 0⟩ = r :=
      ⟨_, rfl⟩
    simp only [hrun] at h
    obtain ⟨rfl, hrest⟩ := Prod.mk.inj h
    obtain ⟨rfl, -⟩ := Prod.mk.inj hrest
    exact smoothWith_ended (Planner.solver_shaped _) (jointCount_of_create hcreate) hrun

end Chain

namespace Dense

/-- How dense smoothing of `t` ends, with what it leaves. -/
inductive Ended (d : Dense K) (t t' : Trajectory K) : Outcome K → Prop where
  | failed {e : Stop (SmoothingError K)} (h : d.Failed t t' e) : Ended d t t' (.error e)
  | composed {first : Waypoint K} {blocks : List (List (State K))} {fs : List (FilteredJoint K)}
      {limits : Limits K} {report : Report K} (hplanned : t.checkPlanned = .ok ())
      (htiming : t.checkTiming = .ok ()) (hjoints : t.unwind.1.jointCount = t.jointCount)
      (h : Composed d limits t.unwind.1 first blocks fs t' report) : Ended d t t' (.ok report)

/-- **How dense smoothing ends.** -/
theorem smooth_ended [OrderedScalar K] {d : Dense K} {keepGoing : KeepGoing} {v a : K}
    {t t' : Trajectory K} {outcome : Outcome K} {polls : ℕ}
    (h : d.smooth keepGoing v a t = (t', outcome, polls)) : Ended d t t' outcome := by
  cases outcome with
  | error e => exact .failed (smooth_failed h)
  | ok report =>
    obtain ⟨limits, hplanned, hlimits, hresample⟩ := resample_of_smooth h
    obtain ⟨hshape, hshaped⟩ := shape_of_batchLimits hlimits
    obtain ⟨-, hjoints, -, hseed⟩ := unwind_unwound hshape
    obtain ⟨⟨⟩, -, htimed⟩ := bind_eq_ok.mp hlimits
    obtain ⟨⟨⟩, htiming, -⟩ := bind_eq_ok.mp htimed
    obtain ⟨first, blocks, fs, hcomposed⟩ :=
      composed_of_resample (hjoints ▸ hshaped) (hjoints ▸ hseed) hresample
    exact .composed hplanned ((mapError_ok _ _).mp htiming) hjoints hcomposed

end Dense

namespace Strategy

/-- How smoothing `t` ends, with what is left of it. -/
inductive Ended (t : Trajectory K) : Strategy K → Trajectory K → Outcome K → Prop where
  /-- A stream that does not start. -/
  | rejected {period : K} {fallbacks : Fallbacks K} {e : SmoothingError K} (he : ¬e.IsInvalid) :
      Ended t (.streaming period fallbacks) t (.error (.error e))
  | streamed {period : K} {fallbacks : Fallbacks K} {t' : Trajectory K} {report : Report K}
      (h : Streamed period t t' report) : Ended t (.streaming period fallbacks) t' (.ok report)
  | chained {settings : ChainSettings K} {fallbacks : Fallbacks K} {t' : Trajectory K}
      {outcome : Outcome K} (h : Chain.Ended settings t t' outcome) :
      Ended t (.chained settings fallbacks) t' outcome
  | segmentwise {d : Dense K} {v a : K} {t' : Trajectory K} {outcome : Outcome K}
      (h : d.Ended t t' outcome) : Ended t (.segmentwise d v a) t' outcome

/-- **How a run ends**, whatever the strategy. -/
theorem smooth_ended [OrderedScalar K] {s : Strategy K} {t t' : Trajectory K} {outcome : Outcome K}
    (h : s.smooth t = (t', outcome)) : Ended t s t' outcome := by
  cases s with
  | streaming period fallbacks =>
    rcases smoothStream_cases period fallbacks t with ⟨e, hrun, he⟩ | ⟨t₁, report, hrun, hstream⟩
    · obtain ⟨rfl, rfl⟩ := Prod.mk.inj (hrun.symm.trans h)
      exact .rejected he
    · obtain ⟨rfl, rfl⟩ := Prod.mk.inj (hrun.symm.trans h)
      exact .streamed hstream
  | chained settings fallbacks =>
    obtain ⟨rfl, rfl⟩ := Prod.mk.inj h
    exact .chained (Chain.smooth_ended rfl)
  | segmentwise d v a =>
    obtain ⟨rfl, rfl⟩ := Prod.mk.inj h
    exact .segmentwise (Dense.smooth_ended rfl)

end Strategy

end JerkLimit

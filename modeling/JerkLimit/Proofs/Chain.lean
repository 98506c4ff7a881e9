import Mathlib
import JerkLimit.Chain
import JerkLimit.Proofs.Answer
import JerkLimit.Proofs.Correction
import JerkLimit.Proofs.Motion
import JerkLimit.Proofs.Shape

/-!
# Proofs/Chain — a trajectory that is left alone

A pass over a trajectory leaves every waypoint where it is exactly if the planner brings each
segment to its waypoint in the segment's own time (`correctAfter_of_arrive`,
`arrive_of_correctAfter`). For a trajectory that keeps its limits, `smooth_unchanged_iff` says when
a whole smoothing run amounts to one such pass: if every segment arrives, and if for the last one
the search for a duration ends within the segment.
-/

namespace JerkLimit.Chain

open Scalar Correction

variable {n : ℕ} {limits : Limits ℝ} {settings : ChainSettings ℝ} {p : Planner ℝ}
  {polls : ℕ} {status final : Option Status} {current : State ℝ} {ws : List (Waypoint ℝ)}

/-! ## A chain of arrivals -/

/-- Each segment from `current` on is brought to its waypoint; the planner's status of the last
one. -/
inductive Arrive (n : ℕ) (limits : Limits ℝ) :
    Option Status → State ℝ → List (Waypoint ℝ) → Option Status → Prop where
  | nil {status : Option Status} {current : State ℝ} : Arrive n limits status current [] status
  | cons {status final : Option Status} {current : State ℝ} {w : Waypoint ℝ}
      {ws : List (Waypoint ℝ)} {reply : Reply ℝ}
      (hreply : answer n limits current w.state w.duration = .ok reply)
      (hstate : reply.state = w.state)
      (hrest : Arrive n limits (some reply.status) w.state ws final) :
      Arrive n limits status current (w :: ws) final

theorem Arrive.eq_of_nil (h : Arrive n limits status current [] final) : final = status := by
  cases h
  rfl

/-- A caller who does not cancel. -/
def patient : KeepGoing := fun _ => true

theorem check_run {σ : Type} (s : Polled σ) :
    (Polled.check patient : Run (Polled σ) (SmoothingError ℝ) Unit).run.run s
      = (.ok (), { s with polls := s.polls + 1 }) := rfl

/-- What a run inside a polled one ends with. -/
theorem inside_run_ok {σ ε ε' α : Type} {x : Run σ ε α} {a : α} {s s' : σ}
    (h : x.run.run s = (.ok a, s')) :
    (Polled.inside x : Run (Polled σ) ε' (Except ε α)).run.run ⟨s, polls⟩
      = (.ok (.ok a), ⟨s', polls⟩) := by
  refine run_capture_ok ?_
  change ((x.run.run s).1, (⟨(x.run.run s).2, polls⟩ : Polled σ)) = _
  rw [h]

theorem run_of_inside {σ ε ε' α : Type} {x : Run σ ε α} {r : Except ε α} {s : σ} {s' : Polled σ}
    (h : (Polled.inside x : Run (Polled σ) ε' (Except ε α)).run.run ⟨s, polls⟩ = (.ok r, s')) :
    x.run.run s = (r.mapError .error, s'.inner) ∧ s'.polls = polls := by
  have hrun := run_of_capture h
  change ((x.run.run s).1, (⟨(x.run.run s).2, polls⟩ : Polled σ)) = _ at hrun
  obtain ⟨hr, hs⟩ := Prod.mk.inj hrun
  subst hs
  exact ⟨Prod.ext hr rfl, rfl⟩

theorem shape_run {σ : Type} {state : State ℝ} (h : state.checkJointCount n = .ok ()) (s : σ) :
    (ExceptT.mk (pure ((state.checkJointCount n).mapError fun e => .error (.waypoints e))) :
      Run σ (SmoothingError ℝ) Unit).run.run s = (.ok (), s) := by
  rw [h]
  rfl

/-- **A chain of arrivals is left alone.** -/
theorem correctAfter_of_arrive (settings : ChainSettings ℝ) (polls : ℕ) (hp : p.jointCount = n)
    (hshape : ∀ w ∈ ws, w.state.checkJointCount n = .ok () ∧ 0 < w.duration)
    (h : Arrive n limits status current ws final) :
    ∃ p', (correctAfter Planner.solver limits settings patient n status current ws).run.run
        ⟨p, polls⟩ = (.ok ⟨ws, final, 0, 0⟩, ⟨p', polls + ws.length⟩) := by
  induction h generalizing p polls with
  | nil => exact ⟨p, rfl⟩
  | @cons status final current w ws reply hreply hstate _ ih =>
    obtain ⟨⟨hw, hduration⟩, hws⟩ := List.forall_mem_cons.mp hshape
    subst hp
    have hsegment := segment_of_arrival settings hduration hreply hstate
    obtain ⟨p', hrest⟩ := ih (p := { p with timeStep := w.duration }) (polls + 1) rfl hws
    refine ⟨p', ?_⟩
    rw [correctAfter, run_bind_ok (check_run _), run_bind_ok (inside_run_ok hsegment)]
    refine (run_bind_ok (shape_run hw _)).trans ((run_bind_ok hrest).trans ?_)
    rw [List.length_cons, Nat.add_comm ws.length 1, ← Nat.add_assoc]
    rfl

/-- **A pass that leaves all waypoints alone** is a chain of arrivals. -/
theorem arrive_of_correctAfter (hsettings : Derates settings) (hp : p.jointCount = n)
    (hduration : ∀ w ∈ ws, 0 < w.duration) {st : Status} {s' : Polled (Planner ℝ)}
    (h : (correctAfter Planner.solver limits settings patient n status current ws).run.run
      ⟨p, polls⟩ = (.ok ⟨ws, some st, 0, 0⟩, s')) :
    Arrive n limits status current ws (some st) := by
  induction ws generalizing p polls status current with
  | nil =>
    obtain ⟨hpass, -⟩ := run_pure_eq_ok.mp h
    obtain rfl := (Pass.mk.inj hpass).2.1
    exact .nil
  | cons w ws ih =>
    obtain ⟨hw, hws⟩ := List.forall_mem_cons.mp hduration
    rw [correctAfter, run_bind_ok (check_run _)] at h
    obtain ⟨corrected, ⟨p₁, polls₁⟩, hinside, hrest⟩ := run_bind_eq_ok.mp h
    obtain ⟨hsegment, -⟩ := run_of_inside hinside
    cases corrected with
    | error e =>
      -- A rejected segment ends the pass without a status.
      obtain ⟨hpass, -⟩ := run_pure_eq_ok.mp hrest
      exact nomatch (Pass.mk.inj hpass).2.1
    | ok c =>
      obtain ⟨_, s₂, hcheck, hrest⟩ := run_bind_eq_ok.mp hrest
      obtain rfl : ⟨p₁, polls₁⟩ = s₂ := (Prod.mk.inj hcheck).2
      obtain ⟨rest, s₃, hafter, hrest⟩ := run_bind_eq_ok.mp hrest
      obtain ⟨hpass, rfl⟩ := run_pure_eq_ok.mp hrest
      obtain ⟨hwaypoints, hstatus, hderated, hcollapsed⟩ := Pass.mk.inj hpass
      obtain ⟨hstate, rfl⟩ := List.cons.inj hwaypoints
      have hstate : c.state = w.state := (Waypoint.mk.inj hstate).1
      obtain ⟨hderated, hderatings⟩ := Nat.add_eq_zero_iff.mp hderated
      obtain ⟨hcollapsed, hmerged⟩ := Nat.add_eq_zero_iff.mp hcollapsed
      obtain ⟨hplanner, reply, hreply, hreplied, hreplyStatus⟩ := answer_of_segment hsettings hw
        hsegment (by simpa using hderatings) (by simpa using hmerged)
      subst hp
      refine .cons hreply (hreplied.symm.trans hstate) (hreplyStatus ▸ ?_)
      obtain rfl : p₁ = _ := hplanner
      rw [hstate] at hafter
      obtain ⟨waypoints, restStatus, derated, collapsed⟩ := rest
      subst hstatus hderated hcollapsed
      exact ih (p := ⟨p.jointCount, w.duration⟩) rfl hws hafter

/-! ## One attempt -/

theorem scaleDurations_one (ws : List (Waypoint ℝ)) : Trajectory.scaleDurations 1 ws = ws := by
  cases ws with
  | nil => rfl
  | cons w ws =>
    refine congrArg (w :: ·) ((List.map_congr_left fun w' _ => ?_).trans (List.map_id ws))
    exact congrArg (Waypoint.mk w'.state) (mul_one w'.duration)

/-- The first attempt takes the durations as they are. -/
theorem attemptScale_zero (settings : ChainSettings ℝ) : attemptScale settings 0 = 1 := by
  have hpow : Scalar.pow settings.extensionFactor 0 = (1.0 : ℝ) := by
    rw [Scalar.pow, Int.natAbs_zero, powFrom]
    rfl
  exact hpow.trans (by norm_num)

theorem attemptScale_pos {settings : ChainSettings ℝ} (h : 0 < settings.extensionFactor) (k : ℕ) :
    0 < attemptScale settings k := by
  rw [attemptScale, pow_real]
  exact zpow_pos h _

section Attempt

variable {seed : Trajectory ℝ} {first : Waypoint ℝ} {rest : List (Waypoint ℝ)}

theorem attempt_eq (hseed : seed.waypoints = first :: rest) :
    attempt Planner.solver limits settings patient seed 0
      = (do
          Polled.check patient
          let p ← pass Planner.solver limits settings patient seed.jointCount (first :: rest)
          return (1, p)) := by
  rw [attempt, attemptScale_zero, hseed]
  simp only [scaleDurations_one]

theorem attempt_of_arrive (settings : ChainSettings ℝ) (polls : ℕ)
    (hseed : seed.waypoints = first :: rest) (hp : p.jointCount = seed.jointCount)
    (hshape : ∀ w ∈ rest, w.state.checkJointCount seed.jointCount = .ok () ∧ 0 < w.duration)
    (h : Arrive seed.jointCount limits none first.state rest final) :
    ∃ s', (attempt Planner.solver limits settings patient seed 0).run.run ⟨p, polls⟩
      = (.ok (1, ⟨first :: rest, final, 0, 0⟩), s') := by
  obtain ⟨p', hpass⟩ := correctAfter_of_arrive settings (polls + 1) hp hshape h
  refine ⟨⟨p', polls + 1 + rest.length⟩, ?_⟩
  rw [attempt_eq hseed, run_bind_ok (check_run _)]
  exact run_bind_ok (run_bind_ok hpass)

theorem arrive_of_attempt (hsettings : Derates settings) (hseed : seed.waypoints = first :: rest)
    (hp : p.jointCount = seed.jointCount) (hduration : ∀ w ∈ rest, 0 < w.duration) {scale : ℝ}
    {st : Status} {s' : Polled (Planner ℝ)}
    (h : (attempt Planner.solver limits settings patient seed 0).run.run ⟨p, polls⟩
      = (.ok (scale, ⟨first :: rest, some st, 0, 0⟩), s')) :
    Arrive seed.jointCount limits none first.state rest (some st) := by
  rw [attempt_eq hseed, run_bind_ok (check_run _)] at h
  obtain ⟨whole, s₁, hwhole, hrest⟩ := run_bind_eq_ok.mp h
  obtain ⟨hvalue, -⟩ := run_pure_eq_ok.mp hrest
  obtain ⟨-, rfl⟩ := Prod.mk.inj hvalue
  obtain ⟨after, s₂, hafter, hrest⟩ := run_bind_eq_ok.mp hwhole
  obtain ⟨hpass, -⟩ := run_pure_eq_ok.mp hrest
  obtain ⟨waypoints, status, derated, collapsed⟩ := after
  obtain ⟨hwaypoints, rfl, rfl, rfl⟩ := Pass.mk.inj hpass
  obtain ⟨-, rfl⟩ := List.cons.inj hwaypoints
  exact arrive_of_correctAfter hsettings hp hduration hafter

end Attempt

/-! ## A whole run -/

theorem unwindJoints_of_not_continuous {halfTurn : ℝ} {joint : ℕ} {js : List (Joint ℝ)}
    (h : ∀ j ∈ js, j.kind ≠ .continuous) (ws : List (Waypoint ℝ)) :
    Trajectory.unwindJoints halfTurn joint js ws = (ws, .ok ()) := by
  induction js generalizing joint with
  | nil => rfl
  | cons j js ih =>
    obtain ⟨hj, hjs⟩ := List.forall_mem_cons.mp h
    rw [Trajectory.unwindJoints, if_neg hj, ih hjs]

/-- Without continuous joints there is nothing to unwind. -/
theorem unwind_of_not_continuous {t : Trajectory ℝ} (h : ∀ j ∈ t.joints, j.kind ≠ .continuous) :
    t.unwind = (t, .ok ()) := by
  rw [Trajectory.unwind, Trajectory.unwindBy, unwindJoints_of_not_continuous h]

theorem firstTimeStep_pos (t : Trajectory ℝ) : 0 < firstTimeStep t := by
  rw [firstTimeStep]
  split_ifs with h
  · exact (isPositive_real _).mp h
  · norm_num

theorem checkInput_eq_ok {fallbacks : Fallbacks ℝ} {v a : ℝ} {t : Trajectory ℝ}
    (hgroup : t.group.isSome = true) (hcount : 2 ≤ t.waypointCount)
    (hshape : t.checkShape = .ok ()) (htiming : t.checkTiming = .ok ())
    (hlimits : Limits.forBatch t.bounds v a fallbacks = .ok limits) :
    checkInput fallbacks t.jointCount v a t = .ok limits := by
  refine bind_eq_ok.mpr ⟨(), ?_, bind_eq_ok.mpr ⟨(), ensure_eq_ok.mpr (by simp), ?_⟩⟩
  · exact bind_eq_ok.mpr ⟨(), ensure_eq_ok.mpr hgroup, ensure_eq_ok.mpr (decide_eq_true hcount)⟩
  · exact bind_eq_ok.mpr ⟨(), (mapError_ok _ _).mpr hshape,
      bind_eq_ok.mpr ⟨(), (mapError_ok _ _).mpr htiming, (mapError_ok _ _).mpr hlimits⟩⟩

/-- A run on a trajectory that passes the checks is its attempts and their conclusion. -/
theorem smooth_eq (settings : ChainSettings ℝ) {fallbacks : Fallbacks ℝ} {v a : ℝ}
    {t : Trajectory ℝ} (hinput : checkInput fallbacks t.jointCount v a t = .ok limits)
    (hunwind : t.unwind = (t, .ok ())) :
    ∃ p : Planner ℝ, p.jointCount = t.jointCount ∧
      smooth settings fallbacks patient v a t
        = let run := (attempts Planner.solver limits settings patient t).run.run ⟨p, 0⟩
          ((conclude t run.1).1, (conclude t run.1).2, run.2.polls) := by
  have hcreate : Planner.create t.jointCount (firstTimeStep t)
      = .ok ⟨t.jointCount, firstTimeStep t⟩ :=
    Planner.create_eq_ok.mpr ⟨firstTimeStep_pos t, rfl⟩
  refine ⟨⟨t.jointCount, firstTimeStep t⟩, rfl, ?_⟩
  have hwith : (smoothWith Planner.solver settings fallbacks patient v a t).run
      ⟨⟨t.jointCount, firstTimeStep t⟩, 0⟩
        = let run := (attempts Planner.solver limits settings patient t).run.run
            ⟨⟨t.jointCount, firstTimeStep t⟩, 0⟩
          (conclude t run.1, run.2) := by
    have hjoints (timeStep : ℝ) :
        Planner.solver.jointCount ⟨t.jointCount, timeStep⟩ = t.jointCount := rfl
    rw [smoothWith, StateT.run_bind]
    simp only [get, getThe, MonadStateOf.get, StateT.get, StateT.run, pure, bind, hjoints, hinput,
      hunwind]
    rfl
  rw [smooth, hcreate]
  simp only [hwith]

theorem attempts_eq {k : ℕ} (hk : settings.maxAttempts = k + 1) (t : Trajectory ℝ) :
    attempts Planner.solver limits settings patient t
      = retry (k + 1) (attempt Planner.solver limits settings patient t)
          fun r => pure (Pass.succeeded r.2) := by
  rw [attempts, hk]

/-- A run ends well at its first attempt, with nothing changed. -/
def Unchanged (settings : ChainSettings ℝ) (fallbacks : Fallbacks ℝ) (v a : ℝ)
    (t : Trajectory ℝ) : Prop :=
  ∃ report polls, smooth settings fallbacks patient v a t = (t, .ok report, polls)
    ∧ report.attempts = 1 ∧ report.durationScale = 1 ∧ report.deratedSegments = 0
    ∧ report.collapsedSegments = 0

section Run

variable {fallbacks : Fallbacks ℝ} {v a : ℝ} {t : Trajectory ℝ} {first : Waypoint ℝ}
  {rest : List (Waypoint ℝ)}

/-- A run that changes nothing succeeds with its first attempt, which is a chain of arrivals. -/
theorem arrive_of_unchanged (hsettings : Derates settings) (hattempts : 0 < settings.maxAttempts)
    (hinput : checkInput fallbacks t.jointCount v a t = .ok limits)
    (hunwind : t.unwind = (t, .ok ())) (hwaypoints : t.waypoints = first :: rest)
    (hduration : ∀ w ∈ rest, 0 < w.duration) (h : Unchanged settings fallbacks v a t) :
    Arrive t.jointCount limits none first.state rest (some .finished) := by
  obtain ⟨k, hk⟩ := Nat.exists_eq_succ_of_ne_zero hattempts.ne'
  obtain ⟨p, hp, hsmooth⟩ := smooth_eq settings hinput hunwind
  obtain ⟨report, polls, hreport, hone, -, hderated, hcollapsed⟩ := h
  rw [hsmooth, attempts_eq hk] at hreport
  obtain ⟨result, s', hrun⟩ : ∃ result s',
      (retry (k + 1) (attempt Planner.solver limits settings patient t)
        fun r => pure (Pass.succeeded r.2)).run.run ⟨p, 0⟩ = (result, s') := ⟨_, _, rfl⟩
  simp only [hrun] at hreport
  obtain ⟨htrajectory, houtcome⟩ := Prod.mk.inj hreport
  have houtcome := (Prod.mk.inj houtcome).1
  match result with
  | .error e => exact nomatch houtcome
  | .ok none => exact nomatch houtcome
  | .ok (some ⟨_, false, _⟩) => exact nomatch houtcome
  | .ok (some ⟨(scale, ⟨waypoints, status, derated, collapsed⟩), true, count⟩) =>
    obtain rfl := Except.ok.inj houtcome
    obtain ⟨hattempt, hsucceeded⟩ := first_of_retry hone rfl hrun
    obtain rfl : waypoints = first :: rest :=
      (congrArg Trajectory.waypoints htrajectory).trans hwaypoints
    obtain rfl : status = some .finished := of_decide_eq_true hsucceeded
    obtain rfl : derated = 0 := hderated
    obtain rfl : collapsed = 0 := hcollapsed
    exact arrive_of_attempt hsettings hwaypoints hp hduration hattempt

/-- A chain of arrivals that ends finished is the first attempt, and the last. -/
theorem unchanged_of_arrive (hattempts : 0 < settings.maxAttempts)
    (hinput : checkInput fallbacks t.jointCount v a t = .ok limits)
    (hunwind : t.unwind = (t, .ok ())) (hwaypoints : t.waypoints = first :: rest)
    (hshape : ∀ w ∈ rest, w.state.checkJointCount t.jointCount = .ok () ∧ 0 < w.duration)
    (h : Arrive t.jointCount limits none first.state rest (some .finished)) :
    Unchanged settings fallbacks v a t := by
  obtain ⟨k, hk⟩ := Nat.exists_eq_succ_of_ne_zero hattempts.ne'
  obtain ⟨p, hp, hsmooth⟩ := smooth_eq settings hinput hunwind
  obtain ⟨s', hattempt⟩ := attempt_of_arrive settings 0 hwaypoints hp hshape h
  have hrun : (retry (k + 1) (attempt Planner.solver limits settings patient t)
      fun r => pure (Pass.succeeded r.2)).run.run ⟨p, 0⟩ = _ := retry_first hattempt rfl
  rw [attempts_eq hk] at hsmooth
  simp only [hrun] at hsmooth
  refine ⟨_, _, hsmooth.trans (Prod.ext ?_ rfl), rfl, rfl, rfl, rfl⟩
  change ({ t with waypoints := first :: rest } : Trajectory ℝ) = t
  rw [← hwaypoints]

/-- **A run changes nothing** exactly if its segments are a chain of arrivals and the last one is
finished. -/
theorem unchanged_iff_arrive (hsettings : Derates settings) (hattempts : 0 < settings.maxAttempts)
    (hinput : checkInput fallbacks t.jointCount v a t = .ok limits)
    (hunwind : t.unwind = (t, .ok ())) (hwaypoints : t.waypoints = first :: rest)
    (hshape : ∀ w ∈ rest, w.state.checkJointCount t.jointCount = .ok () ∧ 0 < w.duration) :
    Unchanged settings fallbacks v a t ↔
      Arrive t.jointCount limits none first.state rest (some .finished) :=
  ⟨arrive_of_unchanged hsettings hattempts hinput hunwind hwaypoints fun w hw => (hshape w hw).2,
    unchanged_of_arrive hattempts hinput hunwind hwaypoints hshape⟩

end Run

/-! ## Segments that keep their limits -/

/-- The planner brings all joints to the second waypoint in the time that it has for it. -/
def Arrives (n : ℕ) (limits : Limits ℝ) (w w' : Waypoint ℝ) : Prop :=
  ∃ reply, answer n limits w.state w'.state w'.duration = .ok reply ∧ reply.state = w'.state

/-- The search for a duration ends within the time to the second waypoint. -/
def Finishes (limits : Limits ℝ) (w w' : Waypoint ℝ) : Prop :=
  ∃ T, searchDuration ((motions w.state w'.state limits).map Task.raised) none = some T
    ∧ T ≤ w'.duration * (1 + 1e-9)

/-- Every joint's profile between the waypoints, over the time between them, stays within the share
`c` of its limits. -/
def KeepsShare (c : ℝ) (limits : Limits ℝ) (w w' : Waypoint ℝ) : Prop :=
  ∀ m ∈ motions w.state w'.state limits,
    (m.profile w'.duration).StaysWithin (m.limits.scaled c)

/-- Two waypoints of `n` joints with some time between them. -/
def Timed (n : ℕ) (w w' : Waypoint ℝ) : Prop :=
  w.state.checkJointCount n = .ok () ∧ w'.state.checkJointCount n = .ok () ∧ 0 < w'.duration

/-- **A segment that keeps its limits is finished** exactly if the search ends within its time. -/
theorem finished_iff {w w' : Waypoint ℝ} (hlimits : limits.Positive)
    (hjoints : limits.jointCount = n) (htimed : Timed n w w')
    (hkeeps : KeepsShare 0.999 limits w w') :
    (∃ reply, answer n limits w.state w'.state w'.duration = .ok reply
      ∧ reply.status = .finished) ↔ Finishes limits w w' := by
  let l : Leg n := ⟨w.state, w'.state, limits, w'.duration, htimed.1, htimed.2.1, hlimits, hjoints,
    htimed.2.2⟩
  have hl : l.KeepsLimits := Leg.KeepsShare.keepsLimits (by norm_num) hkeeps
  have hupdate : answer n limits w.state w'.state w'.duration
      = Planner.search ⟨n, w'.duration⟩ (l.request none) (l.motions.map Task.raised) :=
    Leg.update_of_le (p := ⟨n, w'.duration⟩) rfl hl (by simp)
  rw [hupdate]
  exact Planner.search_finished_iff (p := ⟨n, w'.duration⟩) htimed.2.2.le

theorem state_of_finished {w w' : Waypoint ℝ} {reply : Reply ℝ}
    (h : answer n limits w.state w'.state w'.duration = .ok reply)
    (hstatus : reply.status = .finished) : reply.state = w'.state :=
  Planner.state_of_finished (p := ⟨n, w'.duration⟩) h hstatus

/-- A chain of arrivals, two waypoints at a time. -/
theorem arrive_iff_isChain {w w' : Waypoint ℝ} (hlimits : limits.Positive)
    (hjoints : limits.jointCount = n) (htimed : (w :: w' :: ws).IsChain (Timed n))
    (hkeeps : (w :: w' :: ws).IsChain (KeepsShare 0.999 limits)) :
    Arrive n limits status w.state (w' :: ws) (some .finished) ↔
      (w :: w' :: ws).IsChain (Arrives n limits)
        ∧ ∀ u u', [u, u'] <:+ w :: w' :: ws → Finishes limits u u' := by
  induction ws generalizing w w' status with
  | nil =>
    have hsuffix : (∀ u u', [u, u'] <:+ [w, w'] → Finishes limits u u') ↔ Finishes limits w w' := by
      refine ⟨fun h => h w w' List.suffix_rfl, ?_⟩
      intro h u u' huu'
      obtain ⟨rfl, rfl⟩ : u = w ∧ u' = w' := by simpa using huu'.eq_of_length rfl
      exact h
    obtain ⟨htimed, -⟩ := List.isChain_cons_cons.mp htimed
    obtain ⟨hkeeps, -⟩ := List.isChain_cons_cons.mp hkeeps
    rw [hsuffix, List.isChain_cons_cons, ← finished_iff hlimits hjoints htimed hkeeps]
    constructor
    · rintro (_ | ⟨hreply, hstate, hrest⟩)
      exact ⟨⟨⟨_, hreply, hstate⟩, .singleton _⟩, _, hreply, (Option.some.inj hrest.eq_of_nil).symm⟩
    · rintro ⟨-, reply, hreply, hstatus⟩
      exact .cons hreply (state_of_finished hreply hstatus) (hstatus ▸ .nil)
  | cons w'' ws ih =>
    have hsuffix (u u' : Waypoint ℝ) :
        [u, u'] <:+ w :: w' :: w'' :: ws ↔ [u, u'] <:+ w' :: w'' :: ws := by
      simp [List.suffix_cons_iff]
    simp only [hsuffix]
    rw [List.isChain_cons_cons, and_assoc]
    obtain ⟨-, htimed⟩ := List.isChain_cons_cons.mp htimed
    obtain ⟨-, hkeeps⟩ := List.isChain_cons_cons.mp hkeeps
    constructor
    · rintro (_ | ⟨hreply, hstate, hrest⟩)
      exact ⟨⟨_, hreply, hstate⟩, (ih htimed hkeeps).mp hrest⟩
    · rintro ⟨⟨reply, hreply, hstate⟩, hrest⟩
      exact .cons hreply hstate ((ih htimed hkeeps).mpr hrest)

/-! ## Trajectories -/

theorem pos_of_checkTiming {t : Trajectory ℝ} (h : t.checkTiming = .ok ()) :
    ∀ w ∈ t.waypoints.tail, 0 < w.duration := fun _ hw =>
  (isPositive_real _).mp (Trajectory.checkTiming_eq_ok.mp h _ (List.mem_map_of_mem hw))

/-- Waypoints of the right shape are pairwise timed, if time passes before all but the first. -/
theorem isChain_timed {w : Waypoint ℝ}
    (hshape : ∀ w' ∈ w :: ws, w'.state.checkJointCount n = .ok ())
    (hduration : ∀ w' ∈ ws, 0 < w'.duration) : (w :: ws).IsChain (Timed n) := by
  induction ws generalizing w with
  | nil => exact .singleton w
  | cons w' ws ih =>
    obtain ⟨hw, hws⟩ := List.forall_mem_cons.mp hshape
    obtain ⟨hw', hws'⟩ := List.forall_mem_cons.mp hduration
    exact .cons_cons ⟨hw, hws w' (List.mem_cons_self ..), hw'⟩ (ih hws hws')

theorem forBatch_eq_ok {bounds : List (Bounds ℝ)} {v a : ℝ} {fallbacks : Fallbacks ℝ}
    (h : Limits.forBatch bounds v a fallbacks = .ok limits) :
    limits.Positive ∧ limits.jointCount = bounds.length := by
  obtain ⟨_, -, h⟩ := bind_eq_ok.mp h
  obtain ⟨_, -, h⟩ := bind_eq_ok.mp h
  refine ⟨Limits.ofLists_positive h, ?_⟩
  obtain ⟨-, -, rfl⟩ := Limits.ofLists_eq_ok.mp h
  simp [Limits.jointCount]

section Trajectory

variable {t : Trajectory ℝ} {fallbacks : Fallbacks ℝ} {v a : ℝ}

theorem unchanged_iff_isChain (hgroup : t.group.isSome = true) (hcount : 2 ≤ t.waypointCount)
    (hshape : t.checkShape = .ok ()) (htiming : t.checkTiming = .ok ())
    (hunwind : t.unwind = (t, .ok ()))
    (hlimits : Limits.forBatch t.bounds v a fallbacks = .ok limits)
    (hkeeps : t.waypoints.IsChain (KeepsShare 0.999 limits)) :
    Unchanged default fallbacks v a t ↔
      t.waypoints.IsChain (Arrives t.jointCount limits)
        ∧ ∀ w w', [w, w'] <:+ t.waypoints → Finishes limits w w' := by
  obtain ⟨hpositive, hjoints⟩ := forBatch_eq_ok hlimits
  rw [Trajectory.bounds, List.length_map] at hjoints
  have hshapes : ∀ w ∈ t.waypoints, w.state.checkJointCount t.jointCount = .ok () :=
    Trajectory.shapedAs_of_checkShapeFrom hshape
  have hdurations := pos_of_checkTiming htiming
  have hinput := checkInput_eq_ok hgroup hcount hshape htiming hlimits
  have hattempts : 0 < (default : ChainSettings ℝ).maxAttempts := by
    change 0 < 5
    norm_num
  obtain ⟨w, w', ws, hwaypoints⟩ : ∃ w w' ws, t.waypoints = w :: w' :: ws := by
    rw [Trajectory.waypointCount] at hcount
    cases h : t.waypoints with
    | nil => simp [h] at hcount
    | cons w rest =>
      cases rest with
      | nil => simp [h] at hcount
      | cons w' ws => exact ⟨w, w', ws, rfl⟩
  rw [hwaypoints] at hshapes hdurations hkeeps ⊢
  rw [unchanged_iff_arrive derates_default hattempts hinput hunwind hwaypoints
    fun u hu => ⟨hshapes u (List.mem_cons_of_mem _ hu), hdurations u hu⟩]
  exact arrive_iff_isChain hpositive hjoints (isChain_timed hshapes hdurations) hkeeps

/-- **A trajectory that keeps its limits is left alone** exactly if the planner brings every segment
to its waypoint and the search for the last one ends within its time. -/
theorem smooth_unchanged_iff (hgroup : t.group.isSome = true) (hcount : 2 ≤ t.waypointCount)
    (hshape : t.checkShape = .ok ()) (htiming : t.checkTiming = .ok ())
    (hkinds : ∀ j ∈ t.joints, j.kind ≠ .continuous)
    (hlimits : Limits.forBatch t.bounds v a fallbacks = .ok limits)
    (hkeeps : t.waypoints.IsChain (KeepsShare 0.999 limits)) :
    Unchanged default fallbacks v a t ↔
      t.waypoints.IsChain (Arrives t.jointCount limits)
        ∧ ∀ w w', [w, w'] <:+ t.waypoints → Finishes limits w w' :=
  unchanged_iff_isChain hgroup hcount hshape htiming (unwind_of_not_continuous hkinds) hlimits
    hkeeps

end Trajectory

/-! ## One joint -/

/-- Waypoints for an arm with one joint. -/
def onArm (velocity : ℝ) (ws : List (Waypoint ℝ)) : Trajectory ℝ :=
  ⟨some "arm", [⟨"j0", .revolute, ⟨some velocity, none, none⟩⟩], ws⟩

section OnArm

variable {velocity : ℝ} {ws : List (Waypoint ℝ)}

theorem onArm_limits (hv : 0 < velocity) :
    Limits.forBatch (onArm velocity ws).bounds 1 1 default = .ok ⟨[velocity], [10], [20]⟩ := by
  have hscale (q : Quantity) : Limits.checkScale q (1 : ℝ) = .ok () := by
    refine ensure_eq_ok.mpr ?_
    change (decide ((0.0 : ℝ) < 1) && decide ((1 : ℝ) ≤ 1.0)) = true
    norm_num
  refine bind_eq_ok.mpr ⟨(), hscale _, bind_eq_ok.mpr ⟨(), hscale _, ?_⟩⟩
  change Limits.ofLists [1 * velocity] [(1 : ℝ) * 10.0] [(20.0 : ℝ)] = _
  rw [one_mul, one_mul, show (10.0 : ℝ) = 10 by norm_num, show (20.0 : ℝ) = 20 by norm_num]
  refine Limits.ofLists_eq_ok.mpr ⟨⟨rfl, rfl⟩, ?_, rfl⟩
  simpa [Limits.joints] using hv

theorem onArm_unwind : (onArm velocity ws).unwind = (onArm velocity ws, .ok ()) :=
  unwind_of_not_continuous (by simp [onArm])

theorem onArm_timing (h : ∀ w ∈ ws.tail, 0 < w.duration) :
    (onArm velocity ws).checkTiming = .ok () :=
  Trajectory.checkTiming_eq_ok.mpr <| List.forall_mem_map.mpr fun w hw =>
    (isPositive_real _).mpr (h w hw)

theorem onArm_batchLimits (hv : 0 < velocity) (hshape : (onArm velocity ws).checkShape = .ok ())
    (h : ∀ w ∈ ws.tail, 0 < w.duration) :
    (onArm velocity ws).batchLimits default 1 1 = .ok ⟨[velocity], [10], [20]⟩ :=
  bind_eq_ok.mpr ⟨(), (mapError_ok _ _).mpr hshape,
    bind_eq_ok.mpr ⟨(), (mapError_ok _ _).mpr (onArm_timing h),
      (mapError_ok _ _).mpr (onArm_limits hv)⟩⟩

end OnArm

/-- One joint between two waypoints. -/
def oneSegment (velocity : ℝ) (start goal : State ℝ) (duration : ℝ) : Trajectory ℝ :=
  onArm velocity [⟨start, 0⟩, ⟨goal, duration⟩]

theorem oneSegment_timing {duration : ℝ} (h : 0 < duration) (velocity : ℝ) (start goal : State ℝ) :
    (oneSegment velocity start goal duration).checkTiming = .ok () :=
  onArm_timing (List.forall_mem_singleton.mpr h)

theorem arrives_hop (p before : ℝ) : Arrives 1 (hop p).limits ⟨(hop p).start, before⟩
    ⟨(hop p).goal, (hop p).duration⟩ := by
  obtain ⟨d, hd⟩ := update_hop p
  exact ⟨_, hd, rfl⟩

theorem finishes_hop (p before : ℝ) : Finishes (hop p).limits ⟨(hop p).start, before⟩
    ⟨(hop p).goal, (hop p).duration⟩ := by
  obtain ⟨d, hd, hle⟩ := minimalDuration_hopping p
  refine ⟨d, ?_, hle.trans (by norm_num [hop])⟩
  exact (congrArg (searchDuration · none) (motions_hop_raised p)).trans
    (searchDuration_singleton hd)

/-- Two hops, the second from where the first ends. -/
noncomputable def twoHops : Trajectory ℝ :=
  onArm (hopping 0).limits.velocity [⟨(hop 0).start, 0⟩, ⟨(hop 0).goal, (hop 0).duration⟩,
    ⟨(hop (0 + 1)).goal, (hop (0 + 1)).duration⟩]

theorem hopping_velocity_pos : 0 < (hopping 0).limits.velocity := by norm_num [hopping]

theorem pos_of_twoHops : ∀ w ∈ twoHops.waypoints.tail, 0 < w.duration :=
  List.forall_mem_cons.mpr ⟨(hop 0).duration_pos,
    List.forall_mem_singleton.mpr (hop (0 + 1)).duration_pos⟩

/-- From rest to rest every search ends in time, so hops are left alone. -/
theorem unchanged_twoHops : Unchanged default default 1 1 twoHops := by
  have hkeeps : twoHops.waypoints.IsChain (KeepsShare 0.999 (hop 0).limits) :=
    .cons_cons (hop_keepsShare 0) (.cons_cons (hop_keepsShare (0 + 1)) (.singleton _))
  have harrive : twoHops.waypoints.IsChain (Arrives 1 (hop 0).limits) :=
    .cons_cons (arrives_hop 0 0) (.cons_cons (arrives_hop (0 + 1) _) (.singleton _))
  have hcount : 2 ≤ twoHops.waypointCount := Nat.le_succ 2
  refine (smooth_unchanged_iff rfl hcount rfl (onArm_timing pos_of_twoHops)
    (by simp [twoHops, onArm]) (onArm_limits hopping_velocity_pos) hkeeps).mpr ⟨harrive, ?_⟩
  intro w w' h
  have hlast : [w, w'] <:+ [⟨(hop 0).goal, (hop 0).duration⟩,
      ⟨(hop (0 + 1)).goal, (hop (0 + 1)).duration⟩] :=
    (List.suffix_cons_iff.mp h).resolve_left (by simp)
  obtain ⟨rfl, rfl⟩ : w = ⟨(hop 0).goal, (hop 0).duration⟩
      ∧ w' = ⟨(hop (0 + 1)).goal, (hop (0 + 1)).duration⟩ := by
    simpa using hlast.eq_of_length rfl
  exact finishes_hop (0 + 1) _

/-- A quarter of a second at constant speed. -/
noncomputable def cruise : Trajectory ℝ := oneSegment 2.05 ⟨[0], [2.0], [0]⟩ ⟨[0.5], [2.0], [0]⟩ 0.25

theorem motions_cruise : motions ⟨[0], [2.0], [0]⟩ ⟨[0.5], [2.0], [0]⟩ ⟨[2.05], [10], [20]⟩
    = [cruising 0] := by
  have hspeed : (2.0 : ℝ) = 2 := by norm_num
  have hgoal : (0.5 : ℝ) = 0 + 2 * 0.25 := by norm_num
  rw [hspeed, hgoal]
  rfl

theorem cruise_keepsShare : cruise.waypoints.IsChain (KeepsShare 0.999 ⟨[2.05], [10], [20]⟩) := by
  refine .cons_cons ?_ (.singleton _)
  rw [KeepsShare, motions_cruise]
  refine List.forall_mem_singleton.mpr (Quintic.staysWithin_cruise (by norm_num) ?_ ?_ ?_) <;>
    norm_num [JointLimits.scaled, cruising]

theorem cruise_not_finishes :
    ¬Finishes ⟨[2.05], [10], [20]⟩ ⟨⟨[0], [2.0], [0]⟩, 0⟩ ⟨⟨[0.5], [2.0], [0]⟩, 0.25⟩ := by
  have hraised : (cruising 0).raised = cruising 0 := by
    norm_num [Task.raised, Task.ofLimits, cruising]
  rintro ⟨T, hT, hle⟩
  rw [motions_cruise, List.map_singleton, hraised] at hT
  have hlt := searchDuration_ne_some_of_lt (List.mem_singleton_self _)
    (fun d hd => lt_minimalDuration_cruising 0 hd) hT
  norm_num at hlt hle
  linarith

/-- **A segment at constant speed is not left alone**, though it is far within the limits. -/
theorem cruise_not_unchanged :
    cruise.group.isSome = true ∧ 2 ≤ cruise.waypointCount ∧ cruise.checkShape = .ok ()
      ∧ cruise.checkTiming = .ok () ∧ (∀ j ∈ cruise.joints, j.kind ≠ .continuous)
      ∧ Limits.forBatch cruise.bounds 1 1 default = .ok ⟨[2.05], [10], [20]⟩
      ∧ cruise.waypoints.IsChain (KeepsShare 0.999 ⟨[2.05], [10], [20]⟩)
      ∧ ¬Unchanged default default 1 1 cruise := by
  have hlimits : Limits.forBatch cruise.bounds 1 1 default = .ok ⟨[2.05], [10], [20]⟩ :=
    onArm_limits (by norm_num)
  have htiming : cruise.checkTiming = .ok () := oneSegment_timing (by norm_num) _ _ _
  refine ⟨rfl, le_rfl, rfl, htiming, by simp [cruise, oneSegment, onArm], hlimits, cruise_keepsShare, ?_⟩
  intro h
  obtain ⟨-, hlast⟩ := (unchanged_iff_isChain rfl le_rfl rfl htiming onArm_unwind hlimits
    cruise_keepsShare).mp h
  exact cruise_not_finishes (hlast _ _ List.suffix_rfl)

end JerkLimit.Chain

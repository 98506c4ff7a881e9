import Mathlib
import JerkLimit.Proofs.Blocks

/-!
# Proofs/Sampling — dense smoothing with any solver

Dense smoothing asks the built-in planner. `Dense.smoothOn` is the same with any solver in its
place, and with the planner it is the same run (`Dense.smoothOn_planner`). What a run asks of its
solver can so be told from a solver that keeps a record. Two solvers that answer alike lead to the
same output; samples have one entry per joint, nothing faults, and unless the seam filter has
objections no error is about a parameter (`Dense.smoothOn_tracks`).
-/

namespace JerkLimit

open Scalar Trajectory Chain

variable {σ ρ K : Type}

/-- An error, and not about a parameter. -/
def Stop.IsRunError (e : Stop (SmoothingError K)) : Prop := ∃ e', e = .error e' ∧ ¬e'.IsInvalid

theorem Stop.IsRunError.isError {e : Stop (SmoothingError K)} (h : e.IsRunError) : e.IsError := by
  obtain ⟨e', he, -⟩ := h
  exact ⟨e', he⟩

theorem Chain.Cancelled.isRunError {e : Stop (SmoothingError K)} (h : Cancelled e) :
    e.IsRunError := by
  obtain rfl := h
  exact ⟨_, rfl, id⟩

variable [Scalar K]

namespace Dense

/-! ## The loops -/

/-- At most `n` samples toward `target`, as `samplesFrom` takes them of the planner. -/
def samplesOn (solver : Solver σ K) (timeStep : K) (limits : Limits K) (target : State K)
    (desired : K) : ℕ → ℕ → State K → List (State K) →
      Run σ (SolverError K) (Option (List (State K)))
  | 0, _, _, _ => return none
  | n + 1, i, current, done => do
    let reply ← solver.update (sampleRequest timeStep limits target desired i current)
    if reply.status = .finished then return some (reply.state :: done).reverse
    else samplesOn solver timeStep limits target desired n (i + 1) reply.state (reply.state :: done)

/-- The samples of the segment that ends at the waypoint with number `index`. -/
def segmentOn (solver : Solver σ K) (settings : DenseSettings K) (limits : Limits K)
    (current target : State K) (desired : K) (index : ℕ) :
    Run (Polled σ) (SmoothingError K) (List (State K)) := do
  let steps := maxSamples settings.durationFactor settings.timeStep desired
  match ← Polled.inside
    (samplesOn solver settings.timeStep limits target desired steps 0 current []) with
  | .error e => throw (.error (.solver e))
  | .ok none => throw (.error (.segmentNotReached index steps))
  | .ok (some samples) => return samples

/-- The samples of all segments to the given waypoints, numbered from `index`. -/
def segmentsOn (solver : Solver σ K) (settings : DenseSettings K) (limits : Limits K)
    (keepGoing : KeepGoing) (current : State K) (index : ℕ) :
    List (Waypoint K) → Run (Polled σ) (SmoothingError K) (List (List (State K)))
  | [] => return []
  | w :: ws => do
    Polled.check keepGoing
    let samples ← segmentOn solver settings limits current w.state w.duration index
    let current := samples.getLast?.getD current
    return samples :: (← segmentsOn solver settings limits keepGoing current (index + 1) ws)

/-- The dense trajectory of the samples, seams filtered, and its report. -/
def filtered (d : Dense K) (limits : Limits K) (t : Trajectory K) (first : Waypoint K)
    (samples : List (List (State K))) :
    Except (Stop (SmoothingError K)) (Trajectory K × Report K) := do
  let (output, seams) := d.seam.applyAt limits d.settings.timeStep
    (assemble t first d.settings.timeStep samples)
  let seams ← seams
  return (output, {
    attempts := 1
    durationScale := output.totalDuration / t.totalDuration
    finalStatus := some .finished
    seamFailures := seams.failures
    waypointCount := output.waypointCount
    deratedSegments := 0
    collapsedSegments := 0 })

/-- The dense trajectory for an unwound one. -/
def resampleOn (d : Dense K) (solver : Solver σ K) (limits : Limits K) (keepGoing : KeepGoing)
    (t : Trajectory K) : Run (Polled σ) (SmoothingError K) (Trajectory K × Report K) :=
  match t.waypoints with
  | [] => throw (.error (.waypoints (.outOfRange 0 0)))
  | first :: rest => do
    let samples ← segmentsOn solver d.settings limits keepGoing first.state 1 rest
    ExceptT.mk (pure (d.filtered limits t first samples))

/-- What comes before the solver is asked: the limits, a planner that has just been created and the
unwound input, or an error with what it leaves. -/
def prepare (d : Dense K) (velocityScale accelerationScale : K) (t : Trajectory K) :
    Except (Trajectory K × Stop (SmoothingError K)) (Limits K × Planner K × Trajectory K) :=
  let input := do
    t.checkPlanned
    t.batchLimits d.fallbacks velocityScale accelerationScale
  match input with
  | .error e => .error (t, .error e)
  | .ok limits =>
    match t.unwind with
    | (t, .error f) => .error (t, .fault f)
    | (t, .ok ()) =>
      match Planner.create t.jointCount d.settings.timeStep with
      | .error e => .error (t, .error (.solver e))
      | .ok planner => .ok (limits, planner, t)

/-- Smooths a trajectory with any solver; `start` is its state for a planner that has just been
created. The last part of the answer is where the solver has got to, if it was needed. -/
def smoothOn (d : Dense K) (solver : Solver σ K) (start : Planner K → σ) (keepGoing : KeepGoing)
    (velocityScale accelerationScale : K) (t : Trajectory K) :
    (Trajectory K × Outcome K) × Option (Polled σ) :=
  match d.prepare velocityScale accelerationScale t with
  | .error (t, e) => ((t, .error e), none)
  | .ok (limits, planner, t) =>
    match (d.resampleOn solver limits keepGoing t).run.run ⟨start planner, 0⟩ with
    | (.error e, s) => ((t, .error e), some s)
    | (.ok (output, report), s) => ((output, .ok report), some s)

/-! ## With the built-in planner -/

section Planner

variable {planner : Planner K} {settings : DenseSettings K} {limits : Limits K}
  {keepGoing : KeepGoing}

/-- The number of polls, beside a planner that stays as it is. -/
def Beside (planner : Planner K) (polls : ℕ) (s : Polled (Planner K)) : Prop :=
  s = ⟨planner, polls⟩

omit [Scalar K] in
theorem check_beside : Run.Tracks (Beside planner)
    (poll keepGoing : Run ℕ (SmoothingError K) Unit) (Polled.check keepGoing) (fun _ => True)
    fun _ => True := by
  rintro polls _ rfl
  rw [poll_run, check_run_eq]
  cases keepGoing polls with
  | true => exact .value trivial rfl
  | false => exact .stop trivial rfl

theorem samplesOn_planner (target : State K) (desired : K) (n i : ℕ) (current : State K)
    (done : List (State K)) :
    (samplesOn Planner.solver planner.timeStep limits target desired n i current done).run.run
        planner = (samplesFrom planner limits target desired n i current done, planner) := by
  induction n generalizing i current done with
  | zero => rfl
  | succ n ih =>
    obtain ⟨answer, hanswer⟩ : ∃ answer, planner.update
      (sampleRequest planner.timeStep limits target desired i current) = answer := ⟨_, rfl⟩
    have hrun : (Planner.solver.update (sampleRequest planner.timeStep limits target desired i
        current)).run.run planner = (answer, planner) := Prod.ext hanswer rfl
    rw [samplesFrom]
    rw [sampleRequest] at hanswer
    cases answer with
    | error e =>
      simp only [hanswer]
      exact run_bind_error hrun
    | ok reply =>
      simp only [hanswer]
      rw [samplesOn, run_bind_ok hrun]
      split_ifs
      · rfl
      · exact ih (i + 1) reply.state (reply.state :: done)

theorem segmentOn_planner (hstep : planner.timeStep = settings.timeStep) (current target : State K)
    (desired : K) (index : ℕ) :
    Run.Tracks (Beside planner)
      (ExceptT.mk (pure (segment settings planner limits current target desired index)))
      (segmentOn Planner.solver settings limits current target desired index) (fun _ => True)
      fun _ => True := by
  rintro polls _ rfl
  have hsamples : (samplesOn Planner.solver planner.timeStep limits target desired _ 0 current
      []).run.run planner = _ :=
    samplesOn_planner target desired
      (maxSamples settings.durationFactor settings.timeStep desired) 0 current []
  rw [hstep] at hsamples
  rw [segmentOn, segment, hstep]
  cases hresult : samplesFrom planner limits target desired
      (maxSamples settings.durationFactor settings.timeStep desired) 0 current [] with
  | ok samples =>
    rw [hresult] at hsamples
    rw [run_bind_ok (inside_run_ok hsamples)]
    cases samples with
    | none => exact .stop trivial rfl
    | some samples => exact .value trivial rfl
  | error e =>
    rw [hresult] at hsamples
    cases e with
    | error e =>
      rw [run_bind_ok (inside_run_error hsamples)]
      exact .stop trivial rfl
    | fault f =>
      rw [run_bind_error (inside_run_fault hsamples)]
      exact .stop trivial rfl

theorem segmentsOn_planner (hstep : planner.timeStep = settings.timeStep) (current : State K)
    (index : ℕ) (ws : List (Waypoint K)) :
    Run.Tracks (Beside planner) (segments settings planner limits keepGoing current index ws)
      (segmentsOn Planner.solver settings limits keepGoing current index ws) (fun _ => True)
      fun _ => True := by
  induction ws generalizing current index with
  | nil => exact .pure trivial
  | cons w ws ih =>
    exact check_beside.bind fun _ _ =>
      (segmentOn_planner hstep current w.state w.duration index).bind fun _ _ =>
        (ih _ _).bind fun _ _ => .pure trivial

/-- Once the planner is there, resampling goes on with it. -/
theorem resampleOn_planner {d : Dense K} {t : Trajectory K} (polls : ℕ)
    (hcreate : Planner.create t.jointCount d.settings.timeStep = .ok planner) :
    Run.Meets (Beside planner) (fun _ => True) (fun _ => True)
      ((d.resample limits keepGoing t).run.run polls)
      ((d.resampleOn Planner.solver limits keepGoing t).run.run ⟨planner, polls⟩) := by
  have hplanner : (Run.ofError .solver (Planner.create t.jointCount d.settings.timeStep) :
      Run ℕ (SmoothingError K) _).run.run polls = (.ok planner, polls) := by
    rw [hcreate]
    rfl
  have hstep : planner.timeStep = d.settings.timeStep := by
    obtain ⟨⟨⟩, -, hcreate⟩ := bind_eq_ok.mp hcreate
    exact pure_eq_ok.mp hcreate ▸ rfl
  rw [resample, run_bind_ok hplanner, resampleOn]
  cases t.waypoints with
  | nil => exact .stop trivial rfl
  | cons first rest =>
    refine (segmentsOn_planner hstep first.state 1 rest).bind (fun samples _ => ?_) rfl
    obtain ⟨⟨output, seams⟩, hseams⟩ : ∃ r, d.seam.applyAt limits d.settings.timeStep
      (assemble t first d.settings.timeStep samples) = r := ⟨_, rfl⟩
    simp only [filtered, hseams]
    cases seams with
    | error e => exact .throw trivial
    | ok seams => exact .pure trivial

/-- **With the built-in planner it is the same run.** -/
theorem smoothOn_planner (d : Dense K) (keepGoing : KeepGoing) (v a : K) (t : Trajectory K) :
    (d.smoothOn Planner.solver id keepGoing v a t).1
      = ((d.smooth keepGoing v a t).1, (d.smooth keepGoing v a t).2.1) := by
  obtain ⟨input, hinput⟩ : ∃ input, (do
    t.checkPlanned
    t.batchLimits d.fallbacks v a) = input := ⟨_, rfl⟩
  obtain ⟨⟨seed, unwound⟩, hunwind⟩ : ∃ r, t.unwind = r := ⟨_, rfl⟩
  simp only [smoothOn, prepare, smooth, hinput, hunwind]
  cases input with
  | error e => rfl
  | ok limits =>
    cases unwound with
    | error f => rfl
    | ok u =>
      obtain ⟨⟨answer, polls⟩, hrun⟩ : ∃ r, (d.resample limits keepGoing seed).run.run 0 = r :=
        ⟨_, rfl⟩
      simp only [hrun]
      cases hcreate : Planner.create seed.jointCount d.settings.timeStep with
      | error e =>
        have hplanner : (Run.ofError .solver (Planner.create seed.jointCount d.settings.timeStep) :
            Run ℕ (SmoothingError K) _).run.run 0 = (.error (.error (.solver e)), 0) := by
          rw [hcreate]
          rfl
        rw [resample, run_bind_error hplanner] at hrun
        obtain ⟨rfl, -⟩ := Prod.mk.inj hrun
        rfl
      | ok planner =>
        obtain ⟨⟨answer', s'⟩, hrun'⟩ : ∃ r, (d.resampleOn Planner.solver limits keepGoing
          seed).run.run ⟨planner, 0⟩ = r := ⟨_, rfl⟩
        have hmeets : Run.Meets _ _ _ ((d.resample limits keepGoing seed).run.run 0)
            ((d.resampleOn Planner.solver limits keepGoing seed).run.run ⟨planner, 0⟩) :=
          resampleOn_planner 0 hcreate
        rw [hrun, hrun'] at hmeets
        obtain rfl : answer = answer' := hmeets.answer
        simp only [id, hrun']
        cases answer <;> rfl

end Planner

/-! ## Two solvers side by side -/

section Tracks

variable {R : σ → ρ → Prop} {solver : Solver σ K} {copy : Solver ρ K} {limits : Limits K} {n : ℕ}
  {settings : DenseSettings K} {keepGoing : KeepGoing}

/-- Samples have one entry per joint. -/
theorem samplesOn_tracks (hmirrors : solver.Mirrors R copy limits n) (timeStep : K)
    {target : State K} (htarget : target.checkJointCount n = .ok ()) (desired : K) (fuel i : ℕ)
    {current : State K} (hcurrent : current.checkJointCount n = .ok ()) {done : List (State K)}
    (hdone : ∀ s ∈ done, s.checkJointCount n = .ok ()) :
    Run.Tracks R (samplesOn solver timeStep limits target desired fuel i current done)
      (samplesOn copy timeStep limits target desired fuel i current done)
      (fun o => ∀ samples, o = some samples → ∀ s ∈ samples, s.checkJointCount n = .ok ())
      Stop.IsError := by
  induction fuel generalizing i current done with
  | zero => exact .pure nofun
  | succ fuel ih =>
    refine Run.Tracks.bind (hmirrors.update hcurrent htarget _) fun reply hreply => ?_
    have hdone' : ∀ s ∈ reply.state :: done, s.checkJointCount n = .ok () :=
      List.forall_mem_cons.mpr ⟨hreply, hdone⟩
    split_ifs
    · refine .pure fun samples hsamples s hs => hdone' s ?_
      rw [← Option.some.inj hsamples] at hs
      exact List.mem_reverse.mp hs
    · exact ih (i + 1) hreply hdone'

theorem segmentOn_tracks (hmirrors : solver.Mirrors R copy limits n) {current target : State K}
    (hcurrent : current.checkJointCount n = .ok ())
    (htarget : target.checkJointCount n = .ok ()) (desired : K) (index : ℕ) :
    Run.Tracks (Related R) (segmentOn solver settings limits current target desired index)
      (segmentOn copy settings limits current target desired index)
      (fun samples => ∀ s ∈ samples, s.checkJointCount n = .ok ()) Stop.IsRunError := by
  have hnone : ∀ s ∈ ([] : List (State K)), s.checkJointCount n = .ok () := nofun
  refine (inside_tracks (samplesOn_tracks hmirrors settings.timeStep htarget desired _ 0 hcurrent
    hnone)).bind fun answer hanswer => ?_
  match answer with
  | .error e => exact .throw ⟨_, rfl, id⟩
  | .ok none => exact .throw ⟨_, rfl, id⟩
  | .ok (some samples) => exact .pure (hanswer _ rfl samples rfl)

omit [Scalar K] in
/-- The next segment starts from a state with one entry per joint. -/
theorem shape_getLastD {current : State K} (hcurrent : current.checkJointCount n = .ok ())
    {samples : List (State K)} (hsamples : ∀ s ∈ samples, s.checkJointCount n = .ok ()) :
    (samples.getLast?.getD current).checkJointCount n = .ok () := by
  cases hlast : samples.getLast? with
  | none => exact hcurrent
  | some s => exact hsamples s (List.mem_of_getLast? hlast)

theorem segmentsOn_tracks (hmirrors : solver.Mirrors R copy limits n) {ws : List (Waypoint K)}
    (hws : ShapedAs n ws) {current : State K} (hcurrent : current.checkJointCount n = .ok ())
    (index : ℕ) :
    Run.Tracks (Related R) (segmentsOn solver settings limits keepGoing current index ws)
      (segmentsOn copy settings limits keepGoing current index ws)
      (fun blocks => ∀ s ∈ blocks.flatten, s.checkJointCount n = .ok ()) Stop.IsRunError := by
  induction ws generalizing current index with
  | nil => exact .pure nofun
  | cons w ws ih =>
    obtain ⟨hw, hws⟩ := List.forall_mem_cons.mp hws
    refine (check_tracks.mono fun _ h => Cancelled.isRunError h).bind fun _ _ =>
      (segmentOn_tracks hmirrors hcurrent hw w.duration index).bind fun samples hsamples =>
        (ih hws (shape_getLastD hcurrent hsamples) (index + 1)).bind fun rest hrest => .pure ?_
    intro s hs
    rw [List.flatten_cons, List.mem_append] at hs
    exact hs.elim (hsamples s) (hrest s)

/-- An error, and one about a parameter only if the seam filter has objections to a column. -/
def RunError (d : Dense K) (e : Stop (SmoothingError K)) : Prop :=
  e.IsError ∧ ((∀ raw bound, ∃ f, d.seam.filter raw bound = .ok f) → e.IsRunError)

variable {d : Dense K} {t : Trajectory K}

theorem filtered_errs (hlimits : limits.Shaped t.jointCount) {first : Waypoint K}
    (hfirst : first.state.checkJointCount t.jointCount = .ok ()) {samples : List (List (State K))}
    (hsamples : ∀ s ∈ samples.flatten, s.checkJointCount t.jointCount = .ok ()) :
    ErrsIn d.RunError (d.filtered limits t first samples) := by
  obtain ⟨dense, hdense⟩ : ∃ dense, assemble t first d.settings.timeStep samples = dense :=
    ⟨_, rfl⟩
  have hcount : dense.jointCount = t.jointCount := hdense ▸ rfl
  have hshape : ShapedAs t.jointCount dense.waypoints := hdense ▸ shapedAs_assemble hfirst hsamples
  have hfaultless : Faultless (d.seam.applyAt limits d.settings.timeStep dense).2 :=
    Seam.applyAt_faultless hlimits hcount hshape
  obtain ⟨⟨output, seams⟩, hseams⟩ : ∃ r, d.seam.applyAt limits d.settings.timeStep dense = r :=
    ⟨_, rfl⟩
  rw [hseams] at hfaultless
  simp only [filtered, hdense, hseams]
  cases seams with
  | ok seams => exact .ok _
  | error e =>
    refine .mk fun he => Except.error.inj he ▸ ⟨hfaultless.of_error rfl, fun hfilter => ?_⟩
    obtain ⟨t', seams, happly⟩ : ∃ t' seams,
        d.seam.applyAt limits d.settings.timeStep dense = (t', .ok seams) :=
      Seam.exists_applyAt hlimits hfilter hcount hshape
    exact nomatch (Prod.mk.inj (hseams.symm.trans happly)).2

theorem resampleOn_tracks (hmirrors : solver.Mirrors R copy limits t.jointCount)
    (hlimits : limits.Shaped t.jointCount) (hws : ShapedAs t.jointCount t.waypoints) :
    Run.Tracks (Related R) (d.resampleOn solver limits keepGoing t)
      (d.resampleOn copy limits keepGoing t) (fun _ => True) d.RunError := by
  rw [resampleOn, resampleOn]
  cases hwaypoints : t.waypoints with
  | nil =>
    have herror : (Stop.error (SmoothingError.waypoints (K := K) (.outOfRange 0 0))).IsRunError :=
      ⟨_, rfl, id⟩
    exact .throw ⟨herror.isError, fun _ => herror⟩
  | cons first rest =>
    rw [hwaypoints] at hws
    obtain ⟨hfirst, hrest⟩ := List.forall_mem_cons.mp hws
    refine ((segmentsOn_tracks hmirrors hrest hfirst 1).mono fun _ h =>
      ⟨h.isError, fun _ => h⟩).bind fun samples hsamples => ?_
    exact .of_result (fun _ _ => trivial)
      fun _ he => (filtered_errs hlimits hfirst hsamples).of_error he

/-- What an error leaves: the input, or the unwound input if it is of the right shape. -/
structure Failed (d : Dense K) (t t' : Trajectory K) (e : Stop (SmoothingError K)) : Prop where
  error : d.RunError e
  left : t' = t ∨ t.checkShape = .ok () ∧ t' = t.unwind.1

theorem failed_of_prepare {v a : K} {t' : Trajectory K} {e : Stop (SmoothingError K)}
    (h : d.prepare v a t = .error (t', e)) : d.Failed t t' e := by
  have hrun {e : SmoothingError K} (he : ¬e.IsInvalid) : d.RunError (.error e) :=
    ⟨⟨e, rfl⟩, fun _ => ⟨e, rfl, he⟩⟩
  have hchecks : ErrsIn (fun e => ¬e.IsInvalid) (do
      t.checkPlanned
      t.batchLimits d.fallbacks v a : Except (SmoothingError K) (Limits K)) :=
    .bind t.checkPlanned_errs fun _ _ => t.batchLimits_errs d.fallbacks v a
  rw [prepare] at h
  split at h
  · rename_i e' hinput
    obtain ⟨rfl, rfl⟩ := Prod.mk.inj (Except.error.inj h)
    exact ⟨hrun (hchecks.of_error hinput), .inl rfl⟩
  · rename_i limits hinput
    obtain ⟨⟨⟩, -, hlimits⟩ := bind_eq_ok.mp hinput
    obtain ⟨hshape, -⟩ := shape_of_batchLimits hlimits
    obtain ⟨hunwound, -⟩ := unwind_unwound hshape
    split at h
    · rename_i seed f hunwind
      rw [hunwind] at hunwound
      exact nomatch hunwound
    · rename_i seed hunwind
      split at h
      · obtain ⟨rfl, rfl⟩ := Prod.mk.inj (Except.error.inj h)
        exact ⟨hrun id,
          .inr ⟨hshape, congrArg Prod.fst hunwind.symm⟩⟩
      · exact nomatch h

/-- What is there before the solver is asked. -/
structure Ready (t : Trajectory K) (limits : Limits K) (planner : Planner K)
    (seed : Trajectory K) : Prop where
  input : t.checkShape = .ok ()
  unwound : seed = t.unwind.1
  jointCount : seed.jointCount = t.jointCount
  shape : ShapedAs t.jointCount seed.waypoints
  accepted : limits.Accepted t.jointCount
  planned : planner.jointCount = t.jointCount

theorem ready_of_prepare {v a : K} {planner : Planner K} {seed : Trajectory K}
    (h : d.prepare v a t = .ok (limits, planner, seed)) : Ready t limits planner seed := by
  rw [prepare] at h
  split at h
  · exact nomatch h
  · rename_i limits' hinput
    obtain ⟨⟨⟩, -, hlimits⟩ := bind_eq_ok.mp hinput
    obtain ⟨hshape, -⟩ := shape_of_batchLimits hlimits
    obtain ⟨-, hjoints, -, hseed⟩ := unwind_unwound hshape
    split at h
    · exact nomatch h
    · rename_i seed' hunwind
      rw [hunwind] at hjoints hseed
      split at h
      · exact nomatch h
      · rename_i planner' hcreate
        obtain ⟨rfl, hrest⟩ := Prod.mk.inj (Except.ok.inj h)
        obtain ⟨rfl, rfl⟩ := Prod.mk.inj hrest
        obtain ⟨⟨⟩, -, hcreate⟩ := bind_eq_ok.mp hcreate
        exact {
          input := hshape
          unwound := congrArg Prod.fst hunwind.symm
          jointCount := hjoints
          shape := hseed
          accepted := accepted_of_batchLimits hlimits
          planned := pure_eq_ok.mp hcreate ▸ hjoints }

variable (keepGoing d) in
/-- **Solvers that answer alike smooth alike**, and nothing faults. -/
theorem smoothOn_tracks (start : Planner K → σ) (start' : Planner K → ρ)
    (hmirrors : ∀ limits : Limits K, limits.Accepted t.jointCount →
      solver.Mirrors R copy limits t.jointCount)
    (hstart : ∀ planner : Planner K, planner.jointCount = t.jointCount →
      R (start planner) (start' planner)) (v a : K) :
    (d.smoothOn solver start keepGoing v a t).1 = (d.smoothOn copy start' keepGoing v a t).1
      ∧ Option.Rel (Related R) (d.smoothOn solver start keepGoing v a t).2
        (d.smoothOn copy start' keepGoing v a t).2
      ∧ ∀ t' e, (d.smoothOn solver start keepGoing v a t).1 = (t', .error e) →
        d.Failed t t' e := by
  cases hprepare : d.prepare v a t with
  | error x =>
    obtain ⟨t₁, e₁⟩ := x
    simp only [smoothOn, hprepare]
    refine ⟨trivial, .none, ?_⟩
    rintro t' e h
    obtain ⟨rfl, he⟩ := Prod.mk.inj h
    obtain rfl := Except.error.inj he
    exact failed_of_prepare hprepare
  | ok x =>
    obtain ⟨limits, planner, seed⟩ := x
    have hready := ready_of_prepare hprepare
    have hjoints := hready.jointCount
    have hmeets : Run.Meets _ _ _ ((d.resampleOn solver limits keepGoing seed).run.run
          ⟨start planner, 0⟩)
        ((d.resampleOn copy limits keepGoing seed).run.run ⟨start' planner, 0⟩) :=
      resampleOn_tracks (hjoints.symm ▸ hmirrors limits hready.accepted)
        (hjoints.symm ▸ hready.accepted.toShaped) (hjoints.symm ▸ hready.shape)
        ⟨hstart planner hready.planned, rfl⟩
    obtain ⟨u, hu⟩ : ∃ u, (d.resampleOn solver limits keepGoing seed).run.run
      ⟨start planner, 0⟩ = u := ⟨_, rfl⟩
    obtain ⟨w, hw⟩ : ∃ w, (d.resampleOn copy limits keepGoing seed).run.run
      ⟨start' planner, 0⟩ = w := ⟨_, rfl⟩
    rw [hu, hw] at hmeets
    simp only [smoothOn, hprepare, hu, hw]
    cases hmeets with
    | value _ hr => exact ⟨rfl, .some hr, fun _ _ h => nomatch (Prod.mk.inj h).2⟩
    | stop he hr =>
      refine ⟨rfl, .some hr, ?_⟩
      rintro t' e h
      obtain ⟨rfl, he'⟩ := Prod.mk.inj h
      obtain rfl := Except.error.inj he'
      exact ⟨he, .inr ⟨hready.input, hready.unwound⟩⟩

end Tracks

/-- How dense smoothing ends, if not with its output. -/
theorem smooth_failed [OrderedScalar K] {d : Dense K} {keepGoing : KeepGoing} {v a : K}
    {t t' : Trajectory K} {e : Stop (SmoothingError K)} {polls : ℕ}
    (h : d.smooth keepGoing v a t = (t', .error e, polls)) : d.Failed t t' e := by
  have hmirrors (limits : Limits K) (hlimits : limits.Accepted t.jointCount) :
      (Planner.solver : Solver (Planner K) K).Mirrors Eq Planner.solver limits t.jointCount :=
    (Planner.solver_shaped t.jointCount).mirrors hlimits.toShaped
  obtain ⟨-, -, hfailed⟩ := smoothOn_tracks keepGoing d id id hmirrors (fun _ _ => rfl) v a
  refine hfailed t' e ?_
  rw [smoothOn_planner, h]

end Dense

end JerkLimit

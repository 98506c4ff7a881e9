import Mathlib
import JerkLimit.Proofs.FirstSuccess

/-!
# Proofs/Untouched — what an error leaves behind

Errors that find fault with what a smoothing run was given (`SmoothingError.Configuration`) are
raised by the checks in front, before anything is changed — with one exception. That a run may make
no attempt at all is noticed when the attempts are over, and by then the trajectory is unwound.
`smooth_untouched_iff` says that there is no other exception: once an attempt has begun, a run only
ends because it is cancelled, infeasible or done (`attempts_ends`).
-/

namespace JerkLimit

open Scalar

variable {σ ρ K : Type}

/-- Errors about the configuration of a run or its input. -/
inductive SmoothingError.Configuration : SmoothingError K → Prop
  | missingGroup : Configuration .missingGroup
  | tooFewWaypoints (found : ℕ) : Configuration (.tooFewWaypoints found)
  | limits (e : LimitsError K) : Configuration (.limits e)
  | waypoints (e : WaypointError K) : Configuration (.waypoints e)
  | invalid (parameter : Parameter) (value : K) : Configuration (.invalid parameter value)

namespace Chain

open Correction

variable [Scalar K] {R : σ → ρ → Prop} {solver : Solver σ K} {copy : Solver ρ K}
  {limits : Limits K} {settings : ChainSettings K} {keepGoing : KeepGoing} {n : ℕ}

/-! ## How attempts end -/

/-- Stopped by the caller. -/
def Cancelled (e : Stop (SmoothingError K)) : Prop := e = .error .cancelled

omit [Scalar K] in
theorem poll_run (keepGoing : KeepGoing) (polls : ℕ) :
    (poll keepGoing : Run ℕ (SmoothingError K) Unit).run.run polls
      = (if keepGoing polls = true then .ok () else .error (.error .cancelled), polls + 1) := by
  change (if keepGoing polls = true then pure () else throw (.error .cancelled) :
    Run ℕ (SmoothingError K) Unit).run.run (polls + 1) = _
  split_ifs <;> rfl

omit [Scalar K] in
theorem check_run_eq (s : Polled σ) :
    (Polled.check keepGoing : Run (Polled σ) (SmoothingError K) Unit).run.run s
      = (if keepGoing s.polls = true then .ok () else .error (.error .cancelled),
          { s with polls := s.polls + 1 }) := by
  change (((poll keepGoing : Run ℕ (SmoothingError K) Unit).run.run s.polls).1,
    ({ s with polls := ((poll keepGoing : Run ℕ (SmoothingError K) Unit).run.run s.polls).2 } :
      Polled σ)) = _
  rw [poll_run]

/-- Polled runs with as many polls and with inner states related by `R`. -/
structure Related (R : σ → ρ → Prop) (s : Polled σ) (r : Polled ρ) : Prop where
  inner : R s.inner r.inner
  polls : s.polls = r.polls

omit [Scalar K] in
theorem Related.refl (s : Polled σ) : Related Eq s s := ⟨rfl, rfl⟩

omit [Scalar K] in
theorem check_tracks : Run.Tracks (Related R)
    (Polled.check keepGoing : Run (Polled σ) (SmoothingError K) Unit)
    (Polled.check keepGoing : Run (Polled ρ) (SmoothingError K) Unit) (fun _ => True)
    Cancelled := by
  intro s r h
  have hafter : Related R { s with polls := s.polls + 1 } { r with polls := r.polls + 1 } :=
    ⟨h.inner, congrArg (· + 1) h.polls⟩
  rw [check_run_eq, check_run_eq, h.polls] at *
  cases keepGoing r.polls with
  | true => exact .value trivial hafter
  | false => exact .stop rfl hafter

/-- Runs on the inner states that do not fault do not stop. -/
theorem inside_tracks {ε ε' α : Type} {x : Run σ ε α} {y : Run ρ ε α} {Q : α → Prop}
    {E : Stop ε' → Prop} (hxy : Run.Tracks R x y Q Stop.IsError) :
    Run.Tracks (Related R) (Polled.inside x : Run (Polled σ) ε' (Except ε α))
      (Polled.inside y : Run (Polled ρ) ε' (Except ε α)) (fun r => ∀ a, r = .ok a → Q a) E := by
  refine Run.Tracks.capture (Q := Q) (E := Stop.IsError) ?_
    fun _ h => absurd h Stop.not_isError_fault
  intro s r h
  obtain ⟨u, hu⟩ : ∃ u, x.run.run s.inner = u := ⟨_, rfl⟩
  obtain ⟨v, hv⟩ : ∃ v, y.run.run r.inner = v := ⟨_, rfl⟩
  have hmeets := hxy h.inner
  change Run.Meets _ _ _ ((x.run.run s.inner).1, { s with inner := (x.run.run s.inner).2 })
    ((y.run.run r.inner).1, { r with inner := (y.run.run r.inner).2 })
  rw [hu, hv] at hmeets ⊢
  cases hmeets with
  | value ha hr => exact .value ha ⟨hr, h.polls⟩
  | stop he hr => exact .stop he ⟨hr, h.polls⟩

theorem correctAfter_tracks (hmirrors : solver.Mirrors R copy limits n) {ws : List (Waypoint K)}
    (hws : Trajectory.ShapedAs n ws) (status : Option Status) {current : State K}
    (hcurrent : current.checkJointCount n = .ok ()) :
    Run.Tracks (Related R) (correctAfter solver limits settings keepGoing n status current ws)
      (correctAfter copy limits settings keepGoing n status current ws)
      (fun p => Trajectory.ShapedAs n p.waypoints) Cancelled := by
  induction ws generalizing status current with
  | nil => exact .pure nofun
  | cons w ws ih =>
    obtain ⟨hw, hrest⟩ := List.forall_mem_cons.mp hws
    refine check_tracks.bind fun _ _ =>
      (inside_tracks (segment_tracks settings hmirrors hcurrent hw w.duration)).bind ?_
    intro corrected hc
    cases corrected with
    | error e => exact .pure hws
    | ok c =>
      have hc := hc c rfl
      refine (Run.Tracks.of_result (Q := fun _ => True) (fun _ _ => trivial) fun e he => ?_).bind
        fun _ _ => (ih hrest _ hc).bind fun rest hrest => .pure ?_
      · rw [hc] at he
        exact nomatch he
      · exact List.forall_mem_cons.mpr ⟨hc, hrest⟩

theorem attempt_tracks {seed : Trajectory K}
    (hmirrors : solver.Mirrors R copy limits seed.jointCount)
    (hseed : Trajectory.ShapedAs seed.jointCount seed.waypoints) (hne : seed.waypoints ≠ [])
    (i : ℕ) :
    Run.Tracks (Related R) (attempt solver limits settings keepGoing seed i)
      (attempt copy limits settings keepGoing seed i)
      (fun r => Trajectory.ShapedAs seed.jointCount r.2.waypoints) Cancelled := by
  obtain ⟨w, ws, hws⟩ := List.exists_cons_of_ne_nil
    (scaleDurations_ne_nil (attemptScale settings i) hne)
  obtain ⟨hw, hrest⟩ :=
    List.forall_mem_cons.mp (hws ▸ shapedAs_scaleDurations (attemptScale settings i) hseed)
  refine check_tracks.bind fun _ _ => ?_
  dsimp only
  rw [hws]
  refine Run.Tracks.bind (Q := fun p => Trajectory.ShapedAs seed.jointCount p.waypoints) ?_
    fun _ hp => .pure hp
  exact (correctAfter_tracks hmirrors hrest none hw).bind fun p hp =>
    .pure (List.forall_mem_cons.mpr ⟨hw, hp⟩)

/-- **Attempts end** with waypoints of the right shape, or because the caller cancels. Solvers that
answer alike end alike. -/
theorem attempts_tracks (settings : ChainSettings K) (keepGoing : KeepGoing) {seed : Trajectory K}
    (hmirrors : solver.Mirrors R copy limits seed.jointCount)
    (hseed : Trajectory.ShapedAs seed.jointCount seed.waypoints) (hne : seed.waypoints ≠ []) :
    Run.Tracks (Related R) (attempts solver limits settings keepGoing seed)
      (attempts copy limits settings keepGoing seed)
      (fun o => ∀ a, o = some a → Trajectory.ShapedAs seed.jointCount a.value.2.waypoints)
      Cancelled :=
  .retryFrom (attempt_tracks hmirrors hseed hne) _ _ _ nofun

theorem attempts_ends (settings : ChainSettings K) (keepGoing : KeepGoing) {seed : Trajectory K}
    (hsolver : solver.Shaped seed.jointCount)
    (hlimits : limits.Shaped seed.jointCount)
    (hseed : Trajectory.ShapedAs seed.jointCount seed.waypoints) (hne : seed.waypoints ≠ []) :
    Run.Ends (attempts solver limits settings keepGoing seed)
      (fun o => ∀ a, o = some a → Trajectory.ShapedAs seed.jointCount a.value.2.waypoints)
      Cancelled :=
  .of_tracks Related.refl (attempts_tracks settings keepGoing (hsolver.mirrors hlimits) hseed hne)

/-- None at all is what attempts come to if none is allowed. -/
theorem attempts_none {seed : Trajectory K} {s s' : Polled σ}
    (h : (attempts solver limits settings keepGoing seed).run.run s = (.ok none, s')) :
    settings.maxAttempts = 0 := by
  by_contra hne
  obtain ⟨k, hk⟩ := Nat.exists_eq_succ_of_ne_zero hne
  rw [attempts, hk] at h
  obtain ⟨a, ha, -⟩ := of_run_ok (retryFrom_count _ _ k 0 none) h
  cases ha

/-! ## Configuration errors -/

section Run

variable {fallbacks : Fallbacks K} {v a : K} {t t' : Trajectory K} {e : SmoothingError K}

/-- Checks that fail leave everything as it is. -/
theorem smoothWith_eq_of_invalid {s : Polled σ}
    (h : checkInput fallbacks (solver.jointCount s.inner) v a t = .error e) :
    (smoothWith solver settings fallbacks keepGoing v a t).run s = ((t, .error (.error e)), s) := by
  rw [smoothWith, StateT.run_bind]
  simp only [get, getThe, MonadStateOf.get, StateT.get, StateT.run, pure, bind, h]
  rfl

theorem smoothWith_of_invalid {s : σ}
    (h : checkInput fallbacks (solver.jointCount s) v a t = .error e) (polls : ℕ) :
    ((smoothWith solver settings fallbacks keepGoing v a t).run ⟨s, polls⟩).1
      = (t, .error (.error e)) :=
  congrArg Prod.fst (smoothWith_eq_of_invalid (s := ⟨s, polls⟩) h)

/-- A configuration error after the checks is the missing attempt. -/
theorem conclude_configuration {seed : Trajectory K}
    {r : Except (Stop (SmoothingError K)) (Option (Attempts (K × Pass K)))}
    (hr : ∀ e, r = .error e → Cancelled e) (h : conclude seed r = (t', .error (.error e)))
    (he : e.Configuration) : r = .ok none ∧ t' = seed := by
  match r with
  | .error e' =>
    obtain rfl : e' = _ := hr e' rfl
    obtain rfl := Stop.error.inj (Except.error.inj (Prod.mk.inj h).2)
    exact nomatch he
  | .ok none => exact ⟨rfl, (Prod.mk.inj h).1.symm⟩
  | .ok (some ⟨value, true, count⟩) => exact nomatch (Prod.mk.inj h).2
  | .ok (some ⟨value, false, count⟩) =>
    obtain rfl := Stop.error.inj (Except.error.inj (Prod.mk.inj h).2)
    exact nomatch he

theorem smoothWith_untouched_iff (hsolver : solver.Shaped t.jointCount) {s : σ} {polls : ℕ}
    (h : ((smoothWith solver settings fallbacks keepGoing v a t).run ⟨s, polls⟩).1
      = (t', .error (.error e))) (he : e.Configuration) :
    t' = t ↔ 0 < settings.maxAttempts
      ∨ (∃ e', checkInput fallbacks (solver.jointCount s) v a t = .error e') ∨ t.unwind.1 = t := by
  cases hinput : checkInput fallbacks (solver.jointCount s) v a t with
  | error e' =>
    rw [smoothWith_of_invalid hinput] at h
    exact iff_of_true (Prod.mk.inj h).1.symm (.inr (.inl ⟨e', rfl⟩))
  | ok limits =>
    obtain ⟨hunwind, hjoints, -, hseed, hne, hlimits⟩ := prepared_of_checkInput hinput
    rw [← hjoints] at hsolver
    have hends := attempts_ends settings keepGoing hsolver hlimits hseed hne
    rw [smoothWith_run settings keepGoing hinput hunwind] at h
    obtain ⟨hnone, rfl⟩ := conclude_configuration (fun e' he' => hends.stop (Prod.ext he' rfl)) h he
    have hzero := attempts_none (Prod.ext hnone rfl)
    simp [hzero]

end Run

section Smooth

variable {fallbacks : Fallbacks K} {v a : K} {t t' : Trajectory K} {e : SmoothingError K}
  {planner : Planner K} {polls : ℕ}

/-- What the checks find fault with is the configuration or the input. -/
theorem configuration_of_checkInput (joints : ℕ) :
    ErrsIn SmoothingError.Configuration (checkInput fallbacks joints v a t) :=
  .bind (.bind (.ensure .missingGroup) fun _ _ => .ensure (.tooFewWaypoints _)) fun _ _ =>
    .bind (.ensure (.invalid ..)) fun _ _ =>
      .bind (.mapError .waypoints _) fun _ _ =>
        .bind (.mapError .waypoints _) fun _ _ => .mapError .limits _

/-- With a planner it is `smoothWith` that decides. -/
theorem smooth_of_create (settings : ChainSettings K) (keepGoing : KeepGoing)
    (hcreate : Planner.create t.jointCount (firstTimeStep t) = .ok planner)
    {outcome : Outcome K}
    (h : ((smoothWith Planner.solver settings fallbacks keepGoing v a t).run ⟨planner, 0⟩).1
      = (t', outcome)) :
    ∃ polls, smooth settings fallbacks keepGoing v a t = (t', outcome, polls) := by
  obtain ⟨⟨⟨t₁, o⟩, s⟩, hrun⟩ : ∃ result,
      (smoothWith Planner.solver settings fallbacks keepGoing v a t).run ⟨planner, 0⟩ = result :=
    ⟨_, rfl⟩
  obtain ⟨rfl, rfl⟩ := Prod.mk.inj ((congrArg Prod.fst hrun).symm.trans h)
  refine ⟨s.polls, ?_⟩
  rw [smooth, hcreate]
  simp only [hrun]

theorem jointCount_of_create
    (hcreate : Planner.create t.jointCount (firstTimeStep t) = .ok planner) :
    planner.jointCount = t.jointCount := by
  obtain ⟨⟨⟩, -, hplanner⟩ := bind_eq_ok.mp hcreate
  obtain rfl := pure_eq_ok.mp hplanner
  rfl

/-- A run that may make no attempt ends unwound. -/
theorem smooth_of_no_attempts (keepGoing : KeepGoing) {limits : Limits K}
    (hcreate : Planner.create t.jointCount (firstTimeStep t) = .ok planner)
    (hinput : checkInput fallbacks t.jointCount v a t = .ok limits)
    (hzero : settings.maxAttempts = 0) : ∃ polls, smooth settings fallbacks keepGoing v a t
      = (t.unwind.1, .error (.error (.invalid .extensionAttempts 0.0)), polls) := by
  refine smooth_of_create settings keepGoing hcreate ?_
  rw [← jointCount_of_create hcreate] at hinput
  rw [smoothWith_run settings keepGoing hinput (prepared_of_checkInput hinput).unwound, attempts,
    hzero]
  rfl

/-- **A configuration error leaves the trajectory alone** unless it comes from allowing no attempt
at all, for an input that passes the checks but has turns to unwind. -/
theorem smooth_untouched_iff [OrderedScalar K]
    (h : smooth settings fallbacks keepGoing v a t = (t', .error (.error e), polls))
    (he : e.Configuration) :
    t' = t ↔ 0 < settings.maxAttempts
      ∨ (∃ e', checkInput fallbacks t.jointCount v a t = .error e') ∨ t.unwind.1 = t := by
  rw [smooth] at h
  cases hcreate : Planner.create t.jointCount (firstTimeStep t) with
  | error e' =>
    rw [hcreate] at h
    obtain rfl := Stop.error.inj (Except.error.inj (Prod.mk.inj (Prod.mk.inj h).2).1)
    cases he
  | ok planner =>
    rw [hcreate] at h
    have hrun : ((smoothWith Planner.solver settings fallbacks keepGoing v a t).run
        ⟨planner, 0⟩).1 = (t', .error (.error e)) :=
      Prod.ext (Prod.mk.inj h).1 (Prod.mk.inj (Prod.mk.inj h).2).1
    rw [← jointCount_of_create hcreate]
    exact smoothWith_untouched_iff (Planner.solver_shaped _) hrun he

end Smooth

/-- Most of a turn on a joint without bounds, in double precision. -/
def turning : Trajectory Float :=
  ⟨some "arm", [⟨"j0", .continuous, {}⟩],
    [⟨⟨[3], [0], [0]⟩, 0⟩, ⟨⟨[-3], [0], [0]⟩, 3⟩]⟩

theorem exists_create_turning :
    ∃ planner, Planner.create turning.jointCount (firstTimeStep turning) = .ok planner :=
  exists_ok_of_isOk (by decide +kernel)

/-- A speed of zero is noticed in front. -/
theorem exists_smooth_untouched : ∃ t' e polls,
    smooth default default patient 0 1 turning = (t', .error (.error e), polls)
      ∧ e.Configuration ∧ t' = turning := by
  obtain ⟨planner, hcreate⟩ := exists_create_turning
  obtain ⟨e, hinput⟩ : ∃ e, checkInput default turning.jointCount 0 1 turning = .error e :=
    exists_error_of_isOk (by decide +kernel)
  have he := (configuration_of_checkInput turning.jointCount).of_error hinput
  rw [← jointCount_of_create hcreate] at hinput
  obtain ⟨polls, hsmooth⟩ :=
    smooth_of_create default patient hcreate (smoothWith_of_invalid hinput 0)
  exact ⟨turning, e, polls, hsmooth, he, (smooth_untouched_iff hsmooth he).mpr (.inl (by decide))⟩

/-- That there are no attempts is not. -/
theorem exists_smooth_touched : ∃ t' e polls,
    smooth { (default : ChainSettings Float) with maxAttempts := 0 } default patient 1 1 turning
      = (t', .error (.error e), polls) ∧ e.Configuration ∧ t' ≠ turning := by
  obtain ⟨planner, hcreate⟩ := exists_create_turning
  obtain ⟨limits, hinput⟩ :
      ∃ limits, checkInput default turning.jointCount 1 1 turning = .ok limits :=
    exists_ok_of_isOk (by decide +kernel)
  have hzero : { (default : ChainSettings Float) with maxAttempts := 0 }.maxAttempts = 0 := rfl
  obtain ⟨polls, hsmooth⟩ := smooth_of_no_attempts patient hcreate hinput hzero
  refine ⟨_, _, polls, hsmooth, .invalid .., fun hturning => ?_⟩
  have hpositions : turning.unwind.1.waypoints.map (fun w => w.state.position) ≠ [[3], [-3]] := by
    decide +kernel
  exact hpositions (congrArg (fun t => t.waypoints.map fun w => w.state.position) hturning)

end Chain

end JerkLimit

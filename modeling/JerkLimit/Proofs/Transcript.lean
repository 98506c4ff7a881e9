import Mathlib
import JerkLimit.Proofs.Endings

/-!
# Proofs/Transcript — what the solver answers

What a run asks of its solver does not show in what it ends with. So `Strategy.smoothOn` runs a
strategy with any solver in the place of the planner; with the planner it is the same run
(`Strategy.smoothOn_planner`). `Solver.recorded` is a solver that keeps all of its answers, and
`Strategy.recorded` a run with a planner that does.

Two solvers that answer alike lead to the same run (`Strategy.smoothOn_tracks`). The planner and the
one that keeps its answers are such solvers, as long as they are asked for one entry per joint and
within limits that have been accepted, and then no answer is a fault, about a number of joints or
about a limit (`Planner.recorded_mirrors`). `Strategy.smooth_safe` says that every run asks only for
that.
-/

namespace JerkLimit

open Scalar Trajectory

variable {σ ρ K : Type} [Scalar K]

/-! ## A solver with a record -/

/-- What a solver may answer. -/
abbrev SolverAnswer (K : Type) : Type := Except (Stop (SolverError K)) (Reply K)

/-- A solver's state and its answers so far, the latest first. -/
structure Recorded (σ K : Type) where
  inner : σ
  answers : List (SolverAnswer K)

/-- A solver that keeps its answers. -/
def Solver.recorded (solver : Solver σ K) : Solver (Recorded σ K) K where
  jointCount r := solver.jointCount r.inner
  timeStep r := solver.timeStep r.inner
  setTimeStep timeStep := ExceptT.mk fun r =>
    let (answer, inner) := (solver.setTimeStep timeStep).run r.inner
    (answer, { r with inner })
  update request := ExceptT.mk fun r =>
    let (answer, inner) := (solver.update request).run r.inner
    (answer, ⟨inner, answer :: r.answers⟩)

/-- An answer to a request that has one entry per joint and limits that are positive. -/
structure SolverAnswer.Proper (answer : SolverAnswer K) : Prop where
  fault (f : Fault) : answer ≠ .error (.fault f)
  jointCount (field : RequestField) (expected found : ℕ) :
    answer ≠ .error (.error (.jointCount field expected found))
  invalidLimit (joint : ℕ) (quantity : Quantity) (value : K) :
    answer ≠ .error (.error (.invalidLimit joint quantity value))

namespace Planner

variable {n : ℕ}

/-- The planner beside one that keeps its answers, all of them proper. -/
structure Recording (n : ℕ) (p : Planner K) (r : Recorded (Planner K) K) : Prop where
  inner : r.inner = p
  jointCount : p.jointCount = n
  proper : ∀ answer ∈ r.answers, answer.Proper

variable [OrderedScalar K]

theorem proper_update {p : Planner K} {r : Request K} (hp : p.jointCount = n) (hr : r.Shaped n)
    (hlimits : r.limits.Accepted n) : SolverAnswer.Proper (p.update r) := by
  have hcount : r.checkJointCount p.jointCount = .ok () :=
    hp ▸ Request.checkJointCount_eq_ok.mpr ⟨hr.current, hr.target, hr.limits.velocity⟩
  have herrs : ErrsIn (r.Refused p.jointCount) (p.update r) := update_errs hr
  constructor
  · intro f h
    exact Stop.not_isError_fault (herrs.of_error h).isError
  · intro field expected found h
    cases herrs.of_error h with
    | jointCount hne => exact hne hcount
  · intro joint quantity value h
    cases herrs.of_error h with
    | invalidLimit hl hpositive => exact hpositive (hlimits.positive hl)

/-- **Keeping answers changes none**, and all that are kept are proper. -/
theorem recorded_mirrors {limits : Limits K} (hlimits : limits.Accepted n) :
    (Planner.solver : Solver (Planner K) K).Mirrors (Recording n) Planner.solver.recorded
      limits n where
  setTimeStep timeStep := by
    rintro _ ⟨p, answers⟩ ⟨rfl, hcount, hproper⟩
    change Run.Meets _ _ _ ((Planner.solver.setTimeStep timeStep).run.run p)
      (((Planner.solver.setTimeStep timeStep).run.run p).1,
        Recorded.mk ((Planner.solver.setTimeStep timeStep).run.run p).2 answers)
    rw [solver_setTimeStep_run]
    split_ifs with h
    · exact .value trivial ⟨rfl, hcount, hproper⟩
    · exact .stop ⟨_, rfl⟩ ⟨rfl, hcount, hproper⟩
  update {current target} hcurrent htarget minimumDuration := by
    rintro _ ⟨p, answers⟩ ⟨rfl, hcount, hproper⟩
    have hr : (Request.mk current target limits minimumDuration).Shaped n :=
      ⟨hcurrent, htarget, hlimits.toShaped⟩
    have hanswers : ∀ answer ∈ p.update ⟨current, target, limits, minimumDuration⟩ :: answers,
        SolverAnswer.Proper answer :=
      List.forall_mem_cons.mpr ⟨proper_update hcount hr hlimits, hproper⟩
    change Run.Meets _ _ _ (p.update ⟨current, target, limits, minimumDuration⟩, p)
      (p.update ⟨current, target, limits, minimumDuration⟩,
        Recorded.mk p (p.update ⟨current, target, limits, minimumDuration⟩ :: answers))
    cases hupdate : p.update ⟨current, target, limits, minimumDuration⟩ with
    | ok reply => exact .value (shape_of_update hr hupdate) ⟨rfl, hcount, hupdate ▸ hanswers⟩
    | error e =>
      exact .stop ((update_errs hr).of_error hupdate).isError ⟨rfl, hcount, hupdate ▸ hanswers⟩

end Planner

/-! ## Any solver in the place of the planner -/

namespace Chain

/-- Smooths with any solver; `start` is its state for a planner that has just been created. -/
def smoothOn (solver : Solver σ K) (start : Planner K → σ) (settings : ChainSettings K)
    (fallbacks : Fallbacks K) (keepGoing : KeepGoing) (v a : K) (t : Trajectory K) :
    (Trajectory K × Outcome K) × Option (Polled σ) :=
  match Planner.create t.jointCount (firstTimeStep t) with
  | .error e => ((t, .error (.error (.solver e))), none)
  | .ok planner =>
    let (result, s) :=
      (smoothWith solver settings fallbacks keepGoing v a t).run ⟨start planner, 0⟩
    (result, some s)

theorem smoothOn_planner (settings : ChainSettings K) (fallbacks : Fallbacks K)
    (keepGoing : KeepGoing) (v a : K) (t : Trajectory K) :
    (smoothOn Planner.solver id settings fallbacks keepGoing v a t).1
      = ((smooth settings fallbacks keepGoing v a t).1,
        (smooth settings fallbacks keepGoing v a t).2.1) := by
  rw [smoothOn, smooth]
  cases Planner.create t.jointCount (firstTimeStep t) with
  | error e => rfl
  | ok planner => rfl

section Tracks

variable {R : σ → ρ → Prop} {solver : Solver σ K} {copy : Solver ρ K} {t : Trajectory K}
  (hcount : ∀ s r, R s r → solver.jointCount s = copy.jointCount r)
  (hmirrors : ∀ limits : Limits K, limits.Accepted t.jointCount →
    solver.Mirrors R copy limits t.jointCount)

include hcount hmirrors

theorem smoothWith_tracks (settings : ChainSettings K) (fallbacks : Fallbacks K)
    (keepGoing : KeepGoing) (v a : K) {s : Polled σ} {r : Polled ρ} (h : Related R s r) :
    ((smoothWith solver settings fallbacks keepGoing v a t).run s).1
        = ((smoothWith copy settings fallbacks keepGoing v a t).run r).1
      ∧ Related R ((smoothWith solver settings fallbacks keepGoing v a t).run s).2
        ((smoothWith copy settings fallbacks keepGoing v a t).run r).2 := by
  have hjoints := hcount s.inner r.inner h.inner
  cases hinput : checkInput fallbacks (solver.jointCount s.inner) v a t with
  | error e =>
    have hinput' := hjoints ▸ hinput
    rw [smoothWith_eq_of_invalid hinput, smoothWith_eq_of_invalid hinput']
    exact ⟨rfl, h⟩
  | ok limits =>
    have hinput' := hjoints ▸ hinput
    obtain ⟨⟨⟩, -, hlimits⟩ := bind_eq_ok.mp hinput
    obtain ⟨⟨⟩, -, hlimits⟩ := bind_eq_ok.mp hlimits
    obtain ⟨hunwind, hseedJoints, -, hseed, hne, -⟩ := prepared_of_checkInput hinput
    have hmeets := attempts_tracks settings keepGoing
      (hseedJoints.symm ▸ hmirrors limits (accepted_of_batchLimits hlimits)) hseed hne h
    rw [smoothWith_eq settings keepGoing hinput hunwind,
      smoothWith_eq settings keepGoing hinput' hunwind]
    exact ⟨congrArg (conclude t.unwind.1) hmeets.answer, hmeets.related⟩

theorem smoothOn_tracks {start : Planner K → σ} {start' : Planner K → ρ}
    (hstart : ∀ planner : Planner K, planner.jointCount = t.jointCount →
      R (start planner) (start' planner)) (settings : ChainSettings K) (fallbacks : Fallbacks K)
    (keepGoing : KeepGoing) (v a : K) :
    (smoothOn solver start settings fallbacks keepGoing v a t).1
        = (smoothOn copy start' settings fallbacks keepGoing v a t).1
      ∧ Option.Rel (Related R) (smoothOn solver start settings fallbacks keepGoing v a t).2
        (smoothOn copy start' settings fallbacks keepGoing v a t).2 := by
  cases hcreate : Planner.create t.jointCount (firstTimeStep t) with
  | error e =>
    simp only [smoothOn, hcreate]
    exact ⟨trivial, .none⟩
  | ok planner =>
    obtain ⟨hresult, hstates⟩ := smoothWith_tracks hcount hmirrors settings fallbacks keepGoing v a
      (s := ⟨start planner, 0⟩) (r := ⟨start' planner, 0⟩)
      ⟨hstart planner (jointCount_of_create hcreate), rfl⟩
    simp only [smoothOn, hcreate]
    exact ⟨hresult, .some hstates⟩

end Tracks

end Chain

namespace Strategy

/-- A replay with any solver. -/
def replayOn (solver : Solver σ K) (start : Planner K → σ) (period : K) (fallbacks : Fallbacks K)
    (t : Trajectory K) : (Trajectory K × Outcome K) × Option σ :=
  match t.waypoints with
  | [] => ((t, .error (.error (.tooFewWaypoints 0))), none)
  | first :: rest =>
    match startStream period fallbacks first.state t with
    | .error e => ((t, .error (.error e)), none)
    | .ok (planner, stream, memory) =>
      let ((rest, outcome), s) :=
        (replay ⟨solver, stream.limits⟩ period t.jointCount none memory rest).run (start planner)
      let t := { t with waypoints := first :: rest }
      ((t, outcome.map fun status => {
        attempts := 1
        durationScale := 1.0
        finalStatus := status
        seamFailures := []
        waypointCount := t.waypointCount
        deratedSegments := 0
        collapsedSegments := 0 }), some s)

/-- Smooths with any solver, without polling anyone. The last part of the answer is where the solver
has got to, if it was needed. -/
def smoothOn (solver : Solver σ K) (start : Planner K → σ) (s : Strategy K) (t : Trajectory K) :
    (Trajectory K × Outcome K) × Option σ :=
  let always : KeepGoing := fun _ => true
  match s with
  | .streaming period fallbacks => replayOn solver start period fallbacks t
  | .chained settings fallbacks =>
    let (result, s) := Chain.smoothOn solver start settings fallbacks always settings.velocityScale
      settings.accelerationScale t
    (result, s.map Polled.inner)
  | .segmentwise dense velocityScale accelerationScale =>
    let (result, s) := dense.smoothOn solver start always velocityScale accelerationScale t
    (result, s.map Polled.inner)

theorem replayOn_planner (period : K) (fallbacks : Fallbacks K) (t : Trajectory K) :
    (replayOn Planner.solver id period fallbacks t).1 = smoothStream period fallbacks t := by
  rw [replayOn, smoothStream]
  cases t.waypoints with
  | nil => rfl
  | cons first rest =>
    cases hstart : startStream period fallbacks first.state t with
    | error e => simp only [hstart]
    | ok started =>
      obtain ⟨planner, ⟨solver, limits⟩, memory⟩ := started
      obtain rfl : solver = Planner.solver := (started_of_startStream hstart).solver
      simp only [hstart, id]
      rfl

/-- **With the built-in planner it is the same run.** -/
theorem smoothOn_planner (s : Strategy K) (t : Trajectory K) :
    (s.smoothOn Planner.solver id t).1 = s.smooth t := by
  cases s with
  | streaming period fallbacks => exact replayOn_planner period fallbacks t
  | chained settings fallbacks =>
    exact Chain.smoothOn_planner settings fallbacks _ settings.velocityScale
      settings.accelerationScale t
  | segmentwise d v a => exact d.smoothOn_planner _ v a t

section Tracks

variable {R : σ → ρ → Prop} {solver : Solver σ K} {copy : Solver ρ K} {t : Trajectory K}
  (hcount : ∀ s r, R s r → solver.jointCount s = copy.jointCount r)
  (hmirrors : ∀ limits : Limits K, limits.Accepted t.jointCount →
    solver.Mirrors R copy limits t.jointCount)
  {start : Planner K → σ} {start' : Planner K → ρ}
  (hstart : ∀ planner : Planner K, planner.jointCount = t.jointCount →
    R (start planner) (start' planner))

include hmirrors hstart

theorem replayOn_tracks (period : K) (fallbacks : Fallbacks K) :
    (replayOn solver start period fallbacks t).1 = (replayOn copy start' period fallbacks t).1
      ∧ Option.Rel R (replayOn solver start period fallbacks t).2
        (replayOn copy start' period fallbacks t).2 := by
  cases hwaypoints : t.waypoints with
  | nil =>
    simp only [replayOn, hwaypoints]
    exact ⟨trivial, .none⟩
  | cons first rest =>
    cases hstream : startStream period fallbacks first.state t with
    | error e =>
      simp only [replayOn, hwaypoints, hstream]
      exact ⟨trivial, .none⟩
    | ok started =>
      obtain ⟨planner, stream, memory⟩ := started
      have h := started_of_startStream hstream
      have hshape := h.shape
      rw [hwaypoints] at hshape
      obtain ⟨-, hrest⟩ := List.forall_mem_cons.mp hshape
      obtain ⟨ws', status, s', r', hs', hr', hrelated, -⟩ :=
        replay_tracks (hmirrors stream.limits h.limits) period none (h.memory.symm ▸ h.first) hrest
          (hstart planner (h.planner ▸ rfl))
      simp only [replayOn, hwaypoints, hstream, hs', hr']
      exact ⟨trivial, .some hrelated⟩

include hcount

/-- **Solvers that answer alike smooth alike**, whatever the strategy. -/
theorem smoothOn_tracks (s : Strategy K) :
    (smoothOn solver start s t).1 = (smoothOn copy start' s t).1
      ∧ Option.Rel R (smoothOn solver start s t).2 (smoothOn copy start' s t).2 := by
  have hinner {o : Option (Polled σ)} {o' : Option (Polled ρ)}
      (h : Option.Rel (Chain.Related R) o o') :
      Option.Rel R (o.map Polled.inner) (o'.map Polled.inner) := by
    cases h with
    | none => exact .none
    | some h => exact .some h.inner
  cases s with
  | streaming period fallbacks => exact replayOn_tracks hmirrors hstart period fallbacks
  | chained settings fallbacks =>
    obtain ⟨hresult, hstates⟩ := Chain.smoothOn_tracks hcount hmirrors hstart settings fallbacks
      (fun _ => true) settings.velocityScale settings.accelerationScale
    exact ⟨hresult, hinner hstates⟩
  | segmentwise d v a =>
    obtain ⟨hresult, hstates, -⟩ :=
      Dense.smoothOn_tracks (fun _ => true) d start start' hmirrors hstart v a
    exact ⟨hresult, hinner hstates⟩

end Tracks

/-! ## A run with a record -/

/-- Smooths with a planner that keeps its answers. The second part is what it has kept, the latest
first. -/
def recorded (s : Strategy K) (t : Trajectory K) :
    (Trajectory K × Outcome K) × List (SolverAnswer K) :=
  let (result, record) := s.smoothOn Planner.solver.recorded (⟨·, []⟩) t
  (result, (record.map Recorded.answers).getD [])

section Safe

variable [OrderedScalar K]

/-- A run with a record is the run without, and there are only proper answers. -/
theorem recorded_spec (s : Strategy K) (t : Trajectory K) : (s.recorded t).1 = s.smooth t
    ∧ ∀ answer ∈ (s.recorded t).2, SolverAnswer.Proper answer := by
  obtain ⟨⟨plain, planner⟩, hplain⟩ : ∃ x, s.smoothOn Planner.solver id t = x := ⟨_, rfl⟩
  obtain ⟨⟨result, record⟩, hrecord⟩ :
    ∃ x, s.smoothOn Planner.solver.recorded (⟨·, []⟩) t = x := ⟨_, rfl⟩
  have hcount (p : Planner K) (r : Recorded (Planner K) K)
      (h : Planner.Recording t.jointCount p r) :
      Planner.solver.jointCount p = Planner.solver.recorded.jointCount r := by
    rw [← h.inner]
    rfl
  have hstart (p : Planner K) (hp : p.jointCount = t.jointCount) :
      Planner.Recording t.jointCount (id p) ⟨p, []⟩ := ⟨rfl, hp, nofun⟩
  have htracks : (s.smoothOn Planner.solver id t).1
        = (s.smoothOn Planner.solver.recorded (⟨·, []⟩) t).1
      ∧ Option.Rel (Planner.Recording t.jointCount) (s.smoothOn Planner.solver id t).2
        (s.smoothOn Planner.solver.recorded (⟨·, []⟩) t).2 :=
    smoothOn_tracks hcount (fun _ hlimits => Planner.recorded_mirrors hlimits) hstart s
  rw [hplain, hrecord] at htracks
  obtain ⟨hresult, hstates⟩ := htracks
  have hsmooth := s.smoothOn_planner t
  rw [hplain] at hsmooth
  simp only [recorded, hrecord]
  refine ⟨hresult.symm.trans hsmooth, ?_⟩
  cases hstates with
  | none => exact nofun
  | some h => exact h.proper

theorem smooth_faultless (s : Strategy K) (t : Trajectory K) : Faultless (s.smooth t).2 := by
  obtain ⟨⟨t', outcome⟩, hrun⟩ : ∃ r, s.smooth t = r := ⟨_, rfl⟩
  refine ⟨fun {e} he => ?_⟩
  rw [hrun] at he
  obtain rfl : outcome = _ := he
  cases smooth_ended hrun with
  | rejected _ => exact ⟨_, rfl⟩
  | chained h => cases h <;> exact ⟨_, rfl⟩
  | segmentwise h =>
    cases h with
    | failed h => exact h.error.1

end Safe

/-- **No run faults**, whatever the strategy and the trajectory: no entry is missing and no range is
empty. And whatever the planner is asked on the way, it finds as many joints as it has, and limits
that are positive. -/
theorem smooth_safe (s : Strategy Float) (t : Trajectory Float) :
    (∀ f, (s.smooth t).2 ≠ .error (.fault f))
      ∧ (s.recorded t).1 = s.smooth t
      ∧ ∀ answer ∈ (s.recorded t).2, SolverAnswer.Proper answer := by
  obtain ⟨hsame, hproper⟩ := s.recorded_spec t
  refine ⟨fun f hf => ?_, hsame, hproper⟩
  exact Stop.not_isError_fault ((s.smooth_faultless t).of_error hf)

end Strategy

end JerkLimit

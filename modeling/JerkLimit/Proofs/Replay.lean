import Mathlib
import JerkLimit.Strategy
import JerkLimit.Proofs.Seeding
import JerkLimit.Proofs.Shape

/-!
# Proofs/Replay — a recorded trajectory through a stream

The waypoints of a replay are the commands of a stream, one for each cycle. A cycle that is planned
from a state with one entry per joint, toward a command with one entry per joint, sends on such a
state and plans the next cycle from such a state (`CommandStream.step_tracks`). So a replay does not
end early: each waypoint is replaced by one that is a period after the one before it
(`Strategy.replay_tracks`). For a whole trajectory that is `Strategy.smoothStream_cases`.
-/

namespace JerkLimit

open Scalar Trajectory CommandStream

variable {σ ρ K : Type} [Scalar K] {R : σ → ρ → Prop} {solver : Solver σ K} {copy : Solver ρ K}
  {limits : Limits K} {n : ℕ}

/-! ## One cycle -/

theorem State.atRest_shape {s : State K} (h : s.checkJointCount n = .ok ()) :
    (State.atRest s.position).checkJointCount n = .ok () := by
  obtain ⟨hp, -, -⟩ := State.checkJointCount_eq_ok.mp h
  simp [State.checkJointCount_eq_ok, State.atRest, hp]

/-- **A cycle with one entry per joint** ends, sends on one entry per joint and plans from one entry
per joint. Solvers that answer alike send on the same. -/
theorem CommandStream.step_tracks (hmirrors : solver.Mirrors R copy limits n) {memory : Memory K}
    (hmemory : (planned memory).checkJointCount n = .ok ()) {command : State K}
    (hcommand : command.checkJointCount n = .ok ()) :
    Run.Tracks R (step ⟨solver, limits⟩ memory command) (step ⟨copy, limits⟩ memory command)
      (fun r => (planned r.memory).checkJointCount n = .ok ()
        ∧ r.command.checkJointCount n = .ok ()) fun _ => False := by
  intro s r h
  have hmeets := hmirrors.update hmemory (State.atRest_shape hcommand) none h
  rw [step_run, step_run]
  change Run.Meets _ _ _
    (cycleResult memory command ((solver.update ⟨planned memory, _, limits, none⟩).run.run s).1,
      ((solver.update ⟨planned memory, _, limits, none⟩).run.run s).2)
    (cycleResult memory command ((copy.update ⟨planned memory, _, limits, none⟩).run.run r).1,
      ((copy.update ⟨planned memory, _, limits, none⟩).run.run r).2)
  obtain ⟨u, hu⟩ : ∃ u, (solver.update
    ⟨planned memory, .atRest command.position, limits, none⟩).run.run s = u := ⟨_, rfl⟩
  obtain ⟨v, hv⟩ : ∃ v, (copy.update
    ⟨planned memory, .atRest command.position, limits, none⟩).run.run r = v := ⟨_, rfl⟩
  rw [hu, hv] at hmeets ⊢
  cases hmeets with
  | value hstate hr => exact .value ⟨hstate, hstate⟩ hr
  | stop he hr =>
    obtain ⟨e, rfl⟩ := he
    exact .value ⟨hmemory, hcommand⟩ hr

/-! ## All cycles -/

namespace Strategy

/-- The waypoints `ws'` that a replay puts in the place of `ws`. -/
structure Replayed (period : K) (n : ℕ) (ws ws' : List (Waypoint K)) : Prop where
  length : ws'.length = ws.length
  shape : ShapedAs n ws'
  duration {w : Waypoint K} : w ∈ ws' → w.duration = period

/-- The status that a cycle leaves, if it was not held. -/
def cycleStatus : Cycle K → Option Status
  | .smoothed status => some status
  | .held _ => none

theorem replay_run_cons {stream : CommandStream σ K} {period : K} {status : Option Status}
    {memory : Memory K} {w : Waypoint K} {ws ws' : List (Waypoint K)} {r : StreamStep K}
    {outcome : Except (Stop (SmoothingError K)) (Option Status)} {s s₁ s' : σ}
    (hstep : (stream.step memory w.state).run.run s = (.ok r, s₁))
    (hcommand : r.command.checkJointCount n = .ok ())
    (hrest : (replay stream period n (cycleStatus r.cycle) r.memory ws).run s₁
      = ((ws', outcome), s')) :
    (replay stream period n status memory (w :: ws)).run s
      = ((⟨r.command, period⟩ :: ws', outcome), s') := by
  rw [replay, StateT.run_bind, hstep]
  dsimp only [bind]
  rw [hcommand]
  change StateT.run (replay stream period n (cycleStatus r.cycle) r.memory ws >>= _) s₁ = _
  rw [StateT.run_bind, hrest]
  rfl

/-- **A replay gets to its end.** Solvers that answer alike replay alike. -/
theorem replay_tracks (hmirrors : solver.Mirrors R copy limits n) (period : K)
    (status : Option Status) {memory : Memory K}
    (hmemory : (planned memory).checkJointCount n = .ok ()) {ws : List (Waypoint K)}
    (hws : ShapedAs n ws) {s : σ} {r : ρ} (h : R s r) :
    ∃ ws' status' s' r',
      (replay ⟨solver, limits⟩ period n status memory ws).run s = ((ws', .ok status'), s')
      ∧ (replay ⟨copy, limits⟩ period n status memory ws).run r = ((ws', .ok status'), r')
      ∧ R s' r' ∧ Replayed period n ws ws' := by
  induction ws generalizing status memory s r with
  | nil => exact ⟨[], status, s, r, rfl, rfl, h, rfl, nofun, nofun⟩
  | cons w ws ih =>
    obtain ⟨hw, hws⟩ := List.forall_mem_cons.mp hws
    have hmeets := step_tracks hmirrors hmemory hw h
    obtain ⟨u, hu⟩ : ∃ u, (step ⟨solver, limits⟩ memory w.state).run.run s = u := ⟨_, rfl⟩
    obtain ⟨v, hv⟩ : ∃ v, (step ⟨copy, limits⟩ memory w.state).run.run r = v := ⟨_, rfl⟩
    rw [hu, hv] at hmeets
    cases hmeets with
    | stop he _ => exact he.elim
    | @value a s₁ r₁ ha hr =>
      obtain ⟨hmemory, hcommand⟩ := ha
      obtain ⟨ws', status', s', r', hs', hr', hrelated, hreplayed⟩ :=
        ih (cycleStatus a.cycle) hmemory hws hr
      refine ⟨⟨a.command, period⟩ :: ws', status', s', r', replay_run_cons hu hcommand hs',
        replay_run_cons hv hcommand hr', hrelated, ?_⟩
      exact {
        length := congrArg (· + 1) hreplayed.length
        shape := List.forall_mem_cons.mpr ⟨hcommand, hreplayed.shape⟩
        duration := by
          intro w' hw'
          rcases List.mem_cons.mp hw' with rfl | hw'
          · rfl
          · exact hreplayed.duration hw' }

/-! ## A whole trajectory -/

/-- A stream that is started plans with the built-in solver from the first state. -/
structure Started (period : K) (first : State K) (t : Trajectory K) (planner : Planner K)
    (stream : CommandStream (Planner K) K) (memory : Memory K) : Prop where
  period_pos : isPositive period = true
  shape : ShapedAs t.jointCount t.waypoints
  planner : planner = ⟨t.jointCount, period⟩
  solver : stream.solver = Planner.solver
  limits : stream.limits.Accepted t.jointCount
  memory : planned memory = first
  first : first.checkJointCount t.jointCount = .ok ()

theorem started_of_startStream {period : K} {fallbacks : Fallbacks K} {first : State K}
    {t : Trajectory K} {planner : Planner K} {stream : CommandStream (Planner K) K}
    {memory : Memory K}
    (h : startStream period fallbacks first t = .ok (planner, stream, memory)) :
    Started period first t planner stream memory := by
  obtain ⟨⟨⟩, hshape, h⟩ := bind_eq_ok.mp h
  obtain ⟨⟨planner', stream', zeros⟩, hcreate, h⟩ := bind_eq_ok.mp h
  obtain ⟨memory', hreset, h⟩ := bind_eq_ok.mp h
  obtain ⟨rfl, hrest⟩ := Prod.mk.inj (pure_eq_ok.mp h)
  obtain ⟨rfl, rfl⟩ := Prod.mk.inj hrest
  obtain ⟨planner'', hplanner, hcreate⟩ := bind_eq_ok.mp hcreate
  obtain ⟨⟨⟩, hperiod, hplanner⟩ := bind_eq_ok.mp ((mapError_ok _ _).mp hplanner)
  obtain rfl := pure_eq_ok.mp hplanner
  obtain ⟨⟨stream'', zeros'⟩, hstream, hcreate⟩ := bind_eq_ok.mp hcreate
  obtain ⟨rfl, hrest⟩ := Prod.mk.inj (pure_eq_ok.mp hcreate)
  obtain ⟨rfl, rfl⟩ := Prod.mk.inj hrest
  obtain ⟨⟨⟩, -, hstream⟩ := bind_eq_ok.mp hstream
  obtain ⟨limits, hlimits, hstream⟩ := bind_eq_ok.mp hstream
  obtain ⟨rfl, -⟩ := Prod.mk.inj (pure_eq_ok.mp hstream)
  have haccepted := Limits.accepted_of_forStreaming ((mapError_ok _ _).mp hlimits)
  rw [Trajectory.bounds, List.length_map] at haccepted
  have hmemory := planned_of_reset hreset
  obtain ⟨⟨⟩, hfirst, -⟩ := bind_eq_ok.mp hreset
  exact {
    period_pos := ensure_eq_ok.mp hperiod
    shape := shapedAs_of_checkShapeFrom ((mapError_ok _ _).mp hshape)
    planner := rfl
    solver := rfl
    limits := haccepted
    memory := hmemory
    first := (mapError_ok _ _).mp hfirst }

/-- A stream that starts at a waypoint has nothing to say about parameters. -/
theorem startStream_errs (period : K) (fallbacks : Fallbacks K) {t : Trajectory K} {w : Waypoint K}
    (hw : w ∈ t.waypoints) :
    ErrsIn (fun e => ¬e.IsInvalid) (startStream period fallbacks w.state t) := by
  refine .bind (.mapError (fun _ => id) _) fun _ hshape =>
    .bind ?_ fun _ _ => .bind ?_ fun _ _ => .ok _
  · refine .bind (.mapError (fun _ => id) _) fun planner hplanner =>
      .bind ?_ fun _ _ => .ok _
    obtain ⟨⟨⟩, -, hplanner⟩ := bind_eq_ok.mp ((mapError_ok _ _).mp hplanner)
    have hcount : (t.bounds.length == Planner.solver.jointCount planner) = true :=
      pure_eq_ok.mp hplanner ▸ beq_iff_eq.mpr (List.length_map _)
    exact .bind (.of_ok ⟨(), ensure_eq_ok.mpr hcount⟩) fun _ _ =>
      .bind (.mapError (fun _ => id) _) fun _ _ => .ok _
  · have hfinite := isFinite_of_checkShapeFrom ((mapError_ok _ _).mp hshape) w hw
    exact .bind (.mapError (fun _ => id) _) fun _ _ =>
      .bind (.of_ok ⟨(), ensure_eq_ok.mpr hfinite⟩) fun _ _ => .ok _

/-- What it takes to start a stream at a waypoint. -/
theorem exists_startStream {period : K} {fallbacks : Fallbacks K} {t : Trajectory K}
    {w : Waypoint K} (hw : w ∈ t.waypoints) (hshape : t.checkShape = .ok ())
    (hperiod : isPositive period = true) {limits : Limits K}
    (hlimits : Limits.forStreaming t.bounds fallbacks = .ok limits) :
    ∃ started, startStream period fallbacks w.state t = .ok started := by
  have hplanner : Planner.create t.jointCount period = .ok ⟨t.jointCount, period⟩ :=
    bind_eq_ok.mpr ⟨(), ensure_eq_ok.mpr hperiod, rfl⟩
  have hcount : (t.bounds.length == t.jointCount) = true := beq_iff_eq.mpr (List.length_map _)
  have hcreate : create Planner.solver ⟨t.jointCount, period⟩ t.bounds fallbacks
      = .ok (⟨Planner.solver, limits⟩, .ofState (State.zeros t.jointCount)) :=
    bind_eq_ok.mpr ⟨(), ensure_eq_ok.mpr hcount,
      bind_eq_ok.mpr ⟨limits, (mapError_ok _ _).mpr hlimits, rfl⟩⟩
  have hstream : createPlanner t.bounds t.jointCount period fallbacks
      = .ok (⟨t.jointCount, period⟩, ⟨Planner.solver, limits⟩,
        .ofState (State.zeros t.jointCount)) :=
    bind_eq_ok.mpr ⟨_, (mapError_ok _ _).mpr hplanner, bind_eq_ok.mpr ⟨_, hcreate, rfl⟩⟩
  have hjoints : w.state.checkJointCount t.jointCount = .ok () :=
    shapedAs_of_checkShapeFrom hshape w hw
  have hreset : CommandStream.reset ⟨Planner.solver, limits⟩ ⟨t.jointCount, period⟩ w.state
      = .ok (.ofState w.state) :=
    bind_eq_ok.mpr ⟨(), (mapError_ok _ _).mpr hjoints,
      bind_eq_ok.mpr ⟨(), ensure_eq_ok.mpr (isFinite_of_checkShapeFrom hshape w hw), rfl⟩⟩
  exact ⟨_, bind_eq_ok.mpr ⟨(), (mapError_ok _ _).mpr hshape,
    bind_eq_ok.mpr ⟨_, hstream, bind_eq_ok.mpr ⟨_, hreset, rfl⟩⟩⟩⟩

/-- What a replay makes of the trajectory `t`. -/
structure Streamed (period : K) (t t' : Trajectory K) (report : Report K) : Prop where
  group : t'.group = t.group
  joints : t'.joints = t.joints
  head : t'.waypoints.head? = t.waypoints.head?
  shape : ShapedAs t.jointCount t'.waypoints
  /-- As many waypoints as before, each a period after the one before it. -/
  durations : t'.durations = List.replicate (t.waypointCount - 1) period
  period_pos : isPositive period = true
  durationScale : report.durationScale = 1.0
  waypointCount : report.waypointCount = t'.waypointCount

/-- A stream that starts is followed to its end. -/
theorem smoothStream_of_start [OrderedScalar K] {period : K} {fallbacks : Fallbacks K}
    {t : Trajectory K} {first : Waypoint K} {rest : List (Waypoint K)}
    (hwaypoints : t.waypoints = first :: rest)
    {started : Planner K × CommandStream (Planner K) K × Memory K}
    (hstart : startStream period fallbacks first.state t = .ok started) :
    ∃ t' report, smoothStream period fallbacks t = (t', .ok report)
      ∧ Streamed period t t' report := by
  obtain ⟨planner, ⟨solver, limits⟩, memory⟩ := started
  have h := started_of_startStream hstart
  obtain rfl : solver = Planner.solver := h.solver
  have hshape := h.shape
  rw [hwaypoints] at hshape
  obtain ⟨hfirst, hrest⟩ := List.forall_mem_cons.mp hshape
  obtain ⟨ws', status, p', _, hrun, -, -, hreplayed⟩ :=
    replay_tracks ((Planner.solver_shaped t.jointCount).mirrors h.limits.toShaped) period none
      (h.memory.symm ▸ h.first) hrest (rfl : planner = planner)
  obtain ⟨report, hresult, hscale, hcount⟩ : ∃ report : Report K,
      smoothStream period fallbacks t = ({ t with waypoints := first :: ws' }, .ok report)
        ∧ report.durationScale = 1.0 ∧ report.waypointCount = (first :: ws').length := by
    simp only [smoothStream, hwaypoints, hstart, hrun]
    exact ⟨_, rfl, rfl, rfl⟩
  refine ⟨{ t with waypoints := first :: ws' }, report, hresult, {
    group := rfl
    joints := rfl
    head := by rw [hwaypoints]; rfl
    shape := List.forall_mem_cons.mpr ⟨hfirst, hreplayed.shape⟩
    durations := List.eq_replicate_iff.mpr ⟨?_, fun d hd => ?_⟩
    period_pos := h.period_pos
    durationScale := hscale
    waypointCount := hcount }⟩
  · rw [durations, List.length_map, List.tail_cons, hreplayed.length, Trajectory.waypointCount,
      hwaypoints, List.length_cons, Nat.add_sub_cancel]
  · obtain ⟨w, hw, rfl⟩ := List.mem_map.mp hd
    exact hreplayed.duration hw

/-- **How a streaming run ends**: with an error before anything has been changed, or with a
replay. -/
theorem smoothStream_cases [OrderedScalar K] (period : K) (fallbacks : Fallbacks K)
    (t : Trajectory K) :
    (∃ e, smoothStream period fallbacks t = (t, .error (.error e)) ∧ ¬e.IsInvalid)
      ∨ ∃ t' report, smoothStream period fallbacks t = (t', .ok report)
        ∧ Streamed period t t' report := by
  cases hwaypoints : t.waypoints with
  | nil =>
    refine .inl ⟨.tooFewWaypoints 0, ?_, id⟩
    simp only [smoothStream, hwaypoints]
  | cons first rest =>
    cases hstart : startStream period fallbacks first.state t with
    | error e =>
      refine .inl ⟨e, ?_, (startStream_errs period fallbacks ?_).of_error hstart⟩
      · simp only [smoothStream, hwaypoints, hstart]
      · exact hwaypoints ▸ List.mem_cons_self
    | ok started => exact .inr (smoothStream_of_start hwaypoints hstart)

end Strategy

end JerkLimit

import Mathlib
import JerkLimit.Chain
import JerkLimit.Proofs.Answer
import JerkLimit.Proofs.Runs

/-!
# Proofs/Shape — one entry per joint, all the way through

A trajectory that passes its checks has states with one entry per joint, and so do its limits. From
there on nothing breaks: unwinding, the planner and the correction of a segment get what they need
at every joint, so they do not fault, and what they hand on has one entry per joint again. What is
asked of a solver for this is `Solver.Shaped`, and `Planner.solver_shaped` says that the planner
provides it.
-/

namespace JerkLimit

open Scalar OrderedScalar

variable {K : Type} [Scalar K] {n : ℕ}

/-! ## Shapes -/

/-- Not a fault. -/
def Stop.IsError {ε : Type} (e : Stop ε) : Prop := ∃ e', e = .error e'

theorem Stop.not_isError_fault {ε : Type} {f : Fault} : ¬(fault f : Stop ε).IsError :=
  fun ⟨_, h⟩ => nomatch h

/-- Limits with one entry per joint. -/
structure Limits.Shaped (limits : Limits K) (n : ℕ) : Prop where
  velocity : limits.velocity.length = n
  acceleration : limits.acceleration.length = n
  jerk : limits.jerk.length = n

/-- A request with one entry per joint. -/
structure Request.Shaped (r : Request K) (n : ℕ) : Prop where
  current : r.current.checkJointCount n = .ok ()
  target : r.target.checkJointCount n = .ok ()
  limits : r.limits.Shaped n

/-- A solver that gets one entry per joint does not fault, and answers with one entry per joint. -/
structure Solver.Shaped {σ : Type} (solver : Solver σ K) (n : ℕ) : Prop where
  setTimeStep (timeStep : K) : Run.Ends (solver.setTimeStep timeStep) (fun _ => True) Stop.IsError
  update {r : Request K} (h : r.Shaped n) :
    Run.Ends (solver.update r) (fun reply => reply.state.checkJointCount n = .ok ()) Stop.IsError

omit [Scalar K] in
theorem checkJointCount_of_length {js : List (JointState K)} (h : js.length = n) :
    (State.ofJoints js).checkJointCount n = .ok () :=
  h ▸ State.checkJointCount_ofJoints js

omit [Scalar K] in
theorem Limits.length_joints_of_shaped {limits : Limits K} (h : limits.Shaped n) :
    limits.joints.length = n := by
  simp [joints, h.velocity, h.acceleration, h.jerk]

theorem Request.Shaped.length_raised {r : Request K} (h : r.Shaped n) : r.raised.length = n := by
  rw [raised, List.length_map]
  exact length_motions (State.length_joints h.current) (State.length_joints h.target)
    (Limits.length_joints_of_shaped h.limits)

omit [Scalar K] in
theorem Limits.joint_ok {limits : Limits K} (h : limits.Shaped n) {i : ℕ} (hi : i < n) :
    ∃ l, limits.joint i = .ok l := by
  obtain ⟨⟨v, hv⟩, ⟨a, ha⟩, ⟨j, hj⟩⟩ : (∃ v, limits.velocity[i]? = some v)
      ∧ (∃ a, limits.acceleration[i]? = some a) ∧ ∃ j, limits.jerk[i]? = some j :=
    ⟨⟨_, List.getElem?_eq_getElem (h.velocity.symm ▸ hi)⟩,
      ⟨_, List.getElem?_eq_getElem (h.acceleration.symm ▸ hi)⟩,
      ⟨_, List.getElem?_eq_getElem (h.jerk.symm ▸ hi)⟩⟩
  exact ⟨⟨v, a, j⟩, bind_eq_ok.mpr ⟨v, entry_eq_ok.mpr hv, bind_eq_ok.mpr ⟨a, entry_eq_ok.mpr ha,
    bind_eq_ok.mpr ⟨j, entry_eq_ok.mpr hj, rfl⟩⟩⟩⟩

/-- Limits that have been accepted: one positive entry per joint. -/
structure Limits.Accepted (limits : Limits K) (n : ℕ) : Prop extends limits.Shaped n where
  positive {l : JointLimits K} : l ∈ limits.joints → l.AllPositive

theorem Limits.accepted_of_ofLists {v a j : List K} {limits : Limits K}
    (h : ofLists v a j = .ok limits) : limits.Accepted v.length := by
  obtain ⟨⟨ha, hj⟩, hpositive, rfl⟩ := ofLists_allPositive.mp h
  exact { velocity := rfl, acceleration := ha.symm, jerk := hj.symm, positive := hpositive _ }

theorem Limits.accepted_of_forBatch {bounds : List (Bounds K)} {v a : K} {fallbacks : Fallbacks K}
    {limits : Limits K} (h : forBatch bounds v a fallbacks = .ok limits) :
    limits.Accepted bounds.length := by
  obtain ⟨_, -, h⟩ := bind_eq_ok.mp h
  obtain ⟨_, -, h⟩ := bind_eq_ok.mp h
  have haccepted := accepted_of_ofLists h
  rwa [List.length_map] at haccepted

omit [Scalar K] in
theorem Limits.length_velocities {joint : ℕ} {bounds : List (Bounds K)} {vs : List K}
    (h : velocities joint bounds = .ok vs) : vs.length = bounds.length := by
  induction bounds generalizing joint vs with
  | nil => exact Except.ok.inj h ▸ rfl
  | cons b bounds ih =>
    rw [velocities] at h
    split at h
    · exact nomatch h
    · obtain ⟨rest, hrest, h⟩ := bind_eq_ok.mp h
      obtain rfl := pure_eq_ok.mp h
      exact congrArg (· + 1) (ih hrest)

theorem Limits.accepted_of_forStreaming {bounds : List (Bounds K)} {fallbacks : Fallbacks K}
    {limits : Limits K} (h : forStreaming bounds fallbacks = .ok limits) :
    limits.Accepted bounds.length := by
  obtain ⟨vs, hvs, h⟩ := bind_eq_ok.mp h
  exact length_velocities hvs ▸ accepted_of_ofLists h

/-! ## The errors of a check -/

/-- Every error of a check is in `P`. -/
structure ErrsIn {ε α : Type} (P : ε → Prop) (x : Except ε α) : Prop where
  of_error {e : ε} : x = .error e → P e

namespace ErrsIn

variable {ε ε' α β : Type} {P : ε → Prop} {Q : ε' → Prop}

theorem ok (a : α) : ErrsIn P (.ok a) := ⟨nofun⟩

theorem of_ok {x : Except ε α} (h : ∃ a, x = .ok a) : ErrsIn P x := by
  obtain ⟨a, rfl⟩ := h
  exact ok a

theorem ensure {b : Bool} {e : ε} (h : P e) : ErrsIn P (JerkLimit.ensure b e) := by
  cases b with
  | true => exact ok ()
  | false => exact ⟨fun he => Except.error.inj he ▸ h⟩

theorem map {f : ε → ε'} {x : Except ε α} (hx : ErrsIn P x) (h : ∀ e, P e → Q (f e)) :
    ErrsIn Q (x.mapError f) := by
  cases x with
  | ok a => exact ok a
  | error e => exact ⟨fun he => Except.error.inj he ▸ h e (hx.of_error rfl)⟩

theorem mapError {f : ε → ε'} (h : ∀ e, Q (f e)) (x : Except ε α) : ErrsIn Q (x.mapError f) :=
  map (P := fun _ => True) ⟨fun _ => trivial⟩ fun e _ => h e

theorem bind {x : Except ε α} {f : α → Except ε β} (hx : ErrsIn P x)
    (hf : ∀ a, x = .ok a → ErrsIn P (f a)) : ErrsIn P (x >>= f) := by
  cases x with
  | ok a => exact hf a rfl
  | error e => exact ⟨fun h => hx.of_error (congrArg Except.error (Except.error.inj h))⟩

/-- A requirement in front. -/
theorem require {P : Stop ε → Prop} {b : Bool} {e : ε} {f : Unit → Except (Stop ε) α}
    (he : b = false → P (.error e)) (hf : ErrsIn P (f ())) :
    ErrsIn P (JerkLimit.require b e >>= f) := by
  cases b with
  | true => exact hf
  | false => exact ⟨fun h => Except.error.inj h ▸ he rfl⟩

end ErrsIn

/-- What ends well or with an error, but not with a fault. -/
abbrev Faultless {ε α : Type} (x : Except (Stop ε) α) : Prop := ErrsIn Stop.IsError x

/-- An error about a parameter. -/
def SmoothingError.IsInvalid : SmoothingError K → Prop
  | .invalid .. => True
  | _ => False

omit [Scalar K] in
/-- The checks of group and size are not about parameters. -/
theorem Trajectory.checkPlanned_errs (t : Trajectory K) :
    ErrsIn (fun e => ¬e.IsInvalid) t.checkPlanned :=
  .bind (.ensure id) fun _ _ => .ensure id

/-- Nor are those of waypoints and limits. -/
theorem Trajectory.batchLimits_errs (t : Trajectory K) (fallbacks : Fallbacks K) (v a : K) :
    ErrsIn (fun e => ¬e.IsInvalid) (t.batchLimits fallbacks v a) :=
  .bind (.mapError (fun _ => id) _) fun _ _ =>
    .bind (.mapError (fun _ => id) _) fun _ _ =>
      .mapError (fun _ => id) _

/-- A list whose entries all pass passes. -/
theorem exists_mapM_eq_ok {ε α β : Type} {f : α → Except ε β} {xs : List α}
    (h : ∀ x ∈ xs, ∃ y, f x = .ok y) : ∃ ys, xs.mapM f = .ok ys := by
  induction xs with
  | nil => exact ⟨[], rfl⟩
  | cons x xs ih =>
    obtain ⟨⟨y, hy⟩, hxs⟩ := List.forall_mem_cons.mp h
    obtain ⟨ys, hys⟩ := ih hxs
    exact ⟨y :: ys, mapM_eq_ok.mpr (.cons hy (mapM_eq_ok.mp hys))⟩

/-! ## The planner -/

/-- How a planner for `n` joints refuses a request. -/
inductive Request.Refused (r : Request K) (n : ℕ) : Stop (SolverError K) → Prop where
  /-- Something has not one entry per joint. -/
  | jointCount {field : RequestField} {found : ℕ} (h : r.checkJointCount n ≠ .ok ()) :
      Refused r n (.error (.jointCount field n found))
  | notFinite {field : RequestField} {joint : ℕ} : Refused r n (.error (.notFinite field joint))
  /-- A limit is not positive. -/
  | invalidLimit {joint : ℕ} {quantity : Quantity} {value : K} {l : JointLimits K}
      (hl : l ∈ r.limits.joints) (h : ¬l.AllPositive) :
      Refused r n (.error (.invalidLimit joint quantity value))
  | targetOutsideLimits {joint : ℕ} {quantity : Quantity} {value limit : K} :
      Refused r n (.error (.targetOutsideLimits joint quantity value limit))
  | noFeasibleProfile {joint : ℕ} : Refused r n (.error (.noFeasibleProfile joint))

namespace Request

theorem Refused.isError {r : Request K} {e : Stop (SolverError K)} (h : r.Refused n e) :
    e.IsError := by
  cases h <;> exact ⟨_, rfl⟩

variable {r : Request K} {m : ℕ}

theorem check_errs {joint : ℕ} (s g : JointState K) {l : JointLimits K}
    (h : r.limits.joint joint = .ok l) :
    ErrsIn (r.Refused m) (Task.check joint s g (r.limits.joint joint)) := by
  have hl : l ∈ r.limits.joints := List.mem_of_getElem? (Limits.joint_eq_ok.mp h)
  rw [h]
  refine .require (fun _ => .notFinite) <| .require (fun _ => .notFinite) <|
    .require (fun _ => .notFinite) <| .require (fun _ => .notFinite) <|
    .require (fun _ => .notFinite) <| .require (fun _ => .notFinite) <|
    .bind (.ok l) fun l' hl' => ?_
  obtain rfl : l = l' := Except.ok.inj hl'
  refine .require (fun hv => .invalidLimit hl fun hpos => ?_) <|
    .require (fun ha => .invalidLimit hl fun hpos => ?_) <|
    .require (fun hj => .invalidLimit hl fun hpos => ?_) <|
    .require (fun _ => .targetOutsideLimits) <| .require (fun _ => .targetOutsideLimits) <| .ok _
  · exact nomatch hv.symm.trans hpos.1
  · exact nomatch ha.symm.trans hpos.2.1
  · exact nomatch hj.symm.trans hpos.2.2

theorem tasksFrom_errs (hlimits : r.limits.Shaped n) {joint : ℕ}
    {starts goals : List (JointState K)} (h : joint + starts.length ≤ n) :
    ErrsIn (r.Refused m) (tasksFrom r.limits joint starts goals) := by
  induction starts generalizing joint goals with
  | nil => exact .ok []
  | cons s starts ih =>
    cases goals with
    | nil => exact .ok []
    | cons g goals =>
      rw [List.length_cons] at h
      obtain ⟨l, hl⟩ := Limits.joint_ok hlimits (show joint < n by omega)
      exact .bind (check_errs s g hl) fun _ _ => .bind (ih (by omega)) fun _ _ => .ok _

theorem checkJointCount_errs (r : Request K) (m : ℕ) :
    ErrsIn (r.Refused m) (r.checkJointCount m) := by
  have herror : ErrsIn (fun e => ∃ field found, e = .error (.jointCount field m found))
      (r.checkJointCount m) :=
    .require (fun _ => ⟨_, _, rfl⟩) <| .require (fun _ => ⟨_, _, rfl⟩) <|
      .require (fun _ => ⟨_, _, rfl⟩) <| .require (fun _ => ⟨_, _, rfl⟩) <|
      .require (fun _ => ⟨_, _, rfl⟩) <| .require (fun _ => ⟨_, _, rfl⟩) <| .ensure ⟨_, _, rfl⟩
  refine ⟨fun {e} he => ?_⟩
  obtain ⟨field, found, rfl⟩ := herror.of_error he
  exact .jointCount fun hok => nomatch hok.symm.trans he

theorem tasks_errs (h : r.Shaped n) (m : ℕ) : ErrsIn (r.Refused m) (r.tasks m) := by
  refine .bind (r.checkJointCount_errs m) fun _ _ => .bind (tasksFrom_errs h.limits ?_)
    fun ts _ => ?_
  · rw [State.length_joints h.current, zero_add]
  · cases r.minimumDuration with
    | none => exact .ok _
    | some d => exact .require (fun _ => .notFinite) (.ok _)

end Request

theorem minimalDurations_errs (joint : ℕ) (tasks : List (Task K)) :
    ErrsIn (fun e => ∃ joint, e = .noFeasibleProfile joint) (minimalDurations joint tasks) := by
  induction tasks generalizing joint with
  | nil => exact .ok []
  | cons t tasks ih =>
    rw [minimalDurations]
    cases t.minimalDuration with
    | none => exact ⟨fun he => ⟨joint, (Except.error.inj he).symm⟩⟩
    | some d => exact .bind (ih (joint + 1)) fun _ _ => .ok _

section Planner

variable [OrderedScalar K]

/-- A duration that is a number leaves a time to choose. -/
theorem Task.advance_ok (t : Task K) (timeStep : K) {d : K} (hd : d ≤ d) :
    ∃ j, t.advance timeStep d = .ok j := by
  have hduration : 0.0 ≤ (t.profile d).duration := by
    rw [profile, Quintic.between]
    split_ifs with h
    · exact number_zero K
    · exact (le_total (number_zero K) hd).resolve_right h
  rw [Task.advance, Quintic.sample, if_pos hduration]
  split_ifs
  · exact ⟨_, rfl⟩
  · exact ⟨_, rfl⟩

namespace Planner

variable {p : Planner K} {r : Request K} {tasks : List (Task K)} {reply : Reply K}

theorem exists_advance (timeStep : K) {ds : List K} (h : ∀ d ∈ ds, d ≤ d) :
    ∃ s, advance timeStep tasks ds = .ok s := by
  obtain ⟨js, hjs⟩ : ∃ js, (tasks.zip ds).mapM (fun td => td.1.advance timeStep td.2) = .ok js :=
    exists_mapM_eq_ok fun td htd => td.1.advance_ok timeStep (h _ (List.of_mem_zip htd).2)
  exact ⟨State.ofJoints js, bind_eq_ok.mpr ⟨js, hjs, rfl⟩⟩

theorem exists_advanceAll (timeStep : K) {d : K} (h : d ≤ d) :
    ∃ s, advanceAll timeStep tasks d = .ok s :=
  exists_advance timeStep fun d' hd' => by
    obtain ⟨t, -, rfl⟩ := List.mem_map.mp hd'
    exact h

theorem search_errs (hm : ∀ m, r.minimumDuration = some m → m ≤ m) :
    ErrsIn (r.Refused n) (p.search r tasks) := by
  have hdurations : ErrsIn (r.Refused n) ((minimalDurations 0 tasks).mapError .error) := by
    refine (minimalDurations_errs 0 tasks).map ?_
    rintro _ ⟨joint, rfl⟩
    exact .noFeasibleProfile
  refine hdurations.bind fun ds hds => ?_
  have hown := own_minimalDurations ((mapError_ok _ _).mp hds)
  cases hd : commonDuration tasks ds r.minimumDuration with
  | none =>
    obtain ⟨s, hs⟩ := exists_advance p.timeStep fun d hd => number_of_mem hown hd
    exact .bind (.of_ok ⟨s, (mapError_ok _ _).mpr hs⟩) fun _ _ => .ok _
  | some d =>
    obtain ⟨-, hnumber, -⟩ := commonDuration_spec hown hm hd
    obtain ⟨s, hs⟩ := exists_advanceAll p.timeStep hnumber
    dsimp only
    split_ifs
    · exact .ok _
    · exact .bind (.of_ok ⟨s, (mapError_ok _ _).mpr hs⟩) fun _ _ => .ok _

/-- **The planner answers or refuses** a request with one entry per joint, without a fault. -/
theorem update_errs (h : r.Shaped n) : ErrsIn (r.Refused p.jointCount) (p.update r) := by
  refine .bind (Request.tasks_errs h p.jointCount) fun tasks htasks => ?_
  obtain ⟨-, -, hfinite⟩ := Request.tasks_ok htasks
  have hnumber : ∀ m, r.minimumDuration = some m → m ≤ m :=
    fun m hm => number_of_isFinite (hfinite m hm)
  cases hrequested : p.requested r tasks with
  | none => exact search_errs hnumber
  | some d =>
    have hd := hnumber d ((Option.filter_eq_some_iff ..).mp hrequested).1
    obtain ⟨s, hs⟩ := exists_advanceAll p.timeStep hd
    exact .bind (.of_ok ⟨s, (mapError_ok _ _).mpr hs⟩) fun _ _ => .ok _

omit [OrderedScalar K] in
theorem shape_of_advance {timeStep : K} {ds : List K} (hds : ds.length = tasks.length) {s : State K}
    (h : advance timeStep tasks ds = .ok s) : s.checkJointCount tasks.length = .ok () := by
  obtain ⟨js, rfl, hjs⟩ := advance_ok h
  refine checkJointCount_of_length ?_
  rw [← hjs.length_eq, List.length_zip, hds, min_self]

/-- What the planner answers has one entry for each joint of the request. -/
theorem shape_of_update (hr : r.Shaped n) (h : p.update r = .ok reply) :
    reply.state.checkJointCount n = .ok () := by
  obtain ⟨tasks, htasks, hexit⟩ := exit_of_update h
  obtain ⟨rfl, -, -⟩ := Request.tasks_ok htasks
  rw [← hr.length_raised]
  cases hexit with
  | requested _ hs => exact shape_of_advance (List.length_map _) hs
  | finished => exact hr.length_raised.symm ▸ hr.target
  | working _ _ _ hs => exact shape_of_advance (List.length_map _) hs
  | unsynchronized hds _ hs =>
    exact shape_of_advance (own_minimalDurations hds).length_eq.symm hs

omit [OrderedScalar K] in
theorem solver_setTimeStep_run (p : Planner K) (timeStep : K) :
    (Planner.solver.setTimeStep timeStep).run.run p
      = if isPositive timeStep = true then (.ok (), { p with timeStep })
        else (.error (.error (.invalidTimeStep timeStep)), p) := by
  split_ifs with h <;>
    simp only [solver, ExceptT.run_bind, StateT.run_bind, Run.ofError, Planner.setTimeStep,
      checkTimeStep, ensure, h] <;> rfl

/-- **The planner is a solver** that hands on one entry per joint. -/
theorem solver_shaped (n : ℕ) : (Planner.solver : Solver (Planner K) K).Shaped n where
  setTimeStep timeStep :=
    { value := fun _ => trivial
      stop := fun {p p' e} h => by
        rw [solver_setTimeStep_run] at h
        split_ifs at h
        · exact nomatch (Prod.mk.inj h).1
        · exact ⟨_, (Except.error.inj (Prod.mk.inj h).1).symm⟩ }
  update hr :=
    { value := fun h => shape_of_update hr (Prod.mk.inj h).1
      stop := fun h => ((update_errs hr).of_error (Prod.mk.inj h).1).isError }

end Planner

end Planner

/-! ## Unwinding -/

/-- A waypoint without its positions. -/
def Waypoint.unplaced (w : Waypoint K) : List K × List K × K :=
  (w.state.velocity, w.state.acceleration, w.duration)

omit [Scalar K] in
@[simp] theorem Waypoint.unplaced_setJoint (w : Waypoint K) (joint : ℕ) (x : K) :
    (w.setJoint joint x).unplaced = w.unplaced := rfl

namespace Trajectory

/-- Waypoints that have the first one in common and differ in nothing but positions. -/
structure OnlyMoved (ws ws' : List (Waypoint K)) : Prop where
  head : ws'.head? = ws.head?
  unplaced : ws'.map Waypoint.unplaced = ws.map Waypoint.unplaced

omit [Scalar K] in
theorem OnlyMoved.refl (ws : List (Waypoint K)) : OnlyMoved ws ws := ⟨rfl, rfl⟩

omit [Scalar K] in
theorem OnlyMoved.trans {ws ws' ws'' : List (Waypoint K)} (h : OnlyMoved ws ws')
    (h' : OnlyMoved ws' ws'') : OnlyMoved ws ws'' :=
  ⟨h'.head.trans h.head, h'.unplaced.trans h.unplaced⟩

omit [Scalar K] in
theorem OnlyMoved.length {ws ws' : List (Waypoint K)} (h : OnlyMoved ws ws') :
    ws'.length = ws.length := by
  have hlength := congrArg List.length h.unplaced
  rwa [List.length_map, List.length_map] at hlength

omit [Scalar K] in
theorem OnlyMoved.durations {ws ws' : List (Waypoint K)} (h : OnlyMoved ws ws') :
    ws'.map Waypoint.duration = ws.map Waypoint.duration := by
  have hdurations := congrArg (List.map fun x => x.2.2) h.unplaced
  rwa [List.map_map, List.map_map] at hdurations

theorem unwindAfter_unplaced (halfTurn : K) (joint : ℕ) (last offset : K)
    (ws : List (Waypoint K)) :
    (unwindAfter halfTurn joint last offset ws).1.map Waypoint.unplaced
      = ws.map Waypoint.unplaced := by
  induction ws generalizing last offset with
  | nil => rfl
  | cons w ws ih =>
    rw [unwindAfter]
    cases entry w.state.position joint with
    | error f => rfl
    | ok raw => exact congrArg (w.unplaced :: ·) (ih raw (turnOffset halfTurn last raw offset))

theorem unwindJoint_onlyMoved (halfTurn : K) (joint : ℕ) (ws : List (Waypoint K)) :
    OnlyMoved ws (unwindJoint halfTurn joint ws).1 := by
  cases ws with
  | nil => exact .refl []
  | cons w ws =>
    rw [unwindJoint]
    cases entry w.state.position joint with
    | error f => exact .refl _
    | ok first =>
      exact ⟨rfl, congrArg (w.unplaced :: ·) (unwindAfter_unplaced halfTurn joint first 0.0 ws)⟩

theorem unwindJoints_onlyMoved (halfTurn : K) (joint : ℕ) (js : List (Joint K))
    (ws : List (Waypoint K)) : OnlyMoved ws (unwindJoints halfTurn joint js ws).1 := by
  induction js generalizing joint ws with
  | nil => exact .refl ws
  | cons j js ih =>
    rw [unwindJoints]
    split_ifs
    · have hmoved := unwindJoint_onlyMoved halfTurn joint ws
      obtain ⟨⟨ws', outcome⟩, hws'⟩ : ∃ r, unwindJoint halfTurn joint ws = r := ⟨_, rfl⟩
      rw [hws'] at hmoved ⊢
      cases outcome with
      | error f => exact hmoved
      | ok u => exact hmoved.trans (ih (joint + 1) ws')
    · exact ih (joint + 1) ws

/-- **Unwinding only moves positions**, and none of the first waypoint. -/
theorem unwind_onlyMoved (t : Trajectory K) : OnlyMoved t.waypoints t.unwind.1.waypoints :=
  unwindJoints_onlyMoved Scalar.pi 0 t.joints t.waypoints

/-- The times between waypoints. -/
def durations (t : Trajectory K) : List K := t.waypoints.tail.map Waypoint.duration

theorem durations_unwind (t : Trajectory K) : t.unwind.1.durations = t.durations := by
  rw [durations, durations, List.map_tail, List.map_tail, (unwind_onlyMoved t).durations]

theorem checkTimingFrom_eq_ok {i : ℕ} {ws : List (Waypoint K)} {u : Unit} :
    checkTimingFrom i ws = .ok u ↔ ∀ x ∈ ws.map Waypoint.duration, isPositive x = true := by
  induction ws generalizing i with
  | nil => exact iff_of_true rfl nofun
  | cons w ws ih =>
    simp only [checkTimingFrom, bind_eq_ok, ensure_eq_ok, exists_const, ih, List.map_cons,
      List.forall_mem_cons]

theorem checkTiming_eq_ok {t : Trajectory K} :
    t.checkTiming = .ok () ↔ ∀ x ∈ t.durations, isPositive x = true := checkTimingFrom_eq_ok

/-- Waypoints with one entry per joint. -/
def ShapedAs (n : ℕ) (ws : List (Waypoint K)) : Prop :=
  ∀ w ∈ ws, w.state.checkJointCount n = .ok ()

theorem shapedAs_of_checkShapeFrom {i : ℕ} {ws : List (Waypoint K)} {u : Unit}
    (h : checkShapeFrom n i ws = .ok u) : ShapedAs n ws := by
  induction ws generalizing i with
  | nil => exact nofun
  | cons w ws ih =>
    obtain ⟨⟨⟩, hw, h⟩ := bind_eq_ok.mp h
    obtain ⟨⟨⟩, -, h⟩ := bind_eq_ok.mp h
    exact List.forall_mem_cons.mpr ⟨hw, ih h⟩

/-- The states of such a trajectory are finite. -/
theorem isFinite_of_checkShapeFrom {i : ℕ} {ws : List (Waypoint K)} {u : Unit}
    (h : checkShapeFrom n i ws = .ok u) : ∀ w ∈ ws, w.state.isFinite = true := by
  induction ws generalizing i with
  | nil => exact nofun
  | cons w ws ih =>
    obtain ⟨⟨⟩, -, h⟩ := bind_eq_ok.mp h
    obtain ⟨⟨⟩, hw, h⟩ := bind_eq_ok.mp h
    exact List.forall_mem_cons.mpr ⟨ensure_eq_ok.mp hw, ih h⟩

omit [Scalar K] in
theorem setJoint_shape {w : Waypoint K} (h : w.state.checkJointCount n = .ok ()) (joint : ℕ)
    (x : K) : (w.setJoint joint x).state.checkJointCount n = .ok () := by
  rw [State.checkJointCount_eq_ok] at h ⊢
  exact ⟨(List.length_set ..).trans h.1, h.2⟩

/-- Unwinding that went well: as many waypoints as before, of the same shape. -/
structure Unwound (n : ℕ) (ws : List (Waypoint K))
    (result : List (Waypoint K) × Except Fault Unit) : Prop where
  outcome : result.2 = .ok ()
  length : result.1.length = ws.length
  shape : ShapedAs n result.1

theorem unwindAfter_unwound (halfTurn : K) {joint : ℕ} (hj : joint < n) (last offset : K)
    {ws : List (Waypoint K)} (h : ShapedAs n ws) :
    Unwound n ws (unwindAfter halfTurn joint last offset ws) := by
  induction ws generalizing last offset with
  | nil => exact ⟨rfl, rfl, nofun⟩
  | cons w ws ih =>
    obtain ⟨hw, hws⟩ := List.forall_mem_cons.mp h
    obtain ⟨raw, hraw⟩ : ∃ raw, entry w.state.position joint = .ok raw :=
      ⟨_, entry_eq_ok.mpr (List.getElem?_eq_getElem ((State.checkJointCount_eq_ok.mp hw).1 ▸ hj))⟩
    obtain ⟨houtcome, hlength, hshape⟩ := ih raw (turnOffset halfTurn last raw offset) hws
    simp only [unwindAfter, hraw]
    exact ⟨houtcome, congrArg (· + 1) hlength,
      List.forall_mem_cons.mpr ⟨setJoint_shape hw joint _, hshape⟩⟩

theorem unwindJoint_unwound (halfTurn : K) {joint : ℕ} (hj : joint < n) {ws : List (Waypoint K)}
    (h : ShapedAs n ws) : Unwound n ws (unwindJoint halfTurn joint ws) := by
  cases ws with
  | nil => exact ⟨rfl, rfl, nofun⟩
  | cons w ws =>
    obtain ⟨hw, hws⟩ := List.forall_mem_cons.mp h
    obtain ⟨raw, hraw⟩ : ∃ raw, entry w.state.position joint = .ok raw :=
      ⟨_, entry_eq_ok.mpr (List.getElem?_eq_getElem ((State.checkJointCount_eq_ok.mp hw).1 ▸ hj))⟩
    obtain ⟨houtcome, hlength, hshape⟩ := unwindAfter_unwound halfTurn hj raw 0.0 hws
    simp only [unwindJoint, hraw]
    exact ⟨houtcome, congrArg (· + 1) hlength, List.forall_mem_cons.mpr ⟨hw, hshape⟩⟩

theorem unwindJoints_unwound (halfTurn : K) {joint : ℕ} {js : List (Joint K)}
    (hj : joint + js.length ≤ n) {ws : List (Waypoint K)} (h : ShapedAs n ws) :
    Unwound n ws (unwindJoints halfTurn joint js ws) := by
  induction js generalizing joint ws with
  | nil => exact ⟨rfl, rfl, h⟩
  | cons j js ih =>
    rw [List.length_cons] at hj
    rw [unwindJoints]
    split_ifs
    · obtain ⟨houtcome, hlength, hshape⟩ :=
        unwindJoint_unwound halfTurn (show joint < n by omega) h
      have hrest := ih (show joint + 1 + js.length ≤ n by omega) hshape
      rw [← Prod.eta (unwindJoint halfTurn joint ws), houtcome]
      exact ⟨hrest.outcome, hrest.length.trans hlength, hrest.shape⟩
    · exact ih (by omega) h

/-- **Unwinding a trajectory of the right shape** goes well and keeps the shape. -/
theorem unwind_unwound {t : Trajectory K} (h : t.checkShape = .ok ()) :
    t.unwind.2 = .ok () ∧ t.unwind.1.jointCount = t.jointCount
      ∧ t.unwind.1.waypointCount = t.waypointCount
      ∧ ShapedAs t.jointCount t.unwind.1.waypoints := by
  have hjoints : 0 + t.joints.length ≤ t.jointCount := (zero_add _).le
  obtain ⟨houtcome, hlength, hshape⟩ :=
    unwindJoints_unwound Scalar.pi hjoints (shapedAs_of_checkShapeFrom h)
  exact ⟨houtcome, rfl, hlength, hshape⟩

/-- The limits of a trajectory have been accepted. -/
theorem accepted_of_batchLimits {t : Trajectory K} {fallbacks : Fallbacks K} {v a : K}
    {limits : Limits K} (h : t.batchLimits fallbacks v a = .ok limits) :
    limits.Accepted t.jointCount := by
  obtain ⟨⟨⟩, -, h⟩ := bind_eq_ok.mp h
  obtain ⟨⟨⟩, -, hlimits⟩ := bind_eq_ok.mp h
  have hlimits := Limits.accepted_of_forBatch ((mapError_ok _ _).mp hlimits)
  rwa [Trajectory.bounds, List.length_map] at hlimits

/-- A trajectory that has limits is of the right shape, and so are they. -/
theorem shape_of_batchLimits {t : Trajectory K} {fallbacks : Fallbacks K} {v a : K}
    {limits : Limits K} (h : t.batchLimits fallbacks v a = .ok limits) :
    t.checkShape = .ok () ∧ limits.Shaped t.jointCount := by
  obtain ⟨⟨⟩, hshape, -⟩ := bind_eq_ok.mp h
  exact ⟨(mapError_ok _ _).mp hshape, (accepted_of_batchLimits h).toShaped⟩

end Trajectory

/-! ## Two solvers side by side -/

/-- Two solvers for `n` joints that answer alike. Asked for a motion within `limits`, with one entry
per joint, from states that are related by `R`, they do not fault, give the same answer with one
entry per joint and get to related states again. -/
structure Solver.Mirrors {σ ρ : Type} (R : σ → ρ → Prop) (solver : Solver σ K) (copy : Solver ρ K)
    (limits : Limits K) (n : ℕ) : Prop where
  setTimeStep (timeStep : K) : Run.Tracks R (solver.setTimeStep timeStep)
    (copy.setTimeStep timeStep) (fun _ => True) Stop.IsError
  update {current target : State K} (hcurrent : current.checkJointCount n = .ok ())
    (htarget : target.checkJointCount n = .ok ()) (minimumDuration : Option K) :
    Run.Tracks R (solver.update { current, target, limits, minimumDuration })
      (copy.update { current, target, limits, minimumDuration })
      (fun reply => reply.state.checkJointCount n = .ok ()) Stop.IsError

omit [Scalar K] in
/-- A solver mirrors itself. -/
theorem Solver.Shaped.mirrors {σ : Type} {solver : Solver σ K} {limits : Limits K}
    (h : solver.Shaped n) (hlimits : limits.Shaped n) : solver.Mirrors Eq solver limits n where
  setTimeStep timeStep := (h.setTimeStep timeStep).tracks
  update hcurrent htarget _ := (h.update ⟨hcurrent, htarget, hlimits⟩).tracks

/-! ## A segment -/

namespace Correction

variable {σ ρ : Type} {R : σ → ρ → Prop} {solver : Solver σ K} {copy : Solver ρ K}
  {limits : Limits K}

/-- A de-rating loop whose states all have one entry per joint. -/
structure Trial.Shaped (t : Trial K) (n : ℕ) : Prop where
  target : t.target.checkJointCount n = .ok ()
  latest : t.latest.state.checkJointCount n = .ok ()

/-- What is scaled is the velocity of every joint that has a position. -/
theorem scaledTarget_eq_ok {factor duration : K} {t : Trial K} {target : State K}
    (h : scaledTarget factor duration t = .ok target) : target.position = t.target.position
      ∧ target.velocity = (t.target.velocity.take t.target.position.length).map (fun v => v * factor)
        ++ t.target.velocity.drop t.target.position.length := by
  rw [scaledTarget] at h
  split_ifs at h
  · exact nomatch h
  · obtain rfl := Except.ok.inj h
    exact ⟨rfl, rfl⟩

/-- Where no entry is missing, all of them are scaled. -/
theorem scaledTarget_eq (factor duration : K) {t : Trial K} (h : t.Shaped n) :
    scaledTarget factor duration t = .ok
      { position := t.target.position
        velocity := t.target.velocity.map fun v => v * factor
        acceleration := List.zipWith (fun v l => (v - l) / duration)
          (t.target.velocity.map fun v => v * factor) t.latest.state.velocity } := by
  obtain ⟨hp, hv, ha⟩ := State.checkJointCount_eq_ok.mp h.target
  obtain ⟨-, hlatest, -⟩ := State.checkJointCount_eq_ok.mp h.latest
  have hcond : ¬((decide (t.target.velocity.length < t.target.position.length)
      || decide (t.target.acceleration.length < t.target.position.length)
      || decide (t.latest.state.velocity.length < t.target.position.length)) = true) := by
    simp [hp, hv, ha, hlatest]
  refine (if_neg hcond).trans (congrArg Except.ok ?_)
  rw [List.take_of_length_le (hv.trans hp.symm).le, List.drop_of_length_le (hv.trans hp.symm).le,
    List.drop_of_length_le (ha.trans hp.symm).le, List.append_nil, List.append_nil]

theorem scaledTarget_shape (factor duration : K) {t : Trial K} (h : t.Shaped n) :
    ∃ target, scaledTarget factor duration t = .ok target
      ∧ target.checkJointCount n = .ok () := by
  obtain ⟨hp, hv, -⟩ := State.checkJointCount_eq_ok.mp h.target
  obtain ⟨-, hlatest, -⟩ := State.checkJointCount_eq_ok.mp h.latest
  refine ⟨_, scaledTarget_eq factor duration h, ?_⟩
  simp [State.checkJointCount_eq_ok, hp, hv, hlatest]

theorem derateOnce_tracks (hmirrors : solver.Mirrors R copy limits n) (factor floor : K)
    {current : State K} (hcurrent : current.checkJointCount n = .ok ()) (duration : K)
    {t : Trial K} (ht : t.Shaped n) :
    Run.Tracks R ((derateOnce solver limits factor floor current duration).run t)
      ((derateOnce copy limits factor floor current duration).run t)
      (fun r => r.2.Shaped n) Stop.IsError := by
  obtain ⟨target, htarget, hshape⟩ := scaledTarget_shape factor duration ht
  simp only [derateOnce, StateT.run_bind, StateT.run_get, StateT.run_lift, pure_bind, bind_assoc]
  rw [htarget]
  refine (Run.Tracks.of_result (Q := (· = target)) (fun _ h => (Except.ok.inj h).symm)
    nofun).bind ?_
  rintro _ rfl
  refine ((hmirrors.update hcurrent hshape none).capture (F := Stop.IsError)
    fun _ h => absurd h Stop.not_isError_fault).bind fun answer hanswer => ?_
  cases answer with
  | ok reply => exact .pure ⟨hshape, hanswer reply rfl⟩
  | error e => exact .pure ⟨hshape, ht.latest⟩

theorem derate_tracks (settings : ChainSettings K) (hmirrors : solver.Mirrors R copy limits n)
    {current target : State K} (hcurrent : current.checkJointCount n = .ok ())
    (htarget : target.checkJointCount n = .ok ()) (duration : K) {first : Reply K}
    (hfirst : first.state.checkJointCount n = .ok ()) :
    Run.Tracks R (derate solver limits settings current target duration first)
      (derate copy limits settings current target duration first)
      (fun c => c.state.checkJointCount n = .ok ()) Stop.IsError := by
  have hloop := Run.Tracks.retryFrom_invariant (I := (Trial.Shaped · n)) (E := Stop.IsError)
    pure pure (fun _ t ht => derateOnce_tracks hmirrors settings.deratingFactor
      settings.speedFloor hcurrent duration ht) (fun _ _ ht => .pure ht)
    (deratingBound (State.norm target.velocity) settings.speedFloor settings.deratingFactor) 0 none
    (t := ⟨target, first, false, none⟩) ⟨htarget, hfirst⟩
  refine hloop.bind fun ⟨attempts, trial⟩ htrial => ?_
  dsimp only
  split
  · exact .throw ⟨_, rfl⟩
  · exact .pure htrial.latest

/-- **A segment between states with one entry per joint** does not fault, and what becomes of it has
one entry per joint. Solvers that answer alike make the same of it. -/
theorem segment_tracks (settings : ChainSettings K) (hmirrors : solver.Mirrors R copy limits n)
    {current target : State K} (hcurrent : current.checkJointCount n = .ok ())
    (htarget : target.checkJointCount n = .ok ()) (duration : K) :
    Run.Tracks R (segment solver limits settings current target duration)
      (segment copy limits settings current target duration)
      (fun c => c.state.checkJointCount n = .ok ()) Stop.IsError := by
  refine (hmirrors.setTimeStep duration).bind fun _ _ =>
    (hmirrors.update hcurrent htarget none).bind fun first hfirst => ?_
  dsimp only
  split_ifs
  · exact .pure hfirst
  · exact .pure hcurrent
  · exact derate_tracks settings hmirrors hcurrent htarget duration hfirst

theorem segment_ends (settings : ChainSettings K) (hsolver : solver.Shaped n)
    (hlimits : limits.Shaped n) {current target : State K}
    (hcurrent : current.checkJointCount n = .ok ())
    (htarget : target.checkJointCount n = .ok ()) (duration : K) :
    Run.Ends (segment solver limits settings current target duration)
      (fun c => c.state.checkJointCount n = .ok ()) Stop.IsError :=
  .of_tracks (fun _ => rfl)
    (segment_tracks settings (hsolver.mirrors hlimits) hcurrent htarget duration)

end Correction

end JerkLimit

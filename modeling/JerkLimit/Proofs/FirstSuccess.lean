import Mathlib
import JerkLimit.Proofs.Chain
import JerkLimit.Proofs.Shape

/-!
# Proofs/FirstSuccess — smoothing is the first pass that succeeds

A smoothing run threads one solver and one set of waypoints through all its attempts. What comes out
does not show it: `smoothWith_first_success` says that a run ends well exactly if one of the passes
over a fresh copy of the unwound input does, and that the result is the first such pass and nothing
else.

A pass over a fresh copy is a list of `corrections`, each made by the solver as it was handed over.
That works for a solver that keeps nothing in mind but its time step (`Solver.Memoryless`), because
every segment starts by setting it (`Correction.segment_answer`).
-/

namespace JerkLimit

open Scalar

variable {σ K : Type} [Scalar K]

/-! ## Attempts that always answer -/

section Attempts

variable {ε α : Type} {attempt : ℕ → Run σ ε α} {f : ℕ → α} (ok : α → Bool) {I : σ → Prop}
  (hattempt : ∀ i s, I s → ∃ s', (attempt i).run.run s = (.ok (f i), s') ∧ I s')

include hattempt

/-- The first answer that is approved is the last one. -/
theorem retryFrom_accepted {n i k : ℕ} (hi : i ≤ k) (hk : k < i + n) (hok : ok (f k) = true)
    (hfirst : ∀ j, i ≤ j → j < k → ok (f j) = false) (last : Option (Attempts α)) {s : σ}
    (hs : I s) : ∃ s', (retryFrom attempt (fun a => pure (ok a)) n i last).run.run s
      = (.ok (some ⟨f k, true, k + 1⟩), s') := by
  induction n generalizing i last s with
  | zero => omega
  | succ n ih =>
    obtain ⟨s₁, hs₁, hI⟩ := hattempt i s hs
    rcases hi.eq_or_lt with rfl | hlt
    · exact ⟨s₁, retryFrom_of_accepted hs₁ hok⟩
    · rw [retryFrom_of_rejected hs₁ (hfirst i le_rfl hlt)]
      exact ih hlt (by omega) (fun j hj => hfirst j (by omega)) _ hI

/-- Without one there is no approval. -/
theorem retryFrom_rejected {n i : ℕ} (h : ∀ j, i ≤ j → j < i + n → ok (f j) = false)
    (last : Option (Attempts α)) (hlast : ∀ a, last = some a → a.accepted = false) {s : σ}
    (hs : I s) : ∃ o s', (retryFrom attempt (fun a => pure (ok a)) n i last).run.run s = (.ok o, s')
      ∧ ∀ a, o = some a → a.accepted = false := by
  induction n generalizing i last s with
  | zero => exact ⟨last, s, rfl, hlast⟩
  | succ n ih =>
    obtain ⟨s₁, hs₁, hI⟩ := hattempt i s hs
    rw [retryFrom_of_rejected hs₁ (h i le_rfl (by omega))]
    refine ih (fun j hj hlt => h j (by omega) (by omega)) _ (fun a ha => ?_) hI
    exact Option.some.inj ha ▸ rfl

end Attempts

/-! ## Solvers without a memory -/

/-- A solver that keeps nothing in mind but its time step. -/
structure Solver.Memoryless (solver : Solver σ K) : Prop where
  jointCount_update (r : Request K) (s : σ) :
    solver.jointCount ((solver.update r).run.run s).2 = solver.jointCount s
  jointCount_setTimeStep (timeStep : K) (s : σ) :
    solver.jointCount ((solver.setTimeStep timeStep).run.run s).2 = solver.jointCount s
  /-- An answer depends on the time step and the request. -/
  update (r : Request K) {s s' : σ} (hcount : solver.jointCount s = solver.jointCount s')
    (hstep : solver.timeStep s = solver.timeStep s') :
    ((solver.update r).run.run s).1 = ((solver.update r).run.run s').1
      ∧ solver.timeStep ((solver.update r).run.run s).2
        = solver.timeStep ((solver.update r).run.run s').2
  /-- Whether a time step is accepted does not depend on the one before. -/
  setTimeStep (timeStep : K) {s s' : σ} (hcount : solver.jointCount s = solver.jointCount s') :
    ((solver.setTimeStep timeStep).run.run s).1 = ((solver.setTimeStep timeStep).run.run s').1
  timeStep_setTimeStep {timeStep : K} {s s' : σ}
    (h : (solver.setTimeStep timeStep).run.run s = (.ok (), s')) : solver.timeStep s' = timeStep

theorem Planner.solver_memoryless : (Planner.solver : Solver (Planner K) K).Memoryless where
  jointCount_update _ _ := rfl
  jointCount_setTimeStep timeStep p := by
    rw [solver_setTimeStep_run]
    split_ifs <;> rfl
  update r {p p'} hcount hstep := by
    obtain ⟨n, timeStep⟩ := p
    obtain ⟨n', timeStep'⟩ := p'
    obtain rfl : n = n' := hcount
    obtain rfl : timeStep = timeStep' := hstep
    exact ⟨rfl, rfl⟩
  setTimeStep timeStep {p p'} _ := by
    rw [solver_setTimeStep_run, solver_setTimeStep_run]
    split_ifs <;> rfl
  timeStep_setTimeStep {timeStep p p'} h := by
    rw [solver_setTimeStep_run] at h
    split_ifs at h
    · exact congrArg Planner.timeStep (Prod.mk.inj h).2.symm
    · exact nomatch (Prod.mk.inj h).1

namespace Correction

variable {solver : Solver σ K} (limits : Limits K) (settings : ChainSettings K)
  (current target : State K) (duration : K) {n : ℕ}

/-- States of a solver for `n` joints that have the time step in common. -/
def Alike (solver : Solver σ K) (n : ℕ) (s s' : σ) : Prop :=
  solver.jointCount s = n ∧ solver.jointCount s' = n ∧ solver.timeStep s = solver.timeStep s'

omit [Scalar K] in
theorem update_agrees (h : solver.Memoryless) (n : ℕ) (r : Request K) :
    Run.Agrees (Alike solver n) (solver.update r) := by
  rintro s s' ⟨hs, hs', hstep⟩
  obtain ⟨hanswer, hafter⟩ := h.update r (hs.trans hs'.symm) hstep
  exact ⟨hanswer, (h.jointCount_update r s).trans hs, (h.jointCount_update r s').trans hs', hafter⟩

theorem derateOnce_agrees (h : solver.Memoryless) (n : ℕ) (factor floor : K) (t : Trial K) :
    Run.Agrees (Alike solver n)
      ((derateOnce solver limits factor floor current duration).run t) := by
  simp only [derateOnce, StateT.run_bind, StateT.run_get, StateT.run_lift, pure_bind, bind_assoc]
  refine (Run.Agrees.of_result _).bind fun target =>
    ((update_agrees h n _).capture).bind fun answer => ?_
  cases answer with
  | ok reply => exact .pure _
  | error e => exact .pure _

theorem derate_agrees (h : solver.Memoryless) (n : ℕ) (first : Reply K) :
    Run.Agrees (Alike solver n)
      (derate solver limits settings current target duration first) := by
  have hloop := Run.Agrees.retryFrom pure (fun _ t => derateOnce_agrees limits current duration h n
      settings.deratingFactor settings.speedFloor t) (fun _ _ => .pure _)
    (deratingBound (State.norm target.velocity) settings.speedFloor settings.deratingFactor) 0 none
    ⟨target, first, false, none⟩
  refine hloop.bind fun ⟨attempts, trial⟩ => ?_
  dsimp only
  split
  · exact .of_result _
  · exact .pure _

/-- **What becomes of a segment** does not depend on what the solver has done before. The two states
need not have a time step in common, since setting it comes first. -/
theorem segment_answer (h : solver.Memoryless) {s s' : σ}
    (hcount : solver.jointCount s = solver.jointCount s') :
    ((segment solver limits settings current target duration).run.run s).1
        = ((segment solver limits settings current target duration).run.run s').1
      ∧ solver.jointCount ((segment solver limits settings current target duration).run.run s).2
        = solver.jointCount s := by
  have hanswer := h.setTimeStep duration hcount
  have hkept := h.jointCount_setTimeStep duration
  obtain ⟨answer, s₁, hs⟩ : ∃ answer s₁,
      (solver.setTimeStep duration).run.run s = (answer, s₁) := ⟨_, _, rfl⟩
  obtain ⟨answer', s₁', hs'⟩ : ∃ answer s₁,
      (solver.setTimeStep duration).run.run s' = (answer, s₁) := ⟨_, _, rfl⟩
  have hcount₁ : solver.jointCount s₁ = solver.jointCount s := by simpa [hs] using hkept s
  have hcount₁' : solver.jointCount s₁' = solver.jointCount s' := by simpa [hs'] using hkept s'
  rw [hs, hs'] at hanswer
  subst hanswer
  cases answer with
  | error e =>
    rw [segment, run_bind_error hs, run_bind_error hs']
    exact ⟨rfl, hcount₁⟩
  | ok u =>
    have hstep := (h.timeStep_setTimeStep hs).trans (h.timeStep_setTimeStep hs').symm
    have halike : Alike solver (solver.jointCount s) s₁ s₁' :=
      ⟨hcount₁, hcount₁'.trans hcount.symm, hstep⟩
    rw [segment]
    refine (Run.Agrees.after hs hs' halike ?_).imp_right And.left
    refine (update_agrees h _ _).bind fun first => ?_
    dsimp only
    split_ifs
    · exact .pure _
    · exact .pure _
    · exact derate_agrees limits settings current target duration h _ first

end Correction

namespace Chain

open Correction

variable {solver : Solver σ K} {limits : Limits K} {settings : ChainSettings K}

/-! ## A pass over a fresh copy -/

/-- What a solver in state `s` makes of a segment, unless it rejects it. -/
def fresh (solver : Solver σ K) (limits : Limits K) (settings : ChainSettings K) (s : σ)
    (current target : State K) (duration : K) : Option (Correction K) :=
  ((segment solver limits settings current target duration).run.run s).1.toOption

/-- The corrections of the waypoints after `current`, each from the state that the one before has
written, up to the first segment that is rejected. -/
def corrections (correct : State K → State K → K → Option (Correction K)) :
    State K → List (Waypoint K) → List (Correction K)
  | _, [] => []
  | current, w :: ws =>
    (correct current w.state w.duration).elim [] fun c => c :: corrections correct c.state ws

/-- The waypoints with the states that the corrections have written. -/
def written : List (Correction K) → List (Waypoint K) → List (Waypoint K)
  | c :: cs, w :: ws => { w with state := c.state } :: written cs ws
  | _, ws => ws

/-- The status of the last segment, if no segment was rejected. -/
def lastStatus (status : Option Status) (cs : List (Correction K)) (ws : List (Waypoint K)) :
    Option Status :=
  if cs.length = ws.length then (cs.map Correction.status).getLast?.or status else none

/-- What a pass reports about its corrections. -/
def passOf (status : Option Status) (cs : List (Correction K)) (ws : List (Waypoint K)) :
    Pass K where
  waypoints := written cs ws
  status := lastStatus status cs ws
  derated := cs.countP fun c => 0 < c.deratings
  collapsed := cs.countP fun c => c.collapsed

omit [Scalar K] in
theorem passOf_cons (status : Option Status) (c : Correction K) (cs : List (Correction K))
    (w : Waypoint K) (ws : List (Waypoint K)) :
    passOf status (c :: cs) (w :: ws) =
      { waypoints := { w with state := c.state } :: (passOf (some c.status) cs ws).waypoints
        status := (passOf (some c.status) cs ws).status
        derated := (passOf (some c.status) cs ws).derated + if 0 < c.deratings then 1 else 0
        collapsed := (passOf (some c.status) cs ws).collapsed + if c.collapsed then 1 else 0 } := by
  have hstatus : lastStatus status (c :: cs) (w :: ws) = lastStatus (some c.status) cs ws := by
    simp [lastStatus, List.getLast?_cons, Option.or_some]
  simp [passOf, written, hstatus, List.countP_cons]

section Pass

omit [Scalar K] in
theorem check_patient (s : Polled σ) :
    (Polled.check patient : Run (Polled σ) (SmoothingError K) Unit).run.run s
      = (.ok (), { s with polls := s.polls + 1 }) := rfl

omit [Scalar K] in
theorem inside_run_error {ε ε' α : Type} {x : Run σ ε α} {e : ε} {s s' : σ} {polls : ℕ}
    (h : x.run.run s = (.error (.error e), s')) :
    (Polled.inside x : Run (Polled σ) ε' (Except ε α)).run.run ⟨s, polls⟩
      = (.ok (.error e), ⟨s', polls⟩) := by
  refine run_capture_error ?_
  change ((x.run.run s).1, (⟨(x.run.run s).2, polls⟩ : Polled σ)) = _
  rw [h]

omit [Scalar K] in
theorem inside_run_fault {ε ε' α : Type} {x : Run σ ε α} {f : Fault} {s s' : σ} {polls : ℕ}
    (h : x.run.run s = (.error (.fault f), s')) :
    (Polled.inside x : Run (Polled σ) ε' (Except ε α)).run.run ⟨s, polls⟩
      = (.error (.fault f), ⟨s', polls⟩) := by
  refine run_capture_fault ?_
  change ((x.run.run s).1, (⟨(x.run.run s).2, polls⟩ : Polled σ)) = _
  rw [h]

omit [Scalar K] in
theorem shaped_run {n : ℕ} {state : State K} (h : state.checkJointCount n = .ok ()) (s : σ) :
    (ExceptT.mk (pure ((state.checkJointCount n).mapError fun e => .error (.waypoints e))) :
      Run σ (SmoothingError K) Unit).run.run s = (.ok (), s) := by
  rw [h]
  rfl

variable (settings) (hmemory : solver.Memoryless) {n : ℕ} (hsolver : solver.Shaped n)
  (hlimits : limits.Shaped n) {s : σ}

include hmemory hsolver hlimits

/-- A segment in the middle of a run is corrected as by the solver that was handed over. -/
theorem inside_run_fresh {s₁ : σ} (hcount : solver.jointCount s₁ = solver.jointCount s)
    {current target : State K} (hcurrent : current.checkJointCount n = .ok ())
    (htarget : target.checkJointCount n = .ok ()) (duration : K) (polls : ℕ) :
    ∃ (corrected : Except (SolverError K) (Correction K)) (s₂ : σ),
      (Polled.inside (segment solver limits settings current target duration) :
        Run (Polled σ) (SmoothingError K) _).run.run ⟨s₁, polls⟩ = (.ok corrected, ⟨s₂, polls⟩)
      ∧ solver.jointCount s₂ = solver.jointCount s
      ∧ corrected.toOption = fresh solver limits settings s current target duration
      ∧ ∀ c, corrected = .ok c → c.state.checkJointCount n = .ok () := by
  obtain ⟨hanswer, hcount₂⟩ := segment_answer limits settings current target duration hmemory hcount
  have hends := segment_ends settings hsolver hlimits hcurrent htarget duration
  rw [fresh, ← hanswer]
  obtain ⟨answer, s₂, hs₂⟩ : ∃ answer s₂, (segment solver limits settings current target
      duration).run.run s₁ = (answer, s₂) := ⟨_, _, rfl⟩
  rw [hs₂] at hcount₂ ⊢
  cases answer with
  | ok c =>
    refine ⟨.ok c, s₂, inside_run_ok hs₂, hcount₂.trans hcount, rfl, fun c' hc' => ?_⟩
    exact Except.ok.inj hc' ▸ hends.value hs₂
  | error e =>
    obtain ⟨e, rfl⟩ := hends.stop hs₂
    exact ⟨.error e, s₂, inside_run_error hs₂, hcount₂.trans hcount, rfl, nofun⟩

/-- **A pass in the middle of a run** is the pass over a fresh copy. -/
theorem correctAfter_run {ws : List (Waypoint K)} (hws : Trajectory.ShapedAs n ws)
    {current : State K} (hcurrent : current.checkJointCount n = .ok ()) (status : Option Status)
    {s₁ : σ} (hcount : solver.jointCount s₁ = solver.jointCount s) (polls : ℕ) :
    ∃ s₂ : Polled σ, (correctAfter solver limits settings patient n status current ws).run.run
        ⟨s₁, polls⟩
      = (.ok (passOf status (corrections (fresh solver limits settings s) current ws) ws), s₂)
      ∧ solver.jointCount s₂.inner = solver.jointCount s := by
  induction ws generalizing current status s₁ polls with
  | nil => exact ⟨⟨s₁, polls⟩, rfl, hcount⟩
  | cons w ws ih =>
    obtain ⟨hw, hws⟩ := List.forall_mem_cons.mp hws
    obtain ⟨corrected, s₂, hs₂, hcount₂, hfresh, hshape⟩ := inside_run_fresh settings hmemory
      hsolver hlimits hcount hcurrent hw w.duration (polls + 1)
    rw [correctAfter, run_bind_ok (check_patient _), run_bind_ok hs₂, corrections, ← hfresh]
    cases corrected with
    | error e => exact ⟨⟨s₂, polls + 1⟩, rfl, hcount₂⟩
    | ok c =>
      have hc := hshape c rfl
      obtain ⟨s₃, hs₃, hcount₃⟩ := ih hws hc (some c.status) hcount₂ (polls + 1)
      refine ⟨s₃, ?_, hcount₃⟩
      refine (run_bind_ok (shaped_run hc _)).trans ((run_bind_ok hs₃).trans ?_)
      rw [Except.toOption, Option.elim_some, passOf_cons]
      rfl

end Pass

/-- The corrections of a whole list of waypoints; the first one stays. -/
def passOver (correct : State K → State K → K → Option (Correction K)) :
    List (Waypoint K) → List (Correction K)
  | [] => []
  | w :: ws => corrections correct w.state ws

/-- The whole list as the corrections leave it. -/
def rewritten (cs : List (Correction K)) : List (Waypoint K) → List (Waypoint K)
  | [] => []
  | w :: ws => w :: written cs ws

/-- No segment was rejected, and the last one is finished. -/
def Finished (cs : List (Correction K)) (ws : List (Waypoint K)) : Prop :=
  cs.length + 1 = ws.length ∧ (cs.map Correction.status).getLast? = some .finished

omit [Scalar K] in
theorem length_written (cs : List (Correction K)) (ws : List (Waypoint K)) :
    (written cs ws).length = ws.length := by
  induction cs generalizing ws with
  | nil => rfl
  | cons c cs ih =>
    cases ws with
    | nil => rfl
    | cons w ws => exact congrArg (· + 1) (ih ws)

omit [Scalar K] in
theorem length_rewritten (cs : List (Correction K)) (ws : List (Waypoint K)) :
    (rewritten cs ws).length = ws.length := by
  cases ws with
  | nil => rfl
  | cons w ws => exact congrArg (· + 1) (length_written cs ws)

theorem length_scaleDurations (factor : K) (ws : List (Waypoint K)) :
    (Trajectory.scaleDurations factor ws).length = ws.length := by
  cases ws with
  | nil => rfl
  | cons w ws => exact congrArg (· + 1) (List.length_map _)

theorem scaleDurations_ne_nil (factor : K) {ws : List (Waypoint K)} (h : ws ≠ []) :
    Trajectory.scaleDurations factor ws ≠ [] := by
  rw [← List.length_pos_iff, length_scaleDurations]
  exact List.length_pos_iff.mpr h

theorem shapedAs_scaleDurations {n : ℕ} (factor : K) {ws : List (Waypoint K)}
    (h : Trajectory.ShapedAs n ws) :
    Trajectory.ShapedAs n (Trajectory.scaleDurations factor ws) := by
  cases ws with
  | nil => exact h
  | cons w ws =>
    obtain ⟨hw, hws⟩ := List.forall_mem_cons.mp h
    refine List.forall_mem_cons.mpr ⟨hw, fun w' hw' => ?_⟩
    obtain ⟨w'', hw'', rfl⟩ := List.mem_map.mp hw'
    exact hws w'' hw''

/-- The pass that an attempt reports. -/
def passReport (cs : List (Correction K)) (ws : List (Waypoint K)) : Pass K :=
  { passOf none cs ws.tail with waypoints := rewritten cs ws }

omit [Scalar K] in
theorem succeeded_iff (cs : List (Correction K)) (ws : List (Waypoint K)) (hws : ws ≠ []) :
    Pass.succeeded (passReport cs ws) = true ↔ Finished cs ws := by
  obtain ⟨w, ws, rfl⟩ := List.exists_cons_of_ne_nil hws
  change decide (lastStatus none cs ws = some .finished) = true ↔ _
  rw [decide_eq_true_iff, lastStatus, Finished, List.length_cons, Nat.add_right_cancel_iff,
    Option.or_none]
  split_ifs with hlength
  · simp [hlength]
  · simp [hlength]

/-- The waypoints that attempt `k` starts with: every duration after the first waypoint is multiplied
by the scale of the attempt. -/
def stretched (settings : ChainSettings K) (seed : Trajectory K) (k : ℕ) : List (Waypoint K) :=
  seed.waypoints.take 1 ++ seed.waypoints.tail.map fun w =>
    { w with duration := w.duration * attemptScale settings k }

theorem stretched_eq (settings : ChainSettings K) (seed : Trajectory K) (k : ℕ) :
    stretched settings seed k
      = Trajectory.scaleDurations (attemptScale settings k) seed.waypoints := by
  rw [stretched]
  cases seed.waypoints <;> rfl

theorem length_stretched (settings : ChainSettings K) (seed : Trajectory K) (k : ℕ) :
    (stretched settings seed k).length = seed.waypointCount := by
  rw [stretched_eq, length_scaleDurations, Trajectory.waypointCount]

theorem stretched_ne_nil (settings : ChainSettings K) {seed : Trajectory K}
    (h : seed.waypoints ≠ []) (k : ℕ) : stretched settings seed k ≠ [] := by
  rw [stretched_eq]
  exact scaleDurations_ne_nil _ h

/-- The corrections of attempt `k` by a solver in state `s`. -/
def passAt (solver : Solver σ K) (limits : Limits K) (settings : ChainSettings K) (s : σ)
    (seed : Trajectory K) (k : ℕ) : List (Correction K) :=
  passOver (fresh solver limits settings s) (stretched settings seed k)

section Attempts

variable (settings) (hmemory : solver.Memoryless) {seed : Trajectory K}
  (hsolver : solver.Shaped seed.jointCount) (hlimits : limits.Shaped seed.jointCount)
  (hseed : Trajectory.ShapedAs seed.jointCount seed.waypoints) (hne : seed.waypoints ≠ []) {s : σ}

include hmemory hsolver hlimits hseed hne

/-- **An attempt in the middle of a run** is a pass over a fresh copy. -/
theorem attempt_run (k : ℕ) (s₁ : Polled σ)
    (hcount : solver.jointCount s₁.inner = solver.jointCount s) :
    ∃ s₂ : Polled σ, (attempt solver limits settings patient seed k).run.run s₁
      = (.ok (attemptScale settings k,
          passReport (passAt solver limits settings s seed k) (stretched settings seed k)), s₂)
      ∧ solver.jointCount s₂.inner = solver.jointCount s := by
  obtain ⟨w, ws, hws⟩ : ∃ w ws,
      Trajectory.scaleDurations (attemptScale settings k) seed.waypoints = w :: ws :=
    List.exists_cons_of_ne_nil (scaleDurations_ne_nil _ hne)
  obtain ⟨hw, hrest⟩ := List.forall_mem_cons.mp (hws ▸ shapedAs_scaleDurations _ hseed)
  obtain ⟨s₂, hs₂, hcount₂⟩ := correctAfter_run settings hmemory hsolver hlimits hrest hw none
    hcount (s₁.polls + 1)
  refine ⟨s₂, ?_, hcount₂⟩
  simp only [attempt, passAt, stretched_eq, hws]
  exact (run_bind_ok (check_patient _)).trans (run_bind_ok (run_bind_ok hs₂))

/-- The first attempt that succeeds is the last one. -/
theorem attempts_accepted {k : ℕ} (hk : k < settings.maxAttempts)
    (hpass : Finished (passAt solver limits settings s seed k) (stretched settings seed k))
    (hleast : ∀ j < k,
      ¬Finished (passAt solver limits settings s seed j) (stretched settings seed j)) (polls : ℕ) :
    ((attempts solver limits settings patient seed).run.run ⟨s, polls⟩).1
      = .ok (some ⟨(attemptScale settings k,
          passReport (passAt solver limits settings s seed k) (stretched settings seed k)),
          true, k + 1⟩) := by
  have hsucceeded (j : ℕ) :=
    succeeded_iff (passAt solver limits settings s seed j) _ (stretched_ne_nil settings hne j)
  obtain ⟨s', hs'⟩ := retryFrom_accepted (fun r => Pass.succeeded r.2)
    (attempt_run settings hmemory hsolver hlimits hseed hne) (Nat.zero_le k)
    (hk.trans_eq (zero_add _).symm) ((hsucceeded k).mpr hpass)
    (fun j _ hj => Bool.eq_false_iff.mpr (mt (hsucceeded j).mp (hleast j hj))) none
    (s := ⟨s, polls⟩) rfl
  exact congrArg Prod.fst hs'

/-- Without one no attempt is accepted. -/
theorem attempts_rejected (h : ∀ j < settings.maxAttempts,
      ¬Finished (passAt solver limits settings s seed j) (stretched settings seed j)) (polls : ℕ) :
    ∃ o, ((attempts solver limits settings patient seed).run.run ⟨s, polls⟩).1 = .ok o
      ∧ ∀ a, o = some a → a.accepted = false := by
  have hsucceeded (j : ℕ) :=
    succeeded_iff (passAt solver limits settings s seed j) _ (stretched_ne_nil settings hne j)
  have hfails (j : ℕ) (_ : 0 ≤ j) (hj : j < 0 + settings.maxAttempts) :
      Pass.succeeded (passReport (passAt solver limits settings s seed j)
        (stretched settings seed j)) = false :=
    Bool.eq_false_iff.mpr (mt (hsucceeded j).mp (h j (by omega)))
  obtain ⟨o, s', hs', ho⟩ := retryFrom_rejected (fun r => Pass.succeeded r.2)
    (attempt_run settings hmemory hsolver hlimits hseed hne) hfails none nofun
    (s := ⟨s, polls⟩) rfl
  exact ⟨o, congrArg Prod.fst hs', ho⟩

end Attempts

/-! ## A whole run -/

theorem conclude_accepted (seed : Trajectory K) (scale : K) (p : Pass K) (k : ℕ) :
    conclude seed (.ok (some ⟨(scale, p), true, k⟩))
      = ({ seed with waypoints := p.waypoints }, .ok {
          attempts := k
          durationScale := scale
          finalStatus := p.status
          seamFailures := []
          waypointCount := p.waypoints.length
          deratedSegments := p.derated
          collapsedSegments := p.collapsed }) := rfl

theorem conclude_rejected (seed : Trajectory K) {o : Option (Attempts (K × Pass K))}
    (ho : ∀ a, o = some a → a.accepted = false) :
    ∃ e, (conclude seed (.ok o)).2 = .error (.error e) := by
  cases o with
  | none => exact ⟨_, rfl⟩
  | some a =>
    obtain ⟨value, accepted, count⟩ := a
    obtain rfl : accepted = false := ho _ rfl
    exact ⟨_, rfl⟩

/-- A run whose input passes the checks is its attempts on the unwound input and their
conclusion. -/
theorem smoothWith_eq (settings : ChainSettings K) {fallbacks : Fallbacks K}
    (keepGoing : KeepGoing) {v a : K} {t : Trajectory K} {s : Polled σ}
    (hinput : checkInput fallbacks (solver.jointCount s.inner) v a t = .ok limits)
    (hunwind : t.unwind.2 = .ok ()) :
    (smoothWith solver settings fallbacks keepGoing v a t).run s
      = (conclude t.unwind.1
            ((attempts solver limits settings keepGoing t.unwind.1).run.run s).1,
          ((attempts solver limits settings keepGoing t.unwind.1).run.run s).2) := by
  obtain ⟨seed, hseed⟩ : ∃ seed, t.unwind = (seed, .ok ()) := ⟨t.unwind.1, Prod.ext rfl hunwind⟩
  rw [smoothWith, StateT.run_bind]
  simp only [get, getThe, MonadStateOf.get, StateT.get, StateT.run, pure, bind, hinput, hseed]
  rfl

theorem smoothWith_run (settings : ChainSettings K) {fallbacks : Fallbacks K}
    (keepGoing : KeepGoing) {v a : K} {t : Trajectory K} {s : σ}
    (hinput : checkInput fallbacks (solver.jointCount s) v a t = .ok limits)
    (hunwind : t.unwind.2 = .ok ()) (polls : ℕ) :
    ((smoothWith solver settings fallbacks keepGoing v a t).run ⟨s, polls⟩).1
      = conclude t.unwind.1
          ((attempts solver limits settings keepGoing t.unwind.1).run.run ⟨s, polls⟩).1 :=
  congrArg Prod.fst (smoothWith_eq settings keepGoing (s := ⟨s, polls⟩) hinput hunwind)

/-- A trajectory that unwinds to something that can be corrected. -/
structure Prepared (t : Trajectory K) (limits : Limits K) : Prop where
  unwound : t.unwind.2 = .ok ()
  jointCount : t.unwind.1.jointCount = t.jointCount
  waypointCount : t.unwind.1.waypointCount = t.waypointCount
  shape : Trajectory.ShapedAs t.unwind.1.jointCount t.unwind.1.waypoints
  ne_nil : t.unwind.1.waypoints ≠ []
  limits : limits.Shaped t.unwind.1.jointCount

omit [Scalar K] in
theorem two_le_of_checkPlanned {t : Trajectory K} {u : Unit} (h : t.checkPlanned = .ok u) :
    2 ≤ t.waypointCount := by
  obtain ⟨⟨⟩, -, h⟩ := bind_eq_ok.mp h
  exact of_decide_eq_true (ensure_eq_ok.mp h)

theorem two_le_of_checkInput {fallbacks : Fallbacks K} {joints : ℕ} {v a : K} {t : Trajectory K}
    (h : checkInput fallbacks joints v a t = .ok limits) : 2 ≤ t.waypointCount := by
  obtain ⟨⟨⟩, hplanned, -⟩ := bind_eq_ok.mp h
  exact two_le_of_checkPlanned hplanned

theorem prepared_of_checkInput {fallbacks : Fallbacks K} {joints : ℕ} {v a : K}
    {t : Trajectory K} (h : checkInput fallbacks joints v a t = .ok limits) :
    Prepared t limits := by
  have hcount := two_le_of_checkInput h
  obtain ⟨⟨⟩, -, h⟩ := bind_eq_ok.mp h
  obtain ⟨⟨⟩, -, h⟩ := bind_eq_ok.mp h
  obtain ⟨hshape, hlimits⟩ := Trajectory.shape_of_batchLimits h
  obtain ⟨hunwind, hjoints, hlength, hseed⟩ := Trajectory.unwind_unwound hshape
  exact {
    unwound := hunwind
    jointCount := hjoints
    waypointCount := hlength
    shape := hjoints.symm ▸ hseed
    ne_nil := List.length_pos_iff.mp (two_pos.trans_le (hcount.trans hlength.ge))
    limits := hjoints.symm ▸ hlimits }

/-- **Smoothing is the first pass that succeeds**, over a fresh copy of the unwound input: without
one there is no success, and the first one is all that is left of a run with one. -/
theorem smoothWith_first_success (settings : ChainSettings K) {t : Trajectory K}
    (hmemory : solver.Memoryless) (hsolver : solver.Shaped t.jointCount)
    {fallbacks : Fallbacks K} {v a : K} {s : σ}
    (hinput : checkInput fallbacks (solver.jointCount s) v a t = .ok limits) (polls : ℕ) :
    let copy := stretched settings t.unwind.1
    let pass := passAt solver limits settings s t.unwind.1
    let result := ((smoothWith solver settings fallbacks patient v a t).run ⟨s, polls⟩).1
    ((∃ report, result.2 = .ok report) ↔ ∃ k < settings.maxAttempts, Finished (pass k) (copy k))
      ∧ ∀ k < settings.maxAttempts, Finished (pass k) (copy k) →
        (∀ j < k, ¬Finished (pass j) (copy j)) →
        result = (⟨t.group, t.joints, rewritten (pass k) (copy k)⟩, .ok {
          attempts := k + 1
          durationScale := attemptScale settings k
          finalStatus := some .finished
          seamFailures := []
          waypointCount := t.waypointCount
          deratedSegments := (pass k).countP fun c => 0 < c.deratings
          collapsedSegments := (pass k).countP fun c => c.collapsed }) := by
  intro copy pass result
  obtain ⟨hunwind, hjoints, hlength, hseed, hne, hlimits⟩ := prepared_of_checkInput hinput
  rw [← hjoints] at hsolver
  have hresult : result = _ := smoothWith_run settings patient hinput hunwind polls
  have hfirst {k : ℕ} (hk : k < settings.maxAttempts) (hpass : Finished (pass k) (copy k))
      (hleast : ∀ j < k, ¬Finished (pass j) (copy j)) : result = conclude t.unwind.1
        (.ok (some ⟨(attemptScale settings k, passReport (pass k) (copy k)), true, k + 1⟩)) := by
    rw [hresult, attempts_accepted settings hmemory hsolver hlimits hseed hne hk hpass hleast]
  refine ⟨⟨fun ⟨report, hreport⟩ => ?_, fun ⟨k, hk, hpass⟩ => ?_⟩, fun k hk hpass hleast => ?_⟩
  · by_contra hnone
    obtain ⟨o, hattempts, ho⟩ := attempts_rejected settings hmemory hsolver hlimits hseed hne
      (fun j hj hpass => hnone ⟨j, hj, hpass⟩) polls
    obtain ⟨e, he⟩ := conclude_rejected t.unwind.1 ho
    rw [hresult, hattempts, he] at hreport
    cases hreport
  · -- A run with a success has a first one, which need not be the one that is given.
    classical
    have hexists : ∃ k, Finished (pass k) (copy k) := ⟨k, hpass⟩
    have hleast := hfirst ((Nat.find_min' hexists hpass).trans_lt hk) (Nat.find_spec hexists)
      fun j hj => Nat.find_min hexists hj
    exact ⟨_, congrArg Prod.snd hleast⟩
  · have hstatus : (passReport (pass k) (copy k)).status = some .finished :=
      of_decide_eq_true ((succeeded_iff _ _ (stretched_ne_nil settings hne k)).mpr hpass)
    have hcopy : (passReport (pass k) (copy k)).waypoints.length = t.waypointCount :=
      (length_rewritten _ _).trans ((length_stretched _ _ _).trans hlength)
    rw [hfirst hk hpass hleast, conclude_accepted, hstatus, hcopy]
    rfl

/-- A joint that brakes all the time and turns around, with half the time for it that it takes, in
double precision. -/
def hurried : Trajectory Float :=
  ⟨some "arm", [⟨"j0", .revolute, ⟨some 2, some 8, none⟩⟩], [⟨⟨[0], [-2], [8]⟩, 0⟩,
    ⟨⟨[0], [2], [8]⟩, 0.0625⟩, ⟨⟨[-0.1875], [-1], [8]⟩, 0.0625⟩, ⟨⟨[-0.25], [0], [8]⟩, 0.0625⟩]⟩

/-- Every attempt takes twice as long as the one before. -/
def doubling : ChainSettings Float := { (default : ChainSettings Float) with extensionFactor := 2 }

theorem checkInput_hurried : checkInput default 1 1 1 hurried = .ok ⟨[2], [8], [20]⟩ :=
  toOption_eq_some.mp (by decide +kernel)

/-- In the time that was asked for the joint gets half way. The first segment ends where it starts
and is collapsed. -/
theorem passAt_hurried_zero :
    passAt Planner.solver ⟨[2], [8], [20]⟩ doubling ⟨1, 2⟩ hurried.unwind.1 0
      = [⟨⟨[0], [-2], [8]⟩, .finished, 0, true⟩, ⟨⟨[-0.109375], [-1.5], [8]⟩, .working, 0, false⟩,
        ⟨⟨[-0.1875], [-1], [8]⟩, .working, 0, false⟩] := by decide +kernel

/-- In twice that time it arrives. -/
theorem passAt_hurried_one :
    passAt Planner.solver ⟨[2], [8], [20]⟩ doubling ⟨1, 2⟩ hurried.unwind.1 1
      = [⟨⟨[0], [-2], [8]⟩, .finished, 0, true⟩, ⟨⟨[-0.1875], [-1], [8]⟩, .finished, 0, false⟩,
        ⟨⟨[-0.25], [0], [8]⟩, .finished, 0, false⟩] := by decide +kernel

theorem stretched_hurried_one : stretched doubling hurried.unwind.1 1 = [⟨⟨[0], [-2], [8]⟩, 0⟩,
    ⟨⟨[0], [2], [8]⟩, 0.125⟩, ⟨⟨[-0.1875], [-1], [8]⟩, 0.125⟩, ⟨⟨[-0.25], [0], [8]⟩, 0.125⟩] := by
  decide +kernel

/-- The second attempt succeeds, and nothing of the first is left. -/
theorem smoothWith_hurried :
    ((smoothWith Planner.solver doubling default patient 1 1 hurried).run ⟨⟨1, 2⟩, 0⟩).1
      = (⟨hurried.group, hurried.joints, [⟨⟨[0], [-2], [8]⟩, 0⟩, ⟨⟨[0], [-2], [8]⟩, 0.125⟩,
          ⟨⟨[-0.1875], [-1], [8]⟩, 0.125⟩, ⟨⟨[-0.25], [0], [8]⟩, 0.125⟩]⟩, .ok {
        attempts := 2
        durationScale := 2
        finalStatus := some .finished
        seamFailures := []
        waypointCount := 4
        deratedSegments := 0
        collapsedSegments := 1 }) := by
  have hfailed : ¬Finished (passAt Planner.solver ⟨[2], [8], [20]⟩ doubling ⟨1, 2⟩
      hurried.unwind.1 0) (stretched doubling hurried.unwind.1 0) := by
    rw [passAt_hurried_zero]
    exact fun h => nomatch h.2
  have hfinished : Finished (passAt Planner.solver ⟨[2], [8], [20]⟩ doubling ⟨1, 2⟩
      hurried.unwind.1 1) (stretched doubling hurried.unwind.1 1) := by
    rw [passAt_hurried_one, stretched_hurried_one]
    exact ⟨rfl, rfl⟩
  have hscale : attemptScale doubling 1 = 2 := by decide +kernel
  have hresult := (smoothWith_first_success doubling Planner.solver_memoryless
    (Planner.solver_shaped 1) checkInput_hurried 0 (s := ⟨1, 2⟩)).2 1 (by decide) hfinished
    fun j hj => Nat.lt_one_iff.mp hj ▸ hfailed
  rw [hresult, passAt_hurried_one, stretched_hurried_one, hscale]
  rfl

end Chain

end JerkLimit

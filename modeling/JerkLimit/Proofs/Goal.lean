import Mathlib
import JerkLimit.Proofs.History

/-!
# Proofs/Goal — a successful run reaches the goal

A solver that only counts itself finished at the target (`Solver.StopsAtTarget`) brings a segment to
its target position, however often the target's velocity is scaled down on the way: de-rating does
not touch positions, and a finished answer belongs to the target that was asked for last
(`Correction.segment_lands`). Collapsed segments stay where they start, within a distance of their
own target. Along a chain the two give `Chain.smooth_reaches`: the last waypoint is at the goal, or
as close to it as a collapsed segment has to be, and runs of collapsed waypoints do not drift.
-/

namespace JerkLimit

open Scalar

variable {σ K : Type} [Scalar K]

/-! ## Finished answers -/

/-- A solver that is finished nowhere but at the target. -/
def Solver.StopsAtTarget (solver : Solver σ K) : Prop :=
  ∀ r, Run.Ends (solver.update r) (fun reply => reply.status = .finished → reply.state = r.target)
    fun _ => True

theorem Planner.solver_stopsAtTarget : (Planner.solver : Solver (Planner K) K).StopsAtTarget :=
  fun _ =>
    { value := fun h => state_of_finished (Prod.mk.inj h).1
      stop := fun _ => trivial }

namespace Correction

variable {solver : Solver σ K} (limits : Limits K)

/-! ## One segment -/

/-- A de-rating loop toward a position: it is the position of the latest target, and of the latest
answer if that is finished. -/
structure Trial.Toward (position : List K) (t : Trial K) : Prop where
  target : t.target.position = position
  latest : t.latest.status = .finished → t.latest.state.position = position

/-- How a correction from `current` lies to its target. -/
structure Lands (epsilon : K) (current target : State K) (c : Correction K) : Prop where
  collapsed : c.collapsed = true → c.state = current ∧ current.distance target ≤ epsilon
  finished : c.collapsed = false → c.status = .finished → c.state.position = target.position

theorem derateOnce_toward (hsolver : solver.StopsAtTarget) (factor floor : K) (current : State K)
    (duration : K) {position : List K} {t : Trial K} (ht : t.Toward position) :
    Run.Ends ((derateOnce solver limits factor floor current duration).run t)
      (fun r => r.2.Toward position) fun _ => True := by
  simp only [derateOnce, StateT.run_bind, StateT.run_get, StateT.run_lift, pure_bind, bind_assoc]
  refine (Run.Ends.of_result (Q := fun target => target.position = position)
    (fun target htarget => ?_) fun _ _ => trivial).bind fun target htarget => ?_
  · exact (scaledTarget_eq_ok ((mapError_ok _ _).mp htarget)).1.trans ht.target
  refine ((hsolver _).capture (F := fun _ => True) fun _ _ => trivial).bind fun answer hanswer => ?_
  cases answer with
  | ok reply =>
    refine .pure ⟨htarget, fun hstatus => ?_⟩
    exact (congrArg State.position (hanswer reply rfl hstatus)).trans htarget
  | error e => exact .pure ⟨htarget, ht.latest⟩

theorem derate_lands (settings : ChainSettings K) (hsolver : solver.StopsAtTarget)
    (current target : State K) (duration : K) {first : Reply K}
    (hfirst : first.status = .finished → first.state = target) :
    Run.Ends (derate solver limits settings current target duration first)
      (Lands settings.identicalDistance current target) fun _ => True := by
  have hloop := Run.Ends.retryFrom_invariant (I := Trial.Toward target.position)
    (E := fun _ => True) pure
    (fun _ t ht => derateOnce_toward limits hsolver settings.deratingFactor settings.speedFloor
      current duration ht)
    (fun _ _ ht => .pure ht)
    (deratingBound (State.norm target.velocity) settings.speedFloor settings.deratingFactor) 0 none
    (t := ⟨target, first, false, none⟩)
    ⟨rfl, fun hstatus => congrArg State.position (hfirst hstatus)⟩
  refine hloop.bind fun ⟨attempts, trial⟩ htrial => ?_
  dsimp only
  split
  · exact .throw trivial
  · exact .pure ⟨nofun, fun _ => htrial.latest⟩

/-- **A segment lands** at its target if it is finished, unless it is collapsed: then it stays where
it starts. -/
theorem segment_lands (settings : ChainSettings K) (hsolver : solver.StopsAtTarget)
    (current target : State K) (duration : K) :
    Run.Ends (segment solver limits settings current target duration)
      (Lands settings.identicalDistance current target) fun _ => True := by
  refine (Run.Ends.mk (fun _ => trivial) fun _ => trivial : Run.Ends (solver.setTimeStep duration)
    (fun _ => True) _).bind fun _ _ => (hsolver _).bind fun first hfirst => ?_
  dsimp only
  split_ifs with hlags hclose
  · exact .pure ⟨nofun, fun _ hstatus => congrArg State.position (hfirst hstatus)⟩
  · exact .pure ⟨fun _ => ⟨rfl, hclose⟩, nofun⟩
  · exact derate_lands limits settings hsolver current target duration hfirst

end Correction

namespace Chain

open Correction

variable {solver : Solver σ K} {limits : Limits K} {settings : ChainSettings K}
  {keepGoing : KeepGoing} {seed : Trajectory K}

/-! ## A chain of segments -/

/-- **Every correction lands** on its way from the state before it to its waypoint. -/
theorem Corrected.lands (hsolver : solver.StopsAtTarget) {s s' : σ} {current : State K}
    {ws : List (Waypoint K)} {cs : List (Correction K)}
    (h : Corrected solver limits settings s current ws cs s') {i : ℕ} {c : Correction K}
    (hc : cs[i]? = some c) : ∃ before w, (current :: cs.map Correction.state)[i]? = some before
      ∧ ws[i]? = some w ∧ Lands settings.identicalDistance before w.state c := by
  induction h generalizing i with
  | nil => exact nomatch hc
  | rejected => exact nomatch hc
  | @cons s s₁ s' current w ws c' cs hsegment _ ih =>
    cases i with
    | zero =>
      obtain rfl := Option.some.inj hc
      exact ⟨current, w, rfl, rfl,
        (segment_lands limits settings hsolver current w.state w.duration).value hsegment⟩
    | succ i => exact ih hc

/-- A collapsed segment ends in the state from which it starts. -/
theorem Corrected.still (hsolver : solver.StopsAtTarget) {s₀ s' : σ} {first : State K}
    {ws : List (Waypoint K)} {cs : List (Correction K)}
    (h : Corrected solver limits settings s₀ first ws cs s') {i : ℕ} {c : Correction K}
    (hc : cs[i]? = some c) (hcollapsed : c.collapsed = true) {s : State K}
    (hs : (first :: cs.map Correction.state)[i]? = some s) :
    (first :: cs.map Correction.state)[i + 1]? = some s
      ∧ ∃ goal, (first :: ws.map Waypoint.state)[i + 1]? = some goal
        ∧ s.distance goal ≤ settings.identicalDistance := by
  obtain ⟨before, w, hbefore, hw, hlands⟩ := h.lands hsolver hc
  obtain rfl := Option.some.inj (hs.symm.trans hbefore)
  obtain ⟨hstate, hclose⟩ := hlands.collapsed hcollapsed
  rw [List.getElem?_cons_succ, List.getElem?_cons_succ, List.getElem?_map, List.getElem?_map, hc,
    hw]
  exact ⟨congrArg some hstate, w.state, rfl, hclose⟩

/-- How the states that are left by the corrections `cs` lie to the states before, both counted
from the first waypoint, which is not corrected. -/
structure Reaches (epsilon : K) (before after : List (State K)) (cs : List (Correction K)) :
    Prop where
  length_before : before.length = cs.length + 1
  length_after : after.length = cs.length + 1
  /-- The first waypoint stays. -/
  start : after.head? = before.head?
  /-- The last waypoint is at the position where it was, or as close to it as a collapsed segment
  has to be. -/
  goal : ∃ goal reached c, before.getLast? = some goal ∧ after.getLast? = some reached
    ∧ cs.getLast? = some c
    ∧ if c.collapsed = true then reached.distance goal ≤ epsilon
      else reached.position = goal.position
  /-- A waypoint at the end of collapsed segments has the state from which they start, and all of
  them are collapsed close to where they were. -/
  still {i j : ℕ} : i ≤ cs.length →
    (∀ k, i ≤ k → k < j → ∃ c, cs[k]? = some c ∧ c.collapsed = true) →
      ∃ s, after[i]? = some s ∧ ∀ k, i < k → k ≤ j →
        after[k]? = some s ∧ ∃ goal, before[k]? = some goal ∧ s.distance goal ≤ epsilon

/-- A chain that ends finished reaches its goal. -/
theorem Corrected.reaches (hsolver : solver.StopsAtTarget) {s₀ s' : σ} {first : State K}
    {ws : List (Waypoint K)} {cs : List (Correction K)}
    (h : Corrected solver limits settings s₀ first ws cs s') (hlength : cs.length = ws.length)
    (hfinished : (cs.map Correction.status).getLast? = some .finished) :
    Reaches settings.identicalDistance (first :: ws.map Waypoint.state)
      (first :: cs.map Correction.state) cs where
  length_before := by rw [List.length_cons, List.length_map, hlength]
  length_after := by rw [List.length_cons, List.length_map]
  start := rfl
  goal := by
    rw [List.getLast?_map, Option.map_eq_some_iff] at hfinished
    obtain ⟨c, hc, hstatus⟩ := hfinished
    obtain ⟨before, w, -, hw, hlands⟩ := h.lands hsolver (List.getLast?_eq_getElem?.symm.trans hc)
    have hlast : ws.getLast? = some w := List.getLast?_eq_getElem?.trans (hlength ▸ hw)
    refine ⟨w.state, c.state, c, ?_, ?_, hc, ?_⟩
    · rw [List.getLast?_cons, List.getLast?_map, hlast]
      rfl
    · rw [List.getLast?_cons, List.getLast?_map, hc]
      rfl
    · split_ifs with hcollapsed
      · obtain ⟨hstate, hclose⟩ := hlands.collapsed hcollapsed
        exact hstate ▸ hclose
      · exact hlands.finished (Bool.eq_false_iff.mpr hcollapsed) hstatus
  still {i j} hi hcollapsed := by
    have hlt : i < (first :: cs.map Correction.state).length := by
      rw [List.length_cons, List.length_map]
      exact Nat.lt_succ_of_le hi
    obtain ⟨s, hs⟩ : ∃ s, (first :: cs.map Correction.state)[i]? = some s :=
      ⟨_, List.getElem?_eq_getElem hlt⟩
    -- The state is handed on from one collapsed segment to the next.
    have hstill (k : ℕ) (hik : i ≤ k) : k ≤ j →
        (first :: cs.map Correction.state)[k]? = some s := by
      induction k, hik using Nat.le_induction with
      | base => exact fun _ => hs
      | succ k hik ih =>
        intro hkj
        obtain ⟨c, hc, hcollapsed⟩ := hcollapsed k hik hkj
        exact (h.still hsolver hc hcollapsed (ih (Nat.le_of_succ_le hkj))).1
    refine ⟨s, hs, fun k hik hkj => ?_⟩
    obtain ⟨k, rfl⟩ := Nat.exists_eq_succ_of_ne_zero (Nat.ne_zero_of_lt hik)
    obtain ⟨c, hc, hcollapsed⟩ := hcollapsed k (Nat.le_of_lt_succ hik) hkj
    exact h.still hsolver hc hcollapsed
      (hstill k (Nat.le_of_lt_succ hik) (Nat.le_of_succ_le hkj))

/-! ## A whole run -/

section Run

variable {fallbacks : Fallbacks K} {v a : K} {t t' : Trajectory K} {report : Report K} {polls : ℕ}

/-- A run of the built-in solver is a run of `smoothWith`. -/
theorem run_of_smooth (h : smooth settings fallbacks keepGoing v a t = (t', .ok report, polls)) :
    ∃ (planner : Planner K) (s' : Polled (Planner K)),
      Planner.create t.jointCount (firstTimeStep t) = .ok planner
        ∧ (smoothWith Planner.solver settings fallbacks keepGoing v a t).run ⟨planner, 0⟩
          = ((t', .ok report), s') := by
  rw [smooth] at h
  cases hcreate : Planner.create t.jointCount (firstTimeStep t) with
  | error e =>
    rw [hcreate] at h
    cases (Prod.mk.inj (Prod.mk.inj h).2).1
  | ok planner =>
    rw [hcreate] at h
    obtain ⟨htrajectory, hrest⟩ := Prod.mk.inj h
    exact ⟨planner, _, rfl, Prod.ext (Prod.ext htrajectory (Prod.mk.inj hrest).1) rfl⟩

/-- **A successful run reaches the goal.** -/
theorem smooth_reaches
    (h : smooth settings fallbacks keepGoing v a t = (t', .ok report, polls)) :
    ∃ planner limits k cs, Planner.create t.jointCount (firstTimeStep t) = .ok planner
      ∧ checkInput fallbacks t.jointCount v a t = .ok limits
      ∧ Reached Planner.solver limits settings t.unwind.1 planner k cs
      ∧ report.attempts = k + 1
      ∧ report.deratedSegments = cs.countP (fun c => 0 < c.deratings)
      ∧ report.collapsedSegments = cs.countP (fun c => c.collapsed)
      ∧ Reaches settings.identicalDistance (t.unwind.1.waypoints.map Waypoint.state)
          (t'.waypoints.map Waypoint.state) cs := by
  obtain ⟨planner, s', hcreate, hrun⟩ := run_of_smooth h
  obtain ⟨limits, k, cs, hinput, hreached, -, hfinished, rfl, rfl⟩ := history_of_ok hrun
  have hinput : checkInput fallbacks t.jointCount v a t = .ok limits :=
    jointCount_of_create hcreate ▸ hinput
  refine ⟨planner, limits, k, cs, hcreate, hinput, hreached, rfl, rfl, rfl, ?_⟩
  obtain ⟨s₁, s₂, -, first, rest, hcopy, hcorrected⟩ := hreached
  obtain ⟨hlength, hstatus⟩ := hfinished
  have hbefore : t.unwind.1.waypoints.map Waypoint.state
      = first.state :: rest.map Waypoint.state := by
    rw [← states_stretched settings _ k]
    exact congrArg (List.map Waypoint.state) hcopy
  rw [hcopy, List.length_cons, Nat.add_right_cancel_iff] at hlength
  have hafter : (rewritten cs (stretched settings t.unwind.1 k)).map Waypoint.state
      = first.state :: cs.map Correction.state := by
    rw [hcopy, rewritten, List.map_cons, states_written hlength.le, hlength, List.drop_eq_nil_of_le
      (List.length_map _).le, List.append_nil]
  rw [hbefore, hafter]
  exact hcorrected.reaches Planner.solver_stopsAtTarget hlength hstatus

end Run

/-- Two steps of less than a millimetre that come too soon, in double precision. -/
def jitter : Trajectory Float :=
  ⟨some "arm", [⟨"j0", .revolute, ⟨some 1, some 8, none⟩⟩],
    [⟨⟨[0], [0], [8]⟩, 0⟩, ⟨⟨[0.0009765625], [0.125], [8]⟩, 0.0078125⟩,
      ⟨⟨[0.0009765625], [0.125], [8]⟩, 0.0078125⟩]⟩

/-- Both are collapsed. -/
theorem jitter_reaches : ∃ t' report polls,
    smooth default default patient 1 1 jitter = (t', .ok report, polls)
      ∧ report.collapsedSegments = 2
      ∧ ∃ planner limits k cs, Planner.create jitter.jointCount (firstTimeStep jitter) = .ok planner
        ∧ checkInput default jitter.jointCount 1 1 jitter = .ok limits
        ∧ Reached Planner.solver limits default jitter.unwind.1 planner k cs
        ∧ report.attempts = k + 1
        ∧ report.deratedSegments = cs.countP (fun c => 0 < c.deratings)
        ∧ report.collapsedSegments = cs.countP (fun c => c.collapsed)
        ∧ Reaches (default : ChainSettings Float).identicalDistance
            (jitter.unwind.1.waypoints.map Waypoint.state) (t'.waypoints.map Waypoint.state)
            cs := by
  have hcollapsed : (smooth default default patient 1 1 jitter).2.1.toOption.map
      Report.collapsedSegments = some 2 := by decide +kernel
  obtain ⟨⟨t', outcome, polls⟩, hsmooth⟩ : ∃ result,
      smooth default default patient 1 1 jitter = result := ⟨_, rfl⟩
  rw [hsmooth] at hcollapsed
  obtain ⟨report, hreport, htwo⟩ := Option.map_eq_some_iff.mp hcollapsed
  obtain rfl : outcome = .ok report := toOption_eq_some.mp hreport
  exact ⟨t', report, polls, hsmooth, htwo, smooth_reaches hsmooth⟩

end Chain

end JerkLimit

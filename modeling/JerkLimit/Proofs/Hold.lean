import Mathlib
import JerkLimit.Proofs.Seeding
import JerkLimit.Proofs.Shape

/-!
# Proofs/Hold — a command stream that has arrived stays

A joint that rests where it has to be has nothing to do, so its minimal duration is 0, and a planner
whose joints all rest is finished in no time (`Planner.search_of_stationary`). The answer is the
target itself, and the next cycle starts from there. So one cycle at rest leads to the next
(`CommandStream.step_of_rest`), and **`CommandStream.holds_target`** says that a stream which was
reset to rest somewhere, or has finished a command to go there, stays for as long as it is told
nothing else.

Nothing is rounded in a cycle at rest: the numbers are double precision throughout.
-/

namespace JerkLimit

open Scalar OrderedScalar

/-! ## Joints that have nothing to do -/

section Stationary

variable {K : Type} [Scalar K] {tasks : List (Task K)}
  (h : ∀ t ∈ tasks, t.isStationary = true)

include h

theorem minimalDurations_of_stationary (joint : ℕ) :
    minimalDurations joint tasks = .ok (tasks.map fun _ => 0.0) := by
  induction tasks generalizing joint with
  | nil => rfl
  | cons t tasks ih =>
    obtain ⟨ht, htasks⟩ := List.forall_mem_cons.mp h
    have hd : t.minimalDuration = some 0.0 := if_pos ht
    rw [minimalDurations, hd]
    exact bind_eq_ok.mpr ⟨_, ih htasks (joint + 1), rfl⟩

omit h in
/-- The slowest of nothing but zeros is zero. -/
theorem slowest_zeros (tasks : List (Task K)) : slowest (tasks.map fun _ => (0.0 : K)) = 0.0 := by
  rcases List.mem_cons.mp (maxFrom_mem (0.0 : K) (tasks.map fun _ => 0.0)) with hzero | hmem
  · exact hzero
  · obtain ⟨t, -, hzero⟩ := List.mem_map.mp hmem
    exact hzero.symm

variable [OrderedScalar K]

/-- **Joints that have nothing to do are finished at once.** -/
theorem Planner.search_of_stationary {p : Planner K} (hp : isPositive p.timeStep = true)
    {r : Request K} (hminimum : r.minimumDuration = none) :
    p.search r tasks = .ok ⟨.finished, r.target, 0.0⟩ := by
  have hcommon : commonDuration tasks (tasks.map fun _ => 0.0) r.minimumDuration = some 0.0 := by
    rw [commonDuration_eq_aim, hminimum]
    change (if slowest (tasks.map fun _ => (0.0 : K)) ≤ 0.0 then _ else _) = _
    rw [slowest_zeros, if_pos (number_zero K)]
  have hfits : 0.0 ≤ p.timeStep * (1.0 + finishSlack) := by
    have hpos := pos_of_isPositive hp
    exact le_trans (le_of_lt hpos) (le_mul_of_one_le hpos one_le_add_finishSlack)
  rw [Planner.search, minimalDurations_of_stationary h 0]
  refine bind_eq_ok.mpr ⟨_, rfl, ?_⟩
  rw [hcommon]
  exact if_pos hfits

end Stationary

/-! ## A request to stay -/

/-- A joint that rests. -/
def JointState.atRest {K : Type} [Scalar K] (position : K) : JointState K := ⟨position, 0.0, 0.0⟩

theorem State.joints_atRest {K : Type} [Scalar K] (position : List K) :
    (State.atRest position).joints = position.map JointState.atRest := by
  induction position with
  | nil => rfl
  | cons x xs ih => exact congrArg (JointState.atRest x :: ·) ih

theorem State.checkJointCount_atRest {K : Type} [Scalar K] (position : List K) :
    (State.atRest position).checkJointCount position.length = .ok () := by
  simp [State.checkJointCount_eq_ok, State.atRest]

theorem isFinite_zero : isFinite (0.0 : Float) = true := by decide

/-- Rest is within every limit. -/
theorem withinLimit_zero {limit : Float} (h : isPositive limit = true) :
    withinLimit (Scalar.abs (0.0 : Float)) limit = true := by
  have hpos := pos_of_isPositive h
  have hgrown : limit ≤ limit * (1.0 + limitTolerance) := le_mul_of_one_le hpos (by decide)
  have hslack : (0.0 : Float) < limitSlack := by decide
  have hsum : 0.0 < limit * (1.0 + limitTolerance) + limitSlack :=
    Double.zero_lt_add (lt_of_lt_of_le hpos hgrown) hslack
  exact decide_eq_true (le_of_lt hsum)

namespace Task

/-- A joint that is to stay passes the checks, and has nothing to do. -/
theorem exists_check_atRest (joint : ℕ) {x : Float} (hx : x.isFinite = true) {l : JointLimits Float}
    (hl : l.AllPositive) : ∃ t, Task.check joint (.atRest x) (.atRest x) (.ok l) = .ok t
      ∧ t.isStationary = true := by
  obtain ⟨hv, ha, hj⟩ := hl
  refine ⟨.ofLimits (.atRest x) (.atRest x) l, ?_, ?_⟩
  · simp only [Task.check, bind_eq_ok, pure_eq_ok, require_eq_ok, mapError_ok, exists_const]
    exact ⟨hx, isFinite_zero, isFinite_zero, hx, isFinite_zero, isFinite_zero, l, rfl, hv, ha, hj,
      withinLimit_zero hv, withinLimit_zero ha, rfl⟩
  · have hself : (x == x) = true := beq_self_iff.mpr (number_of_isFinite hx)
    have hzeros : ((0.0 : Float) == 0.0) = true := by decide
    simp only [isStationary, ofLimits, JointState.atRest, hself, hzeros, Bool.and_self]

end Task

namespace Request

theorem exists_tasksFrom_atRest {limits : Limits Float}
    (hpositive : ∀ l ∈ limits.joints, l.AllPositive) {position : List Float}
    (hfinite : ∀ x ∈ position, x.isFinite = true) {joint : ℕ}
    (hlength : joint + position.length ≤ limits.joints.length) :
    ∃ ts, tasksFrom limits joint (position.map .atRest) (position.map .atRest) = .ok ts
      ∧ ∀ t ∈ ts, t.isStationary = true := by
  induction position generalizing joint with
  | nil => exact ⟨[], rfl, nofun⟩
  | cons x xs ih =>
    obtain ⟨hx, hxs⟩ := List.forall_mem_cons.mp hfinite
    rw [List.length_cons] at hlength
    have hlt : joint < limits.joints.length := by omega
    have hl := Limits.joint_eq_ok.mpr (List.getElem?_eq_getElem hlt)
    obtain ⟨t, ht, hstationary⟩ :=
      Task.exists_check_atRest joint hx (hpositive _ (List.getElem_mem hlt))
    have hlength' : joint + 1 + xs.length ≤ limits.joints.length := by omega
    obtain ⟨ts, hts, hall⟩ := ih hxs hlength'
    refine ⟨t :: ts, ?_, List.forall_mem_cons.mpr ⟨hstationary, hall⟩⟩
    rw [List.map_cons, tasksFrom, hl]
    exact bind_eq_ok.mpr ⟨t, ht, bind_eq_ok.mpr ⟨ts, hts, rfl⟩⟩

/-- **A planner that is asked to stay** is finished at once. -/
theorem update_atRest {p : Planner Float} (hp : isPositive p.timeStep = true)
    {limits : Limits Float} (hlimits : limits.Accepted p.jointCount) {position : List Float}
    (hlength : position.length = p.jointCount) (hfinite : ∀ x ∈ position, x.isFinite = true) :
    p.update { current := .atRest position, target := .atRest position, limits }
      = .ok ⟨.finished, .atRest position, 0.0⟩ := by
  have hjoints : 0 + position.length ≤ limits.joints.length := by
    rw [Limits.length_joints_of_shaped hlimits.toShaped, hlength, Nat.zero_add]
  obtain ⟨ts, hts, hstationary⟩ :=
    exists_tasksFrom_atRest (fun l hl => hlimits.positive hl) hfinite hjoints
  have hcount := State.checkJointCount_atRest position
  rw [hlength] at hcount
  have htasks : Request.tasks (K := Float)
      { current := .atRest position, target := .atRest position, limits } p.jointCount
        = .ok ts := by
    refine bind_eq_ok.mpr ⟨(), Request.checkJointCount_eq_ok.mpr ⟨hcount, hcount,
      hlimits.velocity⟩, bind_eq_ok.mpr ⟨ts, ?_, rfl⟩⟩
    rwa [State.joints_atRest]
  refine bind_eq_ok.mpr ⟨ts, htasks, ?_⟩
  exact Planner.search_of_stationary hstationary hp rfl

end Request

namespace CommandStream

/-! ## Cycle after cycle -/

/-- Cycles for the commands in turn, each with the memory that the one before has left. -/
def cycles {σ K : Type} [Scalar K] (s : CommandStream σ K) :
    Memory K → List (State K) → Run σ Empty (List (StreamStep K))
  | _, [] => pure []
  | m, command :: commands => do
    let r ← s.step m command
    return r :: (← cycles s r.memory commands)

/-- A cycle that was finished where it started, at rest. -/
def resting {K : Type} [Scalar K] (position : List K) : StreamStep K where
  memory := ⟨.atRest position, .atRest position, true⟩
  command := .atRest position
  cycle := .smoothed .finished

/-- Whatever number of commands for a position come next, and whatever else they say, every cycle
is finished at rest there. -/
def Holds {σ K : Type} [Scalar K] (s : CommandStream σ K) (solver : σ) (m : Memory K)
    (position : List K) : Prop :=
  ∀ commands : List (State K), (∀ c ∈ commands, c.position = position) →
    (s.cycles m commands).run.run solver = (.ok (commands.map fun _ => resting position), solver)

variable {planner : Planner Float} {s : CommandStream (Planner Float) Float}
  {m : Memory Float} {position : List Float}

/-- **One cycle at rest.** -/
theorem step_of_rest (hs : s.solver = Planner.solver) (hp : isPositive planner.timeStep = true)
    (hlimits : s.limits.Accepted planner.jointCount)
    (hlength : position.length = planner.jointCount)
    (hfinite : ∀ x ∈ position, x.isFinite = true) (hm : planned m = .atRest position)
    {command : State Float} (hcommand : command.position = position) :
    (s.step m command).run.run planner = (.ok (resting position), planner) := by
  have hrequest : cycleRequest s (planned m) command
      = { current := .atRest position, target := .atRest position, limits := s.limits } := by
    rw [cycleRequest, hm, hcommand]
  have hupdate : (s.solver.update (cycleRequest s (planned m) command)).run.run planner
      = (.ok ⟨.finished, .atRest position, 0.0⟩, planner) := by
    rw [hs, hrequest]
    exact Prod.ext (Request.update_atRest hp hlimits hlength hfinite) rfl
  rw [step_run, hupdate]
  dsimp only
  rw [cycleResult, hm]
  rfl

/-- **Then the next cycle is at rest, too.** -/
theorem holds_of_planned (hs : s.solver = Planner.solver) (hp : isPositive planner.timeStep = true)
    (hlimits : s.limits.Accepted planner.jointCount)
    (hlength : position.length = planner.jointCount)
    (hfinite : ∀ x ∈ position, x.isFinite = true) (hm : planned m = .atRest position) :
    s.Holds planner m position := by
  intro commands hcommands
  induction commands generalizing m with
  | nil => rfl
  | cons command commands ih =>
    obtain ⟨hcommand, hrest⟩ := List.forall_mem_cons.mp hcommands
    rw [cycles, run_bind_ok (step_of_rest hs hp hlimits hlength hfinite hm hcommand)]
    -- The memory of a cycle at rest plans the next one from its output.
    rw [run_bind_ok (ih (m := (resting position).memory) rfl hrest)]
    rfl

/-! ## Where it stays -/

variable {n : ℕ} {timeStep : Float} {bounds : List (Bounds Float)} {fallbacks : Fallbacks Float}
  {m₀ : Memory Float}

/-- What is known of a stream for a planner. -/
theorem accepted_of_create (hplanner : Planner.create n timeStep = .ok planner)
    (hcreate : create Planner.solver planner bounds fallbacks = .ok (s, m₀)) :
    s.solver = Planner.solver ∧ isPositive planner.timeStep = true
      ∧ s.limits.Accepted planner.jointCount ∧ planner.jointCount = n := by
  obtain ⟨⟨⟩, hcount, hcreate⟩ := bind_eq_ok.mp hcreate
  obtain ⟨limits, hlimits, hcreate⟩ := bind_eq_ok.mp hcreate
  obtain ⟨rfl, -⟩ := Prod.mk.inj (pure_eq_ok.mp hcreate)
  have haccepted := Limits.accepted_of_forStreaming ((mapError_ok _ _).mp hlimits)
  have hlength : bounds.length = planner.jointCount := beq_iff_eq.mp (ensure_eq_ok.mp hcount)
  obtain ⟨⟨⟩, -, hpair⟩ := bind_eq_ok.mp hplanner
  have hn : planner.jointCount = n := pure_eq_ok.mp hpair ▸ rfl
  exact ⟨rfl, Planner.isPositive_of_create hplanner, hlength ▸ haccepted, hn⟩

/-- A stream that was set up with its planner in one go is one for that planner. -/
theorem create_of_createPlanner
    (h : createPlanner bounds n timeStep fallbacks = .ok (planner, s, m₀)) :
    Planner.create n timeStep = .ok planner
      ∧ create Planner.solver planner bounds fallbacks = .ok (s, m₀) := by
  obtain ⟨planner', hplanner, h⟩ := bind_eq_ok.mp h
  obtain ⟨pair, hcreate, h⟩ := bind_eq_ok.mp h
  obtain ⟨rfl, rfl⟩ := Prod.mk.inj (pure_eq_ok.mp h)
  exact ⟨(mapError_ok _ _).mp hplanner, hcreate⟩

/-- A finished cycle ends at rest at the position of its command. -/
theorem planned_of_finished (hs : s.solver = Planner.solver) {planner' : Planner Float}
    {command : State Float} {r : StreamStep Float}
    (h : (s.step m command).run.run planner = (.ok r, planner'))
    (hfinished : r.cycle = .smoothed .finished) :
    planner' = planner ∧ planned r.memory = .atRest command.position := by
  rw [step_run, hs] at h
  obtain ⟨hresult, hplanner⟩ := Prod.mk.inj h
  refine ⟨hplanner.symm, ?_⟩
  change cycleResult m command (planner.update _) = .ok r at hresult
  match hanswer : planner.update (cycleRequest s (planned m) command) with
  | .ok reply =>
    rw [hanswer] at hresult
    obtain rfl := Except.ok.inj hresult
    have hstatus : reply.status = .finished := Cycle.smoothed.inj hfinished
    exact Planner.state_of_finished hanswer hstatus
  | .error (.error e) =>
    rw [hanswer] at hresult
    obtain rfl := Except.ok.inj hresult
    exact nomatch hfinished
  | .error (.fault f) =>
    rw [hanswer] at hresult
    exact nomatch hresult

/-- **A target that was reached or reset to is held**, for any planner and any finite position: by
the memory of a reset to rest there, and by the memory of any cycle that has finished a command for
it. -/
theorem holds_target (hplanner : Planner.create n timeStep = .ok planner)
    (hcreate : create Planner.solver planner bounds fallbacks = .ok (s, m₀))
    (hlength : position.length = n) (hfinite : ∀ x ∈ position, x.isFinite = true) :
    (∃ m, s.reset planner (.atRest position) = .ok m ∧ s.Holds planner m position)
      ∧ ∀ (m : Memory Float) (command : State Float) (r : StreamStep Float)
          (planner' : Planner Float), command.position = position →
        (s.step m command).run.run planner = (.ok r, planner') →
        r.cycle = .smoothed .finished → s.Holds planner' r.memory position := by
  obtain ⟨hs, hp, hlimits, rfl⟩ := accepted_of_create hplanner hcreate
  constructor
  · have hjoints : s.solver.jointCount planner = position.length := by
      rw [hs, hlength]
      rfl
    have hcount : (State.atRest position).checkJointCount (s.solver.jointCount planner)
        = .ok () := by
      rw [hjoints]
      exact State.checkJointCount_atRest position
    have hzeros : ((position.map fun _ => (0.0 : Float)).all Scalar.isFinite) = true :=
      List.all_map.trans (List.all_eq_true.mpr fun _ _ => isFinite_zero)
    have hstate : (State.atRest position).isFinite = true := by
      have hposition : position.all Scalar.isFinite = true := List.all_eq_true.mpr hfinite
      simp only [State.isFinite, State.atRest, hposition, hzeros, Bool.and_self]
    refine ⟨.ofState (.atRest position), ?_, holds_of_planned hs hp hlimits hlength hfinite rfl⟩
    exact bind_eq_ok.mpr ⟨(), (mapError_ok _ _).mpr hcount,
      bind_eq_ok.mpr ⟨(), ensure_eq_ok.mpr hstate, rfl⟩⟩
  · intro m command r planner' hcommand h hfinished
    obtain ⟨rfl, hplanned⟩ := planned_of_finished hs h hfinished
    exact holds_of_planned hs hp hlimits hlength hfinite (hplanned.trans (hcommand ▸ rfl))

/-- A stream for two joints, with cycles of a second. -/
def brakes : CommandStream (Planner Float) Float :=
  ⟨Planner.solver, ⟨[5, 5], [10, 10], [6, 6]⟩⟩

/-- One joint brakes with constant jerk, the other one rests. -/
def braking : State Float := ⟨[0, 0], [-3, 0], [6, 0]⟩

/-- The first joint comes to rest within the cycle, and the second one has nothing to do but to
change the sign of its zero. -/
theorem status_braking : ((Planner.update ⟨2, 1⟩
    (cycleRequest brakes braking (.atRest [-1, -0.0]))).map Reply.status).toOption
      = some .finished := by decide +kernel

/-- They stay where they were reset to, and where they have come to rest. -/
theorem holds_braked : createPlanner (List.replicate 2 ⟨some 5, some 10, some 6⟩) 2 1 default
      = .ok (⟨2, 1⟩, brakes, .ofState (State.zeros 2))
    ∧ (∃ m, brakes.reset ⟨2, 1⟩ (.atRest [-1, -0.0]) = .ok m
      ∧ brakes.Holds ⟨2, 1⟩ m [-1, -0.0])
    ∧ ∃ r planner', (brakes.step (.ofState braking) (.atRest [-1, -0.0])).run.run ⟨2, 1⟩
        = (.ok r, planner') ∧ r.cycle = .smoothed .finished
      ∧ brakes.Holds planner' r.memory [-1, -0.0] := by
  have hbrakes : createPlanner (List.replicate 2 ⟨some 5, some 10, some 6⟩) 2 1 default
      = .ok (⟨2, 1⟩, brakes, .ofState (State.zeros 2)) := rfl
  obtain ⟨hplanner, hcreate⟩ := create_of_createPlanner hbrakes
  have hlength : ([-1, -0.0] : List Float).length = 2 := rfl
  obtain ⟨hreset, hstep⟩ := holds_target hplanner hcreate hlength (by decide)
  obtain ⟨reply, hreply, hstatus⟩ : ∃ reply, Planner.update ⟨2, 1⟩
      (cycleRequest brakes braking (.atRest [-1, -0.0])) = .ok reply
        ∧ reply.status = .finished := by
    have hmap := toOption_eq_some.mp status_braking
    match hreply : Planner.update ⟨2, 1⟩
        (cycleRequest brakes braking (.atRest [-1, -0.0])) with
    | .ok reply =>
      rw [hreply] at hmap
      exact ⟨reply, rfl, Except.ok.inj hmap⟩
    | .error e =>
      rw [hreply] at hmap
      exact nomatch hmap
  have hrun : (brakes.step (.ofState braking) (.atRest [-1, -0.0])).run.run ⟨2, 1⟩
      = (.ok ⟨⟨braking, reply.state, true⟩, reply.state, .smoothed reply.status⟩, ⟨2, 1⟩) := by
    rw [step_run]
    change (cycleResult _ _ (Planner.update ⟨2, 1⟩ (cycleRequest brakes braking _)), _) = _
    rw [hreply]
    rfl
  have hfinished : Cycle.smoothed reply.status = (.smoothed .finished : Cycle Float) :=
    congrArg _ hstatus
  exact ⟨hbrakes, hreset, _, _, hrun, hfinished, hstep _ _ _ _ rfl hrun hfinished⟩

end CommandStream

end JerkLimit

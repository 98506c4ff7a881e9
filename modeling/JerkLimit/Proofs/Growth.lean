import Mathlib
import JerkLimit.Proofs.Seeding

/-!
# Proofs/Growth — how far a command stream exceeds its limits

A cycle is checked against limits that are raised to the state it starts from, with some slack. So a
smoothed cycle exceeds what it started with by no more than the slack (`withinBy_of_update`), and
`k` smoothed cycles by no more than `k` times the slack (`smoothed_le_grown`). A cycle that is held
does not count.
-/

namespace JerkLimit.CommandStream

open Scalar Quintic

/-! ## One cycle -/

/-- A limit with both slacks of a comparison, twice. -/
noncomputable def grown (x : ℝ) : ℝ := x * (1 + 2.0 * 1e-9) + 2.0 * (1 / 4503599627370496.0)

theorem slackened_le_grown {x : ℝ} (hx : 0 ≤ x) : slackened x ≤ grown x := by
  rw [slackened, grown, Poly.peakError]
  norm_num
  linarith

theorem grown_mono {x y : ℝ} (h : x ≤ y) : grown x ≤ grown y := by
  rw [grown, grown]
  linarith

theorem le_grown {x : ℝ} (hx : 0 ≤ x) : x ≤ grown x := by
  rw [grown]
  linarith

theorem le_iterate_grown {x : ℝ} (hx : 0 ≤ x) (k : ℕ) : x ≤ grown^[k] x := by
  induction k with
  | zero => exact le_rfl
  | succ k ih =>
    rw [Function.iterate_succ_apply']
    exact ih.trans (le_grown (hx.trans ih))

/-- Every joint's velocity and acceleration is within `f` of its limit. -/
def WithinBy (f : ℝ → ℝ) (limits : Limits ℝ) (s : State ℝ) : Prop :=
  List.Forall₂ (fun j l => |j.velocity| ≤ f l.velocity ∧ |j.acceleration| ≤ f l.acceleration)
    s.joints limits.joints

/-- A joint that started within `f` of its limits is within `grown` of that one step later. -/
theorem le_grown_of_reaches {timeStep : ℝ} (h0 : 0 < timeStep) {m : Task ℝ} {j : JointState ℝ}
    (hrest : m.goal.velocity = 0 ∧ m.goal.acceleration = 0) {v a : ℝ}
    (hv : |m.start.velocity| ≤ v ∧ m.limits.velocity ≤ v)
    (ha : |m.start.acceleration| ≤ a ∧ m.limits.acceleration ≤ a)
    (h : Planner.Reaches timeStep m.raised j) :
    |j.velocity| ≤ grown v ∧ |j.acceleration| ≤ grown a := by
  have hv0 : 0 ≤ v := (abs_nonneg _).trans hv.1
  have ha0 : 0 ≤ a := (abs_nonneg _).trans ha.1
  rcases h with rfl | ⟨d, hd, hfeasible, rfl⟩
  · rw [Task.raised_goal, hrest.1, hrest.2, abs_zero]
    exact ⟨hv0.trans (le_grown hv0), ha0.trans (le_grown ha0)⟩
  · have hmem : timeStep ∈ Set.Icc 0 d := ⟨h0.le, hd.le⟩
    have hvelocity := abs_velocity_le_of_within (h0.trans hd) hfeasible hmem
    have hacceleration := abs_acceleration_le_of_within (h0.trans hd) hfeasible hmem
    have hvmax : m.raised.limits.velocity ≤ v := by
      rw [Task.raised_velocity]
      exact sup_le hv.2 hv.1
    have hamax : m.raised.limits.acceleration ≤ a := by
      rw [Task.raised_acceleration]
      exact sup_le ha.2 ha.1
    have hvpos : 0 ≤ m.raised.limits.velocity := by
      rw [Task.raised_velocity]
      exact le_sup_of_le_right (abs_nonneg _)
    have hapos : 0 ≤ m.raised.limits.acceleration := by
      rw [Task.raised_acceleration]
      exact le_sup_of_le_right (abs_nonneg _)
    exact ⟨hvelocity.trans ((slackened_le_grown hvpos).trans (grown_mono hvmax)),
      hacceleration.trans ((slackened_le_grown hapos).trans (grown_mono hamax))⟩

/-- **An update toward rest** takes a state within `f` of the limits to one within `grown` of
that. -/
theorem withinBy_of_update {p : Planner ℝ} (h0 : 0 < p.timeStep) {r : Request ℝ} {reply : Reply ℝ}
    (h : p.update r = .ok reply)
    (hrest : ∀ g ∈ r.target.joints, g.velocity = 0 ∧ g.acceleration = 0) {f : ℝ → ℝ}
    (hf : ∀ x, 0 < x → x ≤ f x) (hcurrent : WithinBy f r.limits r.current) :
    WithinBy (grown ∘ f) r.limits reply.state := by
  obtain ⟨hvalid, js, hstate, hreaches⟩ := Planner.update_eq_ok h0 h
  have hs := State.length_joints hvalid.current
  have hg := State.length_joints hvalid.target
  rw [WithinBy, ← map_limits_motions hs hg hvalid.joints, ← map_start_motions hs hg hvalid.joints,
    List.forall₂_map_left_iff, List.forall₂_map_right_iff, List.forall₂_same] at hcurrent
  rw [← map_goal_motions hs hg hvalid.joints, List.forall_mem_map] at hrest
  rw [WithinBy, hstate, State.joints_ofJoints, ← map_limits_motions hs hg hvalid.joints,
    List.forall₂_map_right_iff]
  rw [Request.raised, List.forall₂_map_left_iff] at hreaches
  have hfacts : ∀ m ∈ r.motions, (m.goal.velocity = 0 ∧ m.goal.acceleration = 0)
      ∧ (|m.start.velocity| ≤ f m.limits.velocity ∧ m.limits.velocity ≤ f m.limits.velocity)
      ∧ |m.start.acceleration| ≤ f m.limits.acceleration
      ∧ m.limits.acceleration ≤ f m.limits.acceleration := by
    intro m hm
    have hm' := hvalid.motions m hm
    exact ⟨hrest m hm, ⟨(hcurrent m hm).1, hf _ hm'.velocity_pos⟩, (hcurrent m hm).2,
      hf _ hm'.acceleration_pos⟩
  refine List.Forall₂.flip (((List.forall₂_and_left _ _).mpr ⟨hfacts, hreaches⟩).imp ?_)
  intro m j h
  exact le_grown_of_reaches h0 h.1.1 h.1.2.1 h.1.2.2 h.2

/-! ## Cycle after cycle -/

/-- The planner as a solver is not changed by a cycle. -/
theorem update_of_smoothed {s : CommandStream (Planner ℝ) ℝ} (hs : s.solver = Planner.solver)
    {m : Memory ℝ} {command : State ℝ} {p p' : Planner ℝ} {r : StreamStep ℝ}
    (h : (s.step m command).run.run p = (.ok r, p')) :
    p' = p ∧ ∀ status, r.cycle = .smoothed status →
      ∃ reply, p.update (cycleRequest s (planned m) command) = .ok reply
        ∧ r.command = reply.state := by
  rw [step_run, hs, Planner.solver_update_run] at h
  obtain ⟨hresult, rfl⟩ := Prod.mk.inj h
  refine ⟨rfl, ?_⟩
  intro status hcycle
  match hanswer : p.update (cycleRequest s (planned m) command) with
  | .ok reply =>
    rw [hanswer] at hresult
    obtain rfl := Except.ok.inj hresult
    exact ⟨reply, rfl, rfl⟩
  | .error (.error e) =>
    rw [hanswer] at hresult
    obtain rfl := Except.ok.inj hresult
    exact nomatch hcycle
  | .error (.fault f) =>
    rw [hanswer] at hresult
    exact nomatch hresult

/-- The memories that commands lead to after a reset to `start`, with the number of cycles that were
smoothed. -/
inductive Fed (s : CommandStream (Planner ℝ) ℝ) (p₀ : Planner ℝ) (start : State ℝ) :
    ℕ → Planner ℝ → Memory ℝ → Prop where
  | reset {m : Memory ℝ} (h : s.reset p₀ start = .ok m) : Fed s p₀ start 0 p₀ m
  | smoothed {k : ℕ} {p p' : Planner ℝ} {m : Memory ℝ} {command : State ℝ} {r : StreamStep ℝ}
      {status : Status} (hm : Fed s p₀ start k p m)
      (h : (s.step m command).run.run p = (.ok r, p')) (hcycle : r.cycle = .smoothed status) :
      Fed s p₀ start (k + 1) p' r.memory
  | held {k : ℕ} {p p' : Planner ℝ} {m : Memory ℝ} {command : State ℝ} {r : StreamStep ℝ}
      {e : SolverError ℝ} (hm : Fed s p₀ start k p m)
      (h : (s.step m command).run.run p = (.ok r, p')) (hcycle : r.cycle = .held e) :
      Fed s p₀ start k p' r.memory

variable {s : CommandStream (Planner ℝ) ℝ} {p₀ p p' : Planner ℝ} {start command : State ℝ} {k : ℕ}
  {m : Memory ℝ} {r : StreamStep ℝ} {status : Status} {f : ℝ → ℝ}

/-- A command to rest asks for rest. -/
theorem atRest_joints (position : List ℝ) :
    ∀ g ∈ (State.atRest position).joints, g.velocity = 0 ∧ g.acceleration = 0 := by
  induction position with
  | nil => exact nofun
  | cons x xs ih =>
    refine List.forall_mem_cons.mpr ⟨?_, ih⟩
    change (0.0 : ℝ) = 0 ∧ (0.0 : ℝ) = 0
    norm_num

/-- **A smoothed cycle** exceeds what it starts from by no more than the slack. -/
theorem withinBy_of_smoothed (hs : s.solver = Planner.solver) (h0 : 0 < p.timeStep)
    (h : (s.step m command).run.run p = (.ok r, p')) (hcycle : r.cycle = .smoothed status)
    (hf : ∀ x, 0 < x → x ≤ f x) (hplanned : WithinBy f s.limits (planned m)) :
    WithinBy (grown ∘ f) s.limits r.command := by
  obtain ⟨reply, hreply, hcommand⟩ := (update_of_smoothed hs h).2 status hcycle
  rw [hcommand]
  exact withinBy_of_update h0 hreply (atRest_joints command.position) hf hplanned

/-- **After `k` smoothed cycles** the next one starts from within `k` times the slack. -/
theorem planned_withinBy (hs : s.solver = Planner.solver) (h0 : 0 < p₀.timeStep)
    (hstart : WithinBy id s.limits start) (h : Fed s p₀ start k p m) :
    p = p₀ ∧ WithinBy grown^[k] s.limits (planned m) := by
  induction h with
  | reset h => exact ⟨rfl, by rwa [planned_of_reset h]⟩
  | @smoothed k p p' m command r status _ h hcycle ih =>
    obtain ⟨rfl, hplanned⟩ := ih
    obtain ⟨rfl, -⟩ := update_of_smoothed hs h
    refine ⟨rfl, ?_⟩
    have hnext := withinBy_of_smoothed hs h0 h hcycle (fun x hx => le_iterate_grown hx.le k)
      hplanned
    obtain ⟨-, ⟨-, hseed⟩ | ⟨⟨e, hheld⟩, -⟩⟩ := planned_of_step h
    · rwa [hseed, Function.iterate_succ']
    · exact nomatch hcycle.symm.trans hheld
  | @held k p p' m command r e _ h hcycle ih =>
    obtain ⟨rfl, hplanned⟩ := ih
    obtain ⟨rfl, -⟩ := update_of_smoothed hs h
    obtain ⟨-, ⟨⟨status, hsmoothed⟩, -⟩ | ⟨-, hseed⟩⟩ := planned_of_step h
    · exact nomatch hcycle.symm.trans hsmoothed
    · exact ⟨rfl, by rwa [hseed]⟩

theorem createPlanner_eq_ok {bounds : List (Bounds ℝ)} {jointCount : ℕ} {timeStep : ℝ}
    {fallbacks : Fallbacks ℝ} {m₀ : Memory ℝ}
    (h : createPlanner bounds jointCount timeStep fallbacks = .ok (p₀, s, m₀)) :
    s.solver = Planner.solver ∧ 0 < p₀.timeStep := by
  obtain ⟨planner, hplanner, h⟩ := bind_eq_ok.mp h
  obtain ⟨⟨stream, memory⟩, hstream, h⟩ := bind_eq_ok.mp h
  obtain ⟨rfl, hpair⟩ := Prod.mk.inj (pure_eq_ok.mp h)
  obtain ⟨rfl, rfl⟩ := Prod.mk.inj hpair
  obtain ⟨_, -, hstream⟩ := bind_eq_ok.mp hstream
  obtain ⟨limits, -, hstream⟩ := bind_eq_ok.mp hstream
  obtain ⟨rfl, -⟩ := Prod.mk.inj (pure_eq_ok.mp hstream)
  obtain ⟨hpos, rfl⟩ := Planner.create_eq_ok.mp ((mapError_ok _ _).mp hplanner)
  exact ⟨rfl, hpos⟩

/-- **How far a stream exceeds its limits.** After a reset within the limits and `k` smoothed
cycles, the next smoothed cycle is within `k + 1` times the slack; and within one time the slack
whenever the state that it starts from is within the limits, whatever came before. -/
theorem smoothed_le_grown {bounds : List (Bounds ℝ)} {jointCount : ℕ} {timeStep : ℝ}
    {fallbacks : Fallbacks ℝ} {m₀ : Memory ℝ}
    (hcreate : createPlanner bounds jointCount timeStep fallbacks = .ok (p₀, s, m₀))
    (hstart : WithinBy id s.limits start) (hfed : Fed s p₀ start k p m)
    (h : (s.step m command).run.run p = (.ok r, p')) (hcycle : r.cycle = .smoothed status) :
    WithinBy grown^[k + 1] s.limits r.command
      ∧ (WithinBy id s.limits (planned m) → WithinBy grown s.limits r.command) := by
  obtain ⟨hs, h0⟩ := createPlanner_eq_ok hcreate
  obtain ⟨rfl, hplanned⟩ := planned_withinBy hs h0 hstart hfed
  refine ⟨?_, fun hwithin => withinBy_of_smoothed hs h0 h hcycle (fun x _ => le_rfl) hwithin⟩
  rw [Function.iterate_succ']
  exact withinBy_of_smoothed hs h0 h hcycle (fun x hx => le_iterate_grown hx.le k) hplanned

end JerkLimit.CommandStream

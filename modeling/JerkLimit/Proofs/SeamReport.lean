import Mathlib
import JerkLimit.Proofs.Seam

/-!
# Proofs/SeamReport — the report describes the trajectory it comes with

Counting, choosing a coefficient and writing back are three loops of the seam filter. Their results
belong together (`Seam.report_describes`): the positions that are in the trajectory after the call
are the raw ones after the low-pass filter with the coefficient of the report, and the report counts
the `jumps` of these very positions. Joints do not see each other.
-/

namespace JerkLimit

open Scalar Trajectory

variable {K : Type} [Scalar K]

/-! ## Counting -/

/-- The value at `i` is further than the bound from the one before it. -/
def JumpAt (bound : K) (ys : List K) (i : ℕ) : Prop :=
  ∃ x ∈ ys[i - 1]?, ∃ y ∈ ys[i]?, bound < abs (y - x)

instance (bound : K) (ys : List K) : DecidablePred (JumpAt bound ys) := fun i =>
  decidable_of_iff ((ys[i - 1]?.any fun x => ys[i]?.any fun y => bound < Scalar.abs (y - x)) = true)
    (by simp only [JumpAt, Option.any_eq_true, decide_eq_true_eq, Option.mem_def])

def jumps (bound : K) (ys : List K) : Finset ℕ :=
  {i ∈ Finset.Ico 1 ys.length | JumpAt bound ys i}

theorem jumpAt_one (bound a b : K) (ys : List K) :
    JumpAt bound (a :: b :: ys) 1 ↔ bound < abs (b - a) := by
  simp [JumpAt]

theorem jumpAt_cons_succ (bound a : K) (ys : List K) (i : ℕ) :
    JumpAt bound (a :: ys) (i + 2) ↔ JumpAt bound ys (i + 1) := by
  simp [JumpAt]

theorem card_jumps_cons_cons (bound a b : K) (ys : List K) :
    (jumps bound (a :: b :: ys)).card
      = (jumps bound (b :: ys)).card + if bound < abs (b - a) then 1 else 0 := by
  simp only [jumps, Finset.card_filter, Finset.sum_Ico_eq_sum_range, List.length_cons,
    Nat.add_sub_cancel, Finset.sum_range_succ', Nat.add_comm 1, zero_add, jumpAt_one,
    jumpAt_cons_succ]

theorem countJumps_eq_card (bound : K) (ys : List K) :
    countJumps bound ys = (jumps bound ys).card := by
  induction ys with
  | nil => rfl
  | cons a ys ih =>
    cases ys with
    | nil => rfl
    | cons b ys => rw [countJumps, ih, card_jumps_cons_cons]

/-! ## The low-pass filter -/

/-- `ys` is what the low-pass filter with coefficient `c` makes of `xs`, starting at the first of
them: every output is made of its input, the input before and the output before. -/
structure LowPassed (c : K) (xs ys : List K) : Prop where
  length : ys.length = xs.length
  head : ys.head? = xs.head?
  step {i : ℕ} {x x' y : K} : xs[i]? = some x → xs[i + 1]? = some x' → ys[i]? = some y →
    ys[i + 1]? = some (1.0 / (1.0 + c) * (x' + x - (1.0 - c) * y))

theorem LowPass.outputs_getElem? (f : LowPass K) {xs : List K} {i : ℕ} {x x' y : K}
    (hx : (f.lastInput :: xs)[i]? = some x) (hx' : xs[i]? = some x')
    (hy : (f.lastOutput :: f.outputs xs)[i]? = some y) :
    (f.outputs xs)[i]? = some (f.scale * (x' + x - f.feedback * y)) := by
  induction xs generalizing f i with
  | nil => exact nomatch hx'
  | cons input xs ih =>
    cases i with
    | zero =>
      obtain rfl := Option.some.inj hx
      obtain rfl := Option.some.inj hx'
      obtain rfl := Option.some.inj hy
      rfl
    | succ i => exact ih (f.step input) hx hx' hy

theorem lowPassed_of_filterJoint {raw : List K} {bound c : K} {f : FilteredJoint K}
    (h : filterJoint raw bound c = .ok f) : LowPassed c raw f.positions := by
  obtain ⟨hlength, hhead⟩ := filterJoint_ok h
  refine ⟨hlength, hhead, fun hx hx' hy => ?_⟩
  obtain ⟨filter, hfilter, h⟩ := bind_eq_ok.mp h
  obtain ⟨-, -, hfilter⟩ := bind_eq_ok.mp hfilter
  obtain rfl := pure_eq_ok.mp hfilter
  obtain rfl := pure_eq_ok.mp h
  cases raw with
  | nil => exact nomatch hx
  | cons first rest => exact LowPass.outputs_getElem? _ hx hx' hy

theorem filterJoint_failures {raw : List K} {bound c : K} {f : FilteredJoint K}
    (h : filterJoint raw bound c = .ok f) : f.failures = (jumps bound f.positions).card := by
  obtain ⟨filter, -, h⟩ := bind_eq_ok.mp h
  obtain rfl := pure_eq_ok.mp h
  exact countJumps_eq_card _ _

/-! ## Choosing a coefficient -/

namespace Seam

/-- The coefficient is the first of the schedule whose filtering has no jump, or the last one if all
have some. -/
def FirstClean (schedule : List K) (raw : List K) (bound : K) (f : FilteredJoint K) : Prop :=
  ∃ before after, schedule = before ++ f.coefficient :: after
    ∧ (∀ c ∈ before, ∃ ys, LowPassed c raw ys ∧ (jumps bound ys).Nonempty)
    ∧ (jumps bound f.positions = ∅ ∨ after = [])

/-- `f` describes what the filter makes of one joint. -/
structure Describes (s : Seam K) (raw : List K) (bound : K) (f : FilteredJoint K) : Prop where
  lowPassed : LowPassed f.coefficient raw f.positions
  failures : f.failures = (jumps bound f.positions).card
  detectOnly : s.settings.mode = .detectOnly → f.coefficient = s.settings.coefficient
  adaptive : s.settings.mode = .adaptive → FirstClean
    (coefficientSchedule s.settings.coefficient s.settings.growth s.settings.maxCoefficient)
    raw bound f

variable {s : Seam K} {limits : Limits K} {timeStep : K}

theorem describes_of_filter {raw : List K} {bound : K} {f : FilteredJoint K}
    (h : s.filter raw bound = .ok f) : s.Describes raw bound f := by
  rcases filter_cases h with ⟨hmode, h⟩ | ⟨hmode, h⟩
  · have hcoefficient := filterJoint_coefficient h
    refine ⟨hcoefficient ▸ lowPassed_of_filterJoint h, filterJoint_failures h,
      fun _ => hcoefficient, fun hadaptive => ?_⟩
    cases hmode.symm.trans hadaptive
  · obtain ⟨hf, before, after, hschedule, hbefore, hfirst⟩ := filterUntilClean_first h
    refine ⟨lowPassed_of_filterJoint hf, filterJoint_failures hf, fun hdetect => ?_, fun _ =>
      ⟨before, after, hschedule, fun c hc => ?_, hfirst.imp_left fun hclean => ?_⟩⟩
    · cases hmode.symm.trans hdetect
    · obtain ⟨g, hg, hfailures⟩ := hbefore c hc
      refine ⟨g.positions, lowPassed_of_filterJoint hg, Finset.card_ne_zero.mp ?_⟩
      exact filterJoint_failures hg ▸ hfailures
    · exact Finset.card_eq_zero.mp ((filterJoint_failures hf).symm.trans hclean)

/-! ## The report -/

/-- What a run leaves of one joint: its positions, its failures and its coefficient. -/
def outcome (joint : ℕ) (t' : Trajectory K) (report : SeamReport K) :
    List (Option K) × Option ℕ × Option K :=
  (column joint (t'.waypoints.map Waypoint.state), report.failures[joint]?,
    report.coefficients[joint]?)

/-- The report describes what has become of the trajectory. -/
structure Reported (s : Seam K) (limits : Limits K) (timeStep : K) (t t' : Trajectory K)
    (report : SeamReport K) : Prop where
  group : t'.group = t.group
  joints : t'.joints = t.joints
  moved : OnlyMoved t.waypoints t'.waypoints
  length_failures : report.failures.length = t.jointCount
  length_coefficients : report.coefficients.length = t.jointCount
  /-- The report has the numbers of the positions that are now in the trajectory. -/
  joint {joint : ℕ} : joint < t.jointCount → ∃ raw bound f,
    column joint (t.waypoints.map Waypoint.state) = raw.map some
      ∧ limits.maxDisplacement joint timeStep = .ok bound ∧ s.Describes raw bound f
      ∧ outcome joint t' report = (f.positions.map some, some f.failures, some f.coefficient)

/-- Each joint has been filtered once, from its own raw positions and with its own bound. -/
theorem outcome_of_applyAt {t t' : Trajectory K} {report : SeamReport K} (hne : t.waypoints ≠ [])
    (h : s.applyAt limits timeStep t = (t', .ok report)) {joint : ℕ}
    (hjoint : joint < t.jointCount) :
    ∃ raw bound f, column joint (t.waypoints.map Waypoint.state) = raw.map some
      ∧ limits.maxDisplacement joint timeStep = .ok bound ∧ s.filter raw bound = .ok f
      ∧ outcome joint t' report = (f.positions.map some, some f.failures, some f.coefficient) := by
  obtain ⟨-, -, fs, hfs, rfl⟩ := filtered_of_applyAt hne h
  obtain ⟨f, hf⟩ : ∃ f, fs[joint]? = some f :=
    ⟨_, List.getElem?_eq_getElem (hfs.length.symm ▸ hjoint)⟩
  obtain ⟨raw, bound, hraw, hbound, hfilter, hwritten⟩ := hfs.columns hf
  rw [zero_add] at hraw hbound hwritten
  refine ⟨raw, bound, f, hraw, hbound, hfilter, ?_⟩
  rw [outcome, hwritten, List.getElem?_map, List.getElem?_map, hf, Option.map_some, Option.map_some]

theorem reported_of_applyAt {t t' : Trajectory K} {report : SeamReport K} (hne : t.waypoints ≠ [])
    (h : s.applyAt limits timeStep t = (t', .ok report)) :
    Reported s limits timeStep t t' report := by
  obtain ⟨hgroup, hjoints, fs, hfs, rfl⟩ := filtered_of_applyAt hne h
  refine ⟨hgroup, hjoints, hfs.moved, ?_, ?_, fun {joint} hjoint => ?_⟩
  · exact List.length_map _ |>.trans hfs.length
  · exact List.length_map _ |>.trans hfs.length
  · obtain ⟨raw, bound, f, hraw, hbound, hfilter, houtcome⟩ := outcome_of_applyAt hne h hjoint
    exact ⟨raw, bound, f, hraw, hbound, describes_of_filter hfilter, houtcome⟩

/-- **Two runs side by side**: joints that start with the same positions and have the same limits are
filtered with the same arguments, whatever the settings of the two filters. -/
theorem outcomes_of_applyAt {s₂ : Seam K} {limits₂ : Limits K} {t t' t₂ t₂' : Trajectory K}
    {report report₂ : SeamReport K}
    (hne : t.waypoints ≠ []) (h : s.applyAt limits timeStep t = (t', .ok report))
    (hne₂ : t₂.waypoints ≠ []) (h₂ : s₂.applyAt limits₂ timeStep t₂ = (t₂', .ok report₂)) {i j : ℕ}
    (hi : i < t.jointCount) (hj : j < t₂.jointCount)
    (hcolumn : column i (t.waypoints.map Waypoint.state)
      = column j (t₂.waypoints.map Waypoint.state))
    (hlimits : limits.joint i = limits₂.joint j) :
    ∃ raw bound f f₂, column i (t.waypoints.map Waypoint.state) = raw.map some
      ∧ s.filter raw bound = .ok f ∧ s₂.filter raw bound = .ok f₂
      ∧ outcome i t' report = (f.positions.map some, some f.failures, some f.coefficient)
      ∧ outcome j t₂' report₂ = (f₂.positions.map some, some f₂.failures, some f₂.coefficient) := by
  obtain ⟨raw, bound, f, hraw, hbound, hfilter, houtcome⟩ := outcome_of_applyAt hne h hi
  obtain ⟨raw₂, bound₂, f₂, hraw₂, hbound₂, hfilter₂, houtcome₂⟩ := outcome_of_applyAt hne₂ h₂ hj
  obtain rfl : raw = raw₂ :=
    (Option.some_injective K).list_map (hraw.symm.trans (hcolumn.trans hraw₂))
  have hbounds : limits.maxDisplacement i timeStep = limits₂.maxDisplacement j timeStep :=
    congrArg (· >>= _) hlimits
  obtain rfl : bound = bound₂ := Except.ok.inj (hbound.symm.trans (hbounds.trans hbound₂))
  exact ⟨raw, bound, f, f₂, hraw, hfilter, hfilter₂, houtcome, houtcome₂⟩

/-- With the same settings they come out the same. -/
theorem outcome_congr {limits₂ : Limits K} {t t' t₂ t₂' : Trajectory K}
    {report report₂ : SeamReport K}
    (hne : t.waypoints ≠ []) (h : s.applyAt limits timeStep t = (t', .ok report))
    (hne₂ : t₂.waypoints ≠ []) (h₂ : s.applyAt limits₂ timeStep t₂ = (t₂', .ok report₂)) {i j : ℕ}
    (hi : i < t.jointCount) (hj : j < t₂.jointCount)
    (hcolumn : column i (t.waypoints.map Waypoint.state)
      = column j (t₂.waypoints.map Waypoint.state))
    (hlimits : limits.joint i = limits₂.joint j) : outcome i t' report = outcome j t₂' report₂ := by
  obtain ⟨raw, bound, f, f₂, -, hfilter, hfilter₂, houtcome, houtcome₂⟩ :=
    outcomes_of_applyAt hne h hne₂ h₂ hi hj hcolumn hlimits
  obtain rfl : f = f₂ := Except.ok.inj (hfilter.symm.trans hfilter₂)
  exact houtcome.trans houtcome₂.symm

/-- **The report describes the trajectory it comes with**, joint by joint. What becomes of a joint
is decided by its own positions and limits: it is the same in every run of the filter that goes
well. -/
theorem report_describes {t t' : Trajectory K} {report : SeamReport K} (hne : t.waypoints ≠ [])
    (h : s.applyAt limits timeStep t = (t', .ok report)) :
    Reported s limits timeStep t t' report
      ∧ ∀ (limits₂ : Limits K) (t₂ t₂' : Trajectory K) (report₂ : SeamReport K) (i j : ℕ),
        t₂.waypoints ≠ [] → s.applyAt limits₂ timeStep t₂ = (t₂', .ok report₂) →
        i < t.jointCount → j < t₂.jointCount →
        column i (t.waypoints.map Waypoint.state) = column j (t₂.waypoints.map Waypoint.state) →
        limits.joint i = limits₂.joint j → outcome i t' report = outcome j t₂' report₂ :=
  ⟨reported_of_applyAt hne h, fun _ _ _ _ _ _ hne₂ h₂ hi hj hcolumn hlimits =>
    outcome_congr hne h hne₂ h₂ hi hj hcolumn hlimits⟩

/-- A filter that tries the coefficients 20 and 80. -/
def twoCoefficients : Seam Float := ⟨⟨20, 0.001, .adaptive, 4, 80⟩⟩

/-- The step of the first joint is small enough for the first coefficient, and that of the second
one too large for both. -/
def steps : Trajectory Float :=
  ⟨none, [⟨"j0", .revolute, {}⟩, ⟨"j1", .revolute, {}⟩],
    [⟨⟨[0, 0], [0, 0], [0, 0]⟩, 0⟩, ⟨⟨[0.01, 10], [0, 0], [0, 0]⟩, 1⟩]⟩

theorem report_describes_steps : ∃ t' report,
    twoCoefficients.applyAt ⟨[5, 5], [10, 10], [20, 20]⟩ 0.001 steps = (t', .ok report)
      ∧ report.failures = [0, 1]
      ∧ Reported twoCoefficients ⟨[5, 5], [10, 10], [20, 20]⟩ 0.001 steps t' report := by
  have hfailures : ((twoCoefficients.applyAt ⟨[5, 5], [10, 10], [20, 20]⟩ 0.001
      steps).2.toOption.map SeamReport.failures) = some [0, 1] := by decide +kernel
  obtain ⟨⟨t', result⟩, hrun⟩ : ∃ r, twoCoefficients.applyAt ⟨[5, 5], [10, 10], [20, 20]⟩ 0.001
    steps = r := ⟨_, rfl⟩
  rw [hrun] at hfailures
  cases result with
  | error e => exact nomatch hfailures
  | ok report =>
    exact ⟨t', report, hrun, Option.some.inj hfailures,
      (report_describes (List.cons_ne_nil _ _) hrun).1⟩

end Seam

end JerkLimit

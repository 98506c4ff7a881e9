import Mathlib
import JerkLimit.Proofs.Overflow
import JerkLimit.Proofs.SeamReport
import JerkLimit.Proofs.Validated

/-!
# Proofs/SeamFailure — when a failing seam filter leaves its input alone

A coefficient is refused for its own sake, not for the positions that it is to filter. So what
matters is which coefficients a joint gets to try. `Seam.atomic_iff` answers the question for all
settings that are accepted:

* without an infinite largest coefficient no joint fails;
* with an infinite one and no growth the first joint fails at once, and nothing has been written;
* with growth, a joint that is smooth enough for a finite coefficient is written back, and a later
  one that is not climbs up to the infinite coefficient and fails.
-/

namespace JerkLimit

open Scalar OrderedScalar Trajectory

namespace Seam

variable {K : Type} [Scalar K]

/-- A filter that leaves a trajectory as it was if it fails. -/
def Atomic (s : Seam K) : Prop :=
  ∀ (limits : Limits K) (timeStep : K) (t t' : Trajectory K) (e : Stop (SmoothingError K)),
    (∃ v a j, Limits.ofLists v a j = .ok limits) → t.checkShape = .ok () →
      s.applyAt limits timeStep t = (t', .error e) → t' = t

/-! ## All columns alike -/

/-- If the first joint cannot be filtered, nothing has been written. -/
theorem filterJoints_of_refused {s : Seam K} (h : ∀ raw bound, ∃ e, s.filter raw bound = .error e)
    (limits : Limits K) (timeStep : K) (n joint : ℕ) (ws : List (Waypoint K)) :
    (s.filterJoints limits timeStep n joint ws).1 = ws := by
  cases n with
  | zero => rfl
  | succ n =>
    cases hcolumn : s.filterColumn limits timeStep joint ws with
    | error e => simp only [filterJoints, hcolumn]
    | ok f =>
      obtain ⟨raw, bound, -, -, hf⟩ := filterColumn_ok hcolumn
      obtain ⟨e, he⟩ := h raw bound
      cases he.symm.trans hf

/-- A filter that treats all columns alike fails at the first one, if at all. -/
theorem atomic_of_uniform {s : Seam K} (h : (∀ raw bound, ∃ f, s.filter raw bound = .ok f)
    ∨ ∀ raw bound, ∃ e, s.filter raw bound = .error e) : s.Atomic := by
  rintro limits timeStep t t' e ⟨v, a, j, hlimits⟩ hshape hrun
  have hshaped := (Limits.accepted_of_ofLists hlimits).toShaped
  by_cases hcount : limits.jointCount = t.jointCount
  · rcases h with hfilter | hfilter
    · have hm : t.jointCount = v.length := hcount.symm.trans hshaped.velocity
      obtain ⟨t₁, seams, hok⟩ : ∃ t₁ seams, s.applyAt limits timeStep t = (t₁, .ok seams) :=
        exists_applyAt hshaped hfilter hm (hm ▸ shapedAs_of_checkShapeFrom hshape)
      exact nomatch (Prod.mk.inj (hok.symm.trans hrun)).2
    · rw [applyAt] at hrun
      dsimp only at hrun
      rw [if_neg (not_not.mpr hcount)] at hrun
      split_ifs at hrun
      · exact (Prod.mk.inj hrun).1.symm
      · rw [← (Prod.mk.inj hrun).1, filterJoints_of_refused hfilter]
  · rw [applyAt] at hrun
    exact (Prod.mk.inj ((if_pos hcount).symm.trans hrun)).1.symm

end Seam

/-! ## Climbing to the end -/

section Climb

variable {K : Type} [Scalar K] {raw : List K} {bound : K}

theorem filterUntilClean_of_clean {c : K} {f : FilteredJoint K}
    (hf : filterJoint raw bound c = .ok f) (hclean : f.failures = 0) (cs : List K) :
    filterUntilClean raw bound (c :: cs) = .ok (some f) := by
  cases cs with
  | nil => exact bind_eq_ok.mpr ⟨f, hf, rfl⟩
  | cons c' cs => exact bind_eq_ok.mpr ⟨f, hf, if_pos hclean⟩

/-- Without a coefficient that will do, the last one is tried. -/
theorem filterUntilClean_of_failures {cs : List K} {last : K} {e : SmoothingError K}
    (hcs : ∀ c ∈ cs, ∃ f, filterJoint raw bound c = .ok f ∧ f.failures ≠ 0)
    (hlast : filterJoint raw bound last = .error e) :
    filterUntilClean raw bound (cs ++ [last]) = .error e := by
  induction cs with
  | nil => rw [List.nil_append, filterUntilClean, hlast]; rfl
  | cons c cs ih =>
    obtain ⟨⟨f, hf, hfailures⟩, hrest⟩ := List.forall_mem_cons.mp hcs
    obtain ⟨c', cs', hcs'⟩ := List.exists_cons_of_ne_nil
      (List.append_ne_nil_of_right_ne_nil cs (List.cons_ne_nil last []))
    have hih := ih hrest
    rw [hcs'] at hih
    have hstep : filterUntilClean raw bound (c :: c' :: cs') = (filterJoint raw bound c >>= fun f =>
      if f.failures = 0 then pure (some f) else filterUntilClean raw bound (c' :: cs')) := rfl
    rw [List.cons_append, hcs', hstep, hf]
    exact (if_neg hfailures).trans hih

end Climb

/-! ## Two joints, two fates -/

theorem filterJoint_pair {c : Float} (hc : c.isFinite = true) (h1 : 1.0 ≤ c) (bound x : Float) :
    filterJoint [0.0, x] bound c = .ok ⟨[0.0, Double.firstOutput c x],
      if bound < (Double.firstOutput c x - 0.0).abs then 1 else 0, c⟩ := by
  have hcreate : LowPass.create c = .ok ⟨c, 1.0 / (1.0 + c), 1.0 - c, 0.0, 0.0⟩ :=
    bind_eq_ok.mpr ⟨(), ensure_eq_ok.mpr (Bool.and_eq_true_iff.mpr ⟨hc, decide_eq_true h1⟩), rfl⟩
  refine bind_eq_ok.mpr ⟨_, hcreate, ?_⟩
  rw [← Nat.zero_add (ite ..)]
  rfl

theorem filterJoint_infinity (raw : List Float) (bound : Float) :
    filterJoint raw bound (1.0 / 0.0) = .error (.invalid .filterCoefficient (1.0 / 0.0)) := rfl

/-- No distance is too large for a bound of infinity, -/
theorem filterJoint_step {c : Float} (hc : c.isFinite = true) (h1 : 1.0 ≤ c) {bound : Float}
    (hbound : 1.0 / 0.0 ≤ bound) :
    filterJoint [0.0, 1.0] bound c = .ok ⟨[0.0, Double.firstOutput c 1.0], 0, c⟩ := by
  rw [filterJoint_pair hc h1, if_neg (Double.not_lt_of_infinity_le hbound)]

/-- and each one is for a negative bound. -/
theorem filterJoint_rest {c : Float} (hc : c.isFinite = true) (h1 : 1.0 ≤ c) {bound : Float}
    (hbound : bound < 0.0) :
    ∃ f, filterJoint [0.0, 0.0] bound c = .ok f ∧ f.failures ≠ 0 := by
  refine ⟨_, filterJoint_pair hc h1 bound 0.0, ?_⟩
  rw [if_pos (Double.lt_abs_of_neg hbound (Double.firstOutput_zero hc h1))]
  exact Nat.one_ne_zero

namespace Seam

/-- The first joint takes a step, and the second one stays. -/
def parting : Trajectory Float :=
  ⟨none, [⟨"j0", .revolute, {}⟩, ⟨"j1", .revolute, {}⟩],
    [⟨⟨[0.0, 0.0], [0.0, 0.0], [0.0, 0.0]⟩, 0.0⟩, ⟨⟨[1.0, 0.0], [0.0, 0.0], [0.0, 0.0]⟩, 1.0⟩]⟩

/-- Backwards in time they allow the first joint every distance, and the second one none. -/
def partingLimits : Limits Float := ⟨[1.0, 1.0], [1.0e308, 1.0], [1.0, 1.0]⟩

theorem ofLists_partingLimits :
    Limits.ofLists [1.0, 1.0] [1.0e308, 1.0] [1.0, 1.0] = .ok partingLimits := by
  obtain ⟨⟨⟩, hpositive⟩ :=
    exists_ok_of_isOk (x := Limits.checkFrom 0 [1.0, 1.0] [1.0e308, 1.0] [1.0, (1.0 : Float)])
      (by decide +kernel)
  exact bind_eq_ok.mpr ⟨(), rfl, bind_eq_ok.mpr ⟨(), hpositive, rfl⟩⟩

theorem applyAt_parting {s : Seam Float} {y c : Float} {e : SmoothingError Float}
    (hfirst : ∀ bound : Float, 1.0 / 0.0 ≤ bound → s.filter [0.0, 1.0] bound = .ok ⟨[0.0, y], 0, c⟩)
    (hsecond : ∀ bound : Float, bound < 0.0 → s.filter [0.0, 0.0] bound = .error e) :
    s.applyAt partingLimits (-4.0) parting
      = ({ parting with waypoints := writeColumn 0 [0.0, y] parting.waypoints },
        .error (.error e)) := by
  obtain ⟨wide, hwide, hinf⟩ : ∃ bound, partingLimits.maxDisplacement 0 (-4.0) = .ok bound
    ∧ 1.0 / 0.0 ≤ bound := ⟨_, rfl, by decide +kernel⟩
  obtain ⟨bound, hbound, hneg⟩ : ∃ bound, partingLimits.maxDisplacement 1 (-4.0) = .ok bound
    ∧ bound < 0.0 := ⟨_, rfl, by decide +kernel⟩
  have hcolumn : s.filterColumn partingLimits (-4.0) 0 parting.waypoints
      = .ok ⟨[0.0, y], 0, c⟩ := by
    have hraw : parting.waypoints.mapM (fun w => entry w.state.position 0) = .ok [0.0, 1.0] := rfl
    rw [filterColumn, hraw, hwide]
    exact congrArg (Except.mapError _) (hfirst wide hinf)
  have hcolumn' : s.filterColumn partingLimits (-4.0) 1 (writeColumn 0 [0.0, y] parting.waypoints)
      = .error (.error e) := by
    have hraw : (writeColumn 0 [0.0, y] parting.waypoints).mapM
      (fun w => entry w.state.position 1) = .ok [0.0, 0.0] := rfl
    rw [filterColumn, hraw, hbound]
    exact congrArg (Except.mapError _) (hsecond bound hneg)
  have hjoints : s.filterJoints partingLimits (-4.0) 2 0 parting.waypoints
      = (writeColumn 0 [0.0, y] parting.waypoints, .error (.error e)) := by
    simp only [filterJoints, hcolumn, hcolumn']
    rfl
  have hcount : ¬partingLimits.jointCount ≠ parting.jointCount := by decide
  have hempty : ¬parting.waypoints.isEmpty = true := by decide
  rw [applyAt]
  dsimp only
  rw [if_neg hcount, if_neg hempty, show parting.jointCount = 2 from rfl, hjoints]
  rfl

/-! ## Accepted settings -/

section Settings

variable {settings : SeamSettings Float} (h : Seam.create settings = .ok ⟨settings⟩)

include h

/-- All coefficients but the last are accepted. -/
theorem accepted_of_mem_climb (hgrowth : 1.0 < settings.growth) {n : ℕ} {c : Float}
    (hc : c ∈ climb settings.growth settings.maxCoefficient n settings.coefficient) :
    c.isFinite = true ∧ 1.0 ≤ c := by
  have h1 := one_le_of_mem_climb Double.zero_lt_one (le_of_lt hgrowth)
    (coefficient_of_create h).2 hc
  exact ⟨Double.isFinite_of_lt h1 (lt_of_mem_climb hc), h1⟩

/-- The last one is, too, unless it is infinite. -/
theorem accepted_of_create (hfinite : settings.maxCoefficient ≠ 1.0 / 0.0) :
    settings.Accepted := by
  obtain ⟨hc, h1⟩ := coefficient_of_create h
  refine ⟨LowPass.exists_create.mpr ⟨hc, h1⟩, fun c hmem => LowPass.exists_create.mpr ?_⟩
  rw [coefficientSchedule_eq, List.mem_append, List.mem_singleton] at hmem
  rcases hmem with hmem | rfl
  · split_ifs at hmem with hgrowth
    · exact accepted_of_mem_climb h hgrowth hmem
    · exact nomatch hmem
  · rw [Scalar.max]
    split_ifs with hlt hself
    · exact ⟨hc, h1⟩
    · have hle : settings.coefficient ≤ settings.maxCoefficient :=
        le_of_not_lt (beq_self_iff.mp hself) (number_of_isFinite hc) hlt
      have h1' := le_trans h1 hle
      exact ⟨Double.isFinite_of_ne h1' hfinite, h1'⟩
    · exact ⟨hc, h1⟩

theorem max_infinity : Scalar.max (1.0 / 0.0) settings.coefficient = 1.0 / 0.0 := by
  obtain ⟨hc, h1⟩ := coefficient_of_create h
  exact max_eq_left (le_of_lt (Double.lt_infinity hc h1))

/-- Growth without an end begins with finite coefficients and ends with an infinite one. -/
theorem schedule_of_runaway (hgrowth : 1.0 < settings.growth)
    (hcap : settings.maxCoefficient = 1.0 / 0.0) : ∃ cs,
      coefficientSchedule settings.coefficient settings.growth settings.maxCoefficient
        = settings.coefficient :: cs ++ [1.0 / 0.0]
      ∧ ∀ c ∈ settings.coefficient :: cs, c.isFinite = true ∧ 1.0 ≤ c := by
  obtain ⟨hc, h1⟩ := coefficient_of_create h
  obtain ⟨cs, hcs⟩ : ∃ cs, climb settings.growth settings.maxCoefficient
      (climbSteps settings.coefficient settings.growth settings.maxCoefficient) settings.coefficient
        = settings.coefficient :: cs := ⟨_, if_pos (hcap ▸ Double.lt_infinity hc h1)⟩
  refine ⟨cs, ?_, fun c hmem => accepted_of_mem_climb h hgrowth (hcs ▸ hmem)⟩
  rw [coefficientSchedule_eq, if_pos hgrowth, hcs, hcap, max_infinity h]

/-- Then the two joints part. -/
theorem not_atomic_of_runaway (hmode : settings.mode = .adaptive) (hgrowth : 1.0 < settings.growth)
    (hcap : settings.maxCoefficient = 1.0 / 0.0) : ¬(⟨settings⟩ : Seam Float).Atomic := by
  intro hatomic
  obtain ⟨hc, h1⟩ := coefficient_of_create h
  obtain ⟨cs, hschedule, hcs⟩ := schedule_of_runaway h hgrowth hcap
  have hfirst (bound : Float) (hbound : 1.0 / 0.0 ≤ bound) :
      (⟨settings⟩ : Seam Float).filter [0.0, 1.0] bound
        = .ok ⟨[0.0, Double.firstOutput settings.coefficient 1.0], 0, settings.coefficient⟩ := by
    have hclean := filterUntilClean_of_clean (filterJoint_step hc h1 hbound) rfl (cs ++ [1.0 / 0.0])
    simp only [filter, hmode, filterAdaptive, hschedule, List.cons_append, hclean]
    rfl
  have hsecond (bound : Float) (hbound : bound < 0.0) :
      (⟨settings⟩ : Seam Float).filter [0.0, 0.0] bound
        = .error (.invalid .filterCoefficient (1.0 / 0.0)) := by
    have hfailures := filterUntilClean_of_failures
      (fun c hmem => filterJoint_rest (hcs c hmem).1 (hcs c hmem).2 hbound)
      (filterJoint_infinity _ bound)
    simp only [filter, hmode, filterAdaptive, hschedule, hfailures]
    rfl
  have hleft := hatomic partingLimits (-4.0) parting _ _ ⟨_, _, _, ofLists_partingLimits⟩ rfl
    (applyAt_parting hfirst hsecond)
  have hlast := congrArg (fun t => t.waypoints[1]?.map fun w => w.state.position[0]?) hleft
  exact Double.firstOutput_one hc h1 (Option.some.inj (Option.some.inj hlast))

end Settings

/-- **A filter that fails leaves its input as it was**, unless it climbs without an end: in adaptive
mode, with growth, to an infinite coefficient. -/
theorem atomic_iff {settings : SeamSettings Float} {s : Seam Float}
    (h : Seam.create settings = .ok s) : s.Atomic ↔ ¬(settings.mode = .adaptive
      ∧ 1.0 < settings.growth ∧ settings.maxCoefficient = 1.0 / 0.0) := by
  obtain ⟨_, -, hs⟩ := bind_eq_ok.mp h
  obtain ⟨_, -, hs⟩ := bind_eq_ok.mp hs
  obtain rfl := pure_eq_ok.mp hs
  constructor
  · rintro hatomic ⟨hmode, hgrowth, hcap⟩
    exact not_atomic_of_runaway h hmode hgrowth hcap hatomic
  · intro hbounded
    refine atomic_of_uniform ?_
    by_cases hcap : settings.maxCoefficient = 1.0 / 0.0
    · cases hmode : settings.mode with
      | detectOnly =>
        refine .inl fun raw bound => ?_
        obtain ⟨f, hf⟩ := exists_filterJoint
          (LowPass.exists_create.mpr (coefficient_of_create h)) raw bound
        exact ⟨f, by simp only [filter, hmode, hf]⟩
      | adaptive =>
        have hgrowth : ¬1.0 < settings.growth := fun hgrowth => hbounded ⟨hmode, hgrowth, hcap⟩
        have hschedule : coefficientSchedule settings.coefficient settings.growth
            settings.maxCoefficient = [1.0 / 0.0] := by
          rw [coefficientSchedule_eq, if_neg hgrowth, hcap, max_infinity h, List.nil_append]
        refine .inr fun raw bound => ⟨.invalid .filterCoefficient (1.0 / 0.0), ?_⟩
        simp only [filter, hmode, filterAdaptive, hschedule]
        rfl
    · exact .inl (exists_filter (accepted_of_create h hcap))

/-- A climb that ends. -/
def climbing : SeamSettings Float := { (default : SeamSettings Float) with mode := .adaptive }

theorem atomic_climbing :
    Seam.create climbing = .ok ⟨climbing⟩ ∧ (⟨climbing⟩ : Seam Float).Atomic := by
  have hfinite : climbing.maxCoefficient.isFinite = true := rfl
  have hcreate : Seam.create climbing = .ok ⟨climbing⟩ := rfl
  refine ⟨hcreate, (atomic_iff hcreate).mpr fun ⟨_, _, hcap⟩ => ?_⟩
  rw [hcap] at hfinite
  exact nomatch hfinite

/-- The coefficients 20 and infinity. -/
def runaway : SeamSettings Float := ⟨20, 0.001, .adaptive, 1.0e308, 1.0 / 0.0⟩

/-- The step of the first joint is filtered with 20, that of the second one is too large for it. -/
theorem runaway_not_atomic :
    Seam.create runaway = .ok ⟨runaway⟩ ∧ ¬(⟨runaway⟩ : Seam Float).Atomic := by
  refine ⟨rfl, fun hatomic => ?_⟩
  obtain ⟨⟨t', result⟩, hrun⟩ : ∃ r, (⟨runaway⟩ : Seam Float).applyAt
    ⟨[5, 5], [10, 10], [20, 20]⟩ 0.001 steps = r := ⟨_, rfl⟩
  obtain ⟨e, rfl⟩ : ∃ e, result = .error e :=
    exists_error_of_isOk (congrArg (fun r => r.2.isOk) hrun ▸ by decide +kernel)
  have hmoved : (((⟨runaway⟩ : Seam Float).applyAt ⟨[5, 5], [10, 10], [20, 20]⟩ 0.001
      steps).1.waypoints.map fun w => w.state.position) ≠ [[0, 0], [0.01, 10]] := by decide +kernel
  have hleft := hatomic _ _ _ _ _ ⟨[5, 5], [10, 10], [20, 20], rfl⟩ rfl hrun
  rw [hrun, hleft] at hmoved
  exact hmoved rfl

end Seam

end JerkLimit

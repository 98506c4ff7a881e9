import Mathlib
import JerkLimit.Proofs.SeamFailure

/-!
# Proofs/Restraint — adaptive mode beside detect-only mode

A joint without failures at the configured coefficient needs no larger one, and adaptive mode leaves
it there if that coefficient is the first one to be tried. A schedule begins with it
(`coefficientSchedule_first`) unless it neither grows nor has reached its cap: then the cap is the
only coefficient to be tried, and every joint is filtered with it.

**`SeamSettings.restrained_iff`** answers the question for all settings that are accepted. The one
exception among the schedules that do not begin as they should is an infinite cap, with which
adaptive mode fails.
-/

namespace JerkLimit

open Scalar OrderedScalar Trajectory

variable {K : Type} [Scalar K]

namespace SeamSettings

/-- The filter with these settings in one of the modes. -/
def inMode (settings : SeamSettings K) (mode : SeamMode) : Seam K := ⟨{ settings with mode }⟩

/-- Detect-only mode answers, and where it reports no failure adaptive mode does as it does. -/
def Restrained (settings : SeamSettings K) : Prop :=
  ∀ (limits : Limits K) (timeStep : K) (t : Trajectory K),
    (∃ v a j, Limits.ofLists v a j = .ok limits) → limits.jointCount = t.jointCount →
      t.checkShape = .ok () →
    ∃ t₁ report₁, (settings.inMode .detectOnly).applyAt limits timeStep t = (t₁, .ok report₁)
      ∧ ∀ t₂ report₂, (settings.inMode .adaptive).applyAt limits timeStep t = (t₂, .ok report₂) →
        ∀ joint, report₁.failures[joint]? = some 0 →
          Seam.outcome joint t₂ report₂ = Seam.outcome joint t₁ report₁

end SeamSettings

/-! ## The first coefficient -/

section Ordered

variable [OrderedScalar K]

theorem max_eq_right {a b : K} (hb : 0.0 < b) (h : ¬b < a) : Scalar.max a b = b := by
  rw [Scalar.max]
  split_ifs with hlt hself
  · rfl
  · have ha : a ≤ a := beq_self_iff.mp hself
    have hb' := number_of_pos hb
    exact (eq_of_le_of_le hb (le_of_not_lt ha hb' hlt) (le_of_not_lt hb' ha h)).symm
  · rfl

/-- **The schedule begins where it should** if it grows or starts at its cap. -/
theorem coefficientSchedule_first {start growth cap : K} (hstart : 0.0 < start)
    (h : 1.0 < growth ∨ ¬start < cap) :
    ∃ cs, coefficientSchedule start growth cap = start :: cs := by
  rw [coefficientSchedule_eq]
  by_cases hlt : start < cap
  · rw [if_pos (h.resolve_right (not_not.mpr hlt))]
    obtain ⟨cs, hcs⟩ : ∃ cs, climb growth cap (climbSteps start growth cap) start = start :: cs :=
      ⟨_, if_pos hlt⟩
    exact ⟨cs ++ [Scalar.max cap start], congrArg (· ++ _) hcs⟩
  · have hclimb : climb growth cap (climbSteps start growth cap) start = [] := if_neg hlt
    rw [hclimb, ite_self, max_eq_right hstart hlt]
    exact ⟨[], rfl⟩

/-- Otherwise it consists of its cap. -/
theorem coefficientSchedule_of_not_growing {start growth cap : K} (hgrowth : ¬1.0 < growth)
    (h : start < cap) : coefficientSchedule start growth cap = [cap] := by
  rw [coefficientSchedule_eq, if_neg hgrowth, max_eq_left (le_of_lt h), List.nil_append]

namespace Seam

variable {s : Seam K}

/-- Then the first coefficient will do if there is no failure with it. -/
theorem filterAdaptive_of_clean (hstart : 0.0 < s.settings.coefficient)
    (h : 1.0 < s.settings.growth ∨ ¬s.settings.coefficient < s.settings.maxCoefficient)
    {raw : List K} {bound : K} {f : FilteredJoint K}
    (hf : filterJoint raw bound s.settings.coefficient = .ok f) (hclean : f.failures = 0) :
    s.filterAdaptive raw bound = .ok f := by
  obtain ⟨cs, hcs⟩ := coefficientSchedule_first hstart h
  simp only [filterAdaptive, hcs, filterUntilClean_of_clean hf hclean cs]
  rfl

/-- The cap is accepted if it is the only coefficient and leads to a result. -/
theorem filterAdaptive_of_not_growing (hgrowth : ¬1.0 < s.settings.growth)
    (h : s.settings.coefficient < s.settings.maxCoefficient) {raw : List K} {bound : K}
    {f : FilteredJoint K} (hf : s.filterAdaptive raw bound = .ok f) :
    filterJoint raw bound s.settings.maxCoefficient = .ok f := by
  obtain ⟨o, ho, hf⟩ := bind_eq_ok.mp hf
  rw [coefficientSchedule_of_not_growing hgrowth h] at ho
  obtain ⟨g, hg, ho⟩ := bind_eq_ok.mp ho
  obtain rfl := pure_eq_ok.mp ho
  obtain rfl := pure_eq_ok.mp hf
  exact hg

end Seam

end Ordered

/-! ## Two modes -/

namespace Seam

/-- Without waypoints the report has the configured coefficients, in either mode. -/
theorem of_applyAt_empty {s : Seam K} {limits : Limits K} {timeStep : K} {t t' : Trajectory K}
    {report : SeamReport K} (hcount : limits.jointCount = t.jointCount) (hempty : t.waypoints = [])
    (h : s.applyAt limits timeStep t = (t', .ok report)) : t' = t
      ∧ report = ⟨List.replicate t.jointCount 0,
        List.replicate t.jointCount s.settings.coefficient⟩ := by
  rw [applyAt] at h
  dsimp only at h
  rw [if_neg (not_not.mpr hcount), if_pos (List.isEmpty_iff.mpr hempty)] at h
  obtain ⟨rfl, hreport⟩ := Prod.mk.inj h
  exact ⟨rfl, (Except.ok.inj hreport).symm⟩

theorem create_inMode {settings : SeamSettings K} (h : Seam.create settings = .ok ⟨settings⟩)
    (mode : SeamMode) : Seam.create (settings.inMode mode).settings = .ok (settings.inMode mode) := by
  obtain ⟨filter, hfilter, h⟩ := bind_eq_ok.mp h
  obtain ⟨⟨⟩, htimeStep, -⟩ := bind_eq_ok.mp h
  exact bind_eq_ok.mpr ⟨filter, hfilter, bind_eq_ok.mpr ⟨(), htimeStep, rfl⟩⟩

end Seam

namespace SeamSettings

variable {settings : SeamSettings K} (h : Seam.create settings = .ok ⟨settings⟩)

include h

theorem exists_detected {limits : Limits K} (timeStep : K) {t : Trajectory K}
    (hlimits : ∃ v a j, Limits.ofLists v a j = .ok limits)
    (hcount : limits.jointCount = t.jointCount) (hshape : t.checkShape = .ok ()) :
    ∃ t₁ report₁,
      (settings.inMode .detectOnly).applyAt limits timeStep t = (t₁, .ok report₁) := by
  obtain ⟨v, a, j, hlimits⟩ := hlimits
  have hshaped := (Limits.accepted_of_ofLists hlimits).toShaped
  have hm : t.jointCount = v.length := hcount.symm.trans hshaped.velocity
  refine Seam.exists_applyAt hshaped (fun raw bound => ?_) hm (hm ▸ shapedAs_of_checkShapeFrom hshape)
  exact Seam.exists_filterJoint (LowPass.exists_create.mpr (Seam.coefficient_of_create h)) raw bound

section Ordered

variable [OrderedScalar K] (h01 : (0.0 : K) < 1.0)
  (hfirst : 1.0 < settings.growth ∨ ¬settings.coefficient < settings.maxCoefficient
    ∨ isFinite settings.maxCoefficient = false)

include h01 hfirst

/-- One joint, filtered in both modes. -/
theorem filtered_alike {raw : List K} {bound : K} {f₁ f₂ : FilteredJoint K}
    (h₁ : (settings.inMode .detectOnly).filter raw bound = .ok f₁) (hclean : f₁.failures = 0)
    (h₂ : (settings.inMode .adaptive).filter raw bound = .ok f₂) : f₂ = f₁ := by
  have hstart : 0.0 < settings.coefficient :=
    lt_of_lt_of_le h01 (Seam.coefficient_of_create h).2
  by_cases hbegins : 1.0 < settings.growth ∨ ¬settings.coefficient < settings.maxCoefficient
  · have hsame : (settings.inMode .adaptive).filterAdaptive raw bound = .ok f₁ :=
      Seam.filterAdaptive_of_clean hstart hbegins h₁ hclean
    exact Except.ok.inj (h₂.symm.trans hsame)
  · -- The only coefficient is not finite, so it cannot have been accepted.
    obtain ⟨hgrowth, hlt⟩ := not_or.mp hbegins
    have hinfinite := (hfirst.resolve_left hgrowth).resolve_left hlt
    obtain ⟨filter, hfilter, -⟩ :=
      bind_eq_ok.mp (Seam.filterAdaptive_of_not_growing hgrowth (not_not.mp hlt) h₂)
    have hfinite := (LowPass.exists_create.mp ⟨filter, hfilter⟩).1
    exact nomatch hfinite.symm.trans hinfinite

/-- **Adaptive mode is restrained** if it tries the configured coefficient first, or nothing that
can be accepted. -/
theorem restrained_of_first : settings.Restrained := by
  intro limits timeStep t hlimits hcount hshape
  obtain ⟨t₁, report₁, h₁⟩ := exists_detected h timeStep hlimits hcount hshape
  refine ⟨t₁, report₁, h₁, fun t₂ report₂ h₂ joint hclean => ?_⟩
  by_cases hempty : t.waypoints = []
  · obtain ⟨rfl, rfl⟩ := Seam.of_applyAt_empty hcount hempty h₁
    obtain ⟨rfl, rfl⟩ := Seam.of_applyAt_empty hcount hempty h₂
    rfl
  have hjoint : joint < t.jointCount := by
    rw [← (Seam.reported_of_applyAt hempty h₁).length_failures]
    exact (List.getElem?_eq_some_iff.mp hclean).1
  obtain ⟨raw, bound, f₁, f₂, -, hf₁, hf₂, houtcome₁, houtcome₂⟩ :=
    Seam.outcomes_of_applyAt hempty h₁ hempty h₂ hjoint hjoint rfl rfl
  have hfailures : f₁.failures = 0 :=
    Option.some.inj ((congrArg (·.2.1) houtcome₁).symm.trans hclean)
  obtain rfl := filtered_alike h h01 hfirst hf₁ hfailures hf₂
  exact houtcome₂.trans houtcome₁.symm

end Ordered

end SeamSettings

/-! ## A schedule that is only its cap -/

namespace SeamSettings

/-- A joint that has one waypoint only. -/
def standing : Trajectory Float :=
  ⟨none, [⟨"j0", .revolute, {}⟩], [⟨⟨[0.0], [0.0], [0.0]⟩, 0.0⟩]⟩

def oneLimit : Limits Float := ⟨[1.0], [1.0], [1.0]⟩

theorem ofLists_oneLimit : Limits.ofLists [1.0] [1.0] [1.0] = .ok oneLimit := rfl

/-- With one waypoint there is nothing to fail. -/
theorem failures_of_single {x bound c : K} {f : FilteredJoint K}
    (hf : filterJoint [x] bound c = .ok f) : f.failures = 0 := by
  obtain ⟨filter, -, hf⟩ := bind_eq_ok.mp hf
  obtain rfl := pure_eq_ok.mp hf
  rfl

section Settings

variable {settings : SeamSettings Float} (h : Seam.create settings = .ok ⟨settings⟩)

include h

theorem exists_adapted (hfinite : settings.maxCoefficient.isFinite = true) : ∃ t₂ report₂,
    (settings.inMode .adaptive).applyAt oneLimit 1.0 standing = (t₂, .ok report₂) := by
  have hcap : settings.maxCoefficient ≠ 1.0 / 0.0 := by
    intro hcap
    rw [hcap] at hfinite
    exact nomatch hfinite
  have haccepted := Seam.accepted_of_create (Seam.create_inMode h .adaptive) hcap
  exact Seam.exists_applyAt (Limits.accepted_of_ofLists ofLists_oneLimit).toShaped
    (Seam.exists_filter haccepted) rfl (shapedAs_of_checkShapeFrom (i := 0) rfl)

/-- A finite cap that is larger than the coefficient and the only one to be tried is used without
need. -/
theorem not_restrained (hgrowth : ¬1.0 < settings.growth)
    (hlt : settings.coefficient < settings.maxCoefficient)
    (hfinite : settings.maxCoefficient.isFinite = true) : ¬settings.Restrained := by
  intro hrestrained
  obtain ⟨t₁, report₁, h₁, hsame⟩ :=
    hrestrained oneLimit 1.0 standing ⟨_, _, _, ofLists_oneLimit⟩ rfl rfl
  obtain ⟨t₂, report₂, h₂⟩ := exists_adapted h hfinite
  have hne : standing.waypoints ≠ [] := List.cons_ne_nil _ _
  have hjoint : 0 < standing.jointCount := by decide
  obtain ⟨raw, bound, f₁, f₂, hraw, hf₁, hf₂, houtcome₁, houtcome₂⟩ :=
    Seam.outcomes_of_applyAt hne h₁ hne h₂ hjoint hjoint rfl rfl
  obtain rfl : [0.0] = raw := (Option.some_injective Float).list_map hraw
  have hf₁ : filterJoint [0.0] bound settings.coefficient = .ok f₁ := hf₁
  have hf₂ : filterJoint [0.0] bound settings.maxCoefficient = .ok f₂ :=
    Seam.filterAdaptive_of_not_growing hgrowth hlt hf₂
  have hclean : report₁.failures[0]? = some 0 :=
    (congrArg (·.2.1) houtcome₁).trans (congrArg some (failures_of_single hf₁))
  have houtcome := houtcome₂.symm.trans ((hsame t₂ report₂ h₂ 0 hclean).trans houtcome₁)
  have hcoefficient : f₂.coefficient = f₁.coefficient := Option.some.inj (congrArg (·.2.2) houtcome)
  rw [filterJoint_coefficient hf₁, filterJoint_coefficient hf₂] at hcoefficient
  rw [hcoefficient] at hlt
  exact not_le_of_lt hlt (number_of_le (le_of_lt hlt)).1

/-- **Adaptive mode smooths no harder than needed** exactly if the coefficient grows, has reached its
cap from the start, or has an infinite cap to grow to. -/
theorem restrained_iff : settings.Restrained ↔ 1.0 < settings.growth
    ∨ ¬settings.coefficient < settings.maxCoefficient
    ∨ settings.maxCoefficient.isFinite = false := by
  constructor
  · intro hrestrained
    by_contra! hfirst
    obtain ⟨hgrowth, hlt, hfinite⟩ := hfirst
    exact not_restrained h hgrowth hlt (Bool.not_eq_false _ ▸ hfinite) hrestrained
  · exact restrained_of_first h Double.zero_lt_one

end Settings

theorem restrained_default : Seam.create (default : SeamSettings Float) = .ok ⟨default⟩
    ∧ (default : SeamSettings Float).Restrained :=
  ⟨rfl, (restrained_iff rfl).mpr (.inl (by decide))⟩

/-- Coefficients from 20 to 200, by a factor that leaves them at 20. -/
def hasty : SeamSettings Float := ⟨20, 0.001, .adaptive, 1, 200⟩

/-- A joint that moves slowly. -/
def strolling : Trajectory Float :=
  ⟨none, [⟨"j0", .revolute, {}⟩], [⟨⟨[0], [0], [0]⟩, 0⟩, ⟨⟨[0.01], [0], [0]⟩, 0.001⟩,
    ⟨⟨[0.02], [0], [0]⟩, 0.001⟩]⟩

def strollingLimits : Limits Float := ⟨[5], [10], [20]⟩

/-- The failures and coefficients that are reported of it in one of the modes. -/
def strolled (mode : SeamMode) : Option (List ℕ × List Float) :=
  ((hasty.inMode mode).applyAt strollingLimits 0.001 strolling).2.toOption.map fun report =>
    (report.failures, report.coefficients)

theorem strolled_detectOnly : strolled .detectOnly = some ([0], [20]) := by decide +kernel

theorem strolled_adaptive : strolled .adaptive = some ([0], [200]) := by decide +kernel

theorem exists_of_strolled {mode : SeamMode} {failures : List ℕ} {coefficients : List Float}
    (h : strolled mode = some (failures, coefficients)) : ∃ t',
      (hasty.inMode mode).applyAt strollingLimits 0.001 strolling
        = (t', .ok ⟨failures, coefficients⟩) := by
  obtain ⟨report, hreport, hfields⟩ := Option.map_eq_some_iff.mp h
  obtain ⟨rfl, rfl⟩ := Prod.mk.inj hfields
  exact ⟨_, Prod.ext rfl (toOption_eq_some.mp hreport)⟩

/-- Both steps are small enough for 20, and yet 200 is used. -/
theorem hasty_not_restrained : Seam.create hasty = .ok ⟨hasty⟩ ∧ ¬hasty.Restrained := by
  refine ⟨rfl, fun hrestrained => ?_⟩
  obtain ⟨t₁, report₁, h₁, hsame⟩ :=
    hrestrained strollingLimits 0.001 strolling ⟨[5], [10], [20], rfl⟩ rfl rfl
  obtain ⟨t₁', h₁'⟩ := exists_of_strolled strolled_detectOnly
  obtain ⟨t₂, h₂⟩ := exists_of_strolled strolled_adaptive
  obtain ⟨rfl, hreport⟩ := Prod.mk.inj (h₁.symm.trans h₁')
  obtain rfl := Except.ok.inj hreport
  have hcoefficient : some (200 : Float) = some 20 := congrArg (·.2.2) (hsame t₂ _ h₂ 0 rfl)
  exact absurd hcoefficient (by decide)

end SeamSettings

end JerkLimit

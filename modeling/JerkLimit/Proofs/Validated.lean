import Mathlib
import JerkLimit.Settings.Validity
import JerkLimit.Strategy
import JerkLimit.Proofs.Double
import JerkLimit.Proofs.Endings

/-!
# Proofs/Validated — settings that have been checked

`Settings.check` and the constructors of the strategies ask for nearly the same. The one question
that is new to a constructor is whether the coefficient of the seam filter is finite, and in
adaptive mode every coefficient of the schedule is asked it again when it is its turn.

* A schedule climbs from its first coefficient to the largest one, which comes last
  (`coefficientSchedule_eq`). So its coefficients are accepted if the largest one is finite.
* With a filter that accepts its coefficients no run objects to a parameter
  (`Strategy.smooth_not_invalid`).

`Settings.neverRejected_iff` puts both together: checked settings are never rejected afterwards,
except for an infinite largest coefficient.
-/

namespace JerkLimit

open Scalar OrderedScalar

variable {K : Type} [Scalar K]

/-! ## What is checked -/

namespace Settings

/-- Settings that pass their check. -/
structure Valid (s : Settings K) : Prop where
  tunable (t : Tunable) : t.demand.holds (t.value s) = true
  maxAttempts : s.chained.maxAttempts ≠ 0
  coefficient_le : s.seam.coefficient ≤ s.seam.maxCoefficient
  override {o : JointOverride K} : o ∈ s.joints → checkOverride o = .ok ()

theorem checkTunable_eq_ok {s : Settings K} {t : Tunable} {u : Unit} :
    s.checkTunable t = .ok u ↔ t.demand.holds (t.value s) = true := ensure_eq_ok

theorem check_eq_ok {s : Settings K} : s.check = .ok () ↔ s.Valid := by
  simp only [check, bind_eq_ok, forM_eq_ok, checkTunable_eq_ok, ensure_eq_ok, decide_eq_true_eq,
    exists_const]
  constructor
  · rintro ⟨hleading, hattempts, hcoefficient, hle, hjoints⟩
    refine ⟨fun t => ?_, hattempts, hle, hjoints _⟩
    cases t with
    | coefficient => exact hcoefficient
    | _ => exact hleading _ (by simp [leadingTunables])
  · intro h
    exact ⟨fun t _ => h.tunable t, h.maxAttempts, h.tunable .coefficient, h.coefficient_le,
      fun _ => h.override⟩

/-- With exact arithmetic the default settings pass. In double precision that can be evaluated. -/
theorem check_default : (default : Settings ℝ).check = .ok () := by
  refine check_eq_ok.mpr ⟨fun t => ?_, ?_, ?_, nofun⟩
  · cases t <;> norm_num [Tunable.demand, Demand.holds, Tunable.value, default]
  · change 5 ≠ 0
    norm_num
  · change (20.0 : ℝ) ≤ 200.0
    norm_num

namespace Valid

variable {s : Settings K}

theorem one_le_coefficient (h : s.Valid) : 1.0 ≤ s.seam.coefficient :=
  decide_eq_true_iff.mp (h.tunable .coefficient)

theorem one_lt_growth (h : s.Valid) : 1.0 < s.seam.growth :=
  decide_eq_true_iff.mp (Bool.and_eq_true_iff.mp (h.tunable .growth)).2

theorem one_lt_extensionFactor (h : s.Valid) : 1.0 < s.chained.extensionFactor :=
  decide_eq_true_iff.mp (Bool.and_eq_true_iff.mp (h.tunable .extensionFactor)).2

end Valid

end Settings

/-! ## Coefficients -/

/-- What holds of the first coefficient and survives growth holds of all of them, and they stay below
the cap. -/
theorem of_mem_climb {P : K → Prop} {growth cap c : K} (hc : P c)
    (hgrowth : ∀ c, P c → P (c * growth)) {n : ℕ} {x : K} (h : x ∈ climb growth cap n c) :
    P x ∧ x < cap := by
  induction n generalizing c with
  | zero => exact nomatch h
  | succ n ih =>
    rw [climb] at h
    split_ifs at h with hlt
    · rcases List.mem_cons.mp h with rfl | h
      · exact ⟨hc, hlt⟩
      · exact ih (hgrowth c hc) h
    · exact nomatch h

theorem lt_of_mem_climb {growth cap c x : K} {n : ℕ} (h : x ∈ climb growth cap n c) : x < cap :=
  (of_mem_climb (P := fun _ => True) trivial (fun _ => id) h).2

/-- **A schedule climbs up to its cap**, which comes last. -/
theorem coefficientSchedule_eq (start growth cap : K) :
    coefficientSchedule start growth cap
      = (if 1.0 < growth then climb growth cap (climbSteps start growth cap) start else [])
        ++ [Scalar.max cap start] := by
  obtain ⟨below, hbelow⟩ : ∃ below,
    (if 1.0 < growth then climb growth cap (climbSteps start growth cap) start else []) = below :=
    ⟨_, rfl⟩
  have hlt : ∀ x ∈ below, x < cap := by
    intro x hx
    rw [← hbelow] at hx
    split_ifs at hx
    · exact lt_of_mem_climb hx
    · exact nomatch hx
  simp only [coefficientSchedule, hbelow]
  cases hlast : below.getLast? with
  | none =>
    obtain rfl := List.getLast?_eq_none_iff.mp hlast
    rfl
  | some last => exact if_pos (hlt last (List.mem_of_getLast? hlast))

/-- There is always a coefficient to try. -/
theorem coefficientSchedule_ne_nil (start growth cap : K) :
    coefficientSchedule start growth cap ≠ [] := by
  rw [coefficientSchedule_eq]
  exact List.append_ne_nil_of_right_ne_nil _ (List.cons_ne_nil _ _)

section Ordered

variable [OrderedScalar K]

/-- Growth does not lead below one. -/
theorem one_le_of_mem_climb (h01 : (0.0 : K) < 1.0) {growth cap : K} (hgrowth : 1.0 ≤ growth)
    {c x : K} (hc : 1.0 ≤ c) {n : ℕ} (h : x ∈ climb growth cap n c) : 1.0 ≤ x :=
  (of_mem_climb hc
    (fun _ hc => le_trans hc (le_mul_of_one_le (lt_of_lt_of_le h01 hc) hgrowth)) h).1

theorem max_eq_left {a b : K} (h : b ≤ a) : Scalar.max a b = a := by
  have hself : (a == a) = true := beq_self_iff.mpr (number_of_le h).2
  rw [Scalar.max, if_neg fun hlt => not_le_of_lt hlt h, if_pos hself]

end Ordered

/-- One of the coefficients is the answer, if all of them are accepted. -/
theorem exists_filterUntilClean {cs : List K} (hne : cs ≠ [])
    (h : ∀ c ∈ cs, ∃ f, LowPass.create c = .ok f) (raw : List K) (bound : K) :
    ∃ f, filterUntilClean raw bound cs = .ok (some f) := by
  induction cs with
  | nil => exact absurd rfl hne
  | cons c cs ih =>
    obtain ⟨hc, hrest⟩ := List.forall_mem_cons.mp h
    obtain ⟨f, hf⟩ := Seam.exists_filterJoint hc raw bound
    cases cs with
    | nil => exact ⟨f, bind_eq_ok.mpr ⟨f, hf, rfl⟩⟩
    | cons c' cs =>
      by_cases hclean : f.failures = 0
      · exact ⟨f, bind_eq_ok.mpr ⟨f, hf, if_pos hclean⟩⟩
      · obtain ⟨f', hf'⟩ := ih (List.cons_ne_nil c' cs) hrest
        exact ⟨f', bind_eq_ok.mpr ⟨f, hf, (if_neg hclean).trans hf'⟩⟩

/-- The coefficients that a seam filter may use are accepted. -/
structure SeamSettings.Accepted (s : SeamSettings K) : Prop where
  coefficient : ∃ f, LowPass.create s.coefficient = .ok f
  schedule : ∀ c ∈ coefficientSchedule s.coefficient s.growth s.maxCoefficient,
    ∃ f, LowPass.create c = .ok f

/-- Then every column can be filtered. -/
theorem Seam.exists_filter {s : Seam K} (h : s.settings.Accepted) (raw : List K) (bound : K) :
    ∃ f, s.filter raw bound = .ok f := by
  rw [filter]
  cases s.settings.mode with
  | detectOnly => exact exists_filterJoint h.coefficient raw bound
  | adaptive =>
    obtain ⟨f, hf⟩ :=
      exists_filterUntilClean (coefficientSchedule_ne_nil _ _ _) h.schedule raw bound
    exact ⟨f, bind_eq_ok.mpr ⟨some f, hf, rfl⟩⟩

/-! ## Building a strategy and running it -/

namespace Settings.Valid

variable {s : Settings K}

/-- What a constructor asks, apart from the coefficient, has been checked. -/
theorem exists_ofSettings (h : s.Valid) (hfilter : ∃ f, LowPass.create s.seam.coefficient = .ok f) :
    ∃ strategy, Strategy.ofSettings s = .ok strategy := by
  rw [Strategy.ofSettings]
  cases s.strategy with
  | streaming => exact ⟨_, rfl⟩
  | chained => exact ⟨_, rfl⟩
  | segmentwise =>
    obtain ⟨filter, hfilter⟩ := hfilter
    have hseam : Seam.create s.seam = .ok ⟨s.seam⟩ := bind_eq_ok.mpr ⟨filter, hfilter,
      bind_eq_ok.mpr ⟨(), ensure_eq_ok.mpr (h.tunable .seamTimeStep), rfl⟩⟩
    have hdense : Dense.create s.segmentwise s.limits ⟨s.seam⟩
        = .ok ⟨s.segmentwise, s.limits, ⟨s.seam⟩⟩ :=
      bind_eq_ok.mpr ⟨(), ensure_eq_ok.mpr (h.tunable .sampleTimeStep),
        bind_eq_ok.mpr ⟨(), ensure_eq_ok.mpr (h.tunable .durationFactor), rfl⟩⟩
    exact ⟨_, bind_eq_ok.mpr ⟨_, hseam, bind_eq_ok.mpr ⟨_, hdense, rfl⟩⟩⟩

end Settings.Valid

namespace Strategy

/-- A strategy takes over what is set for it. -/
theorem ofSettings_cases {s : Settings K} {strategy : Strategy K}
    (h : ofSettings s = .ok strategy) :
    strategy = .streaming s.streaming.period s.limits
      ∨ strategy = .chained s.chained s.limits
      ∨ strategy = .segmentwise ⟨s.segmentwise, s.limits, ⟨s.seam⟩⟩ s.chained.velocityScale
        s.chained.accelerationScale := by
  rw [ofSettings] at h
  cases hkind : s.strategy with
  | streaming =>
    rw [hkind] at h
    exact .inl (pure_eq_ok.mp h).symm
  | chained =>
    rw [hkind] at h
    exact .inr (.inl (pure_eq_ok.mp h).symm)
  | segmentwise =>
    rw [hkind] at h
    obtain ⟨seam, hseam, h⟩ := bind_eq_ok.mp h
    obtain ⟨_, -, hseam⟩ := bind_eq_ok.mp hseam
    obtain ⟨_, -, hseam⟩ := bind_eq_ok.mp hseam
    obtain ⟨dense, hdense, h⟩ := bind_eq_ok.mp h
    obtain ⟨_, -, hdense⟩ := bind_eq_ok.mp hdense
    obtain ⟨_, -, hdense⟩ := bind_eq_ok.mp hdense
    obtain rfl := pure_eq_ok.mp hseam
    obtain rfl := pure_eq_ok.mp hdense
    exact .inr (.inr (pure_eq_ok.mp h).symm)

/-- **Checked settings with an accepted filter smooth without objecting to a parameter.** -/
theorem smooth_not_invalid [OrderedScalar K] {s : Settings K} (hs : s.Valid)
    (hseam : s.seam.Accepted) {strategy : Strategy K} (h : ofSettings s = .ok strategy)
    (t : Trajectory K) (parameter : Parameter) (value : K) :
    (strategy.smooth t).2 ≠ .error (.error (.invalid parameter value)) := by
  intro herror
  have hinvalid : (SmoothingError.invalid parameter value).IsInvalid := trivial
  obtain ⟨⟨t', outcome⟩, hrun⟩ : ∃ r, strategy.smooth t = r := ⟨_, rfl⟩
  rw [hrun] at herror
  obtain rfl : outcome = _ := herror
  have hended := smooth_ended hrun
  rcases ofSettings_cases h with rfl | rfl | rfl
  · cases hended with
    | rejected he => exact he hinvalid
  · cases hended with
    | chained h =>
      cases h with
      | rejected he => exact he hinvalid
      | noAttempt _ hmax => exact hs.maxAttempts hmax
  · cases hended with
    | segmentwise h =>
      cases h with
      | failed h =>
        obtain ⟨e, he, hrun⟩ := h.error.2 (Seam.exists_filter hseam)
        exact hrun (Stop.error.inj he ▸ hinvalid)

end Strategy

/-! ## Checked settings -/

namespace Settings

/-- Nothing that comes after the check finds fault with the settings: there is a strategy of every
kind, no run of it objects to a parameter, and all coefficients of the schedule are accepted. -/
structure NeverRejected (s : Settings K) : Prop where
  strategy (kind : StrategyKind) : ∃ strategy,
    Strategy.ofSettings { s with strategy := kind } = .ok strategy
      ∧ ∀ t parameter value, (strategy.smooth t).2 ≠ .error (.error (.invalid parameter value))
  schedule : ∀ c ∈ coefficientSchedule s.seam.coefficient s.seam.growth s.seam.maxCoefficient,
    ∃ f, LowPass.create c = .ok f

/-- The coefficients of checked settings are accepted if the largest one is finite. -/
theorem Valid.accepted {s : Settings Float} (h : s.Valid)
    (hfinite : s.seam.maxCoefficient.isFinite = true) : s.seam.Accepted := by
  have haccepted {c : Float} (h1 : 1.0 ≤ c) (hc : c ≤ s.seam.maxCoefficient) :
      ∃ f, LowPass.create c = .ok f :=
    LowPass.exists_create.mpr ⟨Double.isFinite_of_le h1 hc hfinite, h1⟩
  have hone := h.one_le_coefficient
  refine ⟨haccepted hone h.coefficient_le, fun c hc => ?_⟩
  rw [coefficientSchedule_eq, max_eq_left h.coefficient_le, if_pos h.one_lt_growth,
    List.mem_append, List.mem_singleton] at hc
  rcases hc with hc | rfl
  · exact haccepted (one_le_of_mem_climb Double.zero_lt_one (le_of_lt h.one_lt_growth) hone hc)
      (le_of_lt (lt_of_mem_climb hc))
  · exact haccepted (le_trans hone h.coefficient_le) (number_of_le h.coefficient_le).2

/-- **Settings that have been checked are never rejected afterwards**, exactly if the largest
coefficient of the seam filter is finite. -/
theorem neverRejected_iff {s : Settings Float} (h : s.check = .ok ()) :
    s.NeverRejected ↔ s.seam.maxCoefficient.isFinite = true := by
  have hvalid := check_eq_ok.mp h
  constructor
  · intro hs
    have hlast : s.seam.maxCoefficient
        ∈ coefficientSchedule s.seam.coefficient s.seam.growth s.seam.maxCoefficient := by
      rw [coefficientSchedule_eq, max_eq_left hvalid.coefficient_le]
      exact List.mem_append_right _ (List.mem_singleton_self _)
    exact (LowPass.exists_create.mp (hs.schedule _ hlast)).1
  · intro hfinite
    have haccepted := hvalid.accepted hfinite
    refine ⟨fun kind => ?_, haccepted.schedule⟩
    have hkind : { s with strategy := kind }.Valid := check_eq_ok.mp h
    obtain ⟨strategy, hstrategy⟩ := hkind.exists_ofSettings haccepted.coefficient
    exact ⟨strategy, hstrategy, Strategy.smooth_not_invalid hkind haccepted hstrategy⟩

theorem neverRejected_default :
    (default : Settings Float).check = .ok () ∧ (default : Settings Float).NeverRejected :=
  ⟨rfl, (neverRejected_iff rfl).mpr rfl⟩

/-- The default settings with a filter that lets nothing through. -/
def infiniteFilter : Settings Float :=
  { (default : Settings Float) with
    seam := { (default : SeamSettings Float) with
      coefficient := 1.0 / 0.0
      maxCoefficient := 1.0 / 0.0 } }

/-- The check lets an infinite coefficient pass, and the constructor does not. -/
theorem infiniteFilter_rejected :
    infiniteFilter.check = .ok () ∧ ¬infiniteFilter.NeverRejected := by
  refine ⟨rfl, fun h => ?_⟩
  obtain ⟨strategy, hstrategy, -⟩ := h.strategy .segmentwise
  have hrejected : Strategy.ofSettings { infiniteFilter with strategy := .segmentwise }
      = .error (.invalid .filterCoefficient (1.0 / 0.0)) := rfl
  exact nomatch hstrategy.symm.trans hrejected

end Settings

end JerkLimit

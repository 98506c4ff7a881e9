import Mathlib
import JerkLimit.Proofs.Growth

/-!
# Proofs/Surge — how the slack adds up

`Promises k f` says that the smoothed cycle after `k` others is within `f` of the limits. The slack
of `k + 1` comparisons is promised (`smoothed_le_grown`), and nothing that stays below what a
**surge** gains is (`not_promises`).

In a surge a joint at speed `v` is told to go a little further than it takes to stop in a
microsecond, the shortest time there is. Its speed rises before it falls, and at the end of the
cycle it stands still at the top. All of that is within the slack, so the next cycle can start the
same motion at the higher speed. So no factor bounds all runs (`exists_not_promises`), and one time
the slack is promised to the first smoothed cycle only (`promises_grown_iff`).
-/

namespace JerkLimit.CommandStream

open Scalar Quintic

/-! ## One microsecond -/

/-- The part of the motion that one cycle takes. -/
noncomputable def crest : ℝ := 7.933854207e-4

/-- How much further than to stop evenly the joint is told to go. -/
noncomputable def reach : ℝ := 6.0 * crest / (1 - 2.0 * crest)

/-- How much the speed rises. -/
noncomputable def gain : ℝ :=
  crest ^ 3 * (2.0 + 3.0 * crest + 6.0 * crest ^ 2 / (1 - 2.0 * crest))

theorem gain_bounds : 1e-9 - 2e-19 ≤ gain ∧ gain ≤ 1e-9 := by
  norm_num [gain, crest]

/-- No cycle of a run of surges starts slower than the first. -/
theorem le_speed (k : ℕ) : 1000 ≤ 1000 * (1 + gain) ^ k := by
  have hgain : (1 : ℝ) ≤ 1 + gain := by linarith [gain_bounds.1]
  linarith [one_le_pow₀ hgain (n := k)]

theorem reach_bounds : 0 ≤ reach ∧ reach ≤ 1 := by
  norm_num [reach, crest]

/-- The speed at a fraction of the motion never exceeds the one at the crest. -/
theorem speed_le {x : ℝ} (h0 : 0 ≤ x) (h1 : x ≤ 1) :
    0 ≤ 1 - 4 * x ^ 3 + 3 * x ^ 4 + reach * x ^ 2 * (1 - x) ^ 2
      ∧ 1 - 4 * x ^ 3 + 3 * x ^ 4 + reach * x ^ 2 * (1 - x) ^ 2 ≤ 1 + gain := by
  have hreach := reach_bounds.1
  have hx : 0 ≤ 1 - x := sub_nonneg.mpr h1
  constructor
  · have hfactor : 1 - 4 * x ^ 3 + 3 * x ^ 4 + reach * x ^ 2 * (1 - x) ^ 2
        = (1 - x) ^ 2 * (1 + 2 * x + 3 * x ^ 2 + reach * x ^ 2) := by ring
    rw [hfactor]
    positivity
  · -- What is missing to the crest has a double root there.
    have hroot : 1 + gain - (1 - 4 * x ^ 3 + 3 * x ^ 4 + reach * x ^ 2 * (1 - x) ^ 2)
        = (x - crest) ^ 2 * ((1 - x) * (gain / crest ^ 2)
          + x * (1 + reach - 2 * crest * (3 + reach) + gain / crest ^ 2)
          + (3 + reach) * (x * (1 - x))) := by
      norm_num [gain, reach, crest]
      ring
    have hends : 0 ≤ gain / crest ^ 2 ∧ 0 ≤ 1 + reach - 2 * crest * (3 + reach) := by
      norm_num [gain, reach, crest]
    have hrest : 0 ≤ (x - crest) ^ 2 * ((1 - x) * (gain / crest ^ 2)
          + x * (1 + reach - 2 * crest * (3 + reach) + gain / crest ^ 2)
          + (3 + reach) * (x * (1 - x))) := by
      have h := add_nonneg hends.2 hends.1
      have := hends.1
      positivity
    linarith

/-- Acceleration and jerk along the motion, apart from their scale. -/
theorem shape_le {x : ℝ} (h0 : 0 ≤ x) (h1 : x ≤ 1) :
    |2 * x * (1 - x) * (reach * (1 - 2 * x) - 6 * x)| ≤ 100
      ∧ |reach * (2 - 12 * x + 12 * x ^ 2) - 24 * x + 36 * x ^ 2| ≤ 100 := by
  have hreach : |reach| ≤ 1 := abs_le.mpr ⟨by linarith [reach_bounds.1], reach_bounds.2⟩
  exact ⟨(abs_acceleration_to_rest_le reach h0 h1).trans (by linarith),
    (abs_jerk_to_rest_le reach h0 h1).trans (by linarith)⟩

/-- A microsecond in which a joint at speed `v` is to stop a little late. -/
noncomputable def surge (x v : ℝ) : Quintic ℝ :=
  between ⟨x, v, 0⟩ ⟨x + (18 + reach) / 30 * v * 1e-6, 0, 0⟩ 1e-6

/-- A surge is within the slack. -/
theorem staysWithin_surge {b x v : ℝ} (hv : 1000 ≤ v) (hb : v ≤ b) :
    (surge x v).StaysWithin (slack ⟨v, 1e9 * b, 1e16 * b⟩) := by
  have hT : (0 : ℝ) < 1e-6 := by norm_num
  have hv0 : 0 ≤ v := by linarith
  intro t ht
  rw [surge, between_duration _ _ hT] at ht
  obtain ⟨y, h0, h1, rfl⟩ := exists_fraction hT ht
  obtain ⟨hvelocity, hacceleration, hjerk⟩ := to_rest x v reach y hT
  rw [surge, hvelocity, hacceleration, hjerk]
  refine ⟨?_, ?_, ?_⟩
  · obtain ⟨hspeed0, hspeed⟩ := speed_le h0 h1
    rw [abs_mul, abs_of_nonneg hv0, abs_of_nonneg hspeed0]
    calc v * (1 - 4 * y ^ 3 + 3 * y ^ 4 + reach * y ^ 2 * (1 - y) ^ 2) ≤ v * (1 + 1e-9) :=
          mul_le_mul_of_nonneg_left (hspeed.trans (by linarith [gain_bounds.2])) hv0
      _ ≤ v * (1 + 1e-9) + 1 / 4503599627370496 := le_add_of_nonneg_right (by norm_num)
  -- The other two limits are far away.
  · rw [abs_mul, abs_of_nonneg (by positivity)]
    calc v / 1e-6 * |2 * y * (1 - y) * (reach * (1 - 2 * y) - 6 * y)| ≤ v / 1e-6 * 100 := by
          gcongr
          exact (shape_le h0 h1).1
      _ ≤ 1e9 * b * (1 + 1e-9) + 1 / 4503599627370496 := by
          norm_num
          linarith
  · rw [abs_mul, abs_of_nonneg (by positivity)]
    calc v / 1e-6 ^ 2 * |reach * (2 - 12 * y + 12 * y ^ 2) - 24 * y + 36 * y ^ 2|
        ≤ v / 1e-6 ^ 2 * 100 := by
          gcongr
          exact (shape_le h0 h1).2
      _ ≤ 1e16 * b * (1 + 1e-9) + 1 / 4503599627370496 := by
          norm_num
          linarith

/-- A surge as a joint's task. -/
noncomputable def surging (b x v : ℝ) : Task ℝ :=
  ⟨⟨x, v, 0⟩, ⟨x + (18 + reach) / 30 * v * 1e-6, 0, 0⟩, ⟨1000, 1e9 * b, 1e16 * b⟩⟩

theorem surging_raised {b x v : ℝ} (hv : 1000 ≤ v) (hb : v ≤ b) :
    (surging b x v).raised.limits = ⟨v, 1e9 * b, 1e16 * b⟩ := by
  have hv0 : |v| = v := abs_of_nonneg (by linarith)
  have ha : (0 : ℝ) ≤ 1e9 * b := by linarith
  have hlimits : (surging b x v).raised.limits
      = ⟨1000 ⊔ |v|, 1e9 * b ⊔ |0|, 1e16 * b⟩ := by
    rw [← max_real, ← max_real]
    rfl
  rw [hlimits, hv0, abs_zero, sup_of_le_right hv, sup_of_le_left ha]

/-- A microsecond is within the slack of the limits. -/
theorem feasible_surging {b x v : ℝ} (hv : 1000 ≤ v) (hb : v ≤ b) :
    (surging b x v).raised.feasible 1e-6 = true := by
  have hT : (0 : ℝ) < 1e-6 := by norm_num
  change (surge x v).within (surging b x v).raised.limits = true
  rw [surging_raised hv hb]
  refine within_of_staysWithin_slack ?_ (staysWithin_surge hv hb)
  rw [surge, between_duration _ _ hT]
  exact hT.le

/-! ## One cycle -/

/-- The search takes the shortest time there is. -/
theorem minimalDuration_surging {b x v : ℝ} (hv : 1000 ≤ v) (hb : v ≤ b) :
    (surging b x v).raised.minimalDuration = some 1e-6 := by
  have hv0 : 0 ≤ v := by linarith
  have hmoves : (surging b x v).raised.isStationary = false :=
    Task.isStationary_eq_false (by change v ≠ 0; linarith)
  have hbound : (surging b x v).raised.lowerBound = 1e-6 := by
    refine le_antisymm (Task.lowerBound_le_iff.mpr ?_) (Task.lowerBound_le_iff.mp le_rfl).1
    rw [surging_raised hv hb]
    change _ ≤ _ ∧ |x + (18 + reach) / 30 * v * 1e-6 - x| / v ≤ (1e-6 : ℝ)
      ∧ |0 - v| / (1e9 * b) ≤ 1e-6 ∧ |(0 : ℝ) - 0| / (1e16 * b) ≤ 1e-6
    refine ⟨le_rfl, ?_, ?_, ?_⟩
    · obtain ⟨hreach0, hreach1⟩ := reach_bounds
      rw [add_sub_cancel_left, abs_of_nonneg (by positivity), div_le_iff₀ (by linarith)]
      nlinarith
    · rw [zero_sub, abs_neg, abs_of_nonneg hv0, div_le_iff₀ (by linarith)]
      linarith
    · norm_num
  rw [Task.minimalDuration_of_feasible hmoves (hbound ▸ feasible_surging hv hb), hbound]

/-- A planner that has one joint and no more time than up to the crest. -/
noncomputable def surgePlanner : Planner ℝ := ⟨1, crest * 1e-6⟩

/-- Where a surge is at the crest. -/
noncomputable def carried (x v : ℝ) : ℝ := ((surge x v).stateAt (crest * 1e-6)).position

/-- **At the crest** a surge is faster, and neither gains nor loses speed. -/
theorem stateAt_crest (x v : ℝ) :
    (surge x v).stateAt (crest * 1e-6) = ⟨carried x v, v * (1 + gain), 0⟩ := by
  have hT : (0 : ℝ) < 1e-6 := by norm_num
  obtain ⟨hvelocity, hacceleration, -⟩ := to_rest x v reach crest hT
  have hrise : 1 - 4 * crest ^ 3 + 3 * crest ^ 4 + reach * crest ^ 2 * (1 - crest) ^ 2
      = 1 + gain := by norm_num [gain, reach, crest]
  have hlevel : reach * (1 - 2 * crest) - 6 * crest = 0 := by norm_num [reach, crest]
  rw [hrise] at hvelocity
  rw [hlevel, mul_zero, mul_zero] at hacceleration
  exact (JointState.mk.injEq ..).mpr ⟨rfl, hvelocity, hacceleration⟩

/-- Limits for one joint, the velocity by far the narrowest. -/
noncomputable def surgeLimits (b : ℝ) : Limits ℝ := ⟨[1000], [1e9 * b], [1e16 * b]⟩

theorem surgeLimits_positive {b : ℝ} (hb : 0 < b) : (surgeLimits b).Positive := by
  refine Limits.ofLists_eq_ok.mpr ⟨⟨rfl, rfl⟩, List.forall_mem_singleton.mpr ⟨?_, ?_, ?_⟩, rfl⟩
  · change (0 : ℝ) < 1000
    norm_num
  · change 0 < 1e9 * b
    positivity
  · change 0 < 1e16 * b
    positivity

/-- What a cycle of a surge asks for. -/
noncomputable def surgeRequest (b x v : ℝ) : Request ℝ :=
  ⟨⟨[x], [v], [0]⟩, ⟨[x + (18 + reach) / 30 * v * 1e-6], [0], [0]⟩, surgeLimits b, none⟩

theorem surgeRequest_valid {b : ℝ} (hb : 0 < b) (x v : ℝ) : (surgeRequest b x v).Valid 1 where
  current := rfl
  target := rfl
  jointCount := rfl
  joints := rfl
  motions := by
    obtain ⟨hv, ha, hj⟩ := (surgeLimits_positive hb).pos (List.mem_singleton_self _)
    refine List.forall_mem_singleton.mpr
      ⟨hv, ha, hj, withinLimit_of_le hv.le ?_, withinLimit_of_le ha.le ?_⟩
    · exact abs_zero.trans_le hv.le
    · exact abs_zero.trans_le ha.le

/-- **A surge goes one time step**, up to its crest. -/
theorem update_surging {b x v : ℝ} (hv : 1000 ≤ v) (hb : v ≤ b) :
    surgePlanner.update (surgeRequest b x v)
      = .ok ⟨.working, ⟨[carried x v], [v * (1 + gain)], [0]⟩, 1e-6⟩ := by
  have hstep : 0 ≤ surgePlanner.timeStep := by norm_num [surgePlanner, crest]
  have hfit : ¬surgePlanner.FitsStep 1e-6 := by
    norm_num [Planner.FitsStep, surgePlanner, crest]
  have hafter : (surging b x v).raised.after surgePlanner.timeStep 1e-6
      = ⟨carried x v, v * (1 + gain), 0⟩ := by
    rw [Task.after, if_neg (by norm_num [surgePlanner, crest])]
    exact stateAt_crest x v
  have htasks : (surgeRequest b x v).tasks surgePlanner.jointCount = .ok [(surging b x v).raised] :=
    Request.tasks_eq_ok.mpr ⟨surgeRequest_valid (by linarith) x v, rfl⟩
  rw [Planner.update_of_not_requested htasks rfl,
    Planner.search_eq_working hstep (searchDuration_singleton (minimalDuration_surging hv hb)) hfit,
    List.map_singleton, hafter]
  rfl

/-! ## One cycle after the other -/

/-- A stream with room for speeds from 1000 up to `b`. -/
noncomputable def surges (b : ℝ) : CommandStream (Planner ℝ) ℝ :=
  ⟨Planner.solver, surgeLimits b⟩

theorem createPlanner_surges {b : ℝ} (hb : 0 < b) :
    createPlanner [⟨some 1000, some (1e9 * b), some (1e16 * b)⟩] 1 (crest * 1e-6) default
      = .ok (surgePlanner, surges b, .ofState (State.zeros 1)) := by
  have hlimits : Limits.forStreaming
      [(⟨some 1000, some (1e9 * b), some (1e16 * b)⟩ : Bounds ℝ)] default = .ok (surgeLimits b) :=
    bind_eq_ok.mpr ⟨[1000], rfl, surgeLimits_positive hb⟩
  have hplanner : Planner.create 1 (crest * 1e-6) = .ok surgePlanner :=
    Planner.create_eq_ok.mpr ⟨by norm_num [crest], rfl⟩
  have hcreate : CommandStream.create Planner.solver surgePlanner
      [⟨some 1000, some (1e9 * b), some (1e16 * b)⟩] default
      = .ok (surges b, .ofState (State.zeros 1)) :=
    bind_eq_ok.mpr ⟨(), rfl, bind_eq_ok.mpr ⟨_, (mapError_ok _ _).mpr hlimits, rfl⟩⟩
  exact bind_eq_ok.mpr ⟨_, (mapError_ok _ _).mpr hplanner, bind_eq_ok.mpr ⟨_, hcreate, rfl⟩⟩

/-- **One cycle of a surge** ends faster than it starts. -/
theorem step_surges {b x v : ℝ} {m : Memory ℝ} (hm : planned m = ⟨[x], [v], [0]⟩) (hv : 1000 ≤ v)
    (hb : v ≤ b) : ∃ (command : State ℝ) (r : StreamStep ℝ),
      ((surges b).step m command).run.run surgePlanner = (.ok r, surgePlanner)
        ∧ r.cycle = .smoothed .working ∧ r.command = ⟨[carried x v], [v * (1 + gain)], [0]⟩ := by
  have hrest (y : ℝ) : State.atRest [y] = ⟨[y], [0], [0]⟩ := by norm_num [State.atRest]
  have hrequest : cycleRequest (surges b) (planned m)
      (.atRest [x + (18 + reach) / 30 * v * 1e-6]) = surgeRequest b x v := by
    rw [hm, cycleRequest, hrest, hrest]
    rfl
  refine ⟨.atRest [x + (18 + reach) / 30 * v * 1e-6],
    ⟨⟨planned m, ⟨[carried x v], [v * (1 + gain)], [0]⟩, true⟩, _, _⟩, ?_, rfl, rfl⟩
  rw [step_run, hrequest]
  change (cycleResult m _ (Planner.update surgePlanner _), _) = _
  rw [update_surging hv hb, cycleResult]
  rfl

/-- **A run of surges** starts from 1000 and gains speed as long as the other limits have room. -/
theorem fed_surges {b : ℝ} (k : ℕ) (hb : 1000 * (1 + gain) ^ k ≤ b) : ∃ (m : Memory ℝ) (x : ℝ),
    Fed (surges b) surgePlanner ⟨[0], [1000], [0]⟩ k surgePlanner m
      ∧ planned m = ⟨[x], [1000 * (1 + gain) ^ k], [0]⟩ := by
  have hgain : 0 ≤ gain := le_trans (by norm_num) gain_bounds.1
  induction k with
  | zero =>
    refine ⟨.ofState ⟨[0], [1000], [0]⟩, 0, .reset rfl, ?_⟩
    rw [pow_zero, mul_one]
    rfl
  | succ k ih =>
    have hle : 1000 * (1 + gain) ^ k ≤ b := by
      refine le_trans ?_ hb
      gcongr <;> linarith
    obtain ⟨m, x, hfed, hm⟩ := ih hle
    obtain ⟨command, r, hstep, hcycle, hcommand⟩ := step_surges hm (le_speed k) hle
    refine ⟨r.memory, carried x (1000 * (1 + gain) ^ k), hfed.smoothed hstep hcycle, ?_⟩
    obtain ⟨-, ⟨-, hseed⟩ | ⟨⟨e, hheld⟩, -⟩⟩ := planned_of_step hstep
    · rw [hseed, hcommand, pow_succ, mul_assoc]
    · exact nomatch hcycle.symm.trans hheld

/-- The last cycle of a run of surges has gained the most. -/
theorem exists_surge {b : ℝ} (k : ℕ) (hb : 1000 * (1 + gain) ^ k ≤ b) :
    ∃ (m : Memory ℝ) (command : State ℝ) (r : StreamStep ℝ) (x : ℝ),
      Fed (surges b) surgePlanner ⟨[0], [1000], [0]⟩ k surgePlanner m
        ∧ ((surges b).step m command).run.run surgePlanner = (.ok r, surgePlanner)
        ∧ r.cycle = .smoothed .working ∧ r.command = ⟨[x], [1000 * (1 + gain) ^ (k + 1)], [0]⟩ := by
  obtain ⟨m, x, hfed, hm⟩ := fed_surges k hb
  obtain ⟨command, r, hstep, hcycle, hcommand⟩ := step_surges hm (le_speed k) hb
  rw [mul_assoc, ← pow_succ] at hcommand
  exact ⟨m, command, r, _, hfed, hstep, hcycle, hcommand⟩

theorem withinBy_surge_iff {b x v : ℝ} {f : ℝ → ℝ} (hv : 0 ≤ v) :
    WithinBy f (surgeLimits b) ⟨[x], [v], [0]⟩ ↔ v ≤ f 1000 ∧ 0 ≤ f (1e9 * b) := by
  have h : WithinBy f (surgeLimits b) ⟨[x], [v], [0]⟩ ↔
      (|v| ≤ f 1000 ∧ |(0 : ℝ)| ≤ f (1e9 * b)) ∧ List.Forall₂ _ [] [] := List.forall₂_cons
  rw [h, abs_of_nonneg hv, abs_zero]
  exact and_iff_left .nil

/-- The second cycle of a surge has gained more than the slack of one. -/
theorem grown_lt_surge {k : ℕ} (hk : k ≠ 0) : grown 1000 < 1000 * (1 + gain) ^ (k + 1) := by
  have hgain := gain_bounds.1
  calc grown 1000 < 1000 * (1 + (1e-9 - 2e-19)) ^ 2 := by norm_num [grown]
    _ ≤ 1000 * (1 + gain) ^ 2 := by gcongr
    _ ≤ 1000 * (1 + gain) ^ (k + 1) := by
        gcongr
        · linarith
        · omega

/-- **The slack adds up.** A joint that may go at 1000 is reset to just that, and with the third
command it is told to go faster than what one time the slack allows. -/
theorem exists_smoothed_not_within : ∃ (m₀ m : Memory ℝ) (command : State ℝ) (r : StreamStep ℝ),
    createPlanner [⟨some 1000, some (1e9 * 2000), some (1e16 * 2000)⟩] 1 (crest * 1e-6) default
        = .ok (surgePlanner, surges 2000, m₀)
      ∧ WithinBy id (surges 2000).limits ⟨[0], [1000], [0]⟩
      ∧ Fed (surges 2000) surgePlanner ⟨[0], [1000], [0]⟩ 2 surgePlanner m
      ∧ ((surges 2000).step m command).run.run surgePlanner = (.ok r, surgePlanner)
      ∧ r.cycle = .smoothed .working ∧ ¬WithinBy grown (surges 2000).limits r.command := by
  have hroom : 1000 * (1 + gain) ^ 2 ≤ 2000 := by nlinarith [gain_bounds.1, gain_bounds.2]
  obtain ⟨m, command, r, x, hfed, hstep, hcycle, hcommand⟩ := exists_surge 2 hroom
  refine ⟨_, m, command, r, createPlanner_surges (by norm_num), ?_, hfed, hstep, hcycle, ?_⟩
  · exact (withinBy_surge_iff (by norm_num)).mpr ⟨le_rfl, by norm_num⟩
  · rw [hcommand]
    exact fun h => ((withinBy_surge_iff (le_trans (by norm_num) (le_speed _))).mp h).1.not_gt
      (grown_lt_surge two_ne_zero)

/-! ## What is promised -/

/-- Whatever a stream has been fed since a reset within its limits, if `k` cycles were smoothed and
the next one is too, then that one is within `f` of the limits. -/
def Promises (k : ℕ) (f : ℝ → ℝ) : Prop :=
  ∀ {bounds : List (Bounds ℝ)} {jointCount : ℕ} {timeStep : ℝ} {fallbacks : Fallbacks ℝ}
    {p₀ p p' : Planner ℝ} {s : CommandStream (Planner ℝ) ℝ} {m₀ m : Memory ℝ}
    {start command : State ℝ} {r : StreamStep ℝ} {status : Status},
    createPlanner bounds jointCount timeStep fallbacks = .ok (p₀, s, m₀) →
    WithinBy id s.limits start → Fed s p₀ start k p m →
    (s.step m command).run.run p = (.ok r, p') → r.cycle = .smoothed status →
    WithinBy f s.limits r.command

/-- A surge breaks every promise of less than it gains. -/
theorem not_promises {k : ℕ} {f : ℝ → ℝ} (hf : f 1000 < 1000 * (1 + gain) ^ (k + 1)) :
    ¬Promises k f := by
  intro hpromise
  have hgain : 0 ≤ gain := le_trans (by norm_num) gain_bounds.1
  obtain ⟨m, command, r, x, hfed, hstep, hcycle, hcommand⟩ := exists_surge k le_rfl
  have hstart : WithinBy id (surges (1000 * (1 + gain) ^ k)).limits ⟨[0], [1000], [0]⟩ :=
    (withinBy_surge_iff (by norm_num)).mpr ⟨le_rfl, mul_nonneg (by norm_num) (by positivity)⟩
  have h := hpromise (createPlanner_surges (by positivity)) hstart hfed hstep hcycle
  rw [hcommand] at h
  exact ((withinBy_surge_iff (by positivity)).mp h).1.not_gt hf

/-- **No factor bounds all runs.** -/
theorem exists_not_promises (c : ℝ) : ∃ k, ¬Promises k fun x => c * x := by
  have hgain : (1 : ℝ) < 1 + gain := by linarith [gain_bounds.1]
  obtain ⟨k, hk⟩ := pow_unbounded_of_one_lt c hgain
  refine ⟨k, not_promises ?_⟩
  have hnext : (1 + gain) ^ k ≤ (1 + gain) ^ (k + 1) := pow_le_pow_right₀ hgain.le k.le_succ
  linarith

/-- **What is promised** after `k` smoothed cycles is `k + 1` times the slack; one time the slack is
promised to the first smoothed cycle and to no other. -/
theorem promises_grown_iff (k : ℕ) :
    Promises k grown^[k + 1] ∧ (Promises k grown ↔ k = 0) := by
  have hpromise (k : ℕ) : Promises k grown^[k + 1] :=
    fun hcreate hstart hfed h hcycle => (smoothed_le_grown hcreate hstart hfed h hcycle).1
  refine ⟨hpromise k, ?_, fun hk => hk ▸ hpromise 0⟩
  intro h
  by_contra hne
  exact not_promises (grown_lt_surge hne) h

end JerkLimit.CommandStream

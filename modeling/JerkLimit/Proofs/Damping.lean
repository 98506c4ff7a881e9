import Mathlib
import JerkLimit.Proofs.SeamReport
import JerkLimit.Proofs.Validated

/-!
# Proofs/Damping — a low-pass filter makes nothing worse

With exact arithmetic every output of the filter is a mean of two inputs and the output before. So
it lies between inputs that have been there (`LowPassed.le_input`, `LowPassed.input_le`). The steps
of the outputs are what the same filter makes of the steps of the inputs (`LowPassed.increments`),
since a filter that starts at its first input starts with a step of length 0. So they lie between
steps that have been there.

* **`filterJoint_damped`**: filtering neither leaves the range of its inputs nor makes a larger step
  than they do.
* **`Seam.filterAdaptive_clears`**: a largest coefficient that is large enough for the range of the
  inputs leaves no failure.
-/

namespace JerkLimit

open Scalar

/-! ## Means -/

/-- A mean is not above everything that it is made of. -/
theorem le_of_mean {c z a b w : ℝ} (hc : 1 ≤ c) (h : (1 + c) * z ≤ a + b + (c - 1) * w) :
    z ≤ a ∨ z ≤ b ∨ z ≤ w := by
  by_contra! hlt
  obtain ⟨ha, hb, hw⟩ := hlt
  have := mul_le_mul_of_nonneg_left hw.le (sub_nonneg.mpr hc)
  linarith

variable {c : ℝ} {xs ys : List ℝ}

/-- The low-pass filter with exact arithmetic. -/
theorem lowPassed_iff : LowPassed c xs ys ↔ ys.length = xs.length ∧ ys.head? = xs.head?
    ∧ ∀ {i : ℕ} {x x' y : ℝ}, xs[i]? = some x → xs[i + 1]? = some x' → ys[i]? = some y →
      ys[i + 1]? = some ((x' + x + (c - 1) * y) / (1 + c)) := by
  have hone : (1.0 : ℝ) = 1 := by norm_num
  have hmean (x x' y : ℝ) :
      (1.0 : ℝ) / (1.0 + c) * (x' + x - (1.0 - c) * y) = (x' + x + (c - 1) * y) / (1 + c) := by
    rw [hone]
    ring
  constructor
  · intro h
    exact ⟨h.length, h.head, fun hx hx' hy => (h.step hx hx' hy).trans (congrArg some (hmean ..))⟩
  · rintro ⟨hlength, hhead, hstep⟩
    exact ⟨hlength, hhead, fun hx hx' hy =>
      (hstep hx hx' hy).trans (congrArg some (hmean ..).symm)⟩

namespace LowPassed

/-- What an output but the first is a mean of. -/
theorem exists_mean (h : LowPassed c xs ys) (hc : 1 ≤ c) {i : ℕ} {y' : ℝ}
    (hy' : ys[i + 1]? = some y') : ∃ x x' y, xs[i]? = some x ∧ xs[i + 1]? = some x'
      ∧ ys[i]? = some y ∧ (1 + c) * y' = x' + x + (c - 1) * y := by
  obtain ⟨hlength, -, hstep⟩ := lowPassed_iff.mp h
  obtain ⟨hi, -⟩ := List.getElem?_eq_some_iff.mp hy'
  have hx' := List.getElem?_eq_getElem (hlength ▸ hi)
  have hx := List.getElem?_eq_getElem (hlength ▸ (Nat.lt_succ_self i).trans hi)
  have hy := List.getElem?_eq_getElem ((Nat.lt_succ_self i).trans hi)
  refine ⟨_, _, _, hx, hx', hy, ?_⟩
  obtain rfl := Option.some.inj (hy'.symm.trans (hstep hx hx' hy))
  exact mul_div_cancel₀ _ (by linarith)

/-! ## The range of the inputs -/

/-- **No output is above all inputs** that have been there. -/
theorem le_input (h : LowPassed c xs ys) (hc : 1 ≤ c) {i : ℕ} {y : ℝ} (hy : ys[i]? = some y) :
    ∃ k ≤ i, ∃ x, xs[k]? = some x ∧ y ≤ x := by
  induction i generalizing y with
  | zero =>
    rw [← List.head?_eq_getElem?, h.head, List.head?_eq_getElem?] at hy
    exact ⟨0, le_rfl, y, hy, le_rfl⟩
  | succ i ih =>
    obtain ⟨x, x', p, hx, hx', hp, hmean⟩ := h.exists_mean hc hy
    rcases le_of_mean hc hmean.le with hle | hle | hle
    · exact ⟨i + 1, le_rfl, x', hx', hle⟩
    · exact ⟨i, Nat.le_succ i, x, hx, hle⟩
    · obtain ⟨k, hk, z, hz, hpz⟩ := ih hp
      exact ⟨k, Nat.le_succ_of_le hk, z, hz, hle.trans hpz⟩

/-- The filter does not prefer a direction. -/
theorem neg (h : LowPassed c xs ys) :
    LowPassed c (xs.map fun x => -x) (ys.map fun y => -y) := by
  obtain ⟨hlength, hhead, hstep⟩ := lowPassed_iff.mp h
  refine lowPassed_iff.mpr ⟨by rw [List.length_map, List.length_map, hlength],
    by rw [List.head?_map, List.head?_map, hhead], fun {i _ _ _} hx hx' hy => ?_⟩
  rw [List.getElem?_map, Option.map_eq_some_iff] at hx hx' hy
  obtain ⟨x, hx, rfl⟩ := hx
  obtain ⟨x', hx', rfl⟩ := hx'
  obtain ⟨y, hy, rfl⟩ := hy
  rw [List.getElem?_map, hstep hx hx' hy]
  exact congrArg some (by ring)

/-- **Nor below all of them.** -/
theorem input_le (h : LowPassed c xs ys) (hc : 1 ≤ c) {i : ℕ} {y : ℝ} (hy : ys[i]? = some y) :
    ∃ k ≤ i, ∃ x, xs[k]? = some x ∧ x ≤ y := by
  have hneg : (ys.map fun y => -y)[i]? = some (-y) := by rw [List.getElem?_map, hy, Option.map_some]
  obtain ⟨k, hk, z, hz, hle⟩ := h.neg.le_input hc hneg
  rw [List.getElem?_map, Option.map_eq_some_iff] at hz
  obtain ⟨x, hx, rfl⟩ := hz
  exact ⟨k, hk, x, hx, neg_le_neg_iff.mp hle⟩

/-- **No output is larger than all inputs**, in either direction. -/
theorem abs_le_input (h : LowPassed c xs ys) (hc : 1 ≤ c) {i : ℕ} {y : ℝ} (hy : ys[i]? = some y) :
    ∃ k ≤ i, ∃ x, xs[k]? = some x ∧ |y| ≤ |x| := by
  rcases abs_cases y with ⟨habs, -⟩ | ⟨habs, -⟩
  · obtain ⟨k, hk, x, hx, hle⟩ := h.le_input hc hy
    exact ⟨k, hk, x, hx, habs.le.trans (hle.trans (le_abs_self x))⟩
  · obtain ⟨k, hk, x, hx, hle⟩ := h.input_le hc hy
    exact ⟨k, hk, x, hx, habs.le.trans ((neg_le_neg hle).trans (neg_le_abs x))⟩

end LowPassed

/-! ## The steps of the inputs -/

/-- The steps of a signal that has been at its first value before. -/
def increments : List ℝ → List ℝ
  | [] => []
  | x :: xs => 0 :: List.zipWith (fun x' x => x' - x) xs (x :: xs)

theorem length_increments (xs : List ℝ) : (increments xs).length = xs.length := by
  cases xs <;> simp [increments]

theorem increments_succ_eq_some {i : ℕ} {d : ℝ} : (increments xs)[i + 1]? = some d
    ↔ ∃ x x', xs[i]? = some x ∧ xs[i + 1]? = some x' ∧ x' - x = d := by
  cases xs with
  | nil => simp [increments]
  | cons x xs =>
    rw [increments, List.getElem?_cons_succ, List.getElem?_cons_succ, List.getElem?_zipWith_eq_some]
    exact ⟨fun ⟨x', x, hx', hx, hd⟩ => ⟨x, x', hx, hx', hd⟩,
      fun ⟨x, x', hx, hx', hd⟩ => ⟨x', x, hx', hx, hd⟩⟩

theorem increments_zero_eq_some {d : ℝ} (h : (increments xs)[0]? = some d) : d = 0 := by
  cases xs with
  | nil => exact nomatch h
  | cons x xs => exact (Option.some.inj h).symm

namespace LowPassed

/-- **The steps are filtered** in the same way as what makes them. -/
theorem increments (h : LowPassed c xs ys) (hc : 1 ≤ c) :
    LowPassed c (increments xs) (increments ys) := by
  obtain ⟨hlength, hhead, hstep⟩ := lowPassed_iff.mp h
  have hhead' : (JerkLimit.increments ys).head? = (JerkLimit.increments xs).head? := by
    cases xs <;> cases ys <;> simp_all [JerkLimit.increments]
  refine lowPassed_iff.mpr ⟨by rw [length_increments, length_increments, hlength], hhead',
    fun {i d d' e} hd hd' he => ?_⟩
  obtain ⟨x, x', hx, hx', rfl⟩ := increments_succ_eq_some.mp hd'
  obtain ⟨hi, -⟩ := List.getElem?_eq_some_iff.mp hx
  have hy := List.getElem?_eq_getElem (hlength.symm ▸ hi)
  have hy' := hstep hx hx' hy
  refine increments_succ_eq_some.mpr ⟨_, _, hy, hy', ?_⟩
  have hne : 1 + c ≠ 0 := by linarith
  cases i with
  | zero =>
    -- The first output is the first input, as if the step before had been filtered too.
    obtain rfl := increments_zero_eq_some hd
    obtain rfl := increments_zero_eq_some he
    rw [← List.head?_eq_getElem?, hhead, List.head?_eq_getElem?] at hy
    rw [Option.some.inj (hy.symm.trans hx)]
    field_simp
    ring
  | succ i =>
    obtain ⟨z, x, hz, hx₀, rfl⟩ := increments_succ_eq_some.mp hd
    obtain rfl := Option.some.inj (hx₀.symm.trans hx)
    obtain ⟨w, y, hw, hy₀, rfl⟩ := increments_succ_eq_some.mp he
    obtain rfl := Option.some.inj (hy₀.symm.trans hy)
    have hmean := Option.some.inj (hy₀.symm.trans (hstep hz hx₀ hw))
    field_simp at hmean ⊢
    linarith

/-- **No step is longer than all steps** that have been there. -/
theorem abs_step_le (h : LowPassed c xs ys) (hc : 1 ≤ c) {i : ℕ} {y y' : ℝ}
    (hy : ys[i]? = some y) (hy' : ys[i + 1]? = some y') :
    ∃ k ≤ i, ∃ x x', xs[k]? = some x ∧ xs[k + 1]? = some x' ∧ |y' - y| ≤ |x' - x| := by
  have hlength := (lowPassed_iff.mp h).1
  obtain ⟨hi, -⟩ := List.getElem?_eq_some_iff.mp hy'
  have hstep := increments_succ_eq_some.mpr ⟨y, y', hy, hy', rfl⟩
  obtain ⟨k, hk, d, hd, hle⟩ := (h.increments hc).abs_le_input hc hstep
  cases k with
  | zero =>
    obtain rfl := increments_zero_eq_some hd
    rw [abs_zero] at hle
    exact ⟨0, Nat.zero_le i, _, _, List.getElem?_eq_getElem (by omega),
      List.getElem?_eq_getElem (by omega), hle.trans (abs_nonneg _)⟩
  | succ k =>
    obtain ⟨x, x', hx, hx', rfl⟩ := increments_succ_eq_some.mp hd
    exact ⟨k, Nat.le_of_succ_le_succ hk, x, x', hx, hx', hle⟩

/-- **A large coefficient makes small steps**, for the range of the inputs. -/
theorem abs_step_le_of_spread (h : LowPassed c xs ys) (hc : 1 ≤ c) {bound : ℝ}
    (hspread : ∀ x ∈ xs, ∀ x' ∈ xs, 2 * (x' - x) ≤ (1 + c) * bound) {i : ℕ} {y y' : ℝ}
    (hy : ys[i]? = some y) (hy' : ys[i + 1]? = some y') : |y' - y| ≤ bound := by
  obtain ⟨x, x', y₀, hx, hx', hy₀, hmean⟩ := h.exists_mean hc hy'
  obtain rfl := Option.some.inj (hy₀.symm.trans hy)
  obtain ⟨_, -, lo, hlo, hlow⟩ := h.input_le hc hy
  obtain ⟨_, -, hi, hhi, hhigh⟩ := h.le_input hc hy
  -- The output before is not further from the two inputs than they are from each other.
  have hx := List.mem_of_getElem? hx
  have hx' := List.mem_of_getElem? hx'
  have hlo := List.mem_of_getElem? hlo
  have hhi := List.mem_of_getElem? hhi
  have habove : (1 + c) * (y' - y₀) ≤ (1 + c) * bound := by
    linarith [hspread lo hlo x hx, hspread lo hlo x' hx']
  have hbelow : (1 + c) * -bound ≤ (1 + c) * (y' - y₀) := by
    linarith [hspread x hx hi hhi, hspread x' hx' hi hhi]
  have hpos : 0 < 1 + c := by linarith
  exact abs_le.mpr ⟨le_of_mul_le_mul_left hbelow hpos, le_of_mul_le_mul_left habove hpos⟩

end LowPassed

/-! ## Failures -/

/-- A jump with exact arithmetic. -/
theorem mem_jumps_iff {bound : ℝ} {i : ℕ} : i ∈ jumps bound ys
    ↔ ∃ k y y', i = k + 1 ∧ ys[k]? = some y ∧ ys[k + 1]? = some y' ∧ bound < |y' - y| := by
  rw [jumps, Finset.mem_filter, Finset.mem_Ico]
  constructor
  · rintro ⟨⟨hi, -⟩, y, hy, y', hy', hlt⟩
    obtain ⟨k, rfl⟩ := Nat.exists_eq_add_of_le' hi
    exact ⟨k, y, y', rfl, hy, hy', hlt⟩
  · rintro ⟨k, y, y', rfl, hy, hy', hlt⟩
    have hk := (List.getElem?_eq_some_iff.mp hy').1
    exact ⟨⟨Nat.le_add_left 1 k, hk⟩, y, hy, y', hy', hlt⟩

theorem failures_eq_zero_iff {raw : List ℝ} {bound : ℝ} {f : FilteredJoint ℝ}
    (hf : filterJoint raw bound c = .ok f) : f.failures = 0
      ↔ ∀ i y y', f.positions[i]? = some y → f.positions[i + 1]? = some y' → |y' - y| ≤ bound := by
  rw [filterJoint_failures hf, Finset.card_eq_zero, Finset.eq_empty_iff_forall_notMem]
  constructor
  · intro hnone i y y' hy hy'
    exact le_of_not_gt fun hlt => hnone (i + 1) (mem_jumps_iff.mpr ⟨i, y, y', rfl, hy, hy', hlt⟩)
  · intro hsteps i hi
    obtain ⟨k, y, y', -, hy, hy', hlt⟩ := mem_jumps_iff.mp hi
    exact hlt.not_ge (hsteps k y y' hy hy')

/-- A jump of the outputs comes from a jump of the inputs. -/
theorem LowPassed.exists_jump (h : LowPassed c xs ys) (hc : 1 ≤ c) {bound : ℝ} {i : ℕ}
    (hi : i ∈ jumps bound ys) : ∃ k ∈ jumps bound xs, k ≤ i := by
  obtain ⟨i, y, y', rfl, hy, hy', hlt⟩ := mem_jumps_iff.mp hi
  obtain ⟨k, hk, x, x', hx, hx', hle⟩ := h.abs_step_le hc hy hy'
  exact ⟨k + 1, mem_jumps_iff.mpr ⟨k, x, x', rfl, hx, hx', hlt.trans_le hle⟩, Nat.succ_le_succ hk⟩

/-- What filtering makes of the positions of a joint, and which failures it finds. -/
structure Damped (raw : List ℝ) (bound : ℝ) (f : FilteredJoint ℝ) : Prop where
  length : f.positions.length = raw.length
  /-- Every position lies between raw ones that are not later. -/
  between {i : ℕ} {y : ℝ} : f.positions[i]? = some y →
    ∃ j ≤ i, ∃ k ≤ i, ∃ x x', raw[j]? = some x ∧ raw[k]? = some x' ∧ x ≤ y ∧ y ≤ x'
  /-- Every step is at most as long as some raw step that is not later. -/
  steps {i : ℕ} {y y' : ℝ} : f.positions[i]? = some y → f.positions[i + 1]? = some y' →
    ∃ k ≤ i, ∃ x x', raw[k]? = some x ∧ raw[k + 1]? = some x' ∧ |y' - y| ≤ |x' - x|
  failures : f.failures = (jumps bound f.positions).card
  /-- Every failure comes from a raw step that is too long and not later. -/
  caused {i : ℕ} : i ∈ jumps bound f.positions → ∃ k ∈ jumps bound raw, k ≤ i
  clean : (∀ i x x', raw[i]? = some x → raw[i + 1]? = some x' → |x' - x| ≤ bound) → f.failures = 0

/-- **Filtering neither overshoots nor amplifies a step**, for every coefficient that is at
least 1. -/
theorem filterJoint_damped (raw : List ℝ) (bound : ℝ) {c : ℝ} (hc : 1 ≤ c) :
    ∃ f, filterJoint raw bound c = .ok f ∧ Damped raw bound f := by
  have hone : (1.0 : ℝ) ≤ c := le_of_eq_of_le (by norm_num) hc
  obtain ⟨f, hf⟩ := Seam.exists_filterJoint (LowPass.exists_create.mpr ⟨rfl, hone⟩) raw bound
  have h : LowPassed c raw f.positions := lowPassed_of_filterJoint hf
  refine ⟨f, hf, h.length, fun hy => ?_, h.abs_step_le hc, filterJoint_failures hf,
    h.exists_jump hc, fun hraw => (failures_eq_zero_iff hf).mpr fun i y y' hy hy' => ?_⟩
  · obtain ⟨j, hj, x, hx, hle⟩ := h.input_le hc hy
    obtain ⟨k, hk, x', hx', hle'⟩ := h.le_input hc hy
    exact ⟨j, hj, k, hk, x, x', hx, hx', hle, hle'⟩
  · obtain ⟨k, -, x, x', hx, hx', hle⟩ := h.abs_step_le hc hy hy'
    exact hle.trans (hraw k x x' hx hx')

/-- A spike of the size of the bound. -/
theorem filterJoint_spike : (1 : ℝ) ≤ 20 ∧ ∃ f, filterJoint [0, 1, 0] 1 (20 : ℝ) = .ok f
    ∧ Damped [0, 1, 0] 1 f ∧ f.failures = 0 := by
  have hc : (1 : ℝ) ≤ 20 := by norm_num
  obtain ⟨f, hf, hdamped⟩ := filterJoint_damped [0, 1, 0] 1 hc
  refine ⟨hc, f, hf, hdamped, hdamped.clean fun i x x' hx hx' => ?_⟩
  rcases i with _ | _ | i
  · obtain rfl := Option.some.inj hx
    obtain rfl := Option.some.inj hx'
    norm_num
  · obtain rfl := Option.some.inj hx
    obtain rfl := Option.some.inj hx'
    norm_num
  · exact nomatch hx'

/-! ## Enough damping -/

/-- A coefficient that is large enough for the range of the positions leaves no failure. -/
theorem filterJoint_clean {raw : List ℝ} {bound : ℝ} {f : FilteredJoint ℝ} (hc : 1 ≤ c)
    (hspread : ∀ x ∈ raw, ∀ x' ∈ raw, 2 * (x' - x) ≤ (1 + c) * bound)
    (hf : filterJoint raw bound c = .ok f) : f.failures = 0 :=
  (failures_eq_zero_iff hf).mpr fun _ _ _ hy hy' =>
    (lowPassed_of_filterJoint hf).abs_step_le_of_spread hc hspread hy hy'

namespace Seam

variable {s : Seam ℝ} (h : Seam.create s.settings = .ok s)

include h

theorem one_le_coefficient : 1 ≤ s.settings.coefficient := by
  have hone : (1.0 : ℝ) = 1 := by norm_num
  have h1 : (1.0 : ℝ) ≤ s.settings.coefficient := (coefficient_of_create h).2
  rwa [hone] at h1

/-- With exact arithmetic every coefficient of a schedule is accepted. -/
theorem accepted_real : s.settings.Accepted := by
  have h1 := (coefficient_of_create h).2
  refine ⟨LowPass.exists_create.mpr ⟨rfl, h1⟩, fun c hc => LowPass.exists_create.mpr ⟨rfl, ?_⟩⟩
  rw [coefficientSchedule_eq, List.mem_append, List.mem_singleton] at hc
  rcases hc with hc | rfl
  · have h01 : (0.0 : ℝ) < 1.0 := by norm_num
    split_ifs at hc with hgrowth
    · exact one_le_of_mem_climb h01 (le_of_lt hgrowth) h1 hc
    · exact nomatch hc
  · rw [max_real]
    exact le_sup_of_le_right h1

/-- **A largest coefficient that is large enough clears every violation**: the schedule ends with it,
unless a coefficient before it was enough. -/
theorem filterAdaptive_clears (raw : List ℝ) {bound : ℝ} (hbound : 0 < bound)
    (hspread : ∀ x ∈ raw, ∀ x' ∈ raw, 2 * (x' - x) ≤ (1 + s.settings.maxCoefficient) * bound) :
    ∃ f, s.filterAdaptive raw bound = .ok f ∧ f.failures = 0
      ∧ f.positions.length = raw.length
      ∧ ∀ i y y', f.positions[i]? = some y → f.positions[i + 1]? = some y' → |y' - y| ≤ bound := by
  obtain ⟨f, hf⟩ := exists_filterUntilClean (coefficientSchedule_ne_nil _ _ _)
    (accepted_real h).schedule raw bound
  obtain ⟨hfilter, before, after, hschedule, -, hclean⟩ := filterUntilClean_first hf
  have hzero : f.failures = 0 := hclean.elim id fun hafter => by
    have hlast : f.coefficient = s.settings.maxCoefficient ⊔ s.settings.coefficient := by
      have hends := congrArg List.getLast? hschedule
      rw [coefficientSchedule_eq, hafter, List.getLast?_concat, List.getLast?_concat,
        max_real] at hends
      exact (Option.some.inj hends).symm
    have h1 : 1 ≤ f.coefficient := hlast ▸ le_sup_of_le_right (one_le_coefficient h)
    refine filterJoint_clean h1 (fun x hx x' hx' => (hspread x hx x' hx').trans ?_) hfilter
    have hcap : s.settings.maxCoefficient ≤ f.coefficient := hlast ▸ le_sup_left
    exact mul_le_mul_of_nonneg_right (by linarith) hbound.le
  exact ⟨f, bind_eq_ok.mpr ⟨some f, hf, rfl⟩, hzero, (lowPassed_of_filterJoint hfilter).length,
    (failures_eq_zero_iff hfilter).mp hzero⟩

omit h

/-- A filter whose coefficient climbs from 20 to 200. -/
noncomputable def climber : Seam ℝ := ⟨⟨20.0, 0.001, .adaptive, 1.5, 200.0⟩⟩

/-- The step is too large for the coefficient 20, and 200 is enough for it. -/
theorem climber_clears : Seam.create climber.settings = .ok climber ∧ (0 : ℝ) < 0.01
    ∧ ∃ f, climber.filterAdaptive [0, 1] 0.01 = .ok f ∧ f.failures = 0
      ∧ f.positions.length = 2
      ∧ ∀ (i : ℕ) (y y' : ℝ), f.positions[i]? = some y → f.positions[i + 1]? = some y' →
        |y' - y| ≤ 0.01 := by
  have h1 : (1.0 : ℝ) ≤ climber.settings.coefficient := by norm_num [climber]
  obtain ⟨filter, hfilter⟩ := LowPass.exists_create.mpr ⟨rfl, h1⟩
  have htimeStep : isPositive climber.settings.timeStep = true :=
    (isPositive_real _).mpr (by norm_num [climber])
  have hcreate : Seam.create climber.settings = .ok climber := bind_eq_ok.mpr
    ⟨filter, hfilter, bind_eq_ok.mpr ⟨(), ensure_eq_ok.mpr htimeStep, rfl⟩⟩
  have hbound : (0 : ℝ) < 0.01 := by norm_num
  refine ⟨hcreate, hbound, filterAdaptive_clears hcreate [0, 1] hbound fun x hx x' hx' => ?_⟩
  have hx : x = 0 ∨ x = 1 := by simpa using hx
  have hx' : x' = 0 ∨ x' = 1 := by simpa using hx'
  rcases hx with rfl | rfl <;> rcases hx' with rfl | rfl <;> norm_num [climber]

end Seam

end JerkLimit

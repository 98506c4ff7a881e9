import Mathlib
import JerkLimit.Proofs.Real

/-!
# Proofs/Order — scalars in an order

The planner compares its numbers, halves sums of them and stretches them by factors above one.
`OrderedScalar` is what it relies on: numbers form a linear order in which these operations stay on
the right side. Nothing in it asks for exact arithmetic, and a value that is not even `≤` itself may
be around, it is only no number. So the class has two instances: `ℝ`, here, and the double
precision numbers that run, in `Proofs/Double`.
-/

namespace JerkLimit

open Scalar

/-- Numbers are compared linearly, and the operations of the duration search respect that. -/
class OrderedScalar (K : Type) [Scalar K] : Prop where
  le_trans {a b c : K} : a ≤ b → b ≤ c → a ≤ c
  /-- Only numbers can be compared. -/
  number_of_le {a b : K} : a ≤ b → a ≤ a ∧ b ≤ b
  le_total {a b : K} : a ≤ a → b ≤ b → a ≤ b ∨ b ≤ a
  lt_iff {a b : K} : a < b ↔ a ≤ b ∧ ¬b ≤ a
  beq_self_iff {a : K} : (a == a) = true ↔ a ≤ a
  number_of_isFinite {a : K} : isFinite a = true → a ≤ a
  /-- There are two zeros, but only one of each positive number. -/
  eq_of_le_of_le {a b : K} : 0.0 < a → a ≤ b → b ≤ a → a = b
  le_mul_of_one_le {a c : K} : 0.0 < a → 1.0 ≤ c → a ≤ a * c
  half_add_pos {a b : K} : 0.0 < a → 0.0 < b → 0.0 < 0.5 * (a + b)
  minDuration_pos : (0.0 : K) < minDuration
  one_le_scanGrowth : (1.0 : K) ≤ scanGrowth
  one_le_add_finishSlack : (1.0 : K) ≤ 1.0 + Planner.finishSlack

namespace OrderedScalar

variable {K : Type} [Scalar K]

theorem pos_of_isPositive {a : K} (h : isPositive a = true) : 0.0 < a :=
  decide_eq_true_iff.mp (Bool.and_eq_true_iff.mp h).2

/-! ## Comparisons -/

section Comparisons

variable [OrderedScalar K] {a b c : K}

theorem le_of_lt (h : a < b) : a ≤ b := (lt_iff.mp h).1

theorem not_le_of_lt (h : a < b) : ¬b ≤ a := (lt_iff.mp h).2

theorem lt_of_not_le (ha : a ≤ a) (hb : b ≤ b) (h : ¬b ≤ a) : a < b :=
  lt_iff.mpr ⟨(le_total ha hb).resolve_right h, h⟩

theorem le_of_not_lt (ha : a ≤ a) (hb : b ≤ b) (h : ¬a < b) : b ≤ a := by
  by_contra hba
  exact h (lt_of_not_le ha hb hba)

theorem lt_of_lt_of_le (hab : a < b) (hbc : b ≤ c) : a < c :=
  lt_iff.mpr ⟨le_trans (le_of_lt hab) hbc, fun hca => not_le_of_lt hab (le_trans hbc hca)⟩

theorem lt_of_le_of_lt (hab : a ≤ b) (hbc : b < c) : a < c :=
  lt_iff.mpr ⟨le_trans hab (le_of_lt hbc), fun hca => not_le_of_lt hbc (le_trans hca hab)⟩

theorem number_of_pos (h : 0.0 < a) : a ≤ a := (number_of_le (le_of_lt h)).2

variable (K) in
theorem number_zero : (0.0 : K) ≤ 0.0 := (number_of_le (le_of_lt minDuration_pos)).1

/-- What is not below the slack of a time step is above the time step. -/
theorem lt_of_not_le_slack {timeStep d : K} (h0 : 0.0 < timeStep) (hd : d ≤ d)
    (h : ¬d ≤ timeStep * (1.0 + Planner.finishSlack)) : timeStep < d := by
  have hle : timeStep ≤ timeStep * (1.0 + Planner.finishSlack) :=
    le_mul_of_one_le h0 one_le_add_finishSlack
  exact lt_of_le_of_lt hle (lt_of_not_le (number_of_le hle).2 hd h)

end Comparisons

/-! ## The largest of a list -/

theorem max_eq_or (a b : K) : Scalar.max a b = a ∨ Scalar.max a b = b := by
  unfold Scalar.max
  split_ifs
  · exact .inr rfl
  · exact .inl rfl
  · exact .inr rfl

theorem maxFrom_cons (a x : K) (xs : List K) :
    maxFrom a (x :: xs) = maxFrom (Scalar.max a x) xs := rfl

/-- The largest of a list is one of its entries, or where the search starts. -/
theorem maxFrom_mem (a : K) (xs : List K) : maxFrom a xs ∈ a :: xs := by
  induction xs generalizing a with
  | nil => exact List.mem_singleton_self a
  | cons x xs ih =>
    rw [maxFrom_cons]
    rcases List.mem_cons.mp (ih (Scalar.max a x)) with h | h
    · rw [h]
      rcases max_eq_or a x with hmax | hmax <;> simp [hmax]
    · exact List.mem_cons_of_mem _ (List.mem_cons_of_mem _ h)

variable [OrderedScalar K]

theorem le_max {a b : K} (ha : a ≤ a) :
    a ≤ Scalar.max a b ∧ (b ≤ b → b ≤ Scalar.max a b) := by
  unfold Scalar.max
  split_ifs with hlt hself
  · exact ⟨le_of_lt hlt, id⟩
  · exact ⟨ha, fun hb => le_of_not_lt ha hb hlt⟩
  · exact absurd (beq_self_iff.mpr ha) hself

/-- The largest of a list is above all numbers in it. -/
theorem le_maxFrom_number {a : K} (ha : a ≤ a) (xs : List K) :
    a ≤ maxFrom a xs ∧ ∀ x ∈ xs, x ≤ x → x ≤ maxFrom a xs := by
  induction xs generalizing a with
  | nil => exact ⟨ha, nofun⟩
  | cons x xs ih =>
    obtain ⟨hleft, hright⟩ := le_max (b := x) ha
    obtain ⟨hstart, hall⟩ := ih (number_of_le hleft).2
    refine ⟨le_trans hleft hstart, List.forall_mem_cons.mpr ⟨fun hx => ?_, hall⟩⟩
    exact le_trans (hright hx) hstart

end OrderedScalar

/-! ## Exact arithmetic -/

instance : OrderedScalar ℝ where
  le_trans := le_trans
  number_of_le _ := ⟨le_rfl, le_rfl⟩
  le_total _ _ := le_total _ _
  lt_iff := lt_iff_le_not_ge
  beq_self_iff := iff_of_true (decide_eq_true rfl) le_rfl
  number_of_isFinite _ := le_rfl
  eq_of_le_of_le _ := le_antisymm
  le_mul_of_one_le {a c} h hc := by
    have h0 : (0.0 : ℝ) < a := h
    have h1 : (1.0 : ℝ) ≤ c := hc
    change a ≤ a * c
    norm_num at h0 h1
    exact le_mul_of_one_le_right h0.le h1
  half_add_pos {a b} ha hb := by
    have h0 : (0.0 : ℝ) < a := ha
    have h1 : (0.0 : ℝ) < b := hb
    change (0.0 : ℝ) < (0.5 : ℝ) * (a + b)
    norm_num at h0 h1 ⊢
    linarith
  minDuration_pos := by
    change (0.0 : ℝ) < 1e-6
    norm_num
  one_le_scanGrowth := by
    change (1.0 : ℝ) ≤ 1.05
    norm_num
  one_le_add_finishSlack := by
    change (1.0 : ℝ) ≤ 1.0 + 1e-9
    norm_num

end JerkLimit

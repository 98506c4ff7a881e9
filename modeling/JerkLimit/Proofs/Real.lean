import Mathlib
import JerkLimit.Planner

/-!
# Proofs/Real — the real numbers as scalars

`Float` rounds; `ℝ` does not. Over `ℝ` the operations of a `Scalar` are the ones of mathematics, and
the lemmas here say so operation by operation. Everything that is proved "with exact arithmetic"
reads a definition through them.
-/

namespace JerkLimit

/-- Exact arithmetic: every number is finite, and nothing is rounded. -/
noncomputable instance Scalar.real : Scalar ℝ where
  decidableLT := inferInstance
  decidableLE := inferInstance
  beq a b := decide (a = b)
  abs x := |x|
  sqrt := Real.sqrt
  log := Real.log
  ofNat n := n
  natCeil x := ⌈x⌉₊
  isFinite _ := true

namespace Scalar

@[simp] theorem abs_real (x : ℝ) : Scalar.abs x = |x| := rfl

@[simp] theorem ofNat_real (n : ℕ) : (Scalar.ofNat n : ℝ) = n := rfl

@[simp] theorem natCeil_real (x : ℝ) : Scalar.natCeil x = ⌈x⌉₊ := rfl

@[simp] theorem isFinite_real (x : ℝ) : Scalar.isFinite x = true := rfl

@[simp] theorem beq_real (a b : ℝ) :
    (@BEq.beq ℝ Scalar.toBEq a b) = true ↔ a = b := decide_eq_true_iff

@[simp] theorem max_real (a b : ℝ) : Scalar.max a b = a ⊔ b := by
  change (if a < b then b else if decide (a = a) = true then a else b) = a ⊔ b
  rw [decide_eq_true rfl, if_pos rfl, max_def]
  split_ifs <;> linarith

theorem maxFrom_real (a : ℝ) (xs : List ℝ) : maxFrom a xs = xs.foldl (· ⊔ ·) a := by
  have hmax : (Scalar.max : ℝ → ℝ → ℝ) = (· ⊔ ·) := by
    funext x y
    exact max_real x y
  rw [maxFrom, hmax]

/-- The largest of a list and `a` is at most `b` exactly if everything is. -/
theorem maxFrom_le_iff {a b : ℝ} {xs : List ℝ} :
    maxFrom a xs ≤ b ↔ a ≤ b ∧ ∀ x ∈ xs, x ≤ b := by
  rw [maxFrom_real]
  induction xs generalizing a with
  | nil => simp
  | cons x xs ih => simp [ih, and_assoc]

theorem le_maxFrom (a : ℝ) (xs : List ℝ) : a ≤ maxFrom a xs := (maxFrom_le_iff.mp le_rfl).1

theorem le_maxFrom_of_mem {a x : ℝ} {xs : List ℝ} (h : x ∈ xs) : x ≤ maxFrom a xs :=
  (maxFrom_le_iff.mp le_rfl).2 x h

@[simp] theorem isPositive_real (x : ℝ) : isPositive x = true ↔ 0 < x := by
  change (true && decide ((0.0 : ℝ) < x)) = true ↔ 0 < x
  norm_num

@[simp] theorem sameSign_real (a b : ℝ) : sameSign a b = true ↔ 0 < a * b := by
  change (decide ((0.0 : ℝ) < a) && decide ((0.0 : ℝ) < b)
    || decide (a < (0.0 : ℝ)) && decide (b < (0.0 : ℝ))) = true ↔ _
  simp only [Bool.or_eq_true, Bool.and_eq_true, decide_eq_true_eq, mul_pos_iff]
  norm_num

@[simp] theorem sum_real (xs : List ℝ) : Scalar.sum xs = xs.sum := by
  rw [Scalar.sum, List.sum_eq_foldl]
  congr 1
  norm_num

theorem powFrom_real (r x : ℝ) (n : ℕ) : powFrom r x n = r * x ^ n := by
  induction n using Nat.strong_induction_on generalizing r x with
  | _ n ih =>
    -- One bit of the exponent in front, the others in the square.
    have hn : x ^ n = x ^ (n % 2) * (x * x) ^ (n / 2) := by
      rw [← sq, ← pow_mul, ← pow_add, Nat.mod_add_div]
    have hbit : (if n % 2 = 1 then r * x else r) = r * x ^ (n % 2) := by
      rcases Nat.mod_two_eq_zero_or_one n with h | h <;> simp [h]
    rw [powFrom, hn]
    simp only [hbit]
    split_ifs with hhalf
    · rw [hhalf, pow_zero, mul_one]
    · rw [ih (n / 2) (by omega), mul_assoc]

@[simp] theorem pow_real (x : ℝ) (n : ℤ) : Scalar.pow x n = x ^ n := by
  have hone : (1.0 : ℝ) = 1 := by norm_num
  simp only [Scalar.pow, powFrom_real, hone, one_mul]
  split_ifs with h
  · rw [one_div, ← zpow_natCast, ← zpow_neg, Int.ofNat_natAbs_of_nonpos h.le, neg_neg]
  · rw [← zpow_natCast, Int.natAbs_of_nonneg (not_lt.mp h)]

theorem clamp_real {x lo hi : ℝ} (h : lo ≤ x) (h' : x ≤ hi) : clamp x lo hi = x := by
  change (if x < lo then lo else if hi < x then hi else x) = x
  rw [if_neg h.not_gt, if_neg h'.not_gt]

end Scalar

/-- The relative and the absolute slack of a comparison with a limit. -/
theorem withinLimit_real {value limit : ℝ} :
    withinLimit value limit = true ↔ value ≤ limit * (1 + 1e-9) + 1 / 4503599627370496 := by
  change decide (value ≤ limit * ((1.0 : ℝ) + 1e-9) + 1.0 / 4503599627370496.0) = true ↔ _
  rw [decide_eq_true_iff]
  norm_num

end JerkLimit

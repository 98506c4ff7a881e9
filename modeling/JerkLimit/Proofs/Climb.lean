import Mathlib
import JerkLimit.Proofs.Validated

/-!
# Proofs/Climb — the schedule of coefficients climbs to its cap

The coefficients below the cap come from a loop without a bound: multiply until the cap is reached.
`Climb` is that loop, run to its end. `climb` stops after a number of steps that is computed
beforehand, and this is about why that makes no difference with exact arithmetic: `n` factors of
`growth` make at least `1 + n * (growth - 1)` (Bernoulli), so the loop has ended by then
(`climb_ends`).

What the loop leaves behind are powers of `growth` (`Climb.getElem`), all of them below the cap, and
the next one would not be (`Climb.reached`). **`coefficientSchedule_geometric`** puts the cap after
them.
-/

namespace JerkLimit

open Scalar

/-- Multiplying `c` by `growth` while it is below `cap` ends, and this is the list of what it was
before each factor. -/
inductive Climb {K : Type} [Scalar K] (growth cap : K) : K → List K → Prop
  | stop {c : K} (h : ¬c < cap) : Climb growth cap c []
  | step {c : K} {cs : List K} (h : c < cap) (rest : Climb growth cap (c * growth) cs) :
      Climb growth cap c (c :: cs)

/-- A climb from `first` to `last`: every entry is the one before it times `growth`, only the last
one may fall short of that. -/
structure GeometricTo (growth first last : ℝ) (xs : List ℝ) : Prop where
  head : xs.head? = some first
  getLast : xs.getLast? = some last
  strict : xs.Pairwise (· < ·)
  next_le (i : ℕ) (h : i + 1 < xs.length) : xs[i + 1] ≤ xs[i] * growth
  next_eq (i : ℕ) (h : i + 2 < xs.length) : xs[i + 1] = xs[i] * growth

variable {growth cap start c : ℝ} {cs : List ℝ}

/-! ## The loop -/

namespace Climb

/-- The loop leaves powers of `growth` behind. -/
theorem getElem (h : Climb growth cap c cs) {i : ℕ} (hi : i < cs.length) :
    cs[i] = c * growth ^ i := by
  induction h generalizing i with
  | stop _ => exact absurd hi (Nat.not_lt_zero i)
  | step _ _ ih =>
    cases i with
    | zero => rw [List.getElem_cons_zero, pow_zero, mul_one]
    | succ i => rw [List.getElem_cons_succ, ih, pow_succ', mul_assoc]

theorem lt_cap (h : Climb growth cap c cs) : ∀ x ∈ cs, x < cap := by
  induction h with
  | stop _ => exact nofun
  | step hlt _ ih => exact List.forall_mem_cons.mpr ⟨hlt, ih⟩

/-- The loop ends at the first power that is not below the cap. -/
theorem reached (h : Climb growth cap c cs) : ¬c * growth ^ cs.length < cap := by
  induction h with
  | stop hstop => rwa [List.length_nil, pow_zero, mul_one]
  | step _ _ ih => rwa [List.length_cons, pow_succ', ← mul_assoc]

end Climb

/-- Steps that would reach the cap are enough for the whole loop. -/
theorem climb_of_reached {n : ℕ} (h : ¬c * growth ^ n < cap) :
    Climb growth cap c (climb growth cap n c) := by
  induction n generalizing c with
  | zero =>
    rw [pow_zero, mul_one] at h
    exact .stop h
  | succ n ih =>
    rw [climb]
    split_ifs with hlt
    · exact .step hlt (ih (by rwa [pow_succ', ← mul_assoc] at h))
    · exact .stop hlt

section Growth

variable (hstart : 0 < start) (hgrowth : 1 < growth)

include hstart hgrowth

/-- The number of steps that are taken reaches the cap. -/
theorem cap_le_mul_pow_climbSteps (cap : ℝ) :
    cap ≤ start * growth ^ climbSteps start growth cap := by
  obtain ⟨n, hn⟩ : ∃ n, climbSteps start growth cap = n := ⟨_, rfl⟩
  have hsteps : (cap / start - 1) / (growth - 1) ≤ n := by
    have hceil := Nat.le_ceil ((cap / start - 1) / (growth - 1))
    have hle : ⌈(cap / start - 1) / (growth - 1)⌉₊ ≤ n := by
      have hone : (1.0 : ℝ) = 1 := by norm_num
      rw [← hn, climbSteps, natCeil_real, hone]
      omega
    exact hceil.trans (Nat.cast_le.mpr hle)
  have hgain : cap / start ≤ growth ^ n :=
    calc cap / start ≤ 1 + n * (growth - 1) := by
          linarith [(div_le_iff₀ (sub_pos.mpr hgrowth)).mp hsteps]
      _ ≤ (1 + (growth - 1)) ^ n := one_add_mul_le_pow (by linarith) n
      _ = growth ^ n := by rw [add_sub_cancel]
  rw [hn]
  exact (div_le_iff₀' hstart).mp hgain

/-- **The loop ends** within the steps that are taken. -/
theorem climb_ends (cap : ℝ) :
    Climb growth cap start (climb growth cap (climbSteps start growth cap) start) :=
  climb_of_reached (cap_le_mul_pow_climbSteps hstart hgrowth cap).not_gt

/-! ## The schedule -/

theorem Climb.strict (h : Climb growth cap start cs) : cs.Pairwise (· < ·) := by
  refine List.pairwise_iff_getElem.mpr fun i j hi hj hij => ?_
  rw [h.getElem hi, h.getElem hj]
  exact mul_lt_mul_of_pos_left (pow_lt_pow_right₀ hgrowth hij) hstart

/-- What a finished loop leaves behind, and the cap after it. -/
theorem Climb.geometricTo (h : Climb growth cap start cs) :
    GeometricTo growth start (start ⊔ cap) (cs ++ [start ⊔ cap]) := by
  have hlength : (cs ++ [start ⊔ cap]).length = cs.length + 1 := List.length_append
  have hpower {i : ℕ} (hi : i < cs.length) (hi' : i < (cs ++ [start ⊔ cap]).length) :
      (cs ++ [start ⊔ cap])[i] = start * growth ^ i :=
    (List.getElem_append_left hi).trans (h.getElem hi)
  refine ⟨?head, List.getLast?_concat, ?strict, fun i hi => ?next_le, fun i hi => ?next_eq⟩
  case head =>
    cases h with
    | stop hstop => rw [sup_eq_left.mpr (not_lt.mp hstop)]; rfl
    | step _ _ => rfl
  case strict =>
    refine List.pairwise_append.mpr
      ⟨h.strict hstart hgrowth, List.pairwise_singleton _ _, fun x hx last hlast => ?_⟩
    obtain rfl := List.mem_singleton.mp hlast
    exact lt_sup_of_lt_right (h.lt_cap x hx)
  case next_le =>
    have hle : i + 1 ≤ cs.length := by omega
    rw [hpower hle, mul_assoc, ← pow_succ]
    rcases hle.lt_or_eq with hlt | heq
    · rw [hpower hlt]
    · -- The step that reaches the cap is the one that may fall short.
      rw [List.getElem_concat_length heq, heq]
      exact sup_le (le_mul_of_one_le_right hstart.le (one_le_pow₀ hgrowth.le))
        (not_lt.mp h.reached)
  case next_eq =>
    have hlt : i + 1 < cs.length := by omega
    rw [hpower hlt, hpower (Nat.lt_of_succ_lt hlt), pow_succ, mul_assoc]

/-- **The schedule climbs geometrically to its cap**: the loop behind it ends, and the cap comes
after what it leaves. -/
theorem coefficientSchedule_geometric (cap : ℝ) :
    (∃ below, Climb growth cap start below
      ∧ coefficientSchedule start growth cap = below ++ [start ⊔ cap])
    ∧ GeometricTo growth start (start ⊔ cap) (coefficientSchedule start growth cap) := by
  have hends := climb_ends hstart hgrowth cap
  have hschedule : coefficientSchedule start growth cap
      = climb growth cap (climbSteps start growth cap) start ++ [start ⊔ cap] := by
    have hgrows : (1.0 : ℝ) < growth := by norm_num [hgrowth]
    rw [coefficientSchedule_eq, if_pos hgrows, max_real, sup_comm]
  exact ⟨⟨_, hends, hschedule⟩, hschedule ▸ hends.geometricTo hstart hgrowth⟩

end Growth

/-- Doubling from one reaches five in three steps, the last of them cut short. -/
theorem coefficientSchedule_doubling : coefficientSchedule (1 : ℝ) 2 5 = [1, 2, 4, 5]
    ∧ GeometricTo 2 1 (1 ⊔ 5) (coefficientSchedule (1 : ℝ) 2 5) := by
  obtain ⟨⟨below, hclimb, hschedule⟩, hgeometric⟩ :=
    coefficientSchedule_geometric one_pos one_lt_two 5
  refine ⟨?_, hgeometric⟩
  obtain ⟨h⟩ | ⟨-, hclimb⟩ := hclimb
  · norm_num at h
  obtain ⟨h⟩ | ⟨-, hclimb⟩ := hclimb
  · norm_num at h
  obtain ⟨h⟩ | ⟨-, hclimb⟩ := hclimb
  · norm_num at h
  obtain ⟨-⟩ | ⟨h, -⟩ := hclimb
  · rw [hschedule]
    norm_num
  · norm_num at h

end JerkLimit

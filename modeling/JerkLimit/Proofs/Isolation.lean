import Mathlib
import JerkLimit.Proofs.Roots

/-!
# Proofs/Isolation — what the isolated roots are

`Proofs/Roots` says what a polynomial does between its isolated roots; this is about the roots
themselves. A polynomial with `n` coefficients has at most `n - 1` of them (`length_roots_le`), they
climb from one end of the interval toward the other without touching either, and none is made up:
each is a zero, or the middle of a tiny bracket in which the sign changes (`Isolated`).
**`roots_isolated`** puts the three together.

The roots of the derivative are the breaks of the scan, so the induction is the one of the
definition. A zero on a break belongs to the piece that ends there, which keeps the order strict.
-/

namespace JerkLimit.Poly

open Scalar

/-! ## How many -/

section Length

variable {K : Type} [Scalar K]

/-- A piece has at most one root. -/
theorem length_rootsOnPieces_le (cs : List K) (hi a : K) (bs : List K) :
    (rootsOnPieces cs hi a bs).length ≤ bs.length := by
  induction bs generalizing a with
  | nil => exact le_rfl
  | cons b bs ih =>
    rw [rootsOnPieces]
    split
    · exact Nat.succ_le_succ (ih b)
    · exact (ih b).trans (Nat.le_succ _)

/-- **There are fewer roots than coefficients**, whatever the arithmetic. -/
theorem length_roots_le (cs : List K) (lo hi : K) : (roots cs lo hi).length ≤ cs.length - 1 := by
  induction cs using roots.induct lo hi with
  | case1 => simp [roots]
  | case2 c => simp [roots]
  | case3 c₀ c₁ h => simp [roots, h]
  | case4 c₀ c₁ h root hin =>
    dsimp only [root] at hin
    simp [roots, h, hin]
  | case5 c₀ c₁ h root hout =>
    dsimp only [root] at hout
    simp [roots, h, hout]
  | case6 c₀ c₁ c₂ rest cs ih =>
    have hbreaks : (roots (derivative cs) lo hi ++ [hi]).length ≤ cs.length - 1 := by
      have hcs : cs.length = rest.length + 3 := rfl
      rw [length_derivative] at ih
      rw [List.length_append, List.length_singleton]
      omega
    rw [roots]
    exact (length_rootsOnPieces_le cs hi lo _).trans hbreaks

end Length

/-! ## What they are -/

/-- What stands for a root: a zero of the polynomial, or the middle of a bracket in `[lo, hi]` that
is no wider than `δ` and has values of opposite signs at its ends. -/
inductive Isolated (cs : List ℝ) (lo hi δ r : ℝ) : Prop where
  | zero (h : eval cs r = 0)
  | bracket {a b : ℝ} (ha : lo ≤ a) (hab : a < b) (hb : b ≤ hi) (hwidth : b - a ≤ δ)
      (hsigns : eval cs a * eval cs b < 0) (hmiddle : r = (a + b) / 2)

theorem Isolated.mono {cs : List ℝ} {lo lo' hi hi' δ δ' r : ℝ} (h : Isolated cs lo hi δ r)
    (hlo : lo' ≤ lo) (hhi : hi ≤ hi') (hδ : δ ≤ δ') : Isolated cs lo' hi' δ' r := by
  cases h with
  | zero h => exact .zero h
  | bracket ha hab hb hwidth hsigns hmiddle =>
    exact .bracket (hlo.trans ha) hab (hb.trans hhi) (hwidth.trans hδ) hsigns hmiddle

/-- Values on both sides of zero. -/
theorem mul_neg_of_signs {σ x y : ℝ} (hσ : σ = 1 ∨ σ = -1) (hx : 0 < σ * x) (hy : σ * y < 0) :
    x * y < 0 := by
  rcases hσ with rfl | rfl <;> nlinarith

section Scan

variable {cs : List ℝ} {lo hi a b r : ℝ}

/-- **The root on a piece** lies behind the beginning of the piece and before the end of the whole
interval. -/
theorem isolated_of_rootOnPiece (hab : a < b) (hbhi : b ≤ hi) (h : rootOnPiece cs hi a b = some r) :
    a < r ∧ r ≤ b ∧ r < hi ∧ Isolated cs a b ((b - a) / 2 ^ halvings) r := by
  rw [rootOnPiece_real] at h
  split_ifs at h with hzero hlt hsame
  · obtain rfl := Option.some.inj h
    exact ⟨hab, le_rfl, hlt, .zero hzero⟩
  · obtain rfl := Option.some.inj h
    obtain ⟨ha, hsame⟩ := not_or.mp hsame
    rw [mul_comm] at hsame
    obtain ⟨σ, hσ, -, hpos⟩ := exists_sign (eval cs a)
    have hneg := mul_neg_of_not_same hσ (hpos ha) hzero hsame
    rcases bisect_zero_or_middle hσ cs halvings hab (hpos ha) hneg with
      ⟨har, hrb, hr⟩ | ⟨a', b', haa', hab', hb'b, hwidth, hmiddle, ha', hb'⟩
    · exact ⟨har, hrb.le, hrb.trans_le hbhi, .zero hr⟩
    · have har : a < bisect cs halvings (eval cs a) a b := by linarith
      have hrb : bisect cs halvings (eval cs a) a b < b := by linarith
      exact ⟨har, hrb.le, hrb.trans_le hbhi,
        .bracket haa' hab' hb'b hwidth.le (mul_neg_of_signs hσ ha' hb') hmiddle⟩

/-- A bracket on a piece is one in the whole interval. -/
theorem Isolated.of_piece (h : Isolated cs a b ((b - a) / 2 ^ halvings) r) (hlo : lo ≤ a)
    (hhi : b ≤ hi) : Isolated cs lo hi ((hi - lo) / 2 ^ halvings) r :=
  h.mono hlo hhi (by gcongr)

/-- **A scan over breaks that climb** finds roots that climb, all of them before the end. -/
theorem isolated_of_rootsOnPieces {bs : List ℝ} (hlo : lo ≤ a) (hbs : (a :: bs).Pairwise (· < ·))
    (hhi : ∀ b ∈ bs, b ≤ hi) :
    (a :: rootsOnPieces cs hi a bs).Pairwise (· < ·) ∧ ∀ r ∈ rootsOnPieces cs hi a bs,
      r < hi ∧ Isolated cs lo hi ((hi - lo) / 2 ^ halvings) r := by
  induction bs generalizing a with
  | nil => exact ⟨List.pairwise_singleton _ _, nofun⟩
  | cons b bs ih =>
    obtain ⟨hab, hbs⟩ := List.pairwise_cons.mp hbs
    obtain ⟨hbhi, hhi⟩ := List.forall_mem_cons.mp hhi
    have hab : a < b := hab b List.mem_cons_self
    obtain ⟨hclimbs, hroots⟩ := ih (hlo.trans hab.le) hbs hhi
    obtain ⟨hbehind, hclimbs⟩ := List.pairwise_cons.mp hclimbs
    rw [rootsOnPieces]
    split
    next r hr =>
      -- The root may be the break `b` itself; those that the scan finds from `b` on lie behind it.
      obtain ⟨har, hrb, hrhi, hisolated⟩ := isolated_of_rootOnPiece hab hbhi hr
      have hr_behind : ∀ r' ∈ rootsOnPieces cs hi b bs, r < r' :=
        fun r' hr' => hrb.trans_lt (hbehind r' hr')
      refine ⟨List.pairwise_cons.mpr ⟨?_, List.pairwise_cons.mpr ⟨hr_behind, hclimbs⟩⟩,
        List.forall_mem_cons.mpr ⟨⟨hrhi, hisolated.of_piece hlo hbhi⟩, hroots⟩⟩
      exact List.forall_mem_cons.mpr ⟨har, fun r' hr' => har.trans (hr_behind r' hr')⟩
    next =>
      exact ⟨List.pairwise_cons.mpr ⟨fun r' hr' => hab.trans (hbehind r' hr'), hclimbs⟩, hroots⟩

end Scan

/-- The roots of the derivative cut the interval, and the scan over these cuts finds the roots. -/
theorem isolated_roots {lo hi : ℝ} (h : lo < hi) (cs : List ℝ) :
    (lo :: roots cs lo hi).Pairwise (· < ·) ∧ ∀ r ∈ roots cs lo hi,
      r < hi ∧ Isolated cs lo hi ((hi - lo) / 2 ^ halvings) r := by
  induction cs using cutError.induct with
  | case1 c₀ c₁ c₂ cs ih =>
    obtain ⟨hclimbs, hbelow⟩ := ih
    rw [roots]
    refine isolated_of_rootsOnPieces le_rfl ?_ ?_
    · rw [← List.cons_append, List.pairwise_append]
      refine ⟨hclimbs, List.pairwise_singleton _ _, fun x hx y hy => ?_⟩
      obtain rfl := List.mem_singleton.mp hy
      rcases List.mem_cons.mp hx with rfl | hx
      · exact h
      · exact (hbelow x hx).1
    · intro b hb
      rcases List.mem_append.mp hb with hb | hb
      · exact (hbelow b hb).1.le
      · exact (List.mem_singleton.mp hb).le
  | case2 cs hshort =>
    rcases cs with _ | ⟨c₀, _ | ⟨c₁, _ | ⟨c₂, cs⟩⟩⟩
    · rw [roots]
      exact ⟨List.pairwise_singleton _ _, List.forall_mem_nil _⟩
    · rw [roots]
      exact ⟨List.pairwise_singleton _ _, List.forall_mem_nil _⟩
    · rw [roots_linear]
      split_ifs with h0 hin
      · exact ⟨List.pairwise_singleton _ _, List.forall_mem_nil _⟩
      · refine ⟨List.pairwise_pair.mpr hin.1, fun r hr => ?_⟩
        obtain rfl := List.mem_singleton.mp hr
        refine ⟨hin.2, .zero ?_⟩
        simp only [eval_cons, eval_nil]
        field_simp
        ring
      · exact ⟨List.pairwise_singleton _ _, List.forall_mem_nil _⟩
    · exact absurd rfl (hshort c₀ c₁ c₂ cs)

/-- **The isolated roots are genuine, ordered and interior**: there are fewer of them than
coefficients, they climb, each lies inside the interval, and each is a zero or the middle of a
bracket with a change of sign, of the width that 60 halvings leave. -/
theorem roots_isolated {lo hi : ℝ} (h : lo < hi) (cs : List ℝ) :
    (roots cs lo hi).length ≤ cs.length - 1 ∧ (roots cs lo hi).Pairwise (· < ·)
      ∧ ∀ r ∈ roots cs lo hi, lo < r ∧ r < hi ∧ Isolated cs lo hi ((hi - lo) / 2 ^ 60) r := by
  obtain ⟨hclimbs, hroots⟩ := isolated_roots h cs
  obtain ⟨hlo, hclimbs⟩ := List.pairwise_cons.mp hclimbs
  exact ⟨length_roots_le cs lo hi, hclimbs,
    fun r hr => ⟨hlo r hr, (hroots r hr).1, (hroots r hr).2⟩⟩

/-- The square root of two is isolated between 0 and 2. -/
theorem roots_isolated_sqrt_two : (0 : ℝ) < 2 ∧ ∃ r, roots [-2, 0, 1] (0 : ℝ) 2 = [r]
    ∧ 0 < r ∧ r < 2 ∧ Isolated [-2, 0, 1] 0 2 ((2 - 0) / 2 ^ 60) r := by
  have hroots : roots [-2, 0, 1] (0 : ℝ) 2
      = [bisect [-2, 0, 1] halvings (eval [-2, 0, 1] 0) 0 2] := by
    have hbreaks : roots (derivative [-2, 0, 1]) (0 : ℝ) 2 = [] := by
      simp [derivative_cons, timesPower_cons, timesPower_nil, roots_linear]
    rw [roots, hbreaks]
    simp only [List.nil_append, rootsOnPieces, rootOnPiece_real, eval_cons, eval_nil]
    norm_num
  obtain ⟨-, -, h⟩ := roots_isolated (by norm_num : (0 : ℝ) < 2) [-2, 0, 1]
  obtain ⟨hlo, hhi, hisolated⟩ := h _ (hroots ▸ List.mem_singleton_self _)
  exact ⟨by norm_num, _, hroots, hlo, hhi, hisolated⟩

end JerkLimit.Poly

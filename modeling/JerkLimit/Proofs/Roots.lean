import Mathlib
import JerkLimit.Proofs.Real

/-!
# Proofs/Roots — what the isolated roots say about a polynomial

`Poly.roots` bisects, so over `ℝ` it answers with points near the roots, and a pair of roots that
nearly touch may be missed altogether. What can be relied on is the sign: between two neighbouring
answers the polynomial keeps one sign up to an error, `cutError`, that is tiny beside the size of
its coefficients (`pieces_roots`).

The induction is the one of the definition. If the derivative keeps its sign up to `η` on a piece,
the polynomial is monotone there up to a drift of `η` times the length of the piece, so its sign at
the two ends of the piece is its sign inside; where the ends differ, bisection closes in on the
change and the slope bounds what happens in the rest of the bracket.
-/

namespace JerkLimit.Poly

open Scalar Set

/-! ## Lists of coefficients as polynomials -/

@[simp] theorem eval_nil (t : ℝ) : eval [] t = 0 := by
  change (0.0 : ℝ) = 0
  norm_num

@[simp] theorem eval_cons (c : ℝ) (cs : List ℝ) (t : ℝ) : eval (c :: cs) t = eval cs t * t + c :=
  rfl

theorem timesPower_nil (k : ℕ) : timesPower k ([] : List ℝ) = [] := rfl

theorem timesPower_cons (k : ℕ) (c : ℝ) (cs : List ℝ) :
    timesPower k (c :: cs) = k * c :: timesPower (k + 1) cs := rfl

theorem derivative_cons (c : ℝ) (cs : List ℝ) : derivative (c :: cs) = timesPower 1 cs := rfl

/-- Powers that count from `k + 1` add the polynomial once more. -/
theorem eval_timesPower_succ (k : ℕ) (cs : List ℝ) (t : ℝ) :
    eval (timesPower (k + 1) cs) t = eval (timesPower k cs) t + eval cs t := by
  induction cs generalizing k with
  | nil => simp [timesPower_nil]
  | cons c cs ih =>
    rw [timesPower_cons, timesPower_cons, eval_cons, eval_cons, ih (k + 1), eval_cons]
    push_cast
    ring

/-- **`derivative` is the derivative.** -/
theorem hasDerivAt_eval (cs : List ℝ) (t : ℝ) :
    HasDerivAt (eval cs) (eval (derivative cs) t) t := by
  induction cs with
  | nil =>
    rw [show eval ([] : List ℝ) = fun _ => 0 from funext eval_nil]
    simpa [derivative] using hasDerivAt_const t (0 : ℝ)
  | cons c cs ih =>
    have hcons : HasDerivAt (eval (c :: cs)) (eval (derivative cs) t * t + eval cs t * 1) t :=
      (ih.mul (hasDerivAt_id t)).add_const c
    have hshift : eval (timesPower 0 cs) t = eval (derivative cs) t * t := by
      cases cs with
      | nil => simp [timesPower_nil, derivative]
      | cons c' cs => simp [timesPower_cons, derivative_cons]
    have hsucc := eval_timesPower_succ 0 cs t
    rw [hshift] at hsucc
    rw [derivative_cons, hsucc]
    simpa using hcons

theorem continuous_eval (cs : List ℝ) : Continuous (eval cs) :=
  continuous_iff_continuousAt.mpr fun t => (hasDerivAt_eval cs t).continuousAt

/-- A bound on the magnitude of a polynomial on `[0, T]`: every term at its largest. -/
noncomputable def size (T : ℝ) (cs : List ℝ) : ℝ := eval (cs.map fun c => |c|) T

theorem size_cons (T c : ℝ) (cs : List ℝ) : size T (c :: cs) = size T cs * T + |c| := rfl

theorem size_nonneg {T : ℝ} (hT : 0 ≤ T) (cs : List ℝ) : 0 ≤ size T cs := by
  induction cs with
  | nil => simp [size]
  | cons c cs ih =>
    rw [size_cons]
    positivity

theorem abs_eval_le_size {T t : ℝ} (ht : t ∈ Icc 0 T) (cs : List ℝ) : |eval cs t| ≤ size T cs := by
  induction cs with
  | nil => simp [size]
  | cons c cs ih =>
    have hterm : |eval cs t * t| ≤ size T cs * T := by
      rw [abs_mul, abs_of_nonneg ht.1]
      exact mul_le_mul ih ht.2 ht.1 (size_nonneg (ht.1.trans ht.2) cs)
    rw [eval_cons, size_cons]
    exact (abs_add_le _ _).trans (by gcongr)

/-- The slope between two points of `[0, T]` is bounded by the size of the derivative. -/
theorem abs_eval_sub_le {T x y : ℝ} (hx : x ∈ Icc 0 T) (hy : y ∈ Icc 0 T) (cs : List ℝ) :
    |eval cs y - eval cs x| ≤ size T (derivative cs) * |y - x| := by
  have h := (convex_Icc 0 T).norm_image_sub_le_of_norm_hasDerivWithin_le
    (fun t _ => (hasDerivAt_eval cs t).hasDerivWithinAt)
    (fun t ht => abs_eval_le_size ht (derivative cs)) hx hy
  simpa only [Real.norm_eq_abs] using h

/-! ## Signs up to an error -/

/-- `f` has one sign on `[a, b]`, up to `η`; the sign is `σ`. -/
def KeepsSign (η σ : ℝ) (f : ℝ → ℝ) (a b : ℝ) : Prop :=
  (σ = 1 ∨ σ = -1) ∧ ∀ x ∈ Icc a b, -η ≤ σ * f x

theorem neg_sign {σ : ℝ} (h : σ = 1 ∨ σ = -1) : -σ = 1 ∨ -σ = -1 := by
  rcases h with rfl | rfl <;> norm_num

/-- Two numbers that are not of one sign, the first of which is positive. -/
theorem mul_neg_of_not_same {σ x y : ℝ} (hσ : σ = 1 ∨ σ = -1) (hx : 0 < σ * x) (hy : y ≠ 0)
    (h : ¬0 < y * x) : σ * y < 0 := by
  have hx0 : x ≠ 0 := by
    rintro rfl
    simp at hx
  have hneg : y * x < 0 := (not_lt.mp h).lt_of_ne (mul_ne_zero hy hx0)
  rcases hσ with rfl | rfl <;> nlinarith

theorem KeepsSign.mono {η η' σ a b a' b' : ℝ} {f : ℝ → ℝ} (h : KeepsSign η σ f a b)
    (hη : η ≤ η') (ha : a ≤ a') (hb : b' ≤ b) : KeepsSign η' σ f a' b' :=
  ⟨h.1, fun x hx => (neg_le_neg hη).trans (h.2 x ⟨ha.trans hx.1, hx.2.trans hb⟩)⟩

theorem KeepsSign.append {η σ a b c : ℝ} {f : ℝ → ℝ} (h : KeepsSign η σ f a b)
    (h' : KeepsSign η σ f b c) : KeepsSign η σ f a c := by
  refine ⟨h.1, ?_⟩
  intro x hx
  rcases le_total x b with hb | hb
  · exact h.2 x ⟨hx.1, hb⟩
  · exact h'.2 x ⟨hb, hx.2⟩

/-- A derivative of one sign makes the polynomial monotone, up to a drift. -/
theorem drift {η τ a b : ℝ} {cs : List ℝ} (h : KeepsSign η τ (eval (derivative cs)) a b) {x y : ℝ}
    (hx : a ≤ x) (hxy : x ≤ y) (hy : y ≤ b) :
    τ * eval cs x - η * (y - x) ≤ τ * eval cs y := by
  have hderiv : ∀ t, HasDerivAt (fun t => τ * eval cs t) (τ * eval (derivative cs) t) t :=
    fun t => (hasDerivAt_eval cs t).const_mul τ
  have hdiff : Differentiable ℝ fun t => τ * eval cs t := fun t => (hderiv t).differentiableAt
  have hmono := (convex_Icc a b).mul_sub_le_image_sub_of_le_deriv (C := -η)
    hdiff.continuous.continuousOn hdiff.differentiableOn
    (fun t ht => by
      rw [(hderiv t).deriv]
      exact h.2 t (interior_subset ht))
    x ⟨hx, hxy.trans hy⟩ y ⟨hx.trans hxy, hy⟩ hxy
  linarith

/-- Up to the drift over the whole piece, what is inside lies between the ends. -/
theorem drift_between {η τ a b : ℝ} {cs : List ℝ} (h : KeepsSign η τ (eval (derivative cs)) a b)
    (hη : 0 ≤ η) {x : ℝ} (hx : x ∈ Icc a b) :
    τ * eval cs a - η * (b - a) ≤ τ * eval cs x ∧ τ * eval cs x - η * (b - a) ≤ τ * eval cs b := by
  have hleft := drift h le_rfl hx.1 hx.2
  have hright := drift h hx.1 hx.2 le_rfl
  have hax : η * (x - a) ≤ η * (b - a) := by gcongr; exact hx.2
  have hxb : η * (b - x) ≤ η * (b - a) := by gcongr; exact hx.1
  exact ⟨by linarith, by linarith⟩

/-- **The sign at both ends is the sign inside**, if the derivative keeps its sign. -/
theorem keepsSign_of_ends {η τ σ a b : ℝ} {cs : List ℝ}
    (h : KeepsSign η τ (eval (derivative cs)) a b) (hη : 0 ≤ η) (hσ : σ = 1 ∨ σ = -1)
    (ha : 0 ≤ σ * eval cs a) (hb : 0 ≤ σ * eval cs b) :
    KeepsSign (η * (b - a)) σ (eval cs) a b := by
  refine ⟨hσ, ?_⟩
  intro x hx
  obtain ⟨hleft, hright⟩ := drift_between h hη hx
  -- The value at `x` is compared with the end from which the polynomial rises.
  rcases h.1 with rfl | rfl <;> rcases hσ with rfl | rfl <;> linarith

/-- On a piece where the derivative keeps its sign, the ends are as large as anything inside. -/
theorem abs_eval_le_of_ends {η τ a b P : ℝ} {cs : List ℝ}
    (h : KeepsSign η τ (eval (derivative cs)) a b) (hη : 0 ≤ η) (ha : |eval cs a| ≤ P)
    (hb : |eval cs b| ≤ P) {x : ℝ} (hx : x ∈ Icc a b) : |eval cs x| ≤ P + η * (b - a) := by
  obtain ⟨hleft, hright⟩ := drift_between h hη hx
  obtain ⟨ha₁, ha₂⟩ := abs_le.mp ha
  obtain ⟨hb₁, hb₂⟩ := abs_le.mp hb
  rcases h.1 with rfl | rfl <;> exact abs_le.mpr ⟨by linarith, by linarith⟩

/-! ## Bisection -/

/-- One halving. -/
theorem bisect_succ (cs : List ℝ) (n : ℕ) (a b : ℝ) :
    bisect cs (n + 1) (eval cs a) a b
      = if eval cs ((a + b) / 2) = 0 then (a + b) / 2
        else if 0 < eval cs ((a + b) / 2) * eval cs a
          then bisect cs n (eval cs ((a + b) / 2)) ((a + b) / 2) b
        else bisect cs n (eval cs a) a ((a + b) / 2) := by
  have hhalf : (0.5 : ℝ) * (a + b) = (a + b) / 2 := by ring
  have htwice : (0.5 : ℝ) * ((a + b) / 2 + (a + b) / 2) = (a + b) / 2 := by ring
  rw [bisect]
  change (if decide (eval cs ((0.5 : ℝ) * (a + b)) = (0.0 : ℝ)) = true
    then (0.5 : ℝ) * ((0.5 : ℝ) * (a + b) + (0.5 : ℝ) * (a + b)) else _) = _
  rw [hhalf, htwice]
  simp only [decide_eq_true_eq, sameSign_real]
  norm_num

/-- **Bisection ends at a zero or in the middle of a bracket** of the sign change, which is halved
`n` times. -/
theorem bisect_zero_or_middle {σ : ℝ} (hσ : σ = 1 ∨ σ = -1) (cs : List ℝ) (n : ℕ) {a b : ℝ}
    (hab : a < b) (ha : 0 < σ * eval cs a) (hb : σ * eval cs b < 0) :
    (a < bisect cs n (eval cs a) a b ∧ bisect cs n (eval cs a) a b < b
        ∧ eval cs (bisect cs n (eval cs a) a b) = 0)
      ∨ ∃ a' b', a ≤ a' ∧ a' < b' ∧ b' ≤ b ∧ b' - a' = (b - a) / 2 ^ n
        ∧ bisect cs n (eval cs a) a b = (a' + b') / 2
        ∧ 0 < σ * eval cs a' ∧ σ * eval cs b' < 0 := by
  induction n generalizing a b with
  | zero =>
    have hmid : bisect cs 0 (eval cs a) a b = (a + b) / 2 := by
      change (0.5 : ℝ) * (a + b) = _
      ring
    exact .inr ⟨a, b, le_rfl, hab, le_rfl, by simp, hmid, ha, hb⟩
  | succ n ih =>
    have hstep := bisect_succ cs n a b
    obtain ⟨m, hm⟩ : ∃ m, m = (a + b) / 2 := ⟨_, rfl⟩
    have ham : a < m := by linarith
    have hmb : m < b := by linarith
    have hpow : (b - a) / 2 / 2 ^ n = (b - a) / 2 ^ (n + 1) := by rw [pow_succ']; field_simp
    rw [hstep, ← hm]
    split_ifs with h0 hsame
    · exact .inl ⟨ham, hmb, h0⟩
    · have hm' : 0 < σ * eval cs m := by
        rcases hσ with rfl | rfl <;> nlinarith
      rcases ih hmb hm' hb with ⟨h₁, h₂, h₃⟩ | ⟨a', b', h₁, h₂, h₃, h₄, h₅⟩
      · exact .inl ⟨ham.trans h₁, h₂, h₃⟩
      · refine .inr ⟨a', b', ham.le.trans h₁, h₂, h₃, h₄.trans ?_, h₅⟩
        rw [← hpow, hm]
        ring
    · have hm' : σ * eval cs m < 0 := mul_neg_of_not_same hσ ha h0 hsame
      rcases ih ham ha hm' with ⟨h₁, h₂, h₃⟩ | ⟨a', b', h₁, h₂, h₃, h₄, h₅⟩
      · exact .inl ⟨h₁, h₂.trans hmb, h₃⟩
      · refine .inr ⟨a', b', h₁, h₂, h₃.trans hmb.le, h₄.trans ?_, h₅⟩
        rw [← hpow, hm]
        ring

/-- So it ends inside a bracket, which may be a point. -/
theorem bisect_bracket {σ : ℝ} (hσ : σ = 1 ∨ σ = -1) (cs : List ℝ) (n : ℕ) {a b : ℝ} (hab : a ≤ b)
    (ha : 0 < σ * eval cs a) (hb : σ * eval cs b < 0) :
    ∃ a' b', a ≤ a' ∧ a' ≤ bisect cs n (eval cs a) a b ∧ bisect cs n (eval cs a) a b ≤ b'
      ∧ b' ≤ b ∧ b' - a' ≤ (b - a) / 2 ^ n ∧ 0 ≤ σ * eval cs a' ∧ σ * eval cs b' ≤ 0 := by
  have hlt : a < b := by
    refine hab.lt_of_ne ?_
    rintro rfl
    exact ha.not_gt hb
  rcases bisect_zero_or_middle hσ cs n hlt ha hb with
    ⟨har, hrb, hzero⟩ | ⟨a', b', haa', hab', hb'b, hwidth, hmid, ha', hb'⟩
  · have hwidth : 0 ≤ (b - a) / 2 ^ n := div_nonneg (sub_nonneg.mpr hab) (by positivity)
    exact ⟨_, _, har.le, le_rfl, le_rfl, hrb.le, by rwa [sub_self], by simp [hzero], by simp [hzero]⟩
  · refine ⟨a', b', haa', ?_, ?_, hb'b, hwidth.le, ha'.le, hb'.le⟩ <;> rw [hmid] <;> linarith

/-- In a narrow bracket the value changes little. -/
theorem abs_eval_sub_le_of_bracket {T a b d x y : ℝ} (cs : List ℝ) (h0 : 0 ≤ a) (hT : b ≤ T)
    (hd : b - a ≤ d) (hx : x ∈ Icc a b) (hy : y ∈ Icc a b) :
    |eval cs y - eval cs x| ≤ size T (derivative cs) * d := by
  have hslope := abs_eval_sub_le (T := T) (x := x) (y := y)
    ⟨h0.trans hx.1, hx.2.trans hT⟩ ⟨h0.trans hy.1, hy.2.trans hT⟩ cs
  have hxy : |y - x| ≤ d :=
    abs_sub_le_iff.mpr ⟨by linarith [hx.1, hy.2], by linarith [hx.2, hy.1]⟩
  have hsize : 0 ≤ size T (derivative cs) :=
    size_nonneg (h0.trans (hx.1.trans (hx.2.trans hT))) _
  exact hslope.trans (by gcongr)

/-- **The sign on both sides of a bisected root**, if the derivative keeps its sign. -/
theorem keepsSign_bisect {η τ σ a b T : ℝ} {cs : List ℝ} (hσ : σ = 1 ∨ σ = -1) (n : ℕ)
    (h : KeepsSign η τ (eval (derivative cs)) a b) (hη : 0 ≤ η) (h0 : 0 ≤ a) (hab : a ≤ b)
    (hT : b ≤ T) (ha : 0 < σ * eval cs a) (hb : σ * eval cs b < 0) :
    a ≤ bisect cs n (eval cs a) a b ∧ bisect cs n (eval cs a) a b ≤ b
      ∧ KeepsSign (η * (b - a) + size T (derivative cs) * ((b - a) / 2 ^ n)) σ (eval cs) a
        (bisect cs n (eval cs a) a b)
      ∧ KeepsSign (η * (b - a) + size T (derivative cs) * ((b - a) / 2 ^ n)) (-σ) (eval cs)
        (bisect cs n (eval cs a) a b) b := by
  obtain ⟨a', b', haa', ha'r, hrb', hb'b, hlen, ha', hb'⟩ := bisect_bracket hσ cs n hab ha hb
  generalize bisect cs n (eval cs a) a b = r at ha'r hrb' ⊢
  have ha'b : a' ≤ b := ha'r.trans (hrb'.trans hb'b)
  have hab' : a ≤ b' := haa'.trans (ha'r.trans hrb')
  -- Outside the bracket the ends have one sign; inside, the value is near that of an end.
  have hleft := keepsSign_of_ends (h.mono le_rfl le_rfl ha'b) hη hσ ha.le ha'
  have hright := keepsSign_of_ends (h.mono le_rfl hab' le_rfl) hη (neg_sign hσ)
    (by linarith) (by linarith : 0 ≤ -σ * eval cs b)
  have hinside : ∀ x ∈ Icc a' b', ∀ y ∈ Icc a' b',
      |eval cs y - eval cs x| ≤ size T (derivative cs) * ((b - a) / 2 ^ n) := by
    intro x hx y hy
    exact abs_eval_sub_le_of_bracket cs (h0.trans haa') (hb'b.trans hT) hlen hx hy
  have hdrift : ∀ x y : ℝ, a ≤ x → y ≤ b → η * (y - x) ≤ η * (b - a) := by
    intro x y hx hy
    gcongr
  have hsmall : 0 ≤ size T (derivative cs) * ((b - a) / 2 ^ n) :=
    mul_nonneg (size_nonneg (h0.trans (hab.trans hT)) _) (div_nonneg (by linarith) (by positivity))
  have hpos : 0 ≤ η * (b - a) := mul_nonneg hη (by linarith)
  refine ⟨haa'.trans ha'r, hrb'.trans hb'b,
    (hleft.mono ?_ le_rfl le_rfl).append ⟨hσ, ?_⟩,
    KeepsSign.append ⟨neg_sign hσ, ?_⟩ (hright.mono ?_ le_rfl le_rfl)⟩
  · linarith [hdrift a a' le_rfl ha'b]
  · intro x hx
    have hclose := abs_le.mp (hinside a' ⟨le_rfl, ha'r.trans hrb'⟩ x ⟨hx.1, hx.2.trans hrb'⟩)
    rcases hσ with rfl | rfl <;> linarith
  · intro x hx
    have hclose := abs_le.mp (hinside b' ⟨ha'r.trans hrb', le_rfl⟩ x ⟨ha'r.trans hx.1, hx.2⟩)
    rcases hσ with rfl | rfl <;> linarith
  · linarith [hdrift b' b hab' le_rfl]

/-! ## Cutting an interval -/

/-- The cuts `rs` go from `a` up to `hi`, and `f` keeps a sign between neighbours, up to `η`. -/
def Pieces (η : ℝ) (f : ℝ → ℝ) (hi : ℝ) : ℝ → List ℝ → Prop
  | a, [] => a ≤ hi ∧ ∃ σ, KeepsSign η σ f a hi
  | a, r :: rs => (a ≤ r ∧ ∃ σ, KeepsSign η σ f a r) ∧ Pieces η f hi r rs

theorem Pieces.le {η hi a : ℝ} {f : ℝ → ℝ} {rs : List ℝ} (h : Pieces η f hi a rs) : a ≤ hi := by
  induction rs generalizing a with
  | nil => exact h.1
  | cons r rs ih => exact h.1.1.trans (ih h.2)

/-- All cuts lie in the interval. -/
theorem Pieces.mem_Icc {η hi a : ℝ} {f : ℝ → ℝ} {rs : List ℝ} (h : Pieces η f hi a rs) {r : ℝ}
    (hr : r ∈ rs) : r ∈ Icc a hi := by
  induction rs generalizing a with
  | nil => simp at hr
  | cons r' rs ih =>
    rcases List.mem_cons.mp hr with rfl | hr
    · exact ⟨h.1.1, h.2.le⟩
    · exact ⟨h.1.1.trans (ih h.2 hr).1, (ih h.2 hr).2⟩

/-- What is known at `a` of a scan for roots whose latest cut is `r`: the sign since `r` is the sign
at `a`, and a zero at `a` has been recorded. -/
structure ScanAt (η T : ℝ) (cs : List ℝ) (r a : ℝ) : Prop where
  le : r ≤ a
  keeps : ∃ σ, KeepsSign η σ (eval cs) r a ∧ 0 ≤ σ * eval cs a
  recorded : eval cs a = 0 → r = a ∨ a = T

theorem rootOnPiece_real (cs : List ℝ) (hi a b : ℝ) :
    rootOnPiece cs hi a b
      = if eval cs b = 0 then if b < hi then some b else none
        else if eval cs a = 0 ∨ 0 < eval cs a * eval cs b then none
        else some (bisect cs halvings (eval cs a) a b) := by
  rw [rootOnPiece]
  change (if decide (eval cs b = (0.0 : ℝ)) = true then _
    else if (decide (eval cs a = (0.0 : ℝ)) || sameSign (eval cs a) (eval cs b)) = true then _
    else _) = _
  simp only [Bool.or_eq_true, decide_eq_true_eq, sameSign_real]
  norm_num

/-- A number has a sign, and a nonzero one has it strictly. -/
theorem exists_sign (x : ℝ) : ∃ σ : ℝ, (σ = 1 ∨ σ = -1) ∧ 0 ≤ σ * x ∧ (x ≠ 0 → 0 < σ * x) := by
  rcases le_total 0 x with hx | hx
  · exact ⟨1, .inl rfl, by linarith, fun h => by linarith [hx.lt_of_ne' h]⟩
  · exact ⟨-1, .inr rfl, by linarith, fun h => by linarith [hx.lt_of_ne h]⟩

/-- The error of the sign after a scan over pieces on which the derivative has a sign up to `η`. -/
noncomputable def scanError (η T : ℝ) (cs : List ℝ) : ℝ :=
  η * T + size T (derivative cs) * (T / 2.0 ^ halvings)

section Scan

variable {η τ T r a b : ℝ} {cs : List ℝ}

/-- What a bracket leaves open is part of the error. -/
theorem bracket_le_scanError (cs : List ℝ) (hη : 0 ≤ η) (h0 : 0 ≤ a) (hab : a ≤ b) (hbT : b ≤ T) :
    η * (b - a) + size T (derivative cs) * ((b - a) / 2 ^ halvings) ≤ scanError η T cs := by
  have hba : b - a ≤ T := by linarith
  have hsize : 0 ≤ size T (derivative cs) := size_nonneg (h0.trans (hab.trans hbT)) _
  rw [scanError, show (2.0 : ℝ) = 2 by norm_num]
  gcongr

/-- The sign at both ends of a piece is the sign since the latest cut. -/
theorem ScanAt.keepsSign {σ : ℝ} (hs : ScanAt (scanError η T cs) T cs r a)
    (h : KeepsSign η τ (eval (derivative cs)) a b) (hη : 0 ≤ η) (hr : 0 ≤ r) (hab : a ≤ b)
    (hbT : b ≤ T) (hσ : σ = 1 ∨ σ = -1) (ha : 0 ≤ σ * eval cs a) (hb : 0 ≤ σ * eval cs b) :
    KeepsSign (scanError η T cs) σ (eval cs) a b := by
  have ha0 : 0 ≤ a := hr.trans hs.le
  have hopen : 0 ≤ size T (derivative cs) * ((b - a) / 2 ^ halvings) :=
    mul_nonneg (size_nonneg (ha0.trans (hab.trans hbT)) _)
      (div_nonneg (sub_nonneg.mpr hab) (by positivity))
  have herror := bracket_le_scanError cs hη ha0 hab hbT
  exact (keepsSign_of_ends h hη hσ ha hb).mono (by linarith) le_rfl le_rfl

/-- A zero at the end of a piece is a cut, unless the whole interval ends there. -/
theorem ScanAt.piece_of_zero (hs : ScanAt (scanError η T cs) T cs r a)
    (h : KeepsSign η τ (eval (derivative cs)) a b) (hη : 0 ≤ η) (hr : 0 ≤ r) (hab : a ≤ b)
    (hbT : b ≤ T) (hb : eval cs b = 0) :
    (∃ σ, KeepsSign (scanError η T cs) σ (eval cs) r b)
      ∧ ScanAt (scanError η T cs) T cs b b
      ∧ (T ≤ b → ScanAt (scanError η T cs) T cs r b) := by
  obtain ⟨σ, hσr, hσa⟩ := hs.keeps
  have hzero : 0 ≤ σ * eval cs b := by rw [hb, mul_zero]
  have hkeep := hσr.append (hs.keepsSign h hη hr hab hbT hσr.1 hσa hzero)
  exact ⟨⟨σ, hkeep⟩,
    ⟨le_rfl, ⟨σ, hkeep.mono le_rfl (hs.le.trans hab) le_rfl, hzero⟩, fun _ => .inl rfl⟩,
    fun hTb => ⟨hs.le.trans hab, ⟨σ, hkeep, hzero⟩, fun _ => .inr (hbT.antisymm hTb)⟩⟩

/-- A piece without a change of sign is passed. -/
theorem ScanAt.piece_of_same (hs : ScanAt (scanError η T cs) T cs r a)
    (h : KeepsSign η τ (eval (derivative cs)) a b) (hη : 0 ≤ η) (hr : 0 ≤ r) (hab : a ≤ b)
    (hbT : b ≤ T) (hb : eval cs b ≠ 0) (hsame : eval cs a = 0 ∨ 0 < eval cs a * eval cs b) :
    ScanAt (scanError η T cs) T cs r b := by
  rcases hsame with ha | hsame
  · -- A zero at `a` was recorded as the latest cut, so any sign will do for what follows.
    obtain rfl : r = a := by
      rcases hs.recorded ha with hra | haT
      · exact hra
      · exact absurd ((hbT.antisymm (haT ▸ hab)) ▸ haT ▸ ha) hb
    obtain ⟨σ, hσ, hσb, -⟩ := exists_sign (eval cs b)
    have hkeep := hs.keepsSign h hη hr hab hbT hσ (by rw [ha, mul_zero]) hσb
    exact ⟨hab, ⟨σ, hkeep, hσb⟩, fun h0 => absurd h0 hb⟩
  · obtain ⟨σ, hσr, hσa⟩ := hs.keeps
    have hσb : 0 ≤ σ * eval cs b := by
      rcases hσr.1 with rfl | rfl <;> nlinarith
    exact ⟨hs.le.trans hab, ⟨σ, hσr.append (hs.keepsSign h hη hr hab hbT hσr.1 hσa hσb), hσb⟩,
      fun h0 => absurd h0 hb⟩

/-- A change of sign is cut where the bisection ends. -/
theorem ScanAt.piece_of_change (hs : ScanAt (scanError η T cs) T cs r a)
    (h : KeepsSign η τ (eval (derivative cs)) a b) (hη : 0 ≤ η) (hr : 0 ≤ r) (hab : a ≤ b)
    (hbT : b ≤ T) (ha : eval cs a ≠ 0) (hb : eval cs b ≠ 0) (hsame : ¬0 < eval cs b * eval cs a) :
    r ≤ bisect cs halvings (eval cs a) a b
      ∧ (∃ σ, KeepsSign (scanError η T cs) σ (eval cs) r (bisect cs halvings (eval cs a) a b))
      ∧ ScanAt (scanError η T cs) T cs (bisect cs halvings (eval cs a) a b) b := by
  obtain ⟨σ, hσr, hσa⟩ := hs.keeps
  have ha0 : 0 ≤ a := hr.trans hs.le
  have hapos : 0 < σ * eval cs a := by
    refine hσa.lt_of_ne' (mul_ne_zero ?_ ha)
    rcases hσr.1 with rfl | rfl <;> norm_num
  have hbneg := mul_neg_of_not_same hσr.1 hapos hb hsame
  obtain ⟨har', hrb', hleft, hright⟩ :=
    keepsSign_bisect hσr.1 halvings h hη ha0 hab hbT hapos hbneg
  have herror := bracket_le_scanError cs hη ha0 hab hbT
  exact ⟨hs.le.trans har', ⟨σ, hσr.append (hleft.mono herror le_rfl le_rfl)⟩, hrb',
    ⟨-σ, hright.mono herror le_rfl le_rfl, by linarith⟩, fun h0 => absurd h0 hb⟩

/-- **One piece of the scan**: it either passes without a cut or ends in one. -/
theorem ScanAt.piece (hs : ScanAt (scanError η T cs) T cs r a)
    (h : KeepsSign η τ (eval (derivative cs)) a b) (hη : 0 ≤ η) (hr : 0 ≤ r) (hab : a ≤ b)
    (hbT : b ≤ T) :
    (rootOnPiece cs T a b = none ∧ ScanAt (scanError η T cs) T cs r b)
      ∨ ∃ r', rootOnPiece cs T a b = some r' ∧ r ≤ r'
        ∧ (∃ σ, KeepsSign (scanError η T cs) σ (eval cs) r r')
        ∧ ScanAt (scanError η T cs) T cs r' b := by
  rw [rootOnPiece_real]
  split_ifs with hb hbT' hsame
  · obtain ⟨hkeep, hcut, -⟩ := hs.piece_of_zero h hη hr hab hbT hb
    exact .inr ⟨b, rfl, hs.le.trans hab, hkeep, hcut⟩
  · obtain ⟨-, -, hpass⟩ := hs.piece_of_zero h hη hr hab hbT hb
    exact .inl ⟨rfl, hpass (not_lt.mp hbT')⟩
  · exact .inl ⟨rfl, hs.piece_of_same h hη hr hab hbT hb hsame⟩
  · obtain ⟨ha, hsame⟩ := not_or.mp hsame
    rw [mul_comm] at hsame
    exact .inr ⟨_, rfl, hs.piece_of_change h hη hr hab hbT ha hb hsame⟩

/-- **A scan over pieces on which the derivative keeps its sign cuts the interval into pieces on
which the polynomial does.** -/
theorem pieces_rootsOnPieces {bs : List ℝ} (hs : ScanAt (scanError η T cs) T cs r a) (hη : 0 ≤ η)
    (hr : 0 ≤ r) (h : Pieces η (eval (derivative cs)) T a bs) :
    Pieces (scanError η T cs) (eval cs) T r (rootsOnPieces cs T a (bs ++ [T])) := by
  induction bs generalizing r a with
  | nil =>
    obtain ⟨haT, τ, hτ⟩ := h
    rw [List.nil_append, rootsOnPieces]
    rcases hs.piece hτ hη hr haT le_rfl with ⟨hnone, hs'⟩ | ⟨r', hsome, hrr', hkeep, hs'⟩
    · obtain ⟨σ, hσ, -⟩ := hs'.keeps
      rw [hnone]
      exact ⟨hs'.le, σ, hσ⟩
    · obtain ⟨σ, hσ, -⟩ := hs'.keeps
      rw [hsome]
      exact ⟨⟨hrr', hkeep⟩, hs'.le, σ, hσ⟩
  | cons b bs ih =>
    obtain ⟨⟨hab, τ, hτ⟩, hrest⟩ := h
    rw [List.cons_append, rootsOnPieces]
    rcases hs.piece hτ hη hr hab hrest.le with ⟨hnone, hs'⟩ | ⟨r', hsome, hrr', hkeep, hs'⟩
    · rw [hnone]
      exact ih hs' hr hrest
    · rw [hsome]
      exact ⟨⟨hrr', hkeep⟩, ih hs' (hr.trans hrr') hrest⟩

end Scan

/-- **The error of the sign between neighbouring roots**: none for a linear polynomial; otherwise
the drift from the error of the derivative, and what the last bracket leaves open. -/
noncomputable def cutError (T : ℝ) : List ℝ → ℝ
  | c₀ :: c₁ :: c₂ :: cs =>
    cutError T (derivative (c₀ :: c₁ :: c₂ :: cs)) * T
      + size T (derivative (c₀ :: c₁ :: c₂ :: cs)) * (T / 2.0 ^ halvings)
  | _ => 0
termination_by cs => cs.length
decreasing_by simp [length_derivative]

theorem cutError_nonneg {T : ℝ} (hT : 0 ≤ T) (cs : List ℝ) : 0 ≤ cutError T cs := by
  induction cs using cutError.induct with
  | case1 c₀ c₁ c₂ cs ih =>
    have hsize := size_nonneg hT (derivative (c₀ :: c₁ :: c₂ :: cs))
    rw [cutError]
    positivity
  | case2 cs h => rw [cutError.eq_2 T cs h]

/-- A line has one sign before its root and the other one after it. -/
theorem keepsSign_line (c₀ : ℝ) {c₁ : ℝ} (h : c₁ ≠ 0) :
    ∃ σ, (∀ a, KeepsSign 0 (-σ) (eval [c₀, c₁]) a (-c₀ / c₁))
      ∧ ∀ b, KeepsSign 0 σ (eval [c₀, c₁]) (-c₀ / c₁) b := by
  have hfactor : ∀ x, eval [c₀, c₁] x = c₁ * (x - -c₀ / c₁) := by
    intro x
    rw [eval_cons, eval_cons, eval_nil]
    field_simp
    ring
  obtain ⟨σ, hσ, -, hpos⟩ := exists_sign c₁
  refine ⟨σ, fun a => ⟨neg_sign hσ, ?_⟩, fun b => ⟨hσ, ?_⟩⟩
  · intro x hx
    have := mul_nonneg (hpos h).le (sub_nonneg.mpr hx.2)
    rw [hfactor]
    linarith
  · intro x hx
    have := mul_nonneg (hpos h).le (sub_nonneg.mpr hx.1)
    rw [hfactor]
    linarith

theorem roots_linear (c₀ c₁ lo hi : ℝ) :
    roots [c₀, c₁] lo hi
      = if c₁ = 0 then [] else if lo < -c₀ / c₁ ∧ -c₀ / c₁ < hi then [-c₀ / c₁] else [] := by
  rw [roots]
  change (if decide (c₁ = (0.0 : ℝ)) = true then _
    else if (decide (lo < -c₀ / c₁) && decide (-c₀ / c₁ < hi)) = true then _ else _) = _
  simp only [Bool.and_eq_true, decide_eq_true_eq]
  norm_num

/-- A polynomial of degree one changes its sign at its root and nowhere else. -/
theorem pieces_roots_linear {T : ℝ} (hT : 0 ≤ T) (c₀ c₁ : ℝ) :
    Pieces 0 (eval [c₀, c₁]) T 0 (roots [c₀, c₁] 0 T) := by
  rw [roots_linear]
  split_ifs with h0 hin
  · obtain ⟨σ, hσ, hσc, -⟩ := exists_sign c₀
    exact ⟨hT, σ, hσ, fun x _ => by simpa [h0] using hσc⟩
  · obtain ⟨σ, hleft, hright⟩ := keepsSign_line c₀ h0
    exact ⟨⟨hin.1.le, -σ, hleft 0⟩, hin.2.le, σ, hright T⟩
  · obtain ⟨σ, hleft, hright⟩ := keepsSign_line c₀ h0
    rcases le_or_gt (-c₀ / c₁) 0 with hle | hgt
    · exact ⟨hT, σ, (hright T).mono le_rfl hle le_rfl⟩
    · exact ⟨hT, -σ, (hleft 0).mono le_rfl le_rfl (not_lt.mp fun hlt => hin ⟨hgt, hlt⟩)⟩

/-- **The roots cut `[0, T]` into pieces on which the polynomial keeps its sign**, up to
`cutError`. -/
theorem pieces_roots {T : ℝ} (hT : 0 ≤ T) (cs : List ℝ) :
    Pieces (cutError T cs) (eval cs) T 0 (roots cs 0 T) := by
  induction cs using cutError.induct with
  | case1 c₀ c₁ c₂ cs ih =>
    rw [cutError, roots, ← scanError]
    obtain ⟨σ, hσ, hσ0, -⟩ := exists_sign (eval (c₀ :: c₁ :: c₂ :: cs) 0)
    have hη := cutError_nonneg hT (derivative (c₀ :: c₁ :: c₂ :: cs))
    have hsize := size_nonneg hT (derivative (c₀ :: c₁ :: c₂ :: cs))
    refine pieces_rootsOnPieces ⟨le_rfl, ⟨σ, ⟨hσ, ?_⟩, hσ0⟩, fun _ => .inl rfl⟩ hη le_rfl ih
    intro x hx
    obtain rfl : x = 0 := le_antisymm hx.2 hx.1
    refine (neg_nonpos.mpr ?_).trans hσ0
    rw [scanError]
    positivity
  | case2 cs h =>
    rw [cutError.eq_2 T cs h]
    rcases cs with _ | ⟨c₀, _ | ⟨c₁, _ | ⟨c₂, cs⟩⟩⟩
    · rw [roots]
      exact ⟨hT, 1, .inl rfl, fun x _ => by simp⟩
    · obtain ⟨σ, hσ, hσc, -⟩ := exists_sign c₀
      rw [roots]
      exact ⟨hT, σ, hσ, fun x _ => by simpa using hσc⟩
    · exact pieces_roots_linear hT c₀ c₁
    · exact absurd rfl (h c₀ c₁ c₂ cs)

end JerkLimit.Poly

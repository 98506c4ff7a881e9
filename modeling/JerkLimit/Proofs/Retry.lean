import Mathlib
import JerkLimit.Proofs.Checks
import JerkLimit.Proofs.Real
import JerkLimit.Retry

/-!
# Proofs/Retry — bounded attempts

Attempts are counted from one (`retryFrom_count`), so a count of one says that the first attempt was
the last (`first_of_retry`). The bound on a descent is reached exactly when the floor is
(`deratingBound_le_iff`), so it is at least one wherever there is something to descend; and for
numbers of double precision it fits a machine word (`deratingBound_lt_word`).
-/

namespace JerkLimit

open Scalar

/-! ## Counting -/

/-- Of one attempt or more, the last one is counted. -/
theorem retryFrom_count {m : Type → Type} [Monad m] [LawfulMonad m] {α : Type}
    (attempt : ℕ → m α) (accept : α → m Bool) (n i : ℕ) (last : Option (Attempts α)) :
    SatisfiesM (fun o => ∃ a, o = some a ∧ i < a.count)
      (retryFrom attempt accept (n + 1) i last) := by
  induction n generalizing i last with
  | zero =>
    rw [retryFrom]
    refine .bind_pre (.of_true fun value => .bind_pre (.of_true fun accepted => ?_))
    cases accepted <;> exact .pure ⟨_, rfl, Nat.lt_succ_self i⟩
  | succ n ih =>
    rw [retryFrom]
    refine .bind_pre (.of_true fun value => .bind_pre (.of_true fun accepted => ?_))
    cases accepted with
    | true => exact .pure ⟨_, rfl, Nat.lt_succ_self i⟩
    | false =>
      refine (ih (i + 1) (some ⟨value, false, i + 1⟩)).imp fun ⟨a, ha, hlt⟩ => ⟨a, ha, ?_⟩
      exact (Nat.lt_succ_self i).trans hlt

/-- What holds of every result holds of the one that a run ends with. -/
theorem of_run_ok {σ ε α : Type} {x : Run σ ε α} {P : α → Prop} (hx : SatisfiesM P x) {s s' : σ}
    {a : α} (h : x.run.run s = (.ok a, s')) : P a := by
  have hx' := SatisfiesM_StateT_eq.mp (SatisfiesM_ExceptT_eq.mp hx) s
  exact SatisfiesM_Id_eq.mp hx' a (congrArg Prod.fst h)

section Step

variable {σ ε α : Type} (attempt : ℕ → ExceptT ε (StateM σ) α)
  (accept : α → ExceptT ε (StateM σ) Bool) {s s₁ s₂ : σ} {k i : ℕ} {last : Option (Attempts α)}

/-- One attempt and its check, which decides whether there is another one. -/
theorem retryFrom_step {value : α} {accepted : Bool} (h : (attempt i).run.run s = (.ok value, s₁))
    (hcheck : (accept value).run.run s₁ = (.ok accepted, s₂)) :
    (retryFrom attempt accept (k + 1) i last).run.run s
      = if accepted then (.ok (some ⟨value, true, i + 1⟩), s₂)
        else (retryFrom attempt accept k (i + 1) (some ⟨value, false, i + 1⟩)).run.run s₂ := by
  rw [retryFrom, ExceptT.run_bind, StateT.run_bind, h]
  change ((accept value >>= _).run).run s₁ = _
  rw [ExceptT.run_bind, StateT.run_bind, hcheck]
  cases accepted <;> rfl

/-- An attempt that fails ends the loop. -/
theorem retryFrom_error {e : ε} (h : (attempt i).run.run s = (.error e, s₁)) :
    (retryFrom attempt accept (k + 1) i last).run.run s = (.error e, s₁) := by
  rw [retryFrom, ExceptT.run_bind, StateT.run_bind, h]
  rfl

end Step

section Run

variable {σ ε α : Type} {attempt : ℕ → Run σ ε α} {ok : α → Bool} {k : ℕ} {s s' : σ}

/-- An attempt that is approved is the last one. -/
theorem retryFrom_of_accepted {i : ℕ} {last : Option (Attempts α)} {value : α}
    (h : (attempt i).run.run s = (.ok value, s')) (hok : ok value = true) :
    (retryFrom attempt (fun a => pure (ok a)) (k + 1) i last).run.run s
      = (.ok (some ⟨value, true, i + 1⟩), s') :=
  (retryFrom_step _ _ h rfl).trans (if_pos hok)

/-- One that is not hands over to the next. -/
theorem retryFrom_of_rejected {i : ℕ} {last : Option (Attempts α)} {value : α}
    (h : (attempt i).run.run s = (.ok value, s')) (hok : ok value = false) :
    (retryFrom attempt (fun a => pure (ok a)) (k + 1) i last).run.run s
      = (retryFrom attempt (fun a => pure (ok a)) k (i + 1)
          (some ⟨value, false, i + 1⟩)).run.run s' :=
  (retryFrom_step _ _ h rfl).trans (if_neg (Bool.eq_false_iff.mp hok))

/-- A first attempt that is approved is the only one. -/
theorem retry_first {value : α} (h : (attempt 0).run.run s = (.ok value, s'))
    (hok : ok value = true) :
    (retry (k + 1) attempt fun a => pure (ok a)).run.run s
      = (.ok (some ⟨value, true, 1⟩), s') := retryFrom_of_accepted h hok

/-- **One attempt that was approved** is the first one. -/
theorem first_of_retry {a : Attempts α} (hcount : a.count = 1) (haccepted : a.accepted = true)
    (h : (retry (k + 1) attempt fun a => pure (ok a)).run.run s = (.ok (some a), s')) :
    (attempt 0).run.run s = (.ok a.value, s') ∧ ok a.value = true := by
  obtain ⟨value, s₁, hvalue, -⟩ := run_bind_eq_ok.mp h
  cases hok : ok value with
  | true =>
    obtain ⟨ha, rfl⟩ := Prod.mk.inj ((retryFrom_of_accepted hvalue hok).symm.trans h)
    obtain rfl := Option.some.inj (Except.ok.inj ha)
    exact ⟨hvalue, hok⟩
  | false =>
    have hrest := (retryFrom_of_rejected hvalue hok).symm.trans h
    cases k with
    | zero =>
      obtain ⟨ha, -⟩ := run_pure_eq_ok.mp hrest
      obtain rfl := Option.some.inj ha
      exact nomatch haccepted
    | succ k =>
      obtain ⟨a', ha', hlt⟩ :=
        of_run_ok (retryFrom_count attempt _ k 1 (some ⟨value, false, 1⟩)) hrest
      obtain rfl := Option.some.inj ha'
      omega

end Run

/-! ## Descending -/

section Descending

variable {start floor factor : ℝ} (hfloor : 0 < floor) (hstart : floor < start) (h0 : 0 < factor)
  (h1 : factor < 1)

include hfloor hstart h0 h1

/-- The bound is a quotient of logarithms, rounded up. -/
theorem deratingBound_eq :
    deratingBound start floor factor = ⌈Real.log (floor / start) / Real.log factor⌉₊ := by
  have hcond : (decide (start ≤ floor) || !(decide ((0.0 : ℝ) < factor)
      && decide (factor < (1.0 : ℝ))) || decide (floor ≤ (0.0 : ℝ))) = false := by
    norm_num
    exact ⟨⟨hstart, h0, h1⟩, hfloor⟩
  rw [deratingBound]
  exact if_neg (Bool.eq_false_iff.mp hcond)

/-- **The bound is reached exactly when the floor is.** -/
theorem deratingBound_le_iff {n : ℕ} :
    deratingBound start floor factor ≤ n ↔ start * factor ^ n ≤ floor := by
  have hstart0 : 0 < start := hfloor.trans hstart
  calc deratingBound start floor factor ≤ n
      ↔ Real.log (floor / start) / Real.log factor ≤ n := by
        rw [deratingBound_eq hfloor hstart h0 h1, Nat.ceil_le]
    _ ↔ Real.log (factor ^ n) ≤ Real.log (floor / start) := by
        rw [div_le_iff_of_neg (Real.log_neg h0 h1), Real.log_pow]
    _ ↔ factor ^ n ≤ floor / start :=
        Real.log_le_log_iff (pow_pos h0 n) (div_pos hfloor hstart0)
    _ ↔ start * factor ^ n ≤ floor := le_div_iff₀' hstart0

/-- A descent from above the floor takes at least one step. -/
theorem deratingBound_pos : 0 < deratingBound start floor factor := by
  by_contra hnone
  have hreached := (deratingBound_le_iff hfloor hstart h0 h1).mp (not_lt.mp hnone)
  rw [pow_zero, mul_one] at hreached
  exact hstart.not_ge hreached

/-- **A bound for doubles fits a machine word**, so rounding it up to a word rounds it up to a
number: the ratio of two positive doubles is less than `2 ^ 2098`, and no double below one is above
`1 - 2 ^ -53`. -/
theorem deratingBound_lt_word (hleast : 2⁻¹ ^ 1074 ≤ floor) (hgreatest : start ≤ 2 ^ 1024)
    (hfactor : factor ≤ 1 - 2⁻¹ ^ 53) : deratingBound start floor factor < 2 ^ 64 := by
  have hstart0 : 0 < start := hfloor.trans hstart
  have hratio : 2⁻¹ ^ 2098 ≤ floor / start := by
    rw [le_div_iff₀ hstart0]
    calc (2⁻¹ : ℝ) ^ 2098 * start ≤ 2⁻¹ ^ 2098 * 2 ^ 1024 := by gcongr
      _ = 2⁻¹ ^ 1074 := by
        rw [show 2098 = 1074 + 1024 from rfl, pow_add, mul_assoc, ← mul_pow]
        norm_num
      _ ≤ floor := hleast
  have hdescent : -1456 ≤ Real.log (floor / start) := by
    refine le_trans ?_ (Real.log_le_log (by positivity) hratio)
    rw [Real.log_pow, Real.log_inv]
    have := Real.log_two_lt_d9
    push_cast
    linarith
  have hstep : Real.log factor ≤ -2⁻¹ ^ 53 := by
    linarith [Real.log_le_sub_one_of_pos h0]
  have hword : deratingBound start floor factor ≤ 2 ^ 64 - 1 := by
    rw [deratingBound_eq hfloor hstart h0 h1, Nat.ceil_le, div_le_iff_of_neg (Real.log_neg h0 h1)]
    refine le_trans ?_ hdescent
    norm_num at hstep ⊢
    linarith
  omega

end Descending

end JerkLimit

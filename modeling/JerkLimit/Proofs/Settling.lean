import Mathlib
import JerkLimit.Proofs.Derating

/-!
# Proofs/Settling — no de-rating is cut short

How many steps a de-rating may take is computed beforehand, by a quotient of logarithms. The loop
itself multiplies a vector and looks at its length. The two agree: after `k` steps the target's
speed is the one it had, times the factor to the power `k` (`Segment.Slowed`), and the bound is the
least power that gets to the floor. So a loop that spends all its steps has asked for a speed at the
floor with the last of them (**`Segment.derating_exact`**), whatever the solver answers.

A solver may also answer with too few entries, or fault; then the segment faults.
-/

namespace JerkLimit

open Scalar Correction

/-- Scaling a vector scales its length. -/
theorem State.norm_map_mul (xs : List ℝ) (c : ℝ) : norm (xs.map (· * c)) = norm xs * |c| := by
  have hsquares : ((xs.map (· * c)).map fun x => x * x).sum
      = (xs.map fun x => x * x).sum * c ^ 2 := by
    rw [List.map_map, ← List.sum_map_mul_right]
    refine congrArg List.sum (List.map_congr_left fun x _ => ?_)
    simp only [Function.comp_apply]
    ring
  change Real.sqrt (Scalar.sum _) = Real.sqrt (Scalar.sum _) * |c|
  rw [sum_real, sum_real, hsquares, Real.sqrt_mul' _ (sq_nonneg c), Real.sqrt_sq_eq_abs]

namespace Segment

variable {σ : Type} {seg : Segment ℝ}

/-! ## One step -/

/-- The segment's target with its velocity scaled `k` times. -/
structure Slowed (seg : Segment ℝ) (k : ℕ) (target : State ℝ) : Prop where
  position : target.position = seg.target.position
  velocity : target.velocity = seg.target.velocity.map (· * seg.settings.deratingFactor ^ k)

theorem Slowed.norm {k : ℕ} {target : State ℝ} (h : seg.Slowed k target)
    (h0 : 0 < seg.settings.deratingFactor) : State.norm target.velocity
      = State.norm seg.target.velocity * seg.settings.deratingFactor ^ k := by
  rw [h.velocity, State.norm_map_mul, abs_of_pos (pow_pos h0 k)]

theorem Slowed.start (seg : Segment ℝ) : seg.Slowed 0 seg.target where
  position := rfl
  velocity := by simp

variable (haligned : seg.target.velocity.length ≤ seg.target.position.length)

include haligned

theorem Slowed.next {k : ℕ} {t : Trial ℝ} {target : State ℝ} (h : seg.Slowed k t.target)
    (hscaled : scaledTarget seg.settings.deratingFactor seg.duration t = .ok target) :
    seg.Slowed (k + 1) target := by
  obtain ⟨hposition, hvelocity⟩ := scaledTarget_eq_ok hscaled
  have hlength : t.target.velocity.length ≤ t.target.position.length := by
    rwa [h.velocity, h.position, List.length_map]
  refine ⟨hposition.trans h.position, ?_⟩
  rw [hvelocity, List.take_of_length_le hlength, List.drop_of_length_le hlength,
    List.append_nil, h.velocity, List.map_map]
  refine List.map_congr_left fun v _ => ?_
  rw [Function.comp_apply, pow_succ, mul_assoc]

/-- **A step asks for the target, slowed once more**, unless there is a fault. If it is the last one
it has settled the matter. -/
theorem derateOnce_slows {k : ℕ} {t : Trial ℝ} (h : seg.Slowed k t.target) (solver : Solver σ ℝ)
    (s : σ) (log : List (Exchange ℝ)) :
    (∃ f l, ((derateOnce solver.logged seg.limits seg.settings.deratingFactor
        seg.settings.speedFloor seg.current seg.duration).run t).run.run ⟨s, log⟩
          = (.error (.fault f), l))
      ∨ ∃ last e t' s', ((derateOnce solver.logged seg.limits seg.settings.deratingFactor
          seg.settings.speedFloor seg.current seg.duration).run t).run.run ⟨s, log⟩
          = (.ok (last, t'), ⟨s', log ++ [e]⟩)
        ∧ seg.Slowed (k + 1) t'.target ∧ e.request.target = t'.target
        ∧ (last = true → e.Settles seg.settings.speedFloor) := by
  cases hscaled : scaledTarget seg.settings.deratingFactor seg.duration t with
  | error f =>
    refine .inl ⟨f, ⟨s, log⟩, ?_⟩
    simp only [derateOnce, StateT.run_bind, StateT.run_get, StateT.run_lift, pure_bind, bind_assoc,
      hscaled]
    exact run_bind_error rfl
  | ok target =>
    rw [derateOnce_run hscaled]
    obtain ⟨answer, s', hupdate⟩ : ∃ answer s', (solver.update
      { current := seg.current, target, limits := seg.limits }).run.run s = (answer, s') :=
      ⟨_, _, rfl⟩
    have hlogged := logged_update_run log hupdate
    have hslowed := h.next haligned hscaled
    cases answer with
    | ok reply =>
      exact .inr ⟨_, ⟨_, .ok reply⟩, _, s', run_bind_ok (run_capture_ok hlogged), hslowed, rfl,
        fun hlast => Exchange.settles_accepted.mpr hlast⟩
    | error stop =>
      cases stop with
      | error e =>
        exact .inr ⟨_, ⟨_, .error (.error e)⟩, _, s', run_bind_ok (run_capture_error hlogged),
          hslowed, rfl, fun hlast => Exchange.settles_rejected.mpr hlast⟩
      | fault f => exact .inl ⟨f, _, run_bind_error (run_capture_fault hlogged)⟩

/-! ## The loop -/

/-- The log ends with an exchange that settles the matter. -/
def Settled (seg : Segment ℝ) (log : List (Exchange ℝ)) : Prop :=
  ∃ e, log.getLast? = some e ∧ e.Settles seg.settings.speedFloor

/-- The latest request asked for a target that was slowed `k` times, if there was any. -/
def Asked (seg : Segment ℝ) (k : ℕ) (log : List (Exchange ℝ)) : Prop :=
  k = 0 ∨ ∃ e, log.getLast? = some e ∧ seg.Slowed k e.request.target

/-- **The loop ends settled**: before its steps are spent because one of them settled the matter,
and otherwise because the last of them asked for a speed at the floor. -/
theorem retryFrom_settles (hsettings : Derates seg.settings)
    (hfast : seg.settings.speedFloor < State.norm seg.target.velocity) (solver : Solver σ ℝ)
    {n k : ℕ} (hk : k + n = seg.bound) {t : Trial ℝ} (h : seg.Slowed k t.target)
    (last : Option (Attempts Bool)) (s : σ) {log : List (Exchange ℝ)} (hlog : seg.Asked k log) :
    ∃ answer s' log', ((retryFrom (fun _ => derateOnce solver.logged seg.limits
        seg.settings.deratingFactor seg.settings.speedFloor seg.current seg.duration) pure n k
        last).run t).run.run ⟨s, log⟩ = (answer, ⟨s', log'⟩)
      ∧ ((∃ f, answer = .error (.fault f)) ∨ (∃ r, answer = .ok r) ∧ seg.Settled log') := by
  induction n generalizing k t last s log with
  | zero =>
    refine ⟨_, s, log, rfl, .inr ⟨⟨_, rfl⟩, ?_⟩⟩
    have hpos : 0 < seg.bound :=
      deratingBound_pos hsettings.floor_pos hfast hsettings.factor_pos hsettings.factor_lt_one
    obtain ⟨e, he, hslowed⟩ := hlog.resolve_left (by omega)
    refine ⟨e, he, .inl ?_⟩
    rw [hslowed.norm hsettings.factor_pos]
    exact (deratingBound_le_iff hsettings.floor_pos hfast hsettings.factor_pos
      hsettings.factor_lt_one).mp hk.ge
  | succ n ih =>
    rw [retryFrom, StateT.run_bind]
    rcases derateOnce_slows haligned h solver s log with
      ⟨f, l, hrun⟩ | ⟨done, e, t', s', hrun, hslowed, he, hdone⟩
    · exact ⟨_, l.inner, l.exchanges, run_bind_error hrun, .inl ⟨f, rfl⟩⟩
    · rw [run_bind_ok hrun]
      simp only [pure_bind]
      have hends : (log ++ [e]).getLast? = some e := List.getLast?_concat
      cases done with
      | true => exact ⟨_, s', _, rfl, .inr ⟨⟨_, rfl⟩, e, hends, hdone rfl⟩⟩
      | false => exact ih (by omega) hslowed _ s' (.inr ⟨e, hends, he ▸ hslowed⟩)

/-- So does the whole de-rating. -/
theorem slowDown_settles (hsettings : Derates seg.settings)
    (hfast : seg.settings.speedFloor < State.norm seg.target.velocity) (solver : Solver σ ℝ)
    (first : Reply ℝ) (s : σ) :
    ∃ answer s' log, (seg.slowDown solver.logged first).run.run ⟨s, []⟩ = (answer, ⟨s', log⟩)
      ∧ ((∃ f, answer = .error (.fault f)) ∨ seg.Settled log) := by
  obtain ⟨answer, s', log, hrun, hanswer⟩ := retryFrom_settles haligned hsettings hfast solver
    (Nat.zero_add _) (t := ⟨seg.target, first, false, none⟩) (.start seg) none s (.inl rfl)
  rcases hanswer with ⟨f, rfl⟩ | ⟨⟨⟨attempts, trial⟩, rfl⟩, hsettled⟩
  · exact ⟨_, s', log, run_bind_error hrun, .inl ⟨f, rfl⟩⟩
  · refine ⟨_, s', log, (run_bind_ok hrun).trans (Prod.ext rfl ?_), .inr hsettled⟩
    dsimp only
    split <;> rfl

omit haligned

/-- A solver that answers every target with one entry per joint leads to no fault. -/
theorem slowDown_faultless {n : ℕ} {solver : Solver σ ℝ} (hsolver : seg.AnsweredBy n solver)
    (htarget : seg.target.checkJointCount n = .ok ()) {first : Reply ℝ}
    (hfirst : first.state.checkJointCount n = .ok ()) (s : σ) {f : Fault} :
    ((seg.slowDown solver first).run.run s).1 ≠ .error (.fault f) := by
  let start : Exchange ℝ := ⟨seg.request, .ok first⟩
  obtain ⟨es, attempts, t, s', hrun, -⟩ := retry_descends hsolver htarget hfirst start s
  have htracks := logged_slowDown_tracks solver seg first (s := ⟨s, [start]⟩) rfl
  have hderate : (seg.slowDown solver.logged first).run.run ⟨s, [start]⟩ = _ := run_bind_ok hrun
  rw [← htracks.answer, hderate]
  dsimp only
  split <;> exact nofun

/-! ## The bound and the loop -/

/-- **The bound on de-rating is exact**: it is the least number of steps that bring a speed down to
the floor. So whatever the solver answers, no de-rating stops because its steps are spent: unless
there is a fault, its last request was accepted without a lag, or asked for a speed at the floor.
There is no fault if the solver answers with one entry per joint. Velocities of the target beyond
its positions belong to no joint and would not be scaled. -/
theorem derating_exact {start floor factor : ℝ} (hfloor : 0 < floor) (hstart : floor < start)
    (h0 : 0 < factor) (h1 : factor < 1) :
    IsLeast {n : ℕ | start * factor ^ n ≤ floor} (deratingBound start floor factor)
      ∧ floor < start * factor ^ (deratingBound start floor factor - 1)
      ∧ ∀ {σ : Type} (solver : Solver σ ℝ) (seg : Segment ℝ) (first : Reply ℝ) (s : σ),
        seg.settings.deratingFactor = factor → seg.settings.speedFloor = floor →
        State.norm seg.target.velocity = start →
        seg.target.velocity.length ≤ seg.target.position.length →
        ∃ answer s' log,
          (seg.slowDown solver first).run.run s = (answer, s')
          ∧ (seg.slowDown solver.logged first).run.run ⟨s, []⟩ = (answer, ⟨s', log⟩)
          ∧ ((∃ f, answer = .error (.fault f)) ∨ seg.Settled log)
          ∧ ∀ n, seg.target.checkJointCount n = .ok () → first.state.checkJointCount n = .ok () →
            seg.AnsweredBy n solver → seg.Settled log := by
  have hiff : ∀ n, deratingBound start floor factor ≤ n ↔ start * factor ^ n ≤ floor :=
    fun n => deratingBound_le_iff hfloor hstart h0 h1
  have hpos := deratingBound_pos hfloor hstart h0 h1
  refine ⟨⟨(hiff _).mp le_rfl, fun n hn => (hiff n).mpr hn⟩,
    lt_of_not_ge fun hle => absurd ((hiff _).mpr hle) (by omega), ?_⟩
  rintro σ solver seg first s rfl rfl rfl haligned
  obtain ⟨answer, s', log, hrun, hends⟩ :=
    slowDown_settles haligned ⟨h0, h1, hfloor⟩ hstart solver first s
  have htracks := logged_slowDown_tracks solver seg first (s := ⟨s, []⟩) rfl
  rw [hrun] at htracks
  refine ⟨answer, s', log, Prod.ext htracks.answer.symm htracks.related.symm, hrun, hends, ?_⟩
  intro n htarget hfirst hsolver
  refine hends.resolve_left fun ⟨f, hf⟩ => ?_
  exact slowDown_faultless hsolver htarget hfirst s (htracks.answer.symm.trans hf)

/-- From a speed of 1 it takes 44 steps by nine tenths to get to the floor of the sprint, and the
de-rating of the sprint does not stop before the matter is settled. -/
theorem derating_exact_sprint : (0 : ℝ) < 0.01 ∧ (0.01 : ℝ) < 1 ∧ (0 : ℝ) < 0.9 ∧ (0.9 : ℝ) < 1
    ∧ deratingBound (1 : ℝ) 0.01 0.9 = 44
    ∧ ∃ answer s' log,
      (sprint.slowDown wavering ⟨.working, sprint.current, 1⟩).run.run 1 = (answer, s')
      ∧ (sprint.slowDown wavering.logged ⟨.working, sprint.current, 1⟩).run.run ⟨1, []⟩
        = (answer, ⟨s', log⟩)
      ∧ sprint.Settled log := by
  have hfloor : (0 : ℝ) < 0.01 := by norm_num
  have hstart : (0.01 : ℝ) < 1 := by norm_num
  have h0 : (0 : ℝ) < 0.9 := by norm_num
  have h1 : (0.9 : ℝ) < 1 := by norm_num
  obtain ⟨⟨hreached, hleast⟩, -, hloop⟩ := derating_exact hfloor hstart h0 h1
  refine ⟨hfloor, hstart, h0, h1, le_antisymm (hleast ?_) ?_, ?_⟩
  · change (1 : ℝ) * 0.9 ^ 44 ≤ 0.01
    norm_num
  · by_contra! hfewer
    have hmore : (0.9 : ℝ) ^ 43 ≤ 0.9 ^ deratingBound (1 : ℝ) 0.01 0.9 :=
      pow_le_pow_of_le_one h0.le h1.le (by omega)
    have habove : (0.01 : ℝ) < 0.9 ^ 43 := by norm_num
    change (1 : ℝ) * 0.9 ^ deratingBound (1 : ℝ) 0.01 0.9 ≤ 0.01 at hreached
    linarith
  · obtain ⟨answer, s', log, hrun, hlogged, -, hsettled⟩ :=
      hloop wavering sprint ⟨.working, sprint.current, 1⟩ 1 rfl rfl norm_sprint le_rfl
    exact ⟨answer, s', log, hrun, hlogged, hsettled 1 rfl rfl answeredBy_wavering⟩

end Segment

end JerkLimit

import Mathlib
import JerkLimit.Proofs.Untouched

/-!
# Proofs/History — what the attempts of a run have been through

A solver may remember what it was asked, so what an attempt does depends on the attempts before it.
`Chain.Corrected` follows one attempt segment by segment, with the state of the solver going along,
and `Chain.Failed` follows the attempts that did not succeed. Whatever the caller answers to its
polls, a run that ends with the result of an attempt has such a history
(`Chain.attempts_history`), and what it leaves if it succeeds is the last attempt and nothing else
(`Chain.history_of_ok`).
-/

namespace JerkLimit.Chain

open Scalar Correction

variable {σ K : Type} [Scalar K] {solver : Solver σ K} {limits : Limits K}
  {settings : ChainSettings K} {keepGoing : KeepGoing} {seed : Trajectory K} {n : ℕ}

/-! ## One attempt -/

/-- The waypoints after `current` are corrected in order, each from the state that was written to
the one before, up to the first segment that the solver rejects. The solver gets from the first
state to the last. -/
inductive Corrected (solver : Solver σ K) (limits : Limits K) (settings : ChainSettings K) :
    σ → State K → List (Waypoint K) → List (Correction K) → σ → Prop where
  | nil {s : σ} {current : State K} : Corrected solver limits settings s current [] [] s
  | rejected {s s' : σ} {current : State K} {w : Waypoint K} {ws : List (Waypoint K)}
      {e : SolverError K}
      (h : (segment solver limits settings current w.state w.duration).run.run s
        = (.error (.error e), s')) :
      Corrected solver limits settings s current (w :: ws) [] s'
  | cons {s s₁ s' : σ} {current : State K} {w : Waypoint K} {ws : List (Waypoint K)}
      {c : Correction K} {cs : List (Correction K)}
      (h : (segment solver limits settings current w.state w.duration).run.run s = (.ok c, s₁))
      (hrest : Corrected solver limits settings s₁ c.state ws cs s') :
      Corrected solver limits settings s current (w :: ws) (c :: cs) s'

theorem Corrected.length_le {s s' : σ} {current : State K} {ws : List (Waypoint K)}
    {cs : List (Correction K)} (h : Corrected solver limits settings s current ws cs s') :
    cs.length ≤ ws.length := by
  induction h with
  | nil => exact le_rfl
  | rejected => exact Nat.zero_le _
  | cons _ _ ih => exact Nat.succ_le_succ ih

/-- **What a pass reports** is what has become of its segments. -/
theorem corrected_of_correctAfter {status : Option Status} {current : State K}
    {ws : List (Waypoint K)} {p : Pass K} {s s' : Polled σ}
    (h : (correctAfter solver limits settings keepGoing n status current ws).run.run s
      = (.ok p, s')) :
    ∃ cs, Corrected solver limits settings s.inner current ws cs s'.inner
      ∧ p = passOf status cs ws := by
  induction ws generalizing status current p s with
  | nil =>
    obtain ⟨rfl, rfl⟩ := run_pure_eq_ok.mp h
    exact ⟨[], .nil, rfl⟩
  | cons w ws ih =>
    obtain ⟨⟨⟩, s₁, hpoll, h⟩ := run_bind_eq_ok.mp h
    obtain rfl : _ = s₁ := (Prod.mk.inj ((check_run_eq s).symm.trans hpoll)).2
    obtain ⟨corrected, s₂, hinside, h⟩ := run_bind_eq_ok.mp h
    obtain ⟨hsegment, -⟩ := run_of_inside hinside
    cases corrected with
    | error e =>
      obtain ⟨rfl, rfl⟩ := run_pure_eq_ok.mp h
      exact ⟨[], .rejected hsegment, rfl⟩
    | ok c =>
      obtain ⟨⟨⟩, s₃, hshape, h⟩ := run_bind_eq_ok.mp h
      obtain rfl : s₂ = s₃ := (Prod.mk.inj hshape).2
      obtain ⟨rest, s₄, hrest, h⟩ := run_bind_eq_ok.mp h
      obtain ⟨rfl, rfl⟩ := run_pure_eq_ok.mp h
      obtain ⟨cs, hcs, rfl⟩ := ih hrest
      exact ⟨c :: cs, .cons hsegment hcs, (passOf_cons status c cs w ws).symm⟩

/-- Attempt `k` takes the solver from `s` to `s'` and makes the corrections `cs`. -/
def Attempted (solver : Solver σ K) (limits : Limits K) (settings : ChainSettings K)
    (seed : Trajectory K) (k : ℕ) (s : σ) (cs : List (Correction K)) (s' : σ) : Prop :=
  ∃ first rest, stretched settings seed k = first :: rest
    ∧ Corrected solver limits settings s first.state rest cs s'

theorem attempted_of_attempt {k : ℕ} {r : K × Pass K} {s s' : Polled σ}
    (h : (attempt solver limits settings keepGoing seed k).run.run s = (.ok r, s')) :
    ∃ cs, Attempted solver limits settings seed k s.inner cs s'.inner
      ∧ r = (attemptScale settings k, passReport cs (stretched settings seed k)) := by
  obtain ⟨⟨⟩, s₁, hpoll, h⟩ := run_bind_eq_ok.mp h
  obtain rfl : _ = s₁ := (Prod.mk.inj ((check_run_eq s).symm.trans hpoll)).2
  obtain ⟨p, s₂, hpass, h⟩ := run_bind_eq_ok.mp h
  obtain ⟨rfl, rfl⟩ := run_pure_eq_ok.mp h
  rw [← stretched_eq] at hpass
  cases hcopy : stretched settings seed k with
  | nil =>
    rw [hcopy] at hpass
    exact nomatch (Prod.mk.inj hpass).1
  | cons first rest =>
    rw [hcopy] at hpass
    obtain ⟨after, s₃, hafter, hpass⟩ := run_bind_eq_ok.mp hpass
    obtain ⟨rfl, rfl⟩ := run_pure_eq_ok.mp hpass
    obtain ⟨cs, hcs, rfl⟩ := corrected_of_correctAfter hafter
    exact ⟨cs, ⟨first, rest, hcopy, hcs⟩, rfl⟩

/-! ## All attempts -/

/-- The first `k` attempts all fail and take the solver from `s` to the given state. -/
inductive Failed (solver : Solver σ K) (limits : Limits K) (settings : ChainSettings K)
    (seed : Trajectory K) (s : σ) : ℕ → σ → Prop where
  | zero : Failed solver limits settings seed s 0 s
  | succ {k : ℕ} {s₁ s₂ : σ} {cs : List (Correction K)}
      (h : Failed solver limits settings seed s k s₁)
      (hattempt : Attempted solver limits settings seed k s₁ cs s₂)
      (hfailed : ¬Finished cs (stretched settings seed k)) :
      Failed solver limits settings seed s (k + 1) s₂

/-- Attempt `k` makes the corrections `cs`, after `k` attempts that failed. -/
def Reached (solver : Solver σ K) (limits : Limits K) (settings : ChainSettings K)
    (seed : Trajectory K) (s : σ) (k : ℕ) (cs : List (Correction K)) : Prop :=
  ∃ s₁ s₂, Failed solver limits settings seed s k s₁
    ∧ Attempted solver limits settings seed k s₁ cs s₂

theorem Attempted.stretched_ne_nil {k : ℕ} {cs : List (Correction K)} {s s' : σ}
    (h : Attempted solver limits settings seed k s cs s') : stretched settings seed k ≠ [] := by
  obtain ⟨first, rest, hcopy, -⟩ := h
  exact hcopy ▸ List.cons_ne_nil first rest

theorem Reached.stretched_ne_nil {k : ℕ} {cs : List (Correction K)} {s : σ}
    (h : Reached solver limits settings seed s k cs) : stretched settings seed k ≠ [] := by
  obtain ⟨s₁, s₂, -, hattempted⟩ := h
  exact hattempted.stretched_ne_nil

/-- How attempts, of which `max` are allowed, came to the one that they ended with: it is number `k`
and makes the corrections `cs`. -/
structure History (solver : Solver σ K) (limits : Limits K) (settings : ChainSettings K)
    (seed : Trajectory K) (s : σ) (max : ℕ) (a : Attempts (K × Pass K)) (k : ℕ)
    (cs : List (Correction K)) : Prop where
  reached : Reached solver limits settings seed s k cs
  lt : k < max
  value : a.value = (attemptScale settings k, passReport cs (stretched settings seed k))
  count : a.count = k + 1
  accepted : a.accepted = true ↔ Finished cs (stretched settings seed k)
  spent : a.accepted = false → k + 1 = max

/-- The history of attempts that go on after `k` failed ones. -/
theorem retryFrom_history {m k : ℕ} {last : Option (Attempts (K × Pass K))} {s₀ : σ}
    {s s' : Polled σ} {a : Attempts (K × Pass K)}
    (hfailed : Failed solver limits settings seed s₀ k s.inner)
    (h : (retryFrom (attempt solver limits settings keepGoing seed)
      (fun r => pure (Pass.succeeded r.2)) m k last).run.run s = (.ok (some a), s')) :
    (m = 0 ∧ last = some a) ∨
      ∃ j cs, History solver limits settings seed s₀ (k + m) a j cs := by
  induction m generalizing k last s with
  | zero => exact .inl ⟨rfl, (run_pure_eq_ok.mp h).1⟩
  | succ m ih =>
    obtain ⟨r, s₁, hattempt, -⟩ := run_bind_eq_ok.mp h
    obtain ⟨cs, hcs, rfl⟩ := attempted_of_attempt hattempt
    have hsucceeded := succeeded_iff cs _ hcs.stretched_ne_nil
    have hreached : Reached solver limits settings seed s₀ k cs := ⟨_, _, hfailed, hcs⟩
    have hlt : k < k + (m + 1) := by omega
    right
    cases hok : Pass.succeeded (passReport cs (stretched settings seed k)) with
    | true =>
      obtain ⟨ha, rfl⟩ := Prod.mk.inj ((retryFrom_of_accepted hattempt hok).symm.trans h)
      obtain rfl := Option.some.inj (Except.ok.inj ha)
      exact ⟨k, cs, hreached, hlt, rfl, rfl, iff_of_true rfl (hsucceeded.mp hok), nofun⟩
    | false =>
      have hnot : ¬Finished cs (stretched settings seed k) :=
        fun hfinished => Bool.eq_false_iff.mp hok (hsucceeded.mpr hfinished)
      rcases ih (hfailed.succ hcs hnot) ((retryFrom_of_rejected hattempt hok).symm.trans h) with
        ⟨rfl, ha⟩ | ⟨j, cs', hhistory⟩
      · obtain rfl := Option.some.inj ha
        exact ⟨k, cs, hreached, hlt, rfl, rfl, iff_of_false Bool.false_ne_true hnot, fun _ => rfl⟩
      · exact ⟨j, cs', Nat.add_right_comm k 1 m ▸ hhistory⟩

/-- **Attempts and their history.** -/
theorem attempts_history {a : Attempts (K × Pass K)} {s s' : Polled σ}
    (h : (attempts solver limits settings keepGoing seed).run.run s = (.ok (some a), s')) :
    ∃ k cs, History solver limits settings seed s.inner settings.maxAttempts a k cs := by
  rcases retryFrom_history .zero h with ⟨-, hlast⟩ | ⟨k, cs, hhistory⟩
  · exact nomatch hlast
  · exact ⟨k, cs, zero_add settings.maxAttempts ▸ hhistory⟩

/-! ## What an attempt leaves -/

section Waypoints

omit [Scalar K]

theorem durations_written (cs : List (Correction K)) (ws : List (Waypoint K)) :
    (written cs ws).map Waypoint.duration = ws.map Waypoint.duration := by
  induction cs generalizing ws with
  | nil => rfl
  | cons c cs ih =>
    cases ws with
    | nil => rfl
    | cons w ws => exact congrArg (w.duration :: ·) (ih ws)

theorem states_written {cs : List (Correction K)} {ws : List (Waypoint K)}
    (h : cs.length ≤ ws.length) : (written cs ws).map Waypoint.state
      = cs.map Correction.state ++ (ws.map Waypoint.state).drop cs.length := by
  induction cs generalizing ws with
  | nil => rfl
  | cons c cs ih =>
    cases ws with
    | nil => exact absurd h (Nat.not_succ_le_zero _)
    | cons w ws => exact congrArg (c.state :: ·) (ih (Nat.le_of_succ_le_succ h))

theorem head?_rewritten (cs : List (Correction K)) (ws : List (Waypoint K)) :
    (rewritten cs ws).head? = ws.head? := by
  cases ws <;> rfl

theorem durations_rewritten (cs : List (Correction K)) (ws : List (Waypoint K)) :
    (rewritten cs ws).map Waypoint.duration = ws.map Waypoint.duration := by
  cases ws with
  | nil => rfl
  | cons w ws => exact congrArg (w.duration :: ·) (durations_written cs ws)

/-- The first waypoint keeps its state, those after it have the states of the corrections, as far
as there are any. -/
theorem states_rewritten {cs : List (Correction K)} {ws : List (Waypoint K)}
    (h : cs.length < ws.length) : (rewritten cs ws).map Waypoint.state
      = (ws.map Waypoint.state).take 1 ++ cs.map Correction.state
        ++ (ws.map Waypoint.state).drop (cs.length + 1) := by
  cases ws with
  | nil => exact absurd h (Nat.not_lt_zero _)
  | cons w ws => exact congrArg (w.state :: ·) (states_written (Nat.le_of_lt_succ h))

end Waypoints

theorem head?_stretched (settings : ChainSettings K) (seed : Trajectory K) (k : ℕ) :
    (stretched settings seed k).head? = seed.waypoints.head? := by
  rw [stretched]
  cases seed.waypoints <;> rfl

theorem states_stretched (settings : ChainSettings K) (seed : Trajectory K) (k : ℕ) :
    (stretched settings seed k).map Waypoint.state = seed.waypoints.map Waypoint.state := by
  rw [stretched]
  cases seed.waypoints with
  | nil => rfl
  | cons w ws => exact congrArg (w.state :: ·) (List.map_map ..)

theorem durations_stretched (settings : ChainSettings K) (seed : Trajectory K) (k : ℕ) :
    ((stretched settings seed k).map Waypoint.duration).tail
      = (seed.waypoints.map Waypoint.duration).tail.map (· * attemptScale settings k) := by
  rw [stretched]
  cases seed.waypoints with
  | nil => rfl
  | cons w ws => simp [Function.comp_def]

theorem Attempted.length_lt {k : ℕ} {cs : List (Correction K)} {s s' : σ}
    (h : Attempted solver limits settings seed k s cs s') : cs.length < seed.waypointCount := by
  obtain ⟨first, rest, hcopy, hcorrected⟩ := h
  have hlength := congrArg List.length hcopy
  rw [length_stretched] at hlength
  exact hcorrected.length_le.trans_lt ((Nat.lt_succ_self _).trans_eq hlength.symm)

theorem Reached.length_lt {k : ℕ} {cs : List (Correction K)} {s : σ}
    (h : Reached solver limits settings seed s k cs) : cs.length < seed.waypointCount := by
  obtain ⟨s₁, s₂, -, hattempted⟩ := h
  exact hattempted.length_lt

/-! ## A whole run -/

theorem conclude_eq_ok {t' : Trajectory K} {report : Report K}
    {r : Except (Stop (SmoothingError K)) (Option (Attempts (K × Pass K)))}
    (h : conclude seed r = (t', .ok report)) :
    ∃ a, r = .ok (some a) ∧ a.accepted = true
      ∧ conclude seed (.ok (some ⟨a.value, true, a.count⟩)) = (t', .ok report) := by
  match r with
  | .error e => exact nomatch (Prod.mk.inj h).2
  | .ok none => exact nomatch (Prod.mk.inj h).2
  | .ok (some ⟨value, false, count⟩) => exact nomatch (Prod.mk.inj h).2
  | .ok (some ⟨value, true, count⟩) => exact ⟨_, rfl, rfl, h⟩

/-- **What a run that ends well leaves** is its last attempt, whatever the solver remembers and the
caller answers. -/
theorem history_of_ok {fallbacks : Fallbacks K} {v a : K} {t t' : Trajectory K}
    {report : Report K} {s s' : Polled σ}
    (h : (smoothWith solver settings fallbacks keepGoing v a t).run s
      = ((t', .ok report), s')) :
    ∃ limits k cs, checkInput fallbacks (solver.jointCount s.inner) v a t = .ok limits
      ∧ Reached solver limits settings t.unwind.1 s.inner k cs ∧ k < settings.maxAttempts
      ∧ Finished cs (stretched settings t.unwind.1 k)
      ∧ t' = ⟨t.group, t.joints, rewritten cs (stretched settings t.unwind.1 k)⟩
      ∧ report = {
          attempts := k + 1
          durationScale := attemptScale settings k
          finalStatus := some .finished
          seamFailures := []
          waypointCount := t.waypointCount
          deratedSegments := cs.countP fun c => 0 < c.deratings
          collapsedSegments := cs.countP fun c => c.collapsed } := by
  cases hinput : checkInput fallbacks (solver.jointCount s.inner) v a t with
  | error e =>
    rw [smoothWith_eq_of_invalid hinput] at h
    exact nomatch (Prod.mk.inj (Prod.mk.inj h).1).2
  | ok limits =>
    obtain ⟨hunwind, hjoints, hlength, -, -, -⟩ := prepared_of_checkInput hinput
    rw [smoothWith_eq settings keepGoing hinput hunwind] at h
    obtain ⟨a, ha, haccepted, hresult⟩ := conclude_eq_ok (Prod.mk.inj h).1
    obtain ⟨k, cs, hhistory⟩ := attempts_history (Prod.ext ha rfl)
    have hfinished := hhistory.accepted.mp haccepted
    have hstatus : (passReport cs (stretched settings t.unwind.1 k)).status = some .finished :=
      of_decide_eq_true ((succeeded_iff _ _ hhistory.reached.stretched_ne_nil).mpr hfinished)
    have hcount : (passReport cs (stretched settings t.unwind.1 k)).waypoints.length
        = t.waypointCount :=
      (length_rewritten _ _).trans ((length_stretched _ _ _).trans hlength)
    rw [hhistory.value, hhistory.count, conclude_accepted, hstatus, hcount] at hresult
    obtain ⟨rfl, hreport⟩ := Prod.mk.inj hresult
    exact ⟨limits, k, cs, rfl, hhistory.reached, hhistory.lt, hfinished, rfl,
      (Except.ok.inj hreport).symm⟩

end JerkLimit.Chain

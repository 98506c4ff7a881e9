import Mathlib
import JerkLimit.Proofs.History

/-!
# Proofs/Interrupted — a run that is cancelled or gives up

The caller is polled before every attempt and every segment. A run `Heeds` its caller: it goes on as
long as the answer is yes and stops at the first no, without asking again. `Chain.Leaves` lists the
errors that a smoothing run may end with, each with what is left of the trajectory: a cancelled run
rolls back to the unwound input, one that gives up leaves its last attempt, corrected as far as it
got. That there is no other error is `Chain.smoothWith_leaves`.
-/

namespace JerkLimit.Chain

open Scalar Correction

variable {σ K : Type}

/-! ## Polls -/

/-- The polls from number `m` up to `n` are all answered yes. -/
def Agreed (keepGoing : KeepGoing) (m n : ℕ) : Prop :=
  m ≤ n ∧ ∀ i, m ≤ i → i < n → keepGoing i = true

/-- Of the polls from number `m` up to `n`, the last one is the first that is answered no. -/
def Refused (keepGoing : KeepGoing) (m n : ℕ) : Prop :=
  ∃ i, Agreed keepGoing m i ∧ keepGoing i = false ∧ n = i + 1

theorem Agreed.refl (keepGoing : KeepGoing) (n : ℕ) : Agreed keepGoing n n :=
  ⟨le_rfl, fun _ hle hlt => absurd hle hlt.not_ge⟩

theorem Agreed.trans {keepGoing : KeepGoing} {l m n : ℕ} (h : Agreed keepGoing l m)
    (h' : Agreed keepGoing m n) : Agreed keepGoing l n := by
  refine ⟨h.1.trans h'.1, fun i hle hlt => ?_⟩
  rcases lt_or_ge i m with him | him
  · exact h.2 i hle him
  · exact h'.2 i him hlt

theorem Agreed.refused {keepGoing : KeepGoing} {l m n : ℕ} (h : Agreed keepGoing l m)
    (h' : Refused keepGoing m n) : Refused keepGoing l n := by
  obtain ⟨i, hagreed, hno, hn⟩ := h'
  exact ⟨i, h.trans hagreed, hno, hn⟩

/-- A run that goes on as long as the caller agrees, and is cancelled as soon as it does not. -/
structure Heeds {α : Type} (keepGoing : KeepGoing) (x : Run (Polled σ) (SmoothingError K) α) :
    Prop where
  agreed {s s' : Polled σ} {answer : Except (Stop (SmoothingError K)) α} :
    x.run.run s = (answer, s') → answer ≠ .error (.error .cancelled) →
      Agreed keepGoing s.polls s'.polls
  refused {s s' : Polled σ} :
    x.run.run s = (.error (.error .cancelled), s') → Refused keepGoing s.polls s'.polls

namespace Heeds

variable {α β : Type} {keepGoing : KeepGoing} {x : Run (Polled σ) (SmoothingError K) α}

theorem of_result {r : Except (Stop (SmoothingError K)) α} (h : r ≠ .error (.error .cancelled)) :
    Heeds keepGoing (ExceptT.mk (pure r) : Run (Polled σ) (SmoothingError K) α) where
  agreed hr _ := by
    obtain ⟨-, rfl⟩ := Prod.mk.inj hr
    exact .refl ..
  refused hr := absurd (Prod.mk.inj hr).1 h

theorem pure (a : α) : Heeds keepGoing (Pure.pure a : Run (Polled σ) (SmoothingError K) α) :=
  of_result (r := .ok a) nofun

theorem bind {f : α → Run (Polled σ) (SmoothingError K) β} (hx : Heeds keepGoing x)
    (hf : ∀ a, Heeds keepGoing (f a)) : Heeds keepGoing (x >>= f) where
  agreed {s s' answer} h hne := by
    obtain ⟨first, s₁, hfirst⟩ : ∃ first s₁, x.run.run s = (first, s₁) := ⟨_, _, rfl⟩
    cases first with
    | ok a =>
      rw [run_bind_ok hfirst] at h
      exact (hx.agreed hfirst nofun).trans ((hf a).agreed h hne)
    | error e =>
      obtain ⟨rfl, rfl⟩ := Prod.mk.inj ((run_bind_error hfirst).symm.trans h)
      exact hx.agreed hfirst fun he => hne (congrArg Except.error (Except.error.inj he))
  refused {s s'} h := by
    obtain ⟨first, s₁, hfirst⟩ : ∃ first s₁, x.run.run s = (first, s₁) := ⟨_, _, rfl⟩
    cases first with
    | ok a =>
      rw [run_bind_ok hfirst] at h
      exact (hx.agreed hfirst nofun).refused ((hf a).refused h)
    | error e =>
      obtain ⟨he, rfl⟩ := Prod.mk.inj ((run_bind_error hfirst).symm.trans h)
      obtain rfl := Except.error.inj he
      exact hx.refused hfirst

/-- A poll is where a run may be cancelled. -/
theorem check (keepGoing : KeepGoing) :
    Heeds keepGoing (Polled.check keepGoing : Run (Polled σ) (SmoothingError K) Unit) where
  agreed {s s' answer} h hne := by
    obtain ⟨hanswer, rfl⟩ := Prod.mk.inj ((check_run_eq s).symm.trans h)
    refine ⟨Nat.le_succ _, fun i hle hlt => ?_⟩
    obtain rfl : i = s.polls := le_antisymm (Nat.le_of_lt_succ hlt) hle
    by_contra hno
    exact hne (hanswer.symm.trans (if_neg hno))
  refused {s s'} h := by
    obtain ⟨hanswer, rfl⟩ := Prod.mk.inj ((check_run_eq s).symm.trans h)
    refine ⟨s.polls, .refl .., Bool.eq_false_iff.mpr fun hyes => ?_, rfl⟩
    rw [if_pos hyes] at hanswer
    exact nomatch hanswer

/-- The solver does not poll. -/
theorem inside {ε : Type} (x : Run σ ε α) :
    Heeds keepGoing (Polled.inside x : Run (Polled σ) (SmoothingError K) (Except ε α)) := by
  have hkept (s : Polled σ) :
      ((Polled.inside x : Run (Polled σ) (SmoothingError K) (Except ε α)).run.run s).2.polls
          = s.polls
        ∧ ((Polled.inside x : Run (Polled σ) (SmoothingError K) (Except ε α)).run.run s).1
          ≠ .error (.error .cancelled) := by
    obtain ⟨answer, s₁, hs₁⟩ : ∃ answer s₁, x.run.run s.inner = (answer, s₁) := ⟨_, _, rfl⟩
    match answer with
    | .ok a => rw [inside_run_ok hs₁]; exact ⟨rfl, nofun⟩
    | .error (.error e) => rw [inside_run_error hs₁]; exact ⟨rfl, nofun⟩
    | .error (.fault f) => rw [inside_run_fault hs₁]; exact ⟨rfl, nofun⟩
  constructor
  · intro s s' answer h _
    have hpolls := (hkept s).1
    rw [h] at hpolls
    exact hpolls ▸ .refl ..
  · intro s s' h
    exact absurd (congrArg Prod.fst h) (hkept s).2

theorem retryFrom {attempt : ℕ → Run (Polled σ) (SmoothingError K) α} {ok : α → Bool}
    (h : ∀ i, Heeds keepGoing (attempt i)) (n i : ℕ) (last : Option (Attempts α)) :
    Heeds keepGoing (JerkLimit.retryFrom attempt (fun a => Pure.pure (ok a)) n i last) := by
  induction n generalizing i last with
  | zero => exact .pure _
  | succ n ih =>
    refine (h i).bind fun a => (Heeds.pure (ok a)).bind fun accepted => ?_
    cases accepted with
    | true => exact .pure _
    | false => exact ih (i + 1) _

end Heeds

variable [Scalar K] {solver : Solver σ K} {limits : Limits K} {settings : ChainSettings K}
  {keepGoing : KeepGoing} {n : ℕ}

theorem correctAfter_heeds (status : Option Status) (current : State K) (ws : List (Waypoint K)) :
    Heeds keepGoing (correctAfter solver limits settings keepGoing n status current ws) := by
  induction ws generalizing status current with
  | nil => exact .pure _
  | cons w ws ih =>
    refine (Heeds.check keepGoing).bind fun _ => (Heeds.inside _).bind fun corrected => ?_
    cases corrected with
    | error e => exact .pure _
    | ok c =>
      refine (Heeds.of_result ?_).bind fun _ => (ih _ _).bind fun _ => .pure _
      cases c.state.checkJointCount n <;> exact nofun

theorem attempt_heeds (seed : Trajectory K) (k : ℕ) :
    Heeds keepGoing (attempt solver limits settings keepGoing seed k) := by
  refine (Heeds.check keepGoing).bind fun _ => Heeds.bind ?_ fun _ => .pure _
  cases Trajectory.scaleDurations (attemptScale settings k) seed.waypoints with
  | nil => exact .of_result nofun
  | cons w ws => exact (correctAfter_heeds none w.state ws).bind fun _ => .pure _

/-- **Attempts heed the caller.** -/
theorem attempts_heeds (seed : Trajectory K) :
    Heeds keepGoing (attempts solver limits settings keepGoing seed) :=
  .retryFrom (attempt_heeds seed) _ _ _

/-! ## What a run leaves -/

omit [Scalar K] in
theorem status_passReport_eq_none_iff {cs : List (Correction K)} {ws : List (Waypoint K)}
    (hcs : cs.length < ws.length) (hws : 2 ≤ ws.length) :
    (passReport cs ws).status = none ↔ cs.length + 1 < ws.length := by
  change lastStatus none cs ws.tail = none ↔ _
  rw [lastStatus, List.length_tail, Option.or_none]
  split_ifs with hlength
  · have hne : cs.map Correction.status ≠ [] := by
      rw [Ne, List.map_eq_nil_iff, ← List.length_eq_zero_iff]
      omega
    refine iff_of_false (fun hnone => hne (List.getLast?_eq_none_iff.mp hnone)) (by omega)
  · exact iff_of_true rfl (by omega)

/-- What is left of `t` by a run that gave up with `status`, when its last attempt has made the
corrections `cs`. -/
structure GivenUp (settings : ChainSettings K) (t : Trajectory K) (cs : List (Correction K))
    (status : Option Status) (t' : Trajectory K) : Prop where
  group : t'.group = t.group
  joints : t'.joints = t.joints
  head : t'.waypoints.head? = t.waypoints.head?
  /-- All later durations are stretched for the last attempt. -/
  durations : (t'.waypoints.map Waypoint.duration).tail
    = (t.waypoints.map Waypoint.duration).tail.map
      (· * attemptScale settings (settings.maxAttempts - 1))
  /-- The states are corrected as far as there are corrections. From there on they are unwound. -/
  states : t'.waypoints.map Waypoint.state = (t.unwind.1.waypoints.map Waypoint.state).take 1
    ++ cs.map Correction.state ++ (t.unwind.1.waypoints.map Waypoint.state).drop (cs.length + 1)
  status : status = none ↔ cs.length + 1 < t.waypointCount

/-- The errors that a run from `s` to `s'` may end with, each with the trajectory that it leaves
of `t`. -/
inductive Leaves (solver : Solver σ K) (settings : ChainSettings K) (fallbacks : Fallbacks K)
    (keepGoing : KeepGoing) (v a : K) (t : Trajectory K) (s s' : Polled σ) :
    Trajectory K → Stop (SmoothingError K) → Prop where
  /-- The input was not to be smoothed in the first place. -/
  | configuration {t' : Trajectory K} {e : SmoothingError K} (he : e.Configuration)
      (hpolls : Agreed keepGoing s.polls s'.polls) :
      Leaves solver settings fallbacks keepGoing v a t s s' t' (.error e)
  /-- The caller said no, and was not asked again. -/
  | cancelled (hpolls : Refused keepGoing s.polls s'.polls)
      (hdurations :
        t.unwind.1.waypoints.map Waypoint.duration = t.waypoints.map Waypoint.duration) :
      Leaves solver settings fallbacks keepGoing v a t s s' t.unwind.1 (.error .cancelled)
  /-- All attempts have failed. -/
  | infeasible {t' : Trajectory K} {limits : Limits K} {cs : List (Correction K)}
      {status : Option Status} (hpolls : Agreed keepGoing s.polls s'.polls)
      (hattempts : 0 < settings.maxAttempts)
      (hlimits : checkInput fallbacks (solver.jointCount s.inner) v a t = .ok limits)
      (hlast : Reached solver limits settings t.unwind.1 s.inner (settings.maxAttempts - 1) cs)
      (hleft : GivenUp settings t cs status t') :
      Leaves solver settings fallbacks keepGoing v a t s s' t'
        (.error (.infeasible settings.maxAttempts status))

section Run

variable {fallbacks : Fallbacks K} {v a : K} {t t' : Trajectory K} {s s' : Polled σ}
  {e : Stop (SmoothingError K)}

/-- The last attempt of a run, as it leaves the input. -/
theorem givenUp_of_reached {cs : List (Correction K)} (hprepared : Prepared t limits)
    (hcount : 2 ≤ t.waypointCount) {k : ℕ} (hk : k + 1 = settings.maxAttempts)
    (h : Reached solver limits settings t.unwind.1 s.inner k cs) :
    GivenUp settings t cs (passReport cs (stretched settings t.unwind.1 k)).status
      ⟨t.group, t.joints, rewritten cs (stretched settings t.unwind.1 k)⟩ := by
  have hmoved := Trajectory.unwind_onlyMoved t
  have hlength : (stretched settings t.unwind.1 k).length = t.waypointCount :=
    (length_stretched _ _ _).trans hprepared.waypointCount
  have hcs : cs.length < (stretched settings t.unwind.1 k).length :=
    h.length_lt.trans_eq (length_stretched _ _ _).symm
  obtain rfl : k = settings.maxAttempts - 1 := by omega
  exact {
    group := rfl
    joints := rfl
    head := by
      rw [head?_rewritten, head?_stretched, hmoved.head]
    durations := by
      rw [durations_rewritten, durations_stretched, hmoved.durations]
    states := by
      rw [states_rewritten hcs, states_stretched]
    status := by
      rw [status_passReport_eq_none_iff hcs (hlength ▸ hcount), hlength] }

/-- **What an error leaves behind**, for a solver that hands on one entry per joint: the caller has
the input back when it cancels, and the last attempt, as far as it got, when all have failed. No
error comes from the solver. -/
theorem smoothWith_leaves (hsolver : solver.Shaped t.jointCount)
    (h : (smoothWith solver settings fallbacks keepGoing v a t).run s = ((t', .error e), s')) :
    Leaves solver settings fallbacks keepGoing v a t s s' t' e := by
  cases hinput : checkInput fallbacks (solver.jointCount s.inner) v a t with
  | error e' =>
    rw [smoothWith_eq_of_invalid hinput] at h
    obtain ⟨hresult, rfl⟩ := Prod.mk.inj h
    obtain rfl := Except.error.inj (Prod.mk.inj hresult).2
    exact .configuration ((configuration_of_checkInput _).of_error hinput) (.refl ..)
  | ok limits =>
    obtain ⟨hunwind, hjoints, -, hseed, hne, hlimits⟩ := prepared_of_checkInput hinput
    rw [smoothWith_eq settings keepGoing hinput hunwind] at h
    obtain ⟨hresult, hs'⟩ := Prod.mk.inj h
    obtain ⟨r, hr⟩ : ∃ r, (attempts solver limits settings keepGoing t.unwind.1).run.run s
        = (r, s') := ⟨_, Prod.ext rfl hs'⟩
    rw [hr] at hresult
    have hheeds : Heeds keepGoing (attempts solver limits settings keepGoing t.unwind.1) :=
      attempts_heeds t.unwind.1
    match r with
    | .error e' =>
      obtain rfl : e' = _ := (attempts_ends settings keepGoing (hjoints.symm ▸ hsolver) hlimits
        hseed hne).stop hr
      obtain ⟨rfl, he⟩ := Prod.mk.inj hresult
      obtain rfl := Except.error.inj he
      exact .cancelled (hheeds.refused hr) (Trajectory.unwind_onlyMoved t).durations
    | .ok none =>
      obtain rfl := Except.error.inj (Prod.mk.inj hresult).2
      exact .configuration (.invalid ..) (hheeds.agreed hr nofun)
    | .ok (some ⟨value, true, count⟩) => exact nomatch (Prod.mk.inj hresult).2
    | .ok (some ⟨value, false, count⟩) =>
      obtain ⟨k, cs, hhistory⟩ := attempts_history hr
      have hmax : k + 1 = settings.maxAttempts := hhistory.spent rfl
      obtain rfl : value = _ := hhistory.value
      obtain rfl : count = _ := hhistory.count.trans hmax
      obtain ⟨rfl, he⟩ := Prod.mk.inj hresult
      obtain rfl := Except.error.inj he
      have hleft := givenUp_of_reached (prepared_of_checkInput hinput)
        (two_le_of_checkInput hinput) hmax hhistory.reached
      exact .infeasible (hheeds.agreed hr nofun) (hmax ▸ Nat.succ_pos k) hinput
        (hmax ▸ hhistory.reached) hleft

end Run

/-- A solver for one joint that reaches every other target and rejects the rest. It counts its
requests. -/
def alternating : Solver ℕ Float where
  jointCount _ := 1
  timeStep _ := 1
  setTimeStep _ := pure ()
  update r := do
    let n ← get
    set (n + 1)
    if n % 2 = 0 then return ⟨.finished, r.target, 1⟩
    else throw (.error (.noFeasibleProfile 0))

theorem alternating_update_run (r : Request Float) (n : ℕ) : (alternating.update r).run.run n
    = (if n % 2 = 0 then .ok ⟨.finished, r.target, 1⟩
        else .error (.error (.noFeasibleProfile 0)), n + 1) := by
  change (if n % 2 = 0 then pure (⟨.finished, r.target, 1⟩ : Reply Float)
    else throw (.error (.noFeasibleProfile 0)) : Run ℕ (SolverError Float) _).run.run (n + 1) = _
  split_ifs <;> rfl

theorem alternating_shaped (n : ℕ) : alternating.Shaped n where
  setTimeStep _ := .pure trivial
  update {r} hr :=
    { value := fun {s s' reply} h => by
        rw [alternating_update_run] at h
        split_ifs at h
        · obtain rfl := Except.ok.inj (Prod.mk.inj h).1
          exact hr.target
        · exact nomatch (Prod.mk.inj h).1
      stop := fun {s s' e} h => by
        rw [alternating_update_run] at h
        split_ifs at h
        · exact nomatch (Prod.mk.inj h).1
        · exact ⟨_, (Except.error.inj (Prod.mk.inj h).1).symm⟩ }

/-- Two hops of one joint. -/
def hops : Trajectory Float :=
  ⟨some "arm", [⟨"j0", .revolute, {}⟩],
    [⟨⟨[0], [0], [0]⟩, 0⟩, ⟨⟨[1], [0], [0]⟩, 1⟩, ⟨⟨[2], [0], [0]⟩, 1⟩]⟩

/-- The attempts and the status of a run that gave up, or that it was cancelled. -/
def interruption? : Outcome K → Option (Option (ℕ × Option Status))
  | .error (.error (.infeasible attempts status)) => some (some (attempts, status))
  | .error (.error .cancelled) => some none
  | _ => none

omit [Scalar K] in
theorem eq_infeasible {o : Outcome K} {attempts : ℕ} {status : Option Status}
    (h : interruption? o = some (some (attempts, status))) :
    o = .error (.error (.infeasible attempts status)) := by
  unfold interruption? at h
  split at h
  · obtain ⟨rfl, rfl⟩ := Prod.mk.inj (Option.some.inj (Option.some.inj h))
    rfl
  · exact nomatch Option.some.inj h
  · exact nomatch h

omit [Scalar K] in
theorem eq_cancelled {o : Outcome K} (h : interruption? o = some none) :
    o = .error (.error .cancelled) := by
  unfold interruption? at h
  split at h
  · exact nomatch Option.some.inj h
  · rfl
  · exact nomatch h

omit [Scalar K] in
theorem exists_run_of_outcome {ρ : Type} {x : StateM ρ (Trajectory K × Outcome K)} {s : ρ}
    {o : Outcome K} (h : (x.run s).1.2 = o) : ∃ t' s', x.run s = ((t', o), s') :=
  ⟨(x.run s).1.1, (x.run s).2, h ▸ rfl⟩

/-- The first hop is made in every attempt and the second one never, unless the caller cancels the
second attempt. -/
theorem hops_leaves :
    (∃ t' s', (smoothWith alternating default default patient 1 1 hops).run ⟨0, 0⟩
          = ((t', .error (.error (.infeasible 5 none))), s')
        ∧ Leaves alternating default default patient 1 1 hops ⟨0, 0⟩ s' t'
          (.error (.infeasible 5 none)))
      ∧ ∃ t' s', (smoothWith alternating default default (· != 4) 1 1 hops).run ⟨0, 0⟩
          = ((t', .error (.error .cancelled)), s')
        ∧ Leaves alternating default default (· != 4) 1 1 hops ⟨0, 0⟩ s' t'
          (.error .cancelled) := by
  have hgaveUp : interruption? ((smoothWith alternating default default patient 1 1 hops).run
      ⟨0, 0⟩).1.2 = some (some (5, none)) := by decide +kernel
  have hcancelled : interruption? ((smoothWith alternating default default (· != 4) 1 1 hops).run
      ⟨0, 0⟩).1.2 = some none := by decide +kernel
  obtain ⟨t', s', hrun⟩ := exists_run_of_outcome (eq_infeasible hgaveUp)
  obtain ⟨t'', s'', hrun'⟩ := exists_run_of_outcome (eq_cancelled hcancelled)
  exact ⟨⟨t', s', hrun, smoothWith_leaves (alternating_shaped _) hrun⟩,
    t'', s'', hrun', smoothWith_leaves (alternating_shaped _) hrun'⟩

end JerkLimit.Chain

import Mathlib
import JerkLimit.Proofs.Answer

/-!
# Proofs/Shortcut — the requested duration against the search

A requested duration that is longer than the time step and feasible for all joints is taken as it
is, without a search. The search would find the same duration, since none of the joints takes
longer, but what it does with it is not quite the same: it is finished with a duration that exceeds
the time step by no more than `finishSlack`, where the shortcut goes on.
`Planner.update_eq_search_iff` says that this is all there is to tell them apart.
-/

namespace JerkLimit.Planner

open Scalar OrderedScalar

variable {K : Type} [Scalar K] {p : Planner K} {r : Request K} {tasks : List (Task K)} {m : K}

/-- One time step of a motion that takes `d`. -/
def goOn (p : Planner K) (tasks : List (Task K)) (d : K) :
    Except (Stop (SolverError K)) (Reply K) := do
  return ⟨.working, ← (advanceAll p.timeStep tasks d).mapError .fault, d⟩

/-- Going on is not being finished, whether it works or not. -/
theorem goOn_ne_finished {s : State K} {d d' : K} : p.goOn tasks d ≠ .ok ⟨.finished, s, d'⟩ := by
  intro h
  obtain ⟨s', -, h⟩ := bind_eq_ok.mp h
  exact nomatch pure_eq_ok.mp h

section Shortcut

variable (hm : r.minimumDuration = some m)

include hm

theorem update_of_shortcut (htasks : r.tasks p.jointCount = .ok tasks) (hlt : p.timeStep < m)
    (hfeasible : allFeasible tasks m = true) : p.update r = p.goOn tasks m := by
  have hrequested : p.requested r tasks = some m := by
    rw [requested, hm]
    exact Option.filter_eq_some_iff.mpr
      ⟨rfl, Bool.and_eq_true_iff.mpr ⟨decide_eq_true_iff.mpr hlt, hfeasible⟩⟩
  rw [update, htasks]
  simp only [bind, Except.bind, hrequested]
  rfl

variable [OrderedScalar K] (h0 : 0.0 < m) (hfeasible : allFeasible tasks m = true)
  {ds : List K} (hle : ∀ d ∈ ds, d ≤ m)

include h0 hfeasible hle

/-- The requested duration is what a search agrees on if no joint takes longer. -/
theorem commonDuration_of_le : commonDuration tasks ds r.minimumDuration = some m := by
  have haim : aim (slowest ds) (some m) = m := by
    rw [aim]
    split_ifs with hlt
    · rfl
    · have hslow : m ≤ slowest ds := le_of_not_lt (number_slowest ds) (number_of_pos h0) hlt
      refine (eq_of_le_of_le h0 hslow ?_).symm
      rcases List.mem_cons.mp (maxFrom_mem 0.0 ds) with hzero | hmem
      · rw [slowest, hzero]
        exact le_of_lt h0
      · exact hle _ hmem
  rw [hm, commonDuration_eq_aim, haim, if_neg (not_le_of_lt h0)]
  exact if_pos hfeasible

theorem search_of_le (hds : minimalDurations 0 tasks = .ok ds) : p.search r tasks
    = if m ≤ p.timeStep * (1.0 + finishSlack) then .ok ⟨.finished, r.target, m⟩
      else p.goOn tasks m := by
  rw [search, hds]
  simp only [Except.mapError, bind, Except.bind, commonDuration_of_le hm h0 hfeasible hle]
  rfl

end Shortcut

variable [OrderedScalar K]

/-- A duration in the slack of the time step tells the shortcut from the search. -/
theorem update_ne_of_slack (hp : isPositive p.timeStep = true)
    (htasks : r.tasks p.jointCount = .ok tasks) (hm : r.minimumDuration = some m)
    (hlt : p.timeStep < m) (hfeasible : allFeasible tasks m = true) {ds : List K}
    (hds : minimalDurations 0 tasks = .ok ds) (hle : ∀ d ∈ ds, d ≤ m)
    (hslack : m ≤ p.timeStep * (1.0 + finishSlack)) : p.update r ≠ p.search r tasks := by
  have h0 : 0.0 < m := lt_of_lt_of_le (pos_of_isPositive hp) (le_of_lt hlt)
  rw [update_of_shortcut hm htasks hlt hfeasible, search_of_le hm h0 hfeasible hle hds,
    if_pos hslack]
  exact goOn_ne_finished

/-- **The shortcut agrees with the search** exactly if the requested duration exceeds the time step
by more than the slack. -/
theorem update_eq_search_iff (hp : isPositive p.timeStep = true)
    (htasks : r.tasks p.jointCount = .ok tasks) (hm : r.minimumDuration = some m)
    (hlt : p.timeStep < m) (hfeasible : allFeasible tasks m = true) {ds : List K}
    (hds : minimalDurations 0 tasks = .ok ds) (hle : ∀ d ∈ ds, d ≤ m) :
    p.update r = p.search r tasks ↔ ¬m ≤ p.timeStep * (1.0 + finishSlack) := by
  refine ⟨fun h hslack => update_ne_of_slack hp htasks hm hlt hfeasible hds hle hslack h, ?_⟩
  intro hslack
  have h0 : 0.0 < m := lt_of_lt_of_le (pos_of_isPositive hp) (le_of_lt hlt)
  rw [update_of_shortcut hm htasks hlt hfeasible, search_of_le hm h0 hfeasible hle hds,
    if_neg hslack]

/-! ## A motion at the speed limit -/

/-- What `cruise` asks of its joint. -/
def cruising : Task Float := ⟨⟨0, 1, 0⟩, ⟨2, 1, 0⟩, ⟨1, 10, 20⟩⟩

theorem tasks_cruise : (cruise (some 2)).tasks 1 = .ok [cruising] := rfl

theorem allFeasible_cruising : allFeasible [cruising] 2 = true := by decide +kernel

theorem minimalDurations_cruising : minimalDurations 0 [cruising] = .ok [2] := by
  have h : cruising.minimalDuration = some 2 := by decide +kernel
  rw [minimalDurations, h]
  rfl

/-- Half a second of a motion that takes two. -/
theorem update_eq_search_cruise : Planner.update ⟨1, 0.5⟩ (cruise (some 2))
    = Planner.search ⟨1, 0.5⟩ (cruise (some 2)) [cruising] :=
  (update_eq_search_iff (by decide) tasks_cruise rfl (by decide) allFeasible_cruising
    minimalDurations_cruising (List.forall_mem_singleton.mpr (by decide))).mpr (by decide)

/-- All but a nanosecond of it is another matter. -/
theorem exists_update_ne_search :
    ¬∀ (p : Planner Float) (r : Request Float) (tasks : List (Task Float)) (m : Float)
      (ds : List Float), isPositive p.timeStep = true → r.tasks p.jointCount = .ok tasks →
      r.minimumDuration = some m → p.timeStep < m → allFeasible tasks m = true →
      minimalDurations 0 tasks = .ok ds → (∀ d ∈ ds, d ≤ m) →
      p.update r = p.search r tasks := by
  intro h
  refine update_ne_of_slack (p := ⟨1, 1.999999999⟩) (by decide) tasks_cruise rfl (by decide)
    allFeasible_cruising minimalDurations_cruising (List.forall_mem_singleton.mpr (by decide))
    (by decide) ?_
  exact h ⟨1, 1.999999999⟩ (cruise (some 2)) [cruising] 2 [2] (by decide) tasks_cruise rfl
    (by decide) allFeasible_cruising minimalDurations_cruising
    (List.forall_mem_singleton.mpr (by decide))

end JerkLimit.Planner

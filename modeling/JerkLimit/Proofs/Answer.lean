import Mathlib
import JerkLimit.Proofs.Duration
import JerkLimit.Proofs.Request
import JerkLimit.Proofs.Double

/-!
# Proofs/Answer — an answer of the planner has been checked

An update ends in one of four ways, and `Planner.Exit` lists them with everything the planner knows
there. `Planner.Checked` is what a caller can rely on: a duration in an answer is a feasible one for
each joint it is meant for, or the joint has nothing to do. `Planner.checked_of_update` gets from
one to the other.

Numbers are any ordered scalars, so all of it holds for double precision as well: what a scan or a
bisection hands on has been tested itself, and no rounding comes in between.
-/

namespace JerkLimit

open Scalar OrderedScalar

variable {K : Type} [Scalar K]

/-! ## The search -/

/-- Where the search for a common duration starts. -/
def aim (slow : K) : Option K → K
  | some m => if slow < m then m else slow
  | none => slow

theorem commonDuration_eq_aim (tasks : List (Task K)) (ds : List K) (minimum : Option K) :
    commonDuration tasks ds minimum = if aim (slowest ds) minimum ≤ 0.0 then some 0.0
      else stretch tasks commonAttempts (aim (slowest ds) minimum) := by
  cases minimum <;> rfl

/-- No joints, nothing to agree on. -/
theorem commonDuration_nil {ds : List K} {minimum : Option K} :
    commonDuration ([] : List (Task K)) ds minimum ≠ none := by
  rw [commonDuration_eq_aim]
  split_ifs
  · exact Option.some_ne_none _
  · exact Option.some_ne_none _

theorem exists_of_mem_right {α β : Type} {R : α → β → Prop} {xs : List α} {ys : List β}
    (h : List.Forall₂ R xs ys) {y : β} (hy : y ∈ ys) : ∃ x ∈ xs, R x y := by
  induction h with
  | nil => exact nomatch hy
  | @cons x' y' xs ys hxy _ ih =>
    rcases List.mem_cons.mp hy with rfl | hy
    · exact ⟨x', List.mem_cons_self, hxy⟩
    · obtain ⟨x, hx, hxy⟩ := ih hy
      exact ⟨x, List.mem_cons_of_mem _ hx, hxy⟩

section Search

variable [OrderedScalar K]

namespace Task

theorem pos_lowerBound (t : Task K) : 0.0 < t.lowerBound :=
  lt_of_lt_of_le minDuration_pos (le_maxFrom_number (number_of_pos minDuration_pos) _).1

/-- A duration that is a joint's own: 0 if there is nothing to do, and a feasible one else. -/
def Own (t : Task K) (d : K) : Prop :=
  t.isStationary = true ∧ d = 0.0 ∨ t.isStationary = false ∧ 0.0 < d ∧ t.feasible d = true

/-- **What the search for one joint finds** has been tested. -/
theorem own_minimalDuration {t : Task K} {d : K} (h : t.minimalDuration = some d) : t.Own d := by
  unfold minimalDuration at h
  dsimp only at h
  split_ifs at h with hstationary hlower
  · exact .inl ⟨hstationary, (Option.some.inj h).symm⟩
  all_goals refine .inr ⟨Bool.eq_false_iff.mpr hstationary, ?_⟩
  · obtain rfl := Option.some.inj h
    exact ⟨t.pos_lowerBound, hlower⟩
  · obtain ⟨⟨lo, hi⟩, hscan, rfl⟩ := Option.map_eq_some_iff.mp h
    have hlower := t.pos_lowerBound
    -- Both ends stay positive.
    obtain ⟨⟨hlo, hhi⟩, hfeasible⟩ := scan_induction (R := fun a b => 0.0 < a ∧ 0.0 < b)
      (fun _ _ h _ => ⟨h.2, lt_mul_scanGrowth h.2⟩) ⟨hlower, lt_mul_scanGrowth hlower⟩ hscan
    exact tighten_induction (P := (0.0 < ·)) (fun _ _ => half_add_pos) hlo hhi hfeasible

theorem Own.number {t : Task K} {d : K} (h : t.Own d) : d ≤ d := by
  rcases h with ⟨-, rfl⟩ | ⟨-, hpos, -⟩
  · exact number_zero K
  · exact number_of_pos hpos

theorem Own.stationary {t : Task K} {d : K} (h : t.Own d) (hd : d ≤ 0.0) :
    t.isStationary = true := by
  rcases h with ⟨hstationary, -⟩ | ⟨-, hpos, -⟩
  · exact hstationary
  · exact absurd hd (not_le_of_lt hpos)

end Task

theorem own_minimalDurations {joint : ℕ} {tasks : List (Task K)} {ds : List K}
    (h : minimalDurations joint tasks = .ok ds) : List.Forall₂ Task.Own tasks ds := by
  induction tasks generalizing joint ds with
  | nil =>
    obtain rfl := Except.ok.inj h
    exact .nil
  | cons t tasks ih =>
    rw [minimalDurations] at h
    cases hd : t.minimalDuration with
    | none => simp [hd] at h
    | some d =>
      rw [hd] at h
      obtain ⟨rest, hrest, h⟩ := bind_eq_ok.mp h
      obtain rfl := pure_eq_ok.mp h
      exact .cons (Task.own_minimalDuration hd) (ih hrest)

theorem le_aim {slow : K} (hslow : slow ≤ slow) {minimum : Option K}
    (hm : ∀ m, minimum = some m → m ≤ m) :
    slow ≤ aim slow minimum ∧ ∀ m, minimum = some m → m ≤ aim slow minimum := by
  cases minimum with
  | none => exact ⟨hslow, nofun⟩
  | some m =>
    have hm := hm m rfl
    simp only [aim, Option.some.injEq, forall_eq']
    split_ifs with hlt
    · exact ⟨le_of_lt hlt, hm⟩
    · exact ⟨hslow, le_of_not_lt hslow hm hlt⟩

theorem number_slowest (ds : List K) : slowest ds ≤ slowest ds :=
  (number_of_le (le_maxFrom_number (number_zero K) ds).1).2

section Own

variable {tasks : List (Task K)} {ds : List K} (hown : List.Forall₂ Task.Own tasks ds)

include hown

theorem number_of_mem {d : K} (hd : d ∈ ds) : d ≤ d := by
  obtain ⟨t, -, ht⟩ := exists_of_mem_right hown hd
  exact ht.number

theorem le_slowest_of_own {d : K} (hd : d ∈ ds) : d ≤ slowest ds :=
  (le_maxFrom_number (number_zero K) ds).2 d hd (number_of_mem hown hd)

/-- If none of the joints' durations is positive, no joint has anything to do. -/
theorem stationary_of_slowest (h : slowest ds ≤ 0.0) : ∀ t ∈ tasks, t.isStationary = true := by
  intro t ht
  obtain ⟨d, hd, (hown' : t.Own d)⟩ := exists_of_mem_right hown.flip ht
  exact hown'.stationary (le_trans (le_slowest_of_own hown hd) h)

/-- The slowest of the joints' durations is one of them. -/
theorem slowest_mem (h : tasks ≠ []) : slowest ds ∈ ds := by
  rcases List.mem_cons.mp (maxFrom_mem 0.0 ds) with hzero | hmem
  · obtain ⟨t, tasks, rfl⟩ := List.exists_cons_of_ne_nil h
    obtain ⟨d, ds, ht, -, rfl⟩ := List.forall₂_cons_left_iff.mp hown
    have hle : d ≤ 0.0 := hzero ▸ le_slowest_of_own hown List.mem_cons_self
    rcases ht with ⟨-, rfl⟩ | ⟨-, hpos, -⟩
    · exact List.mem_cons.mpr (.inl hzero)
    · exact absurd hle (not_le_of_lt hpos)
  · exact hmem

/-- **A common duration** is 0 for joints that all have nothing to do, and feasible for all of them
else. It is not below the requested minimum. -/
theorem commonDuration_spec {minimum : Option K} (hm : ∀ m, minimum = some m → m ≤ m) {d : K}
    (h : commonDuration tasks ds minimum = some d) :
    (d = 0.0 ∧ (∀ t ∈ tasks, t.isStationary = true) ∨ allFeasible tasks d = true)
      ∧ d ≤ d ∧ ∀ m, minimum = some m → m ≤ d := by
  obtain ⟨hslow, hmin⟩ := le_aim (number_slowest ds) hm
  rw [commonDuration_eq_aim] at h
  split_ifs at h with hzero
  · obtain rfl := Option.some.inj h
    exact ⟨.inl ⟨rfl, stationary_of_slowest hown (le_trans hslow hzero)⟩, number_zero K,
      fun m h => le_trans (hmin m h) hzero⟩
  · have hpos := lt_of_not_le (number_zero K) (number_of_le hslow).2 hzero
    obtain ⟨hfeasible, hle⟩ := stretch_spec hpos h
    exact ⟨.inr hfeasible, (number_of_le hle).2, fun m h => le_trans (hmin m h) hle⟩

end Own

end Search

/-! ## The ways in which an update ends -/

namespace Planner

/-- How an update ends, with what the planner knows there. -/
inductive Exit (p : Planner K) (r : Request K) (tasks : List (Task K)) : Reply K → Prop
  /-- The requested duration needs no search. -/
  | requested {d : K} {s : State K} (hrequested : p.requested r tasks = some d)
      (hs : advanceAll p.timeStep tasks d = .ok s) : Exit p r tasks ⟨.working, s, d⟩
  /-- The common duration counts as one time step. -/
  | finished {ds : List K} {d : K} (hds : minimalDurations 0 tasks = .ok ds)
      (hd : commonDuration tasks ds r.minimumDuration = some d)
      (hfit : d ≤ p.timeStep * (1.0 + finishSlack)) : Exit p r tasks ⟨.finished, r.target, d⟩
  /-- The common duration is longer. -/
  | working {ds : List K} {d : K} {s : State K} (hds : minimalDurations 0 tasks = .ok ds)
      (hd : commonDuration tasks ds r.minimumDuration = some d)
      (hfit : ¬d ≤ p.timeStep * (1.0 + finishSlack))
      (hs : advanceAll p.timeStep tasks d = .ok s) : Exit p r tasks ⟨.working, s, d⟩
  /-- There is no common duration. -/
  | unsynchronized {ds : List K} {s : State K} (hds : minimalDurations 0 tasks = .ok ds)
      (hd : commonDuration tasks ds r.minimumDuration = none)
      (hs : advance p.timeStep tasks ds = .ok s) :
      Exit p r tasks ⟨.unsynchronized, s, slowest ds⟩

variable {p : Planner K} {r : Request K} {tasks : List (Task K)} {reply : Reply K}

theorem exit_of_search (h : p.search r tasks = .ok reply) : p.Exit r tasks reply := by
  obtain ⟨ds, hds, h⟩ := bind_eq_ok.mp h
  have hds := (mapError_ok _ _).mp hds
  cases hd : commonDuration tasks ds r.minimumDuration with
  | none =>
    rw [hd] at h
    obtain ⟨s, hs, h⟩ := bind_eq_ok.mp h
    obtain rfl := pure_eq_ok.mp h
    exact .unsynchronized hds hd ((mapError_ok _ _).mp hs)
  | some d =>
    simp only [hd] at h
    split_ifs at h with hfit
    · obtain rfl := pure_eq_ok.mp h
      exact .finished hds hd hfit
    · obtain ⟨s, hs, h⟩ := bind_eq_ok.mp h
      obtain rfl := pure_eq_ok.mp h
      exact .working hds hd hfit ((mapError_ok _ _).mp hs)

theorem exit_of_update (h : p.update r = .ok reply) :
    ∃ tasks, r.tasks p.jointCount = .ok tasks ∧ p.Exit r tasks reply := by
  obtain ⟨tasks, htasks, h⟩ := bind_eq_ok.mp h
  refine ⟨tasks, htasks, ?_⟩
  cases hrequested : p.requested r tasks with
  | none =>
    rw [hrequested] at h
    exact exit_of_search h
  | some d =>
    rw [hrequested] at h
    obtain ⟨s, hs, h⟩ := bind_eq_ok.mp h
    obtain rfl := pure_eq_ok.mp h
    exact .requested hrequested ((mapError_ok _ _).mp hs)

/-- A finished update ends at its target. -/
theorem state_of_finished (h : p.update r = .ok reply) (hstatus : reply.status = .finished) :
    reply.state = r.target := by
  obtain ⟨tasks, -, hexit⟩ := exit_of_update h
  cases hexit with
  | requested => exact nomatch hstatus
  | finished => rfl
  | working => exact nomatch hstatus
  | unsynchronized => exact nomatch hstatus

/-- A planner is never without a time step. -/
theorem isPositive_of_create {n : ℕ} {timeStep : K} (h : Planner.create n timeStep = .ok p) :
    isPositive p.timeStep = true := by
  obtain ⟨⟨⟩, hpositive, h⟩ := bind_eq_ok.mp h
  obtain rfl := pure_eq_ok.mp h
  exact ensure_eq_ok.mp hpositive

/-! ## What has been checked -/

/-- A joint on its own: its duration, and where it is after a time step. -/
def Alone (timeStep : K) (t : Task K) (a : K × JointState K) : Prop :=
  t.Own a.1 ∧ if a.1 ≤ timeStep then a.2 = t.goal else (t.profile a.1).sample timeStep = .ok a.2

/-- What a caller can rely on. -/
inductive Checked (p : Planner K) (r : Request K) : Reply K → Prop
  | finished {d : K} (hfit : d ≤ p.timeStep * (1.0 + finishSlack))
      (hd : d = 0.0 ∧ (∀ t ∈ r.raised, t.isStationary = true)
        ∨ ∀ t ∈ r.raised, t.feasible d = true)
      (hm : ∀ m, r.minimumDuration = some m → m ≤ d) : Checked p r ⟨.finished, r.target, d⟩
  | working {d : K} {js : List (JointState K)} (hlt : p.timeStep < d)
      (hd : ∀ t ∈ r.raised, t.feasible d = true)
      (hjs : List.Forall₂ (fun t j => (t.profile d).sample p.timeStep = .ok j) r.raised js)
      (hm : ∀ m, r.minimumDuration = some m → m ≤ d) :
      Checked p r ⟨.working, State.ofJoints js, d⟩
  | unsynchronized {d : K} {answers : List (K × JointState K)}
      (hanswers : List.Forall₂ (Alone p.timeStep) r.raised answers)
      (hmem : d ∈ answers.map Prod.fst) (hle : ∀ a ∈ answers, a.1 ≤ d) :
      Checked p r ⟨.unsynchronized, State.ofJoints (answers.map Prod.snd), d⟩

theorem advance_ok {timeStep : K} {ds : List K} {s : State K}
    (h : advance timeStep tasks ds = .ok s) : ∃ js, s = State.ofJoints js
      ∧ List.Forall₂ (fun td j => td.1.advance timeStep td.2 = .ok j) (tasks.zip ds) js := by
  obtain ⟨js, hjs, h⟩ := bind_eq_ok.mp h
  obtain rfl := pure_eq_ok.mp h
  exact ⟨js, rfl, mapM_eq_ok.mp hjs⟩

/-- Joints that are advanced each over its own duration. -/
theorem alone_of_advance {timeStep : K} {ds : List K} (hown : List.Forall₂ Task.Own tasks ds)
    {js : List (JointState K)}
    (h : List.Forall₂ (fun td j => td.1.advance timeStep td.2 = .ok j) (tasks.zip ds) js) :
    List.Forall₂ (Alone timeStep) tasks (ds.zip js) ∧ (ds.zip js).map Prod.fst = ds
      ∧ (ds.zip js).map Prod.snd = js := by
  induction hown generalizing js with
  | nil =>
    obtain rfl := List.forall₂_nil_left_iff.mp h
    exact ⟨.nil, rfl, rfl⟩
  | @cons t d tasks ds hd _ ih =>
    obtain ⟨j, js, hj, hjs, rfl⟩ := List.forall₂_cons_left_iff.mp h
    obtain ⟨halone, hfst, hsnd⟩ := ih hjs
    refine ⟨.cons ⟨hd, ?_⟩ halone, congrArg (d :: ·) hfst, congrArg (j :: ·) hsnd⟩
    rw [Task.advance] at hj
    split_ifs at hj ⊢
    · exact (Except.ok.inj hj).symm
    · exact hj

variable [OrderedScalar K]

/-- All joints on profiles of one duration, longer than the time step. -/
theorem sample_of_advanceAll {timeStep d : K} {s : State K} (hlt : timeStep < d)
    (h : advanceAll timeStep tasks d = .ok s) : ∃ js, s = State.ofJoints js
      ∧ List.Forall₂ (fun t j => (t.profile d).sample timeStep = .ok j) tasks js := by
  obtain ⟨js, rfl, hjs⟩ := advance_ok h
  refine ⟨js, rfl, ?_⟩
  rw [← List.map_prod_left_eq_zip, List.forall₂_map_left_iff] at hjs
  refine hjs.imp fun t j hj => ?_
  rwa [Task.advance, if_neg (not_le_of_lt hlt)] at hj

/-- **What every answer has been checked for.** -/
theorem checked_of_update (hp : isPositive p.timeStep = true) (h : p.update r = .ok reply) :
    r.raised.length = p.jointCount ∧ p.Checked r reply := by
  obtain ⟨tasks, htasks, hexit⟩ := exit_of_update h
  obtain ⟨rfl, hlength, hfinite⟩ := Request.tasks_ok htasks
  refine ⟨hlength, ?_⟩
  have hstep : 0.0 < p.timeStep := pos_of_isPositive hp
  have hnumber : ∀ m, r.minimumDuration = some m → m ≤ m :=
    fun m hm => number_of_isFinite (hfinite m hm)
  cases hexit with
  | @requested d s hrequested hs =>
    obtain ⟨hm, hboth⟩ := (Option.filter_eq_some_iff ..).mp hrequested
    obtain ⟨hlt, hfeasible⟩ := Bool.and_eq_true_iff.mp hboth
    have hlt := decide_eq_true_iff.mp hlt
    obtain ⟨js, rfl, hjs⟩ := sample_of_advanceAll hlt hs
    refine .working hlt (List.all_eq_true.mp hfeasible) hjs fun m hm' => ?_
    obtain rfl := Option.some.inj (hm'.symm.trans hm)
    exact hnumber m hm'
  | @finished ds d hds hd hfit =>
    obtain ⟨hchecked, -, hmin⟩ := commonDuration_spec (own_minimalDurations hds) hnumber hd
    exact .finished hfit (hchecked.imp_right List.all_eq_true.mp) hmin
  | @working ds d s hds hd hfit hs =>
    obtain ⟨hchecked, hself, hmin⟩ := commonDuration_spec (own_minimalDurations hds) hnumber hd
    have hlt := lt_of_not_le_slack hstep hself hfit
    obtain ⟨js, rfl, hjs⟩ := sample_of_advanceAll hlt hs
    refine .working hlt ?_ hjs hmin
    rcases hchecked with ⟨rfl, -⟩ | hfeasible
    · exact absurd (le_of_lt hlt) (not_le_of_lt hstep)
    · exact List.all_eq_true.mp hfeasible
  | @unsynchronized ds s hds hd hs =>
    have hown := own_minimalDurations hds
    obtain ⟨js, rfl, hjs⟩ := advance_ok hs
    obtain ⟨halone, hfst, hsnd⟩ := alone_of_advance hown hjs
    rw [← hsnd]
    have hne : r.raised ≠ [] := fun hnil => commonDuration_nil (hnil ▸ hd)
    refine .unsynchronized halone (hfst.symm ▸ slowest_mem hown hne) fun a ha => ?_
    exact le_slowest_of_own hown (hfst ▸ List.mem_map_of_mem ha)

/-- Two units along at the speed limit, in double precision. -/
def cruise (minimumDuration : Option Float) : Request Float where
  current := ⟨[0], [1], [0]⟩
  target := ⟨[2], [1], [0]⟩
  limits := ⟨[1], [10], [20]⟩
  minimumDuration := minimumDuration

theorem exists_checked_cruise : ∃ reply, Planner.update ⟨1, 0.5⟩ (cruise none) = .ok reply
    ∧ (cruise none).raised.length = 1 ∧ Planner.Checked ⟨1, 0.5⟩ (cruise none) reply := by
  have hok : (Planner.update ⟨1, 0.5⟩ (cruise none)).isOk = true := by decide +kernel
  obtain ⟨reply, hreply⟩ := exists_ok_of_isOk hok
  exact ⟨reply, hreply, checked_of_update (by decide) hreply⟩

end Planner

end JerkLimit

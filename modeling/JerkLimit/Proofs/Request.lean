import Mathlib
import JerkLimit.Proofs.Checks
import JerkLimit.Proofs.Real

/-!
# Proofs/Request — what a request asks of each joint

A request is three lists of numbers per state and three lists of limits; what it means is one
**motion** per joint, from a state to a state within limits. `motions` puts the lists together, and
`Request.tasks_eq_ok_iff` says when the checks let a request through and what comes out: the motions,
their limits raised to what the joints start with (`Request.raised`).
-/

namespace JerkLimit

open Scalar

/-! ## States and limits, joint by joint -/

section Joints

variable {K : Type}

namespace State

theorem checkJointCount_eq_ok {s : State K} {n : ℕ} {u : Unit} :
    s.checkJointCount n = .ok u ↔
      s.position.length = n ∧ s.velocity.length = n ∧ s.acceleration.length = n := by
  simp [checkJointCount, bind_eq_ok, ensure_eq_ok]

@[simp] theorem joints_ofJoints (js : List (JointState K)) : (ofJoints js).joints = js := by
  induction js with
  | nil => rfl
  | cons j js ih => exact congrArg (j :: ·) ih

theorem length_joints {s : State K} {n : ℕ} (h : s.checkJointCount n = .ok ()) :
    s.joints.length = n := by
  obtain ⟨hp, hv, ha⟩ := checkJointCount_eq_ok.mp h
  simp [joints, hp, hv, ha]

theorem checkJointCount_ofJoints (js : List (JointState K)) :
    (ofJoints js).checkJointCount js.length = .ok () := by
  simp [checkJointCount_eq_ok, ofJoints]

/-- A state in which no joint lacks anything is its joints. -/
theorem ofJoints_joints {s : State K} {n : ℕ} (h : s.checkJointCount n = .ok ()) :
    ofJoints s.joints = s := by
  obtain ⟨hp, hv, ha⟩ := checkJointCount_eq_ok.mp h
  clear h
  obtain ⟨p, v, a⟩ := s
  subst hp
  induction p generalizing v a with
  | nil =>
    obtain rfl := List.length_eq_zero_iff.mp hv
    obtain rfl := List.length_eq_zero_iff.mp ha
    rfl
  | cons x p ih =>
    obtain ⟨y, v, rfl⟩ := List.exists_cons_of_length_eq_add_one hv
    obtain ⟨z, a, rfl⟩ := List.exists_cons_of_length_eq_add_one ha
    obtain ⟨hp', hv', ha'⟩ :=
      State.mk.injEq .. ▸ ih v a (by simpa using hv) (by simpa using ha)
    rw [State.mk.injEq]
    exact ⟨congrArg (x :: ·) hp', congrArg (y :: ·) hv', congrArg (z :: ·) ha'⟩

end State

/-- The limits of the joints one by one. -/
def Limits.joints (l : Limits K) : List (JointLimits K) :=
  List.zipWith (fun v (a, j) => ⟨v, a, j⟩) l.velocity (l.acceleration.zip l.jerk)

theorem Limits.length_joints_le (l : Limits K) : l.joints.length ≤ l.jointCount := by
  simp [Limits.joints, Limits.jointCount]

theorem Limits.joint_eq_ok {limits : Limits K} {i : ℕ} {l : JointLimits K} :
    limits.joint i = .ok l ↔ limits.joints[i]? = some l := by
  simp only [Limits.joint, bind_eq_ok, pure_eq_ok, entry_eq_ok, Limits.joints,
    List.getElem?_zipWith_eq_some, List.getElem?_zip_eq_some, Prod.exists]
  constructor
  · rintro ⟨v, hv, a, ha, j, hj, rfl⟩
    exact ⟨v, a, j, hv, ⟨ha, hj⟩, rfl⟩
  · rintro ⟨v, a, j, hv, ⟨ha, hj⟩, rfl⟩
    exact ⟨v, hv, a, ha, j, hj, rfl⟩

/-- What each joint is to do: from one state to another within its limits. -/
def motions (start goal : State K) (limits : Limits K) : List (Task K) :=
  List.zipWith (fun s (g, l) => ⟨s, g, l⟩) start.joints (goal.joints.zip limits.joints)

end Joints

section Parts

variable {K : Type} {start goal : State K} {limits : Limits K} {n : ℕ}
  (hs : start.joints.length = n) (hg : goal.joints.length = n) (hl : limits.joints.length = n)

include hs hg hl

theorem length_motions : (motions start goal limits).length = n := by
  simp [motions, hs, hg, hl]

theorem map_start_motions : (motions start goal limits).map Task.start = start.joints :=
  List.ext_getElem (by simp [length_motions hs hg hl, hs]) fun i _ _ => by simp [motions]

theorem map_goal_motions : (motions start goal limits).map Task.goal = goal.joints :=
  List.ext_getElem (by simp [length_motions hs hg hl, hg]) fun i _ _ => by simp [motions]

theorem map_limits_motions : (motions start goal limits).map Task.limits = limits.joints :=
  List.ext_getElem (by simp [length_motions hs hg hl, hl]) fun i _ _ => by simp [motions]

/-- The motions from somewhere else to the same goal. -/
theorem motions_ofJoints (f : Task K → JointState K) :
    motions (State.ofJoints ((motions start goal limits).map f)) goal limits
      = (motions start goal limits).map fun m => { m with start := f m } :=
  List.ext_getElem (by simp [motions, hs, hg, hl]) fun i _ _ => by simp [motions]

end Parts

/-! ## Positive limits -/

/-- A joint with positive limits. -/
def JointLimits.AllPositive {K : Type} [Scalar K] (l : JointLimits K) : Prop :=
  isPositive l.velocity = true ∧ isPositive l.acceleration = true ∧ isPositive l.jerk = true

theorem JointLimits.allPositive_real {l : JointLimits ℝ} :
    l.AllPositive ↔ 0 < l.velocity ∧ 0 < l.acceleration ∧ 0 < l.jerk := by
  simp only [AllPositive, isPositive_real]

namespace Limits

section General

variable {K : Type} [Scalar K]

theorem checkFrom_eq_ok {joint : ℕ} {v a j : List K} {u : Unit} :
    checkFrom joint v a j = .ok u ↔ ∀ l ∈ joints ⟨v, a, j⟩, l.AllPositive := by
  induction v generalizing joint a j with
  | nil => simp [checkFrom, joints]
  | cons x v ih =>
    cases a with
    | nil => simp [checkFrom, joints]
    | cons y a =>
      cases j with
      | nil => simp [checkFrom, joints]
      | cons z j =>
        have hjoints : joints ⟨x :: v, y :: a, z :: j⟩ = ⟨x, y, z⟩ :: joints ⟨v, a, j⟩ := rfl
        simp only [checkFrom, checkPositive, bind_eq_ok, ensure_eq_ok, exists_const, ih, hjoints,
          List.forall_mem_cons, JointLimits.AllPositive, and_assoc]

/-- Limits are made of lists of one length, all of them positive. -/
theorem ofLists_allPositive {v a j : List K} {limits : Limits K} :
    ofLists v a j = .ok limits ↔ (v.length = a.length ∧ v.length = j.length)
      ∧ (∀ l ∈ joints ⟨v, a, j⟩, l.AllPositive) ∧ ⟨v, a, j⟩ = limits := by
  simp only [ofLists, bind_eq_ok, pure_eq_ok, ensure_eq_ok, checkFrom_eq_ok, exists_const,
    Bool.and_eq_true, beq_iff_eq]

end General

theorem ofLists_eq_ok {v a j : List ℝ} {limits : Limits ℝ} :
    ofLists v a j = .ok limits ↔ (v.length = a.length ∧ v.length = j.length)
      ∧ (∀ l ∈ joints ⟨v, a, j⟩, 0 < l.velocity ∧ 0 < l.acceleration ∧ 0 < l.jerk)
      ∧ ⟨v, a, j⟩ = limits := by
  simp only [ofLists_allPositive, JointLimits.allPositive_real]

/-- Limits that pass their own check. -/
def Positive (limits : Limits ℝ) : Prop :=
  ofLists limits.velocity limits.acceleration limits.jerk = .ok limits

theorem Positive.length_joints {limits : Limits ℝ} (h : limits.Positive) :
    limits.joints.length = limits.jointCount := by
  obtain ⟨⟨ha, hj⟩, -, -⟩ := ofLists_eq_ok.mp h
  simp [joints, jointCount, ← ha, ← hj]

theorem Positive.pos {limits : Limits ℝ} (h : limits.Positive) {l : JointLimits ℝ}
    (hl : l ∈ limits.joints) : 0 < l.velocity ∧ 0 < l.acceleration ∧ 0 < l.jerk :=
  (ofLists_eq_ok.mp h).2.1 l hl

theorem ofLists_positive {v a j : List ℝ} {limits : Limits ℝ} (h : ofLists v a j = .ok limits) :
    limits.Positive := by
  obtain ⟨-, -, rfl⟩ := ofLists_eq_ok.mp h
  exact h

end Limits

/-! ## The checks -/

namespace Task

section General

variable {K : Type} [Scalar K]

/-- The motion with its limits raised to what the joint starts with. -/
def raised (m : Task K) : Task K := .ofLimits m.start m.goal m.limits

@[simp] theorem raised_start (m : Task K) : m.raised.start = m.start := rfl

@[simp] theorem raised_goal (m : Task K) : m.raised.goal = m.goal := rfl

@[simp] theorem raised_jerk (m : Task K) : m.raised.limits.jerk = m.limits.jerk := rfl

@[simp] theorem raised_profile (m : Task K) (T : K) : m.raised.profile T = m.profile T := rfl

/-- What the checks of a request demand of one joint. -/
structure Passes (m : Task K) : Prop where
  start_finite : (isFinite m.start.position = true ∧ isFinite m.start.velocity = true)
    ∧ isFinite m.start.acceleration = true
  goal_finite : (isFinite m.goal.position = true ∧ isFinite m.goal.velocity = true)
    ∧ isFinite m.goal.acceleration = true
  limits : m.limits.AllPositive
  goal_velocity : withinLimit (abs m.goal.velocity) m.limits.velocity = true
  goal_acceleration : withinLimit (abs m.goal.acceleration) m.limits.acceleration = true

theorem check_eq_ok {joint : ℕ} {s g : JointState K} {limits : Except Fault (JointLimits K)}
    {t : Task K} : Task.check joint s g limits = .ok t ↔
      ∃ l, limits = .ok l ∧ (Task.mk s g l).Passes ∧ (Task.mk s g l).raised = t := by
  simp only [Task.check, bind_eq_ok, pure_eq_ok, require_eq_ok, mapError_ok, exists_const]
  constructor
  · rintro ⟨hsp, hsv, hsa, hgp, hgv, hga, l, hl, hv, ha, hj, hgoal, hgoal', rfl⟩
    exact ⟨l, hl, ⟨⟨⟨hsp, hsv⟩, hsa⟩, ⟨⟨hgp, hgv⟩, hga⟩, ⟨hv, ha, hj⟩, hgoal, hgoal'⟩, rfl⟩
  · rintro ⟨l, hl, ⟨⟨⟨hsp, hsv⟩, hsa⟩, ⟨⟨hgp, hgv⟩, hga⟩, ⟨hv, ha, hj⟩, hgoal, hgoal'⟩, rfl⟩
    exact ⟨hsp, hsv, hsa, hgp, hgv, hga, l, hl, hv, ha, hj, hgoal, hgoal', rfl⟩

end General

/-- What the checks demand with exact arithmetic, where every number is finite. -/
structure Valid (m : Task ℝ) : Prop where
  velocity_pos : 0 < m.limits.velocity
  acceleration_pos : 0 < m.limits.acceleration
  jerk_pos : 0 < m.limits.jerk
  goal_velocity : withinLimit |m.goal.velocity| m.limits.velocity = true
  goal_acceleration : withinLimit |m.goal.acceleration| m.limits.acceleration = true

theorem passes_iff_valid {m : Task ℝ} : m.Passes ↔ m.Valid := by
  constructor
  · rintro ⟨-, -, hlimits, hv, ha⟩
    obtain ⟨hvelocity, hacceleration, hjerk⟩ := JointLimits.allPositive_real.mp hlimits
    exact ⟨hvelocity, hacceleration, hjerk, hv, ha⟩
  · rintro ⟨hvelocity, hacceleration, hjerk, hv, ha⟩
    exact ⟨⟨⟨rfl, rfl⟩, rfl⟩, ⟨⟨rfl, rfl⟩, rfl⟩,
      JointLimits.allPositive_real.mpr ⟨hvelocity, hacceleration, hjerk⟩, hv, ha⟩

@[simp] theorem raised_velocity (m : Task ℝ) :
    m.raised.limits.velocity = m.limits.velocity ⊔ |m.start.velocity| := max_real _ _

@[simp] theorem raised_acceleration (m : Task ℝ) :
    m.raised.limits.acceleration = m.limits.acceleration ⊔ |m.start.acceleration| := max_real _ _

end Task

namespace Request

section General

variable {K : Type}

/-- The motions that a request asks for. -/
def motions (r : Request K) : List (Task K) := JerkLimit.motions r.current r.target r.limits

theorem checkJointCount_eq_ok {r : Request K} {n : ℕ} {u : Unit} :
    r.checkJointCount n = .ok u ↔ r.current.checkJointCount n = .ok ()
      ∧ r.target.checkJointCount n = .ok () ∧ r.limits.jointCount = n := by
  simp only [Request.checkJointCount, bind_eq_ok, require_eq_ok, State.checkJointCount_eq_ok,
    beq_iff_eq, exists_const]
  tauto

variable [Scalar K]

/-- What a request asks of each joint, the limits raised to what the joint starts with. -/
def raised (r : Request K) : List (Task K) := r.motions.map Task.raised

/-- The joints from `joint` on, checked one after the other. -/
theorem tasksFrom_eq_ok {limits : Limits K} {joint : ℕ} {starts goals : List (JointState K)}
    (hlength : starts.length = goals.length) {ts : List (Task K)} :
    tasksFrom limits joint starts goals = .ok ts ↔
      starts.length ≤ (limits.joints.drop joint).length
        ∧ ∃ ms, ms = List.zipWith (fun s (g, l) => ⟨s, g, l⟩) starts
            (goals.zip (limits.joints.drop joint))
          ∧ (∀ m ∈ ms, m.Passes) ∧ ms.map Task.raised = ts := by
  induction starts generalizing joint goals ts with
  | nil => cases goals <;> simp [tasksFrom, eq_comm]
  | cons s starts ih =>
    obtain ⟨g, goals, rfl⟩ := List.exists_cons_of_length_eq_add_one hlength.symm
    simp only [tasksFrom, bind_eq_ok, pure_eq_ok, Task.check_eq_ok,
      ih (Nat.succ_injective hlength), Limits.joint_eq_ok]
    cases hl : limits.joints[joint]? with
    | none =>
      have hdrop : limits.joints.drop joint = [] :=
        List.drop_eq_nil_of_le (List.getElem?_eq_none_iff.mp hl)
      simp [hdrop]
    | some l =>
      have hdrop : limits.joints.drop joint = l :: limits.joints.drop (joint + 1) := by
        obtain ⟨hlt, rfl⟩ := List.getElem?_eq_some_iff.mp hl
        exact List.drop_eq_getElem_cons hlt
      simp [hdrop, and_assoc, and_left_comm]

theorem tasks_eq_tasksFrom {r : Request K} {n : ℕ} {ts : List (Task K)} :
    r.tasks n = .ok ts ↔ r.checkJointCount n = .ok ()
      ∧ (∀ m, r.minimumDuration = some m → isFinite m = true)
      ∧ tasksFrom r.limits 0 r.current.joints r.target.joints = .ok ts := by
  obtain ⟨c, t, l, minimum⟩ := r
  cases minimum with
  | none =>
    simp only [Request.tasks, bind_eq_ok, pure_eq_ok, exists_eq_right, reduceCtorEq, false_implies,
      implies_true, true_and]
    exact ⟨fun ⟨_, h⟩ => h, fun h => ⟨(), h⟩⟩
  | some d =>
    simp only [Request.tasks, bind_eq_ok, pure_eq_ok, require_eq_ok, exists_const,
      Option.some.injEq, forall_eq']
    constructor
    · rintro ⟨⟨⟩, hcount, ts', hts, hd, rfl⟩
      exact ⟨hcount, hd, hts⟩
    · rintro ⟨hcount, hd, hts⟩
      exact ⟨(), hcount, ts, hts, hd, rfl⟩

/-- A request that has everything for `n` joints, and a motion for each of them. -/
structure Complete (r : Request K) (n : ℕ) : Prop where
  current : r.current.checkJointCount n = .ok ()
  target : r.target.checkJointCount n = .ok ()
  jointCount : r.limits.jointCount = n
  joints : r.limits.joints.length = n

omit [Scalar K] in
theorem Complete.length_motions {r : Request K} {n : ℕ} (h : r.Complete n) :
    r.motions.length = n :=
  JerkLimit.length_motions (State.length_joints h.current) (State.length_joints h.target) h.joints

/-- **The checked tasks of a request** are its motions, raised; every motion has to pass. -/
theorem tasks_eq_ok_iff {r : Request K} {n : ℕ} {ts : List (Task K)} :
    r.tasks n = .ok ts ↔ r.Complete n ∧ (∀ m, r.minimumDuration = some m → isFinite m = true)
      ∧ (∀ m ∈ r.motions, m.Passes) ∧ r.raised = ts := by
  rw [tasks_eq_tasksFrom, checkJointCount_eq_ok]
  constructor
  · rintro ⟨⟨hc, ht, hl⟩, hminimum, h⟩
    have hlength := (State.length_joints hc).trans (State.length_joints ht).symm
    obtain ⟨hle, ms, rfl, hpass, hms⟩ := (tasksFrom_eq_ok hlength).mp h
    rw [List.drop_zero, State.length_joints hc] at hle
    exact ⟨⟨hc, ht, hl, le_antisymm (hl ▸ r.limits.length_joints_le) hle⟩, hminimum, hpass, hms⟩
  · rintro ⟨⟨hc, ht, hl, hjoints⟩, hminimum, hpass, hms⟩
    have hlength := (State.length_joints hc).trans (State.length_joints ht).symm
    refine ⟨⟨hc, ht, hl⟩, hminimum, (tasksFrom_eq_ok hlength).mpr ?_⟩
    refine ⟨?_, r.motions, rfl, hpass, hms⟩
    rw [List.drop_zero, State.length_joints hc, hjoints]

theorem tasks_ok {r : Request K} {n : ℕ} {ts : List (Task K)} (h : r.tasks n = .ok ts) :
    ts = r.raised ∧ ts.length = n ∧ ∀ m, r.minimumDuration = some m → isFinite m = true := by
  obtain ⟨hcomplete, hminimum, -, rfl⟩ := tasks_eq_ok_iff.mp h
  exact ⟨rfl, (List.length_map _).trans hcomplete.length_motions, hminimum⟩

end General

/-- Everything has one entry per joint, and the motion of every joint is valid. -/
structure Valid (r : Request ℝ) (n : ℕ) : Prop extends r.Complete n where
  motions : ∀ m ∈ r.motions, m.Valid

/-- With exact arithmetic the request has to be valid. -/
theorem tasks_eq_ok {r : Request ℝ} {n : ℕ} {ts : List (Task ℝ)} :
    r.tasks n = .ok ts ↔ r.Valid n ∧ r.raised = ts := by
  simp only [tasks_eq_ok_iff, Task.passes_iff_valid, isFinite_real, implies_true, true_and]
  constructor
  · rintro ⟨hcomplete, hvalid, hraised⟩
    exact ⟨⟨hcomplete, hvalid⟩, hraised⟩
  · rintro ⟨⟨hcomplete, hvalid⟩, hraised⟩
    exact ⟨hcomplete, hvalid, hraised⟩

end Request

end JerkLimit

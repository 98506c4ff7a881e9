import Mathlib
import JerkLimit.Proofs.Unwinding

/-!
# Proofs/Continuity — when unwound angles stay as they are

Unwinding makes a long step shorter by one turn, however long it is. A step of more than one and a
half turns is still a long one afterwards, and a second pass takes the next turn off it.

* Unwinding leaves alone exactly the angles whose steps are at most half a turn
  (`unwoundAngles_eq_self_iff`).
* It leads to such angles exactly if the steps were at most one and a half turns
  (`gradual_unwoundAngles_iff`).

**`Trajectory.unwindBy_settles_iff`** says both of whole trajectories: the second pass changes
nothing exactly if there was no step beyond one and a half turns.
-/

namespace JerkLimit.Trajectory

open Scalar

/-! ## Columns that stay -/

section Columns

variable {K : Type}

/-- `P` holds of the angles that are recorded for each continuous joint. -/
def EveryTurning (P : List K → Prop) (t : Trajectory K) : Prop :=
  ∀ (j : ℕ) (raw : List K), t.Turns j →
    column j (t.waypoints.map Waypoint.state) = raw.map some → P raw

theorem everyTurning_congr {P Q : List K → Prop} (h : ∀ raw, P raw ↔ Q raw) {t : Trajectory K} :
    t.EveryTurning P ↔ t.EveryTurning Q :=
  forall₄_congr fun _ raw _ _ => h raw

theorem setJoint_self {w : Waypoint K} {joint : ℕ} {x : K}
    (h : w.state.position[joint]? = some x) : w.setJoint joint x = w := by
  obtain ⟨hlt, rfl⟩ := List.getElem?_eq_some_iff.mp h
  rw [Waypoint.setJoint, List.set_getElem_self]

theorem zipWith_setJoint_self {joint : ℕ} {ws : List (Waypoint K)} {raw : List K}
    (h : column joint (ws.map Waypoint.state) = raw.map some) :
    List.zipWith (fun w x => w.setJoint joint x) ws raw = ws := by
  induction ws generalizing raw with
  | nil => rfl
  | cons w ws ih =>
    cases raw with
    | nil => exact nomatch h
    | cons x raw =>
      obtain ⟨hw, hws⟩ := List.cons.inj h
      exact congrArg₂ List.cons (setJoint_self hw) (ih hws)

theorem exists_column_of_turns {t : Trajectory K} (h : ShapedAs t.jointCount t.waypoints) {j : ℕ}
    (hj : t.Turns j) : ∃ raw : List K, column j (t.waypoints.map Waypoint.state) = raw.map some := by
  obtain ⟨joint, hjoint, -⟩ := hj
  exact exists_column h (List.getElem?_eq_some_iff.mp hjoint).1

/-- Writing back what has been read changes nothing. -/
theorem writeColumn_self {joint : ℕ} {ws : List (Waypoint K)} {raw : List K}
    (h : column joint (ws.map Waypoint.state) = raw.map some) :
    Seam.writeColumn joint raw ws = ws := by
  cases ws with
  | nil => rfl
  | cons w ws =>
    cases raw with
    | nil => exact nomatch h
    | cons x raw => exact congrArg (w :: ·) (zipWith_setJoint_self (List.cons.inj h).2)

variable [Scalar K] {n : ℕ}

theorem unwindJoints_eq_self {halfTurn : K} {joint : ℕ} {js : List (Joint K)}
    (hj : joint + js.length ≤ n) {ws : List (Waypoint K)} (h : ShapedAs n ws)
    (hkept : ∀ k j raw, js[k]? = some j → j.kind = .continuous →
      column (joint + k) (ws.map Waypoint.state) = raw.map some → unwoundAngles halfTurn raw = raw) :
    unwindJoints halfTurn joint js ws = (ws, .ok ()) := by
  induction js generalizing joint with
  | nil => rfl
  | cons j js ih =>
    rw [List.length_cons] at hj
    have hrest : unwindJoints halfTurn (joint + 1) js ws = (ws, .ok ()) := by
      refine ih (show joint + 1 + js.length ≤ n by omega) fun k j' raw hk hkind hraw => ?_
      refine hkept (k + 1) j' raw hk hkind ?_
      rwa [← Nat.succ_add_eq_add_succ]
    rw [unwindJoints]
    split_ifs with hkind
    · obtain ⟨raw, hraw⟩ := exists_column h (show joint < n by omega)
      rw [unwindJoint_eq halfTurn hraw, hkept 0 j raw rfl hkind hraw, writeColumn_self hraw]
      exact hrest
    · exact hrest

section Shaped

variable {t : Trajectory K} (h : ShapedAs t.jointCount t.waypoints)

include h

theorem column_unwindBy (halfTurn : K) {j : ℕ} (hj : t.Turns j) {raw : List K}
    (hraw : column j (t.waypoints.map Waypoint.state) = raw.map some) :
    column j ((t.unwindBy halfTurn).1.waypoints.map Waypoint.state)
      = (unwoundAngles halfTurn raw).map some := by
  obtain ⟨joint, hjoint, hkind⟩ := hj
  have hwritten := (column_unwindJoints halfTurn (zero_add _).le h).2 j joint raw hjoint
  rw [zero_add, if_pos hkind] at hwritten
  exact hwritten hraw

/-- **What a second pass finds**: the angles of the continuous joints, unwound. -/
theorem everyTurning_unwindBy (halfTurn : K) {P : List K → Prop} :
    (t.unwindBy halfTurn).1.EveryTurning P
      ↔ t.EveryTurning fun raw => P (unwoundAngles halfTurn raw) := by
  constructor
  · intro hP j raw hj hraw
    exact hP j _ hj (column_unwindBy h halfTurn hj hraw)
  · intro hP j raw' hj hraw'
    obtain ⟨raw, hraw⟩ := exists_column_of_turns h hj
    obtain rfl := (Option.some_injective K).list_map
      ((column_unwindBy h halfTurn hj hraw).symm.trans hraw')
    exact hP j raw hj hraw

/-- **Nothing is changed** exactly if unwinding keeps the angles of every continuous joint. -/
theorem unwindBy_eq_self_iff (halfTurn : K) :
    t.unwindBy halfTurn = (t, .ok ())
      ↔ t.EveryTurning fun raw => unwoundAngles halfTurn raw = raw := by
  constructor
  · intro hself j raw hj hraw
    have hwritten := column_unwindBy h halfTurn hj hraw
    rw [hself, hraw] at hwritten
    exact (Option.some_injective K).list_map hwritten.symm
  · intro hkept
    have hws : unwindJoints halfTurn 0 t.joints t.waypoints = (t.waypoints, .ok ()) := by
      refine unwindJoints_eq_self (zero_add _).le h fun k joint raw hjoint hkind hraw => ?_
      rw [zero_add] at hraw
      exact hkept k raw ⟨joint, hjoint, hkind⟩ hraw
    rw [unwindBy, hws]

end Shaped

end Columns

/-! ## Angles that stay -/

section Angles

variable {halfTurn : ℝ}

/-- No step of the angles is longer than `d`. -/
def Gradual (d : ℝ) : List ℝ → Prop := List.IsChain fun x x' => |x' - x| ≤ d

theorem gradual_cons_cons {d x x' : ℝ} {raw : List ℝ} :
    Gradual d (x :: x' :: raw) ↔ |x' - x| ≤ d ∧ Gradual d (x' :: raw) := List.isChain_cons_cons

theorem StepUnwound.short_iff {d e : ℝ} (h : StepUnwound halfTurn d e) :
    |e| ≤ halfTurn ↔ |d| ≤ 3 * halfTurn := by
  refine ⟨fun he => ?_, h.short⟩
  obtain ⟨hlow, hhigh⟩ := abs_le.mp he
  rcases le_or_gt |d| halfTurn with hshort | hlong
  · linarith [abs_nonneg d]
  rcases lt_abs.mp hlong with hforward | hbackward
  · have := h.forward hforward
    exact abs_le.mpr ⟨by linarith, by linarith⟩
  · have := h.backward (by linarith)
    exact abs_le.mpr ⟨by linarith, by linarith⟩

theorem turnOffset_eq_self_iff (h : 0 < halfTurn) (last raw offset : ℝ) :
    turnOffset halfTurn last raw offset = offset ↔ |raw - last| ≤ halfTurn := by
  rw [turnOffset_real, abs_le]
  split_ifs with hbackward hforward
  · exact ⟨fun hoffset => by linarith, fun hshort => by linarith [hshort.1]⟩
  · exact ⟨fun hoffset => by linarith, fun hshort => by linarith [hshort.2]⟩
  · exact iff_of_true rfl ⟨by linarith, by linarith⟩

theorem unwoundAfter_eq_self_iff (h : 0 < halfTurn) (last : ℝ) (raw : List ℝ) :
    unwoundAfter halfTurn last 0 raw = raw ↔ Gradual halfTurn (last :: raw) := by
  induction raw generalizing last with
  | nil => exact iff_of_true rfl (List.isChain_singleton last)
  | cons x raw ih =>
    rw [gradual_cons_cons, ← turnOffset_eq_self_iff h last x 0, ← ih x, unwoundAfter,
      List.cons.injEq, add_eq_left]
    refine and_congr_right fun hoffset => ?_
    rw [hoffset]

/-- **Angles that stay** as they are: no step is longer than half a turn. -/
theorem unwoundAngles_eq_self_iff (h : 0 < halfTurn) (raw : List ℝ) :
    unwoundAngles halfTurn raw = raw ↔ Gradual halfTurn raw := by
  have hzero : (0.0 : ℝ) = 0 := by norm_num
  cases raw with
  | nil => exact iff_of_true rfl List.isChain_nil
  | cons first raw =>
    rw [← unwoundAfter_eq_self_iff h, unwoundAngles, hzero, List.cons.injEq]
    exact and_iff_right rfl

theorem gradual_unwoundAfter_iff (h : 0 < halfTurn) (last offset : ℝ) (raw : List ℝ) :
    Gradual halfTurn ((last + offset) :: unwoundAfter halfTurn last offset raw)
      ↔ Gradual (3 * halfTurn) (last :: raw) := by
  induction raw generalizing last offset with
  | nil => exact iff_of_true (List.isChain_singleton _) (List.isChain_singleton _)
  | cons x raw ih =>
    rw [unwoundAfter, gradual_cons_cons, gradual_cons_cons, ih,
      (stepUnwound_turnOffset h last x offset).short_iff]

/-- **Angles that stay once they are unwound**: no step is longer than one and a half turns. -/
theorem gradual_unwoundAngles_iff (h : 0 < halfTurn) (raw : List ℝ) :
    Gradual halfTurn (unwoundAngles halfTurn raw) ↔ Gradual (3 * halfTurn) raw := by
  have hzero : (0.0 : ℝ) = 0 := by norm_num
  cases raw with
  | nil => exact iff_of_true List.isChain_nil List.isChain_nil
  | cons first raw =>
    rw [← gradual_unwoundAfter_iff h first 0, add_zero, unwoundAngles, hzero]

/-! ## Trajectories that stay -/

/-- No step of a continuous joint is longer than `d`. -/
def StepsWithin (d : ℝ) (t : Trajectory ℝ) : Prop :=
  ∀ (i j : ℕ) (x x' : ℝ), t.Turns j → t.angle i j = some x → t.angle (i + 1) j = some x' →
    |x' - x| ≤ d

theorem stepsWithin_iff {t : Trajectory ℝ} (h : ShapedAs t.jointCount t.waypoints) {d : ℝ} :
    t.StepsWithin d ↔ t.EveryTurning (Gradual d) := by
  constructor
  · intro hsteps j raw hj hraw
    refine List.isChain_iff_getElem.mpr fun i hi => hsteps i j _ _ hj ?_ ?_
    · exact (angle_eq_of_column hraw i).trans (List.getElem?_eq_getElem _)
    · exact (angle_eq_of_column hraw (i + 1)).trans (List.getElem?_eq_getElem hi)
  · intro hgradual i j x x' hj hx hx'
    obtain ⟨raw, hraw⟩ := exists_column_of_turns h hj
    rw [angle_eq_of_column hraw] at hx hx'
    obtain ⟨-, rfl⟩ := List.getElem?_eq_some_iff.mp hx
    obtain ⟨hi, rfl⟩ := List.getElem?_eq_some_iff.mp hx'
    exact List.isChain_iff_getElem.mp (hgradual j raw hj hraw) i hi

/-- **What has been unwound settles** exactly if no step of a continuous joint was longer than one
and a half turns: then no jump is left, and unwinding again changes nothing. -/
theorem unwindBy_settles_iff (halfTurn : ℝ) (hpos : 0 < halfTurn) {t : Trajectory ℝ}
    (h : t.checkShape = .ok ()) :
    ∃ t', t.unwindBy halfTurn = (t', .ok ())
      ∧ (t'.StepsWithin halfTurn ↔ t.StepsWithin (3 * halfTurn))
      ∧ (t'.unwindBy halfTurn = (t', .ok ()) ↔ t.StepsWithin (3 * halfTurn)) := by
  have hshape : ShapedAs t.jointCount t.waypoints := shapedAs_of_checkShapeFrom h
  obtain ⟨houtcome, -, hunwound⟩ := unwindJoints_unwound halfTurn (zero_add _).le hshape
  have hshape' : ShapedAs (t.unwindBy halfTurn).1.jointCount (t.unwindBy halfTurn).1.waypoints :=
    hunwound
  have hsteps : (t.unwindBy halfTurn).1.EveryTurning (Gradual halfTurn)
      ↔ t.StepsWithin (3 * halfTurn) := by
    rw [everyTurning_unwindBy hshape, stepsWithin_iff hshape]
    exact everyTurning_congr (gradual_unwoundAngles_iff hpos)
  refine ⟨(t.unwindBy halfTurn).1, Prod.ext rfl houtcome, ?_, ?_⟩
  · exact (stepsWithin_iff hshape').trans hsteps
  · rw [unwindBy_eq_self_iff hshape', ← hsteps]
    exact everyTurning_congr (unwoundAngles_eq_self_iff hpos)

/-- The steps of `winding` are up to almost a full turn long. -/
theorem unwind_settles_winding : (0 : ℝ) < Scalar.pi ∧ winding.checkShape = .ok () ∧
    ∃ t', winding.unwind = (t', .ok ()) ∧ t'.StepsWithin Scalar.pi
      ∧ t'.unwind = (t', .ok ()) := by
  have hpi : (Scalar.pi : ℝ) = 3.141592653589793 := rfl
  have hpos : (0 : ℝ) < Scalar.pi := by norm_num [hpi]
  obtain ⟨t', hunwind, hsteps, hself⟩ := unwindBy_settles_iff Scalar.pi hpos (t := winding) rfl
  have hwinding : winding.StepsWithin (3 * Scalar.pi) := by
    have hshape : ShapedAs winding.jointCount winding.waypoints :=
      shapedAs_of_checkShapeFrom (i := 0) rfl
    refine (stepsWithin_iff hshape).mpr fun j raw hj hraw => ?_
    obtain ⟨joint, hjoint, hkind⟩ := hj
    rcases j with _ | _ | j
    · obtain rfl : [3.0, -3.0, -2.5, 3.1] = raw := (Option.some_injective ℝ).list_map hraw
      norm_num [Gradual, hpi, abs_le]
    · obtain rfl := Option.some.inj hjoint
      exact nomatch hkind
    · exact nomatch hjoint
  exact ⟨hpos, rfl, t', hunwind, hsteps.mpr hwinding, hself.mpr hwinding⟩

/-- A continuous joint that is recorded at 0 and then at `x`. -/
def leap (x : ℝ) : Trajectory ℝ :=
  ⟨some "arm", [⟨"wheel", .continuous, {}⟩], [⟨⟨[0], [0], [0]⟩, 0⟩, ⟨⟨[x], [0], [0]⟩, 1⟩]⟩

theorem unwind_leap {x : ℝ} (hx : Scalar.pi < x) :
    (leap x).unwind = (leap (x - 2 * Scalar.pi), .ok ()) := by
  have hpi : (Scalar.pi : ℝ) = 3.141592653589793 := rfl
  have hangles : unwoundAngles Scalar.pi [0, x] = [0, x - 2 * Scalar.pi] := by
    have hoffset : turnOffset Scalar.pi 0 x 0.0 = 0 - 2 * Scalar.pi := by
      rw [turnOffset_real, if_neg (by linarith), if_pos (by linarith)]
      norm_num
    simp only [unwoundAngles, unwoundAfter, hoffset]
    ring_nf
  have hjoint : unwindJoint Scalar.pi 0 (leap x).waypoints
      = ((leap (x - 2 * Scalar.pi)).waypoints, .ok ()) := by
    have hcolumn : column 0 ((leap x).waypoints.map Waypoint.state) = [0, x].map some := rfl
    rw [unwindJoint_eq Scalar.pi hcolumn, hangles]
    rfl
  simp only [unwind, unwindBy, leap, unwindJoints] at hjoint ⊢
  rw [hjoint]
  rfl

/-- Two turns further on is the same angle. One turn of the two is left after the first pass, and
the second pass takes it away. -/
theorem leap_unwound_twice : (leap 12.566370614359172).checkShape = .ok ()
    ∧ (leap 12.566370614359172).unwind = (leap (2 * Scalar.pi), .ok ())
    ∧ (leap (2 * Scalar.pi)).unwind = (leap 0, .ok ()) ∧ leap 0 ≠ leap (2 * Scalar.pi) := by
  have hpi : (Scalar.pi : ℝ) = 3.141592653589793 := rfl
  refine ⟨rfl, ?_, ?_, fun hleap => ?_⟩
  · rw [unwind_leap (by norm_num [hpi])]
    norm_num [hpi]
  · rw [unwind_leap (by norm_num [hpi]), sub_self]
  · have hangle : (some 0 : Option ℝ) = some (2 * Scalar.pi) := congrArg (·.angle 1 0) hleap
    norm_num [hpi] at hangle

end Angles

end JerkLimit.Trajectory

import Mathlib
import JerkLimit.Proofs.Seam

/-!
# Proofs/Unwinding — angles change by whole turns

Unwinding works on one joint after the other and overwrites the positions that it reads, but it
compares recorded angles only. So each column of positions is a function of the recorded one
(`Trajectory.unwoundAngles`), whatever has become of the other joints before
(`Trajectory.column_unwindJoints`).

Over `ℝ`, with any positive number as half a turn, **`Trajectory.unwindBy_straightens`** says what
that function does: every angle of a continuous joint moves by whole turns, every step of more than
half a turn is made shorter by a turn, and nothing else changes.
-/

namespace JerkLimit.Trajectory

open Scalar

/-! ## Columns -/

section Columns

variable {K : Type} [Scalar K] {n : ℕ}

/-- The angles that were recorded after `last`, unwound with a running offset. -/
def unwoundAfter (halfTurn : K) : K → K → List K → List K
  | _, _, [] => []
  | last, offset, raw :: rest =>
    (raw + turnOffset halfTurn last raw offset)
      :: unwoundAfter halfTurn raw (turnOffset halfTurn last raw offset) rest

/-- The recorded angles of a joint, unwound. -/
def unwoundAngles (halfTurn : K) : List K → List K
  | [] => []
  | first :: rest => first :: unwoundAfter halfTurn first 0.0 rest

theorem length_unwoundAfter (halfTurn last offset : K) (raw : List K) :
    (unwoundAfter halfTurn last offset raw).length = raw.length := by
  induction raw generalizing last offset with
  | nil => rfl
  | cons x raw ih => exact congrArg (· + 1) (ih x _)

theorem length_unwoundAngles (halfTurn : K) (raw : List K) :
    (unwoundAngles halfTurn raw).length = raw.length := by
  cases raw with
  | nil => rfl
  | cons x raw => exact congrArg (· + 1) (length_unwoundAfter halfTurn x 0.0 raw)

omit [Scalar K] in
/-- Waypoints of the right shape record every joint. -/
theorem exists_column {ws : List (Waypoint K)} (h : ShapedAs n ws) {joint : ℕ} (hj : joint < n) :
    ∃ raw : List K, column joint (ws.map Waypoint.state) = raw.map some := by
  induction ws with
  | nil => exact ⟨[], rfl⟩
  | cons w ws ih =>
    obtain ⟨hw, hws⟩ := List.forall_mem_cons.mp h
    obtain ⟨raw, hraw⟩ := ih hws
    have hposition : joint < w.state.position.length :=
      (State.checkJointCount_eq_ok.mp hw).1 ▸ hj
    exact ⟨w.state.position[joint] :: raw,
      congrArg₂ List.cons (List.getElem?_eq_getElem hposition) hraw⟩

theorem unwindAfter_eq (halfTurn : K) {joint : ℕ} (last offset : K) {ws : List (Waypoint K)}
    {raw : List K} (h : column joint (ws.map Waypoint.state) = raw.map some) :
    unwindAfter halfTurn joint last offset ws = (List.zipWith (fun w x => w.setJoint joint x) ws
      (unwoundAfter halfTurn last offset raw), .ok ()) := by
  induction ws generalizing last offset raw with
  | nil => rfl
  | cons w ws ih =>
    cases raw with
    | nil => exact nomatch h
    | cons x raw =>
      obtain ⟨hw, hws⟩ := List.cons.inj h
      have hentry : entry w.state.position joint = .ok x := entry_eq_ok.mpr hw
      simp only [unwindAfter, hentry, ih x (turnOffset halfTurn last x offset) hws]
      rfl

/-- **Unwinding a joint** rewrites its column. -/
theorem unwindJoint_eq (halfTurn : K) {joint : ℕ} {ws : List (Waypoint K)} {raw : List K}
    (h : column joint (ws.map Waypoint.state) = raw.map some) :
    unwindJoint halfTurn joint ws
      = (Seam.writeColumn joint (unwoundAngles halfTurn raw) ws, .ok ()) := by
  cases ws with
  | nil => rfl
  | cons w ws =>
    cases raw with
    | nil => exact nomatch h
    | cons x raw =>
      obtain ⟨hw, hws⟩ := List.cons.inj h
      have hentry : entry w.state.position joint = .ok x := entry_eq_ok.mpr hw
      simp only [unwindJoint, hentry, unwindAfter_eq halfTurn x 0.0 hws]
      rfl

omit [Scalar K] in
theorem length_eq_of_column {joint : ℕ} {ws : List (Waypoint K)} {raw : List K}
    (h : column joint (ws.map Waypoint.state) = raw.map some) : raw.length = ws.length := by
  have hlength := congrArg List.length h
  rw [column, List.length_map, List.length_map, List.length_map] at hlength
  exact hlength.symm

/-- **Unwinding the joints** from number `joint` on rewrites the columns of those that are
continuous, each from what was recorded for it, and no others. -/
theorem column_unwindJoints (halfTurn : K) {joint : ℕ} {js : List (Joint K)}
    (hj : joint + js.length ≤ n) {ws : List (Waypoint K)} (h : ShapedAs n ws) :
    (∀ i < joint, column i ((unwindJoints halfTurn joint js ws).1.map Waypoint.state)
        = column i (ws.map Waypoint.state))
      ∧ ∀ k j raw, js[k]? = some j → column (joint + k) (ws.map Waypoint.state) = raw.map some →
        column (joint + k) ((unwindJoints halfTurn joint js ws).1.map Waypoint.state)
          = (if j.kind = .continuous then unwoundAngles halfTurn raw else raw).map some := by
  induction js generalizing joint ws with
  | nil => exact ⟨fun _ _ => rfl, nofun⟩
  | cons j js ih =>
    rw [List.length_cons] at hj
    rw [unwindJoints]
    by_cases hkind : j.kind = .continuous
    · obtain ⟨raw, hraw⟩ := exists_column h (show joint < n by omega)
      have hle : ws.length ≤ (unwoundAngles halfTurn raw).length :=
        ((length_unwoundAngles halfTurn raw).trans (length_eq_of_column hraw)).ge
      have hhead : (unwoundAngles halfTurn raw).head? = raw.head? := by cases raw <;> rfl
      obtain ⟨hbefore, hjoints⟩ := ih (show joint + 1 + js.length ≤ n by omega)
        (Seam.writeColumn_shaped hle h : ShapedAs n (Seam.writeColumn joint _ ws))
      rw [if_pos hkind, unwindJoint_eq halfTurn hraw]
      refine ⟨fun i hi => ?_, fun k j' raw' hk hraw' => ?_⟩
      · exact (hbefore i (by omega)).trans (Seam.column_writeColumn_of_ne (by omega) hle)
      · cases k with
        | zero =>
          obtain rfl := Option.some.inj hk
          obtain rfl := (Option.some_injective K).list_map (hraw.symm.trans hraw')
          rw [if_pos hkind]
          exact (hbefore joint (by omega)).trans
            (Seam.column_writeColumn hraw (length_unwoundAngles halfTurn raw) hhead)
        | succ k =>
          rw [← Nat.succ_add_eq_add_succ] at hraw' ⊢
          refine hjoints k j' raw' hk ?_
          exact (Seam.column_writeColumn_of_ne (by omega) hle).trans hraw'
    · obtain ⟨hbefore, hjoints⟩ := ih (show joint + 1 + js.length ≤ n by omega) h
      rw [if_neg hkind]
      refine ⟨fun i hi => hbefore i (by omega), fun k j' raw' hk hraw' => ?_⟩
      cases k with
      | zero =>
        obtain rfl := Option.some.inj hk
        rw [if_neg hkind]
        exact (hbefore joint (by omega)).trans hraw'
      | succ k =>
        rw [← Nat.succ_add_eq_add_succ] at hraw' ⊢
        exact hjoints k j' raw' hk hraw'

end Columns

/-! ## Angles -/

section Angles

variable {halfTurn : ℝ}

/-- What is left of a recorded step `d`: a long one is made shorter by a turn. -/
structure StepUnwound (halfTurn d e : ℝ) : Prop where
  kept : |d| ≤ halfTurn → e = d
  forward : halfTurn < d → e = d - 2 * halfTurn
  backward : d < -halfTurn → e = d + 2 * halfTurn

/-- **Less than one and a half turns** become at most half a turn. -/
theorem StepUnwound.short {d e : ℝ} (h : StepUnwound halfTurn d e) (hd : |d| ≤ 3 * halfTurn) :
    |e| ≤ halfTurn := by
  obtain ⟨hlow, hhigh⟩ := abs_le.mp hd
  rcases lt_or_ge halfTurn d with hforward | hforward
  · rw [h.forward hforward]
    exact abs_le.mpr ⟨by linarith, by linarith⟩
  rcases lt_or_ge d (-halfTurn) with hbackward | hbackward
  · rw [h.backward hbackward]
    exact abs_le.mpr ⟨by linarith, by linarith⟩
  · have hshort := abs_le.mpr ⟨hbackward, hforward⟩
    rwa [h.kept hshort]

theorem turnOffset_real (last raw offset : ℝ) : turnOffset halfTurn last raw offset
    = if raw + halfTurn < last then offset + 2 * halfTurn
      else if last + halfTurn < raw then offset - 2 * halfTurn else offset := by
  have htwo : (2.0 : ℝ) = 2 := by norm_num
  rw [← htwo]
  rfl

/-- The offset changes by whole turns. -/
theorem exists_turnOffset_eq (halfTurn last raw offset : ℝ) :
    ∃ k : ℤ, turnOffset halfTurn last raw offset = offset + k * (2 * halfTurn) := by
  rw [turnOffset_real]
  split_ifs
  · exact ⟨1, by push_cast; ring⟩
  · exact ⟨-1, by push_cast; ring⟩
  · exact ⟨0, by push_cast; ring⟩

theorem stepUnwound_turnOffset (h : 0 < halfTurn) (last raw offset : ℝ) :
    StepUnwound halfTurn (raw - last)
      (raw + turnOffset halfTurn last raw offset - (last + offset)) := by
  rw [turnOffset_real]
  constructor
  · intro hshort
    obtain ⟨hlow, hhigh⟩ := abs_le.mp hshort
    rw [if_neg (by linarith), if_neg (by linarith)]
    ring
  · intro hforward
    rw [if_neg (by linarith), if_pos (by linarith)]
    ring
  · intro hbackward
    rw [if_pos (by linarith)]
    ring

/-- **Every angle moves by whole turns**, counted from the offset. -/
theorem unwoundAfter_turns (halfTurn last offset : ℝ) {raw : List ℝ} {i : ℕ} {x : ℝ}
    (hx : raw[i]? = some x) : ∃ k : ℤ,
      (unwoundAfter halfTurn last offset raw)[i]? = some (x + offset + k * (2 * halfTurn)) := by
  induction raw generalizing last offset i with
  | nil => exact nomatch hx
  | cons y raw ih =>
    obtain ⟨k, hk⟩ := exists_turnOffset_eq halfTurn last y offset
    cases i with
    | zero =>
      obtain rfl := Option.some.inj hx
      refine ⟨k, congrArg some ?_⟩
      rw [hk]
      ring
    | succ i =>
      obtain ⟨k', hk'⟩ := ih y (turnOffset halfTurn last y offset) hx
      refine ⟨k + k', hk'.trans (congrArg some ?_)⟩
      rw [hk]
      push_cast
      ring

/-- **Every step is unwound**, the one from `last` first. -/
theorem unwoundAfter_steps (h : 0 < halfTurn) (last offset : ℝ) {raw : List ℝ} {i : ℕ} {x x' : ℝ}
    (hx : (last :: raw)[i]? = some x) (hx' : raw[i]? = some x') :
    ∃ y y', ((last + offset) :: unwoundAfter halfTurn last offset raw)[i]? = some y
      ∧ (unwoundAfter halfTurn last offset raw)[i]? = some y'
      ∧ StepUnwound halfTurn (x' - x) (y' - y) := by
  induction raw generalizing last offset i with
  | nil => exact nomatch hx'
  | cons y raw ih =>
    cases i with
    | zero =>
      obtain rfl := Option.some.inj hx
      obtain rfl := Option.some.inj hx'
      exact ⟨_, _, rfl, rfl, stepUnwound_turnOffset h last y offset⟩
    | succ i => exact ih y _ hx hx'

theorem unwoundAngles_turns (halfTurn : ℝ) {raw : List ℝ} {i : ℕ} {x : ℝ} (hx : raw[i]? = some x) :
    ∃ k : ℤ, (unwoundAngles halfTurn raw)[i]? = some (x + k * (2 * halfTurn)) := by
  have hzero : (0.0 : ℝ) = 0 := by norm_num
  cases raw with
  | nil => exact nomatch hx
  | cons first raw =>
    cases i with
    | zero =>
      obtain rfl := Option.some.inj hx
      exact ⟨0, congrArg some (by push_cast; ring)⟩
    | succ i =>
      obtain ⟨k, hk⟩ := unwoundAfter_turns halfTurn first (0.0 : ℝ) (i := i) hx
      refine ⟨k, hk.trans (congrArg some ?_)⟩
      rw [hzero, add_zero]

theorem unwoundAngles_steps (h : 0 < halfTurn) {raw : List ℝ} {i : ℕ} {x x' : ℝ}
    (hx : raw[i]? = some x) (hx' : raw[i + 1]? = some x') :
    ∃ y y', (unwoundAngles halfTurn raw)[i]? = some y
      ∧ (unwoundAngles halfTurn raw)[i + 1]? = some y'
      ∧ StepUnwound halfTurn (x' - x) (y' - y) := by
  have hzero : (0.0 : ℝ) = 0 := by norm_num
  cases raw with
  | nil => exact nomatch hx
  | cons first raw =>
    obtain ⟨y, y', hy, hy', hstep⟩ :=
      unwoundAfter_steps h first (0.0 : ℝ) hx hx'
    rw [hzero, add_zero] at hy
    rw [hzero] at hy'
    rw [unwoundAngles, hzero]
    exact ⟨y, y', hy, hy', hstep⟩

/-! ## Trajectories -/

/-- Joint number `j` is continuous. -/
def Turns {K : Type} (t : Trajectory K) (j : ℕ) : Prop :=
  ∃ joint, t.joints[j]? = some joint ∧ joint.kind = .continuous

/-- The position of joint `j` at waypoint `i`. -/
def angle {K : Type} (t : Trajectory K) (i j : ℕ) : Option K :=
  t.waypoints[i]?.bind fun w => w.state.position[j]?

theorem angle_eq_of_column {K : Type} {t : Trajectory K} {j : ℕ} {raw : List K}
    (h : column j (t.waypoints.map Waypoint.state) = raw.map some) (i : ℕ) :
    t.angle i j = raw[i]? := by
  have hentry := congrArg (fun xs => xs[i]?) h
  simp only [column, List.map_map, List.getElem?_map] at hentry
  rw [angle]
  cases hw : t.waypoints[i]? with
  | none =>
    rw [hw] at hentry
    exact (Option.map_eq_none_iff.mp hentry.symm).symm
  | some w =>
    rw [hw] at hentry
    obtain ⟨x, hx, hposition⟩ := Option.map_eq_some_iff.mp hentry.symm
    exact hposition.symm.trans hx.symm

/-- A joint that there is not has no angles. -/
theorem angle_eq_none {K : Type} {t : Trajectory K} {n j : ℕ} (h : ShapedAs n t.waypoints)
    (hj : n ≤ j) (i : ℕ) : t.angle i j = none := by
  rw [angle, Option.bind_eq_none_iff]
  intro w hw
  have hlength := (State.checkJointCount_eq_ok.mp (h w (List.mem_of_getElem? hw))).1
  exact List.getElem?_eq_none (hlength ▸ hj)

/-- What unwinding makes of the trajectory `t`. -/
structure Straightened (halfTurn : ℝ) (t t' : Trajectory ℝ) : Prop where
  group : t'.group = t.group
  joints : t'.joints = t.joints
  first : t'.waypoints.head? = t.waypoints.head?
  /-- Velocities, accelerations and durations are kept. -/
  unplaced : t'.waypoints.map Waypoint.unplaced = t.waypoints.map Waypoint.unplaced
  /-- Joints that are not continuous are kept. -/
  angles {j : ℕ} : ¬t.Turns j → ∀ i, t'.angle i j = t.angle i j
  /-- Continuous joints move by whole turns. -/
  turns {i j : ℕ} : t.Turns j → i < t.waypointCount → ∃ (x : ℝ) (k : ℤ),
    t.angle i j = some x ∧ t'.angle i j = some (x + k * (2 * halfTurn))
  /-- Their steps are unwound. -/
  steps {i j : ℕ} : t.Turns j → i + 1 < t.waypointCount → ∃ x x' y y',
    t.angle i j = some x ∧ t.angle (i + 1) j = some x'
      ∧ t'.angle i j = some y ∧ t'.angle (i + 1) j = some y'
      ∧ StepUnwound halfTurn (x' - x) (y' - y) ∧ (|x' - x| ≤ 3 * halfTurn → |y' - y| ≤ halfTurn)

/-- **Unwinding straightens** every trajectory of the right shape, and does not fail. -/
theorem unwindBy_straightens (halfTurn : ℝ) (hpos : 0 < halfTurn) {t : Trajectory ℝ}
    (h : t.checkShape = .ok ()) :
    ∃ t', t.unwindBy halfTurn = (t', .ok ()) ∧ Straightened halfTurn t t' := by
  have hshape : ShapedAs t.jointCount t.waypoints := shapedAs_of_checkShapeFrom h
  have hcount : 0 + t.joints.length ≤ t.jointCount := (zero_add _).le
  obtain ⟨houtcome, -, hshape'⟩ := unwindJoints_unwound halfTurn hcount hshape
  have hmoved := unwindJoints_onlyMoved halfTurn 0 t.joints t.waypoints
  have hcolumn := (column_unwindJoints halfTurn hcount hshape).2
  -- What becomes of the angles of a joint.
  have hangle {j : ℕ} {joint : Joint ℝ} (hj : t.joints[j]? = some joint) : ∃ raw,
      raw.length = t.waypointCount ∧ (∀ i, t.angle i j = raw[i]?)
        ∧ ∀ i, (t.unwindBy halfTurn).1.angle i j
          = (if joint.kind = .continuous then unwoundAngles halfTurn raw else raw)[i]? := by
    obtain ⟨raw, hraw⟩ := exists_column hshape (List.getElem?_eq_some_iff.mp hj).1
    have hraw' := hcolumn j joint raw hj (by rwa [zero_add])
    rw [zero_add] at hraw'
    exact ⟨raw, length_eq_of_column hraw, angle_eq_of_column hraw, angle_eq_of_column hraw'⟩
  refine ⟨(t.unwindBy halfTurn).1, Prod.ext rfl houtcome, rfl, rfl, hmoved.head, hmoved.unplaced,
    fun {j} hj i => ?_, fun {i j} ⟨joint, hjoint, hkind⟩ hi => ?_,
    fun {i j} ⟨joint, hjoint, hkind⟩ hi => ?_⟩
  · cases hjoint : t.joints[j]? with
    | none =>
      have hle : t.jointCount ≤ j := List.getElem?_eq_none_iff.mp hjoint
      rw [angle_eq_none hshape hle, angle_eq_none hshape' hle]
    | some joint =>
      obtain ⟨raw, -, hraw, hraw'⟩ := hangle hjoint
      rw [hraw, hraw', if_neg fun hkind => hj ⟨joint, hjoint, hkind⟩]
  · obtain ⟨raw, hlength, hraw, hraw'⟩ := hangle hjoint
    have hx := List.getElem?_eq_getElem (hlength.symm ▸ hi)
    obtain ⟨k, hk⟩ := unwoundAngles_turns halfTurn hx
    exact ⟨_, k, (hraw i).trans hx, (hraw' i).trans (by rw [if_pos hkind, hk])⟩
  · obtain ⟨raw, hlength, hraw, hraw'⟩ := hangle hjoint
    have hx := List.getElem?_eq_getElem (hlength.symm ▸ (Nat.lt_succ_self i).trans hi)
    have hx' := List.getElem?_eq_getElem (hlength.symm ▸ hi)
    obtain ⟨y, y', hy, hy', hstep⟩ := unwoundAngles_steps hpos hx hx'
    rw [if_pos hkind] at hraw'
    exact ⟨_, _, y, y', (hraw i).trans hx, (hraw (i + 1)).trans hx', (hraw' i).trans hy,
      (hraw' (i + 1)).trans hy', hstep, hstep.short⟩

/-- A continuous joint that turns past half a turn and back, beside one that is not continuous. -/
noncomputable def winding : Trajectory ℝ :=
  ⟨some "arm", [⟨"wheel", .continuous, {}⟩, ⟨"slide", .prismatic, {}⟩],
    [⟨⟨[3.0, 3.0], [0, 0], [0, 0]⟩, 0⟩, ⟨⟨[-3.0, -3.0], [0, 0], [0, 0]⟩, 1⟩,
      ⟨⟨[-2.5, -2.5], [0, 0], [0, 0]⟩, 1⟩, ⟨⟨[3.1, 3.1], [0, 0], [0, 0]⟩, 1⟩]⟩

/-- Unwound, its first step goes on across half a turn and its last one comes back. -/
theorem unwind_straightens_winding : (0 : ℝ) < Scalar.pi ∧ winding.checkShape = .ok () ∧
    ∃ t', winding.unwind = (t', .ok ()) ∧ Straightened Scalar.pi winding t'
      ∧ (∃ y y', t'.angle 0 0 = some y ∧ t'.angle 1 0 = some y'
        ∧ y' - y = -6 + 2 * Scalar.pi)
      ∧ (∃ y y', t'.angle 2 0 = some y ∧ t'.angle 3 0 = some y'
        ∧ y' - y = 5.6 - 2 * Scalar.pi)
      ∧ t'.angle 1 1 = some (-3) := by
  have hpi : (Scalar.pi : ℝ) = 3.141592653589793 := rfl
  have hpos : (0 : ℝ) < Scalar.pi := by norm_num [hpi]
  obtain ⟨t', hunwind, hstraight⟩ := unwindBy_straightens Scalar.pi hpos (t := winding) rfl
  have hwheel : winding.Turns 0 := ⟨_, rfl, rfl⟩
  have hslide : ¬winding.Turns 1 := fun ⟨_, hjoint, hkind⟩ => by
    obtain rfl := Option.some.inj hjoint
    exact nomatch hkind
  refine ⟨hpos, rfl, t', hunwind, hstraight, ?_, ?_, ?_⟩
  · obtain ⟨x, x', y, y', hx, hx', hy, hy', hstep, -⟩ :=
      hstraight.steps (i := 0) hwheel (by decide)
    obtain rfl := Option.some.inj hx
    obtain rfl := Option.some.inj hx'
    have hlong : (-3.0 : ℝ) - 3.0 < -Scalar.pi := by norm_num [hpi]
    exact ⟨y, y', hy, hy', (hstep.backward hlong).trans (by norm_num)⟩
  · obtain ⟨x, x', y, y', hx, hx', hy, hy', hstep, -⟩ :=
      hstraight.steps (i := 2) hwheel (by decide)
    obtain rfl := Option.some.inj hx
    obtain rfl := Option.some.inj hx'
    have hlong : (Scalar.pi : ℝ) < 3.1 - -2.5 := by norm_num [hpi]
    exact ⟨y, y', hy, hy', (hstep.forward hlong).trans (by norm_num)⟩
  · rw [hstraight.angles hslide 1]
    exact congrArg some (by norm_num)

end Angles

end JerkLimit.Trajectory

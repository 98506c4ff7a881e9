import Mathlib
import JerkLimit.Seam
import JerkLimit.Proofs.Shape

/-!
# Proofs/Seam — filtering joint by joint

The seam filter works on one joint after the other: it reads a `column` of all waypoints, filters it
and writes it back. Writing a column changes no other one, so every joint is filtered from the
positions that were there before the first one was, and nothing but positions changes
(`Seam.filtered_of_applyAt`).
-/

namespace JerkLimit

open Scalar Trajectory

variable {K : Type} [Scalar K]

/-- The positions of one joint. -/
def column (joint : ℕ) (ss : List (State K)) : List (Option K) :=
  ss.map fun s => s.position[joint]?

/-! ## Writing a column -/

section Columns

omit [Scalar K]

theorem setJoint_checkJointCount (w : Waypoint K) (joint : ℕ) (x : K) (n : ℕ) :
    (w.setJoint joint x).state.checkJointCount n = w.state.checkJointCount n := by
  simp [Waypoint.setJoint, State.checkJointCount]

theorem getElem?_setJoint_of_ne (w : Waypoint K) {joint i : ℕ} (h : i ≠ joint) (x : K) :
    (w.setJoint joint x).state.position[i]? = w.state.position[i]? :=
  List.getElem?_set_ne h.symm

theorem getElem?_setJoint {w : Waypoint K} {joint : ℕ} {x : K}
    (h : w.state.position[joint]? = some x) (y : K) :
    (w.setJoint joint y).state.position[joint]? = some y :=
  List.getElem?_set_self (List.getElem?_eq_some_iff.mp h).choose

theorem shapedAs_iff {n : ℕ} {ws : List (Waypoint K)} :
    ShapedAs n ws ↔ ∀ r ∈ ws.map (fun w => w.state.checkJointCount n), r = .ok () := by
  simp [ShapedAs]

/-- What does not depend on the joint stays. -/
theorem map_zipWith_setJoint {β : Type} {g : Waypoint K → β} {joint : ℕ}
    (hg : ∀ w x, g (w.setJoint joint x) = g w) {ws : List (Waypoint K)} {xs : List K}
    (h : ws.length ≤ xs.length) :
    (List.zipWith (fun w x => w.setJoint joint x) ws xs).map g = ws.map g := by
  induction ws generalizing xs with
  | nil => rfl
  | cons w ws ih =>
    cases xs with
    | nil => exact absurd h (Nat.not_succ_le_zero _)
    | cons x xs => exact congrArg₂ List.cons (hg w x) (ih (Nat.le_of_succ_le_succ h))

theorem column_zipWith_setJoint {joint : ℕ} {ws : List (Waypoint K)} {raw xs : List K}
    (hraw : column joint (ws.map Waypoint.state) = raw.map some) (h : xs.length = raw.length) :
    column joint ((List.zipWith (fun w x => w.setJoint joint x) ws xs).map Waypoint.state)
      = xs.map some := by
  induction ws generalizing raw xs with
  | nil =>
    obtain rfl : raw = [] := List.map_eq_nil_iff.mp hraw.symm
    obtain rfl := List.length_eq_zero_iff.mp h
    rfl
  | cons w ws ih =>
    cases raw with
    | nil => exact nomatch hraw
    | cons x raw =>
      obtain ⟨y, xs, rfl⟩ := List.exists_cons_of_length_eq_add_one h
      obtain ⟨hw, hws⟩ := List.cons.inj hraw
      exact congrArg₂ List.cons (getElem?_setJoint hw y) (ih hws (Nat.succ.inj h))

namespace Seam

theorem map_writeColumn {β : Type} {g : Waypoint K → β} {joint : ℕ}
    (hg : ∀ w x, g (w.setJoint joint x) = g w) {ws : List (Waypoint K)} {xs : List K}
    (h : ws.length ≤ xs.length) : (writeColumn joint xs ws).map g = ws.map g := by
  cases ws with
  | nil => rfl
  | cons w ws =>
    refine congrArg (g w :: ·) (map_zipWith_setJoint hg ?_)
    rw [List.length_tail]
    exact Nat.le_sub_one_of_lt h

/-- The column that is read next is the one that has been written, if it starts as before. -/
theorem column_writeColumn {joint : ℕ} {ws : List (Waypoint K)} {raw xs : List K}
    (hraw : column joint (ws.map Waypoint.state) = raw.map some) (hlength : xs.length = raw.length)
    (hhead : xs.head? = raw.head?) :
    column joint ((writeColumn joint xs ws).map Waypoint.state) = xs.map some := by
  cases ws with
  | nil =>
    obtain rfl : raw = [] := List.map_eq_nil_iff.mp hraw.symm
    obtain rfl := List.length_eq_zero_iff.mp hlength
    rfl
  | cons w ws =>
    cases raw with
    | nil => exact nomatch hraw
    | cons x raw =>
      obtain ⟨y, xs, rfl⟩ := List.exists_cons_of_length_eq_add_one hlength
      obtain rfl := Option.some.inj hhead
      obtain ⟨hw, hws⟩ := List.cons.inj hraw
      exact congrArg₂ List.cons hw (column_zipWith_setJoint hws (Nat.succ.inj hlength))

/-- Other columns stay. -/
theorem column_writeColumn_of_ne {joint i : ℕ} (hi : i ≠ joint) {ws : List (Waypoint K)}
    {xs : List K} (h : ws.length ≤ xs.length) :
    column i ((writeColumn joint xs ws).map Waypoint.state)
      = column i (ws.map Waypoint.state) := by
  rw [column, column, List.map_map, List.map_map]
  exact map_writeColumn (fun w x => getElem?_setJoint_of_ne w hi x) h

theorem writeColumn_onlyMoved {joint : ℕ} {ws : List (Waypoint K)} {xs : List K}
    (h : ws.length ≤ xs.length) : OnlyMoved ws (writeColumn joint xs ws) where
  head := by cases ws <;> rfl
  unplaced := map_writeColumn (fun w x => w.unplaced_setJoint joint x) h

theorem writeColumn_shaped {joint n : ℕ} {ws : List (Waypoint K)} {xs : List K}
    (h : ws.length ≤ xs.length) (hws : ShapedAs n ws) : ShapedAs n (writeColumn joint xs ws) := by
  rw [shapedAs_iff, map_writeColumn (fun w x => setJoint_checkJointCount w joint x n) h,
    ← shapedAs_iff]
  exact hws

end Seam

end Columns

/-! ## Filtering a column -/

theorem LowPass.exists_create {c : K} :
    (∃ f, LowPass.create c = .ok f) ↔ isFinite c = true ∧ 1.0 ≤ c := by
  simp only [create, bind_eq_ok, pure_eq_ok, ensure_eq_ok, exists_const, Bool.and_eq_true,
    decide_eq_true_eq, exists_and_left, exists_eq', and_true]

theorem LowPass.length_outputs (f : LowPass K) (xs : List K) :
    (f.outputs xs).length = xs.length := by
  induction xs generalizing f with
  | nil => rfl
  | cons x xs ih => exact congrArg (· + 1) (ih (f.step x))

/-- A joint that is filtered stays where it starts. -/
theorem filterJoint_ok {raw : List K} {bound coefficient : K} {f : FilteredJoint K}
    (h : filterJoint raw bound coefficient = .ok f) :
    f.positions.length = raw.length ∧ f.positions.head? = raw.head? := by
  obtain ⟨filter, -, h⟩ := bind_eq_ok.mp h
  obtain rfl := pure_eq_ok.mp h
  cases raw with
  | nil => exact ⟨rfl, rfl⟩
  | cons x raw => exact ⟨congrArg (· + 1) (LowPass.length_outputs _ raw), rfl⟩

theorem filterJoint_coefficient {raw : List K} {bound c : K} {f : FilteredJoint K}
    (h : filterJoint raw bound c = .ok f) : f.coefficient = c := by
  obtain ⟨filter, -, h⟩ := bind_eq_ok.mp h
  obtain rfl := pure_eq_ok.mp h
  rfl

/-- What is kept is the result for the first coefficient without failures, or else for the last. -/
theorem filterUntilClean_first {raw : List K} {bound : K} {cs : List K} {f : FilteredJoint K}
    (h : filterUntilClean raw bound cs = .ok (some f)) :
    filterJoint raw bound f.coefficient = .ok f ∧ ∃ before after,
      cs = before ++ f.coefficient :: after
        ∧ (∀ c ∈ before, ∃ g, filterJoint raw bound c = .ok g ∧ g.failures ≠ 0)
        ∧ (f.failures = 0 ∨ after = []) := by
  induction cs with
  | nil => exact nomatch h
  | cons c cs ih =>
    cases cs with
    | nil =>
      obtain ⟨g, hg, h⟩ := bind_eq_ok.mp h
      obtain rfl := Option.some.inj (pure_eq_ok.mp h)
      obtain rfl := filterJoint_coefficient hg
      exact ⟨hg, [], [], rfl, nofun, .inr rfl⟩
    | cons c' cs =>
      obtain ⟨g, hg, h⟩ := bind_eq_ok.mp h
      split_ifs at h with hclean
      · obtain rfl := Option.some.inj (pure_eq_ok.mp h)
        obtain rfl := filterJoint_coefficient hg
        exact ⟨hg, [], c' :: cs, rfl, nofun, .inl hclean⟩
      · obtain ⟨hf, before, after, hcs, hbefore, hfirst⟩ := ih h
        exact ⟨hf, c :: before, after, congrArg (c :: ·) hcs,
          List.forall_mem_cons.mpr ⟨⟨g, hg, hclean⟩, hbefore⟩, hfirst⟩

namespace Seam

variable {s : Seam K} {limits : Limits K} {timeStep : K}

/-- There is one coefficient without adaptation, and a schedule of them with it. -/
theorem filter_cases {raw : List K} {bound : K} {f : FilteredJoint K}
    (h : s.filter raw bound = .ok f) :
    s.settings.mode = .detectOnly ∧ filterJoint raw bound s.settings.coefficient = .ok f
      ∨ s.settings.mode = .adaptive ∧ filterUntilClean raw bound (coefficientSchedule
        s.settings.coefficient s.settings.growth s.settings.maxCoefficient) = .ok (some f) := by
  rw [filter] at h
  cases hmode : s.settings.mode with
  | detectOnly =>
    rw [hmode] at h
    exact .inl ⟨rfl, h⟩
  | adaptive =>
    rw [hmode] at h
    obtain ⟨o, ho, h⟩ := bind_eq_ok.mp h
    cases o with
    | none => exact nomatch h
    | some f' =>
      obtain rfl := pure_eq_ok.mp h
      exact .inr ⟨rfl, ho⟩

/-- In either mode the answer is the raw column, filtered with some coefficient. -/
theorem filter_ok {raw : List K} {bound : K} {f : FilteredJoint K}
    (h : s.filter raw bound = .ok f) : ∃ c, filterJoint raw bound c = .ok f := by
  rcases filter_cases h with ⟨-, h⟩ | ⟨-, h⟩
  · exact ⟨_, h⟩
  · exact ⟨_, (filterUntilClean_first h).1⟩

theorem filterColumn_ok {joint : ℕ} {ws : List (Waypoint K)} {f : FilteredJoint K}
    (h : s.filterColumn limits timeStep joint ws = .ok f) : ∃ raw bound,
      column joint (ws.map Waypoint.state) = raw.map some
        ∧ limits.maxDisplacement joint timeStep = .ok bound ∧ s.filter raw bound = .ok f := by
  obtain ⟨raw, hraw, h⟩ := bind_eq_ok.mp h
  obtain ⟨bound, hbound, h⟩ := bind_eq_ok.mp h
  refine ⟨raw, bound, ?_, (mapError_ok _ _).mp hbound, (mapError_ok _ _).mp h⟩
  have hentries := mapM_eq_ok.mp ((mapError_ok _ _).mp hraw)
  simp only [entry_eq_ok] at hentries
  rw [column, List.map_map, ← List.forall₂_eq_eq_eq, List.forall₂_map_left_iff,
    List.forall₂_map_right_iff]
  exact hentries

theorem length_le_of_filterColumn {joint : ℕ} {ws : List (Waypoint K)} {f : FilteredJoint K}
    (h : s.filterColumn limits timeStep joint ws = .ok f) : ws.length ≤ f.positions.length := by
  obtain ⟨raw, bound, hraw, -, hf⟩ := filterColumn_ok h
  obtain ⟨c, hc⟩ := filter_ok hf
  have hcount := congrArg List.length hraw
  rw [column, List.length_map, List.length_map, List.length_map] at hcount
  exact (hcount.trans (filterJoint_ok hc).1.symm).le

/-- The coefficient of a filter has been accepted. -/
theorem coefficient_of_create {settings : SeamSettings K} (h : Seam.create settings = .ok s) :
    isFinite settings.coefficient = true ∧ 1.0 ≤ settings.coefficient := by
  obtain ⟨filter, hfilter, -⟩ := bind_eq_ok.mp h
  exact LowPass.exists_create.mp ⟨filter, hfilter⟩

/-! ## All joints -/

/-- What filtering `n` joints, from number `joint` on, makes of the waypoints `ws`. -/
structure Filtered (s : Seam K) (limits : Limits K) (timeStep : K) (joint n : ℕ)
    (ws ws' : List (Waypoint K)) (fs : List (FilteredJoint K)) : Prop where
  length : fs.length = n
  moved : OnlyMoved ws ws'
  shaped {m : ℕ} : ShapedAs m ws → ShapedAs m ws'
  /-- The joints before are left alone. -/
  kept {i : ℕ} : i < joint → column i (ws'.map Waypoint.state) = column i (ws.map Waypoint.state)
  /-- Each of the `n` joints has the positions of the filter, which has read it from `ws`. -/
  columns {k : ℕ} {f : FilteredJoint K} : fs[k]? = some f → ∃ raw bound,
    column (joint + k) (ws.map Waypoint.state) = raw.map some
      ∧ limits.maxDisplacement (joint + k) timeStep = .ok bound ∧ s.filter raw bound = .ok f
      ∧ column (joint + k) (ws'.map Waypoint.state) = f.positions.map some

theorem filtered_of_filterJoints {n joint : ℕ} {ws ws' : List (Waypoint K)}
    {fs : List (FilteredJoint K)}
    (h : s.filterJoints limits timeStep n joint ws = (ws', .ok fs)) :
    Filtered s limits timeStep joint n ws ws' fs := by
  induction n generalizing joint ws fs with
  | zero =>
    obtain ⟨rfl, hfs⟩ := Prod.mk.inj h
    obtain rfl := Except.ok.inj hfs
    exact ⟨rfl, .refl ws, id, fun _ => rfl, nofun⟩
  | succ n ih =>
    rw [filterJoints] at h
    cases hcolumn : s.filterColumn limits timeStep joint ws with
    | error e =>
      rw [hcolumn] at h
      exact nomatch (Prod.mk.inj h).2
    | ok f =>
      obtain ⟨raw, bound, hraw, hbound, hf⟩ := filterColumn_ok hcolumn
      obtain ⟨c, hc⟩ := filter_ok hf
      obtain ⟨hlength, hhead⟩ := filterJoint_ok hc
      have hle := length_le_of_filterColumn hcolumn
      obtain ⟨⟨ws₁, rest⟩, hrest⟩ : ∃ r, s.filterJoints limits timeStep n (joint + 1)
          (writeColumn joint f.positions ws) = r := ⟨_, rfl⟩
      simp only [hcolumn, hrest] at h
      obtain ⟨rfl, hfs⟩ := Prod.mk.inj h
      cases rest with
      | error e => exact nomatch hfs
      | ok fs' =>
        obtain rfl := Except.ok.inj hfs
        have hih := ih hrest
        refine ⟨congrArg (· + 1) hih.length, (writeColumn_onlyMoved hle).trans hih.moved,
          fun hws => hih.shaped (writeColumn_shaped hle hws), fun {i} hi => ?_, fun {k f'} hk => ?_⟩
        · rw [hih.kept (Nat.lt_succ_of_lt hi), column_writeColumn_of_ne hi.ne hle]
        · cases k with
          | zero =>
            obtain rfl := Option.some.inj hk
            exact ⟨raw, bound, hraw, hbound, hf, (hih.kept (Nat.lt_succ_self joint)).trans
              (column_writeColumn hraw hlength hhead)⟩
          | succ k =>
            obtain ⟨raw', bound', hraw', hrest'⟩ := hih.columns hk
            rw [column_writeColumn_of_ne (by omega) hle] at hraw'
            rw [Nat.add_right_comm] at hraw' hrest'
            exact ⟨raw', bound', hraw', hrest'⟩

/-- **What the seam filter leaves**: every joint is filtered on its own, and nothing else
changes. -/
theorem filtered_of_applyAt {t t' : Trajectory K} {seams : SeamReport K} (hne : t.waypoints ≠ [])
    (h : s.applyAt limits timeStep t = (t', .ok seams)) :
    t'.group = t.group ∧ t'.joints = t.joints ∧ ∃ fs,
      Filtered s limits timeStep 0 t.jointCount t.waypoints t'.waypoints fs
        ∧ seams = ⟨fs.map FilteredJoint.failures, fs.map FilteredJoint.coefficient⟩ := by
  have hempty : ¬t.waypoints.isEmpty = true := by simpa using hne
  rw [applyAt] at h
  dsimp only at h
  split_ifs at h with hcount
  · exact nomatch (Prod.mk.inj h).2
  · obtain ⟨⟨ws', joints⟩, hjoints⟩ : ∃ r, s.filterJoints limits timeStep t.jointCount 0
        t.waypoints = r := ⟨_, rfl⟩
    rw [hjoints] at h
    obtain ⟨rfl, hseams⟩ := Prod.mk.inj h
    cases joints with
    | error e => exact nomatch hseams
    | ok fs =>
      exact ⟨rfl, rfl, fs, filtered_of_filterJoints hjoints, (Except.ok.inj hseams).symm⟩

/-! ## No failure -/

/-- A coefficient that is accepted will do for every column. -/
theorem exists_filterJoint {coefficient : K} (h : ∃ filter, LowPass.create coefficient = .ok filter)
    (raw : List K) (bound : K) : ∃ f, filterJoint raw bound coefficient = .ok f := by
  obtain ⟨filter, hfilter⟩ := h
  exact ⟨_, bind_eq_ok.mpr ⟨filter, hfilter, rfl⟩⟩

section Total

variable {m : ℕ} (hlimits : limits.Shaped m)

include hlimits

variable (s timeStep) in
/-- With one entry per joint, a column is read and has a bound. So what becomes of it depends on the
filter only. -/
theorem filterColumn_eq {joint : ℕ} (hjoint : joint < m) {ws : List (Waypoint K)}
    (hws : ShapedAs m ws) : ∃ raw bound,
      s.filterColumn limits timeStep joint ws = (s.filter raw bound).mapError .error := by
  obtain ⟨raw, hraw⟩ : ∃ raw, ws.mapM (fun w => entry w.state.position joint) = .ok raw := by
    refine exists_mapM_eq_ok fun w hw => ⟨_, entry_eq_ok.mpr (List.getElem?_eq_getElem ?_)⟩
    exact (State.checkJointCount_eq_ok.mp (hws w hw)).1.symm ▸ hjoint
  obtain ⟨l, hl⟩ := Limits.joint_ok hlimits hjoint
  obtain ⟨bound, hbound⟩ : ∃ bound, limits.maxDisplacement joint timeStep = .ok bound :=
    ⟨_, bind_eq_ok.mpr ⟨l, hl, rfl⟩⟩
  refine ⟨raw, bound, ?_⟩
  rw [filterColumn, hraw, hbound]
  rfl

theorem filterJoints_faultless {n joint : ℕ} (hjoint : joint + n ≤ m) {ws : List (Waypoint K)}
    (hws : ShapedAs m ws) : Faultless (s.filterJoints limits timeStep n joint ws).2 := by
  induction n generalizing joint ws with
  | zero => exact .ok []
  | succ n ih =>
    obtain ⟨raw, bound, hcolumn⟩ :=
      filterColumn_eq s timeStep hlimits (show joint < m by omega) hws
    cases hf : s.filterColumn limits timeStep joint ws with
    | error e =>
      simp only [filterJoints, hf]
      rw [hcolumn] at hf
      exact .mk fun he => Except.error.inj he ▸
        (ErrsIn.mapError (fun e => ⟨e, rfl⟩) (s.filter raw bound)).of_error hf
    | ok f =>
      have hws' : ShapedAs m (writeColumn joint f.positions ws) :=
        writeColumn_shaped (length_le_of_filterColumn hf) hws
      have hrest := ih (show joint + 1 + n ≤ m by omega) hws'
      simp only [filterJoints, hf]
      cases hfs : (s.filterJoints limits timeStep n (joint + 1)
          (writeColumn joint f.positions ws)).2 with
      | error e => exact .mk fun he => Except.error.inj he ▸ hrest.of_error hfs
      | ok fs => exact .ok _

/-- **The seam filter does not fault** on a trajectory of the right shape. -/
theorem applyAt_faultless {t : Trajectory K} (hm : t.jointCount = m)
    (hws : ShapedAs m t.waypoints) : Faultless (s.applyAt limits timeStep t).2 := by
  subst hm
  have hjoints : Faultless (s.filterJoints limits timeStep t.jointCount 0 t.waypoints).2 :=
    filterJoints_faultless hlimits (zero_add t.jointCount).le hws
  rw [applyAt]
  dsimp only
  split_ifs
  · exact .mk fun he => Except.error.inj he ▸ ⟨_, rfl⟩
  · exact .ok _
  · cases hfs : (s.filterJoints limits timeStep t.jointCount 0 t.waypoints).2 with
    | error e => exact .mk fun he => Except.error.inj he ▸ hjoints.of_error hfs
    | ok fs => exact .ok _

variable (hfilter : ∀ raw bound, ∃ f, s.filter raw bound = .ok f)

include hfilter

theorem exists_filterColumn {joint : ℕ} (hjoint : joint < m) {ws : List (Waypoint K)}
    (hws : ShapedAs m ws) : ∃ f, s.filterColumn limits timeStep joint ws = .ok f := by
  obtain ⟨raw, bound, hcolumn⟩ := filterColumn_eq s timeStep hlimits hjoint hws
  obtain ⟨f, hf⟩ := hfilter raw bound
  exact ⟨f, hcolumn.trans ((mapError_ok _ _).mpr hf)⟩

theorem exists_filterJoints {n joint : ℕ} (hjoint : joint + n ≤ m) {ws : List (Waypoint K)}
    (hws : ShapedAs m ws) :
    ∃ ws' fs, s.filterJoints limits timeStep n joint ws = (ws', .ok fs) := by
  induction n generalizing joint ws with
  | zero => exact ⟨ws, [], rfl⟩
  | succ n ih =>
    obtain ⟨f, hf⟩ : ∃ f, s.filterColumn limits timeStep joint ws = .ok f :=
      exists_filterColumn hlimits hfilter (by omega) hws
    have hws' : ShapedAs m (writeColumn joint f.positions ws) :=
      writeColumn_shaped (length_le_of_filterColumn hf) hws
    obtain ⟨ws', fs, hrest⟩ := ih (show joint + 1 + n ≤ m by omega) hws'
    refine ⟨ws', f :: fs, ?_⟩
    simp only [filterJoints, hf, hrest]
    rfl

/-- **The seam filter does not fail** on a trajectory of the right shape, unless a column cannot be
filtered. -/
theorem exists_applyAt {t : Trajectory K} (hm : t.jointCount = m) (hws : ShapedAs m t.waypoints) :
    ∃ t' seams, s.applyAt limits timeStep t = (t', .ok seams) := by
  subst hm
  obtain ⟨ws', fs, hfs⟩ : ∃ ws' fs, s.filterJoints limits timeStep t.jointCount 0 t.waypoints
      = (ws', .ok fs) := exists_filterJoints hlimits hfilter (zero_add t.jointCount).le hws
  have hcount : ¬limits.jointCount ≠ t.jointCount := not_not.mpr hlimits.velocity
  rw [applyAt]
  dsimp only
  rw [if_neg hcount, hfs]
  split_ifs
  · exact ⟨_, _, rfl⟩
  · exact ⟨_, _, rfl⟩

end Total

end Seam

end JerkLimit

import Mathlib
import JerkLimit.Settings

/-!
# Proofs/Overrides — what settings make of a trajectory's joints

Overrides are applied one after the other, each to the first joint of its name. So a joint that is
the first of its name ends up with what was **last set** for it, field by field (`Joint.merged`),
and no other joint changes. `Settings.applyTo_merges` says so of whole trajectories, and that
applying the same settings again changes nothing.
-/

namespace JerkLimit

variable {K α : Type}

/-! ## What was last set -/

/-- What the last override of a name that sets a field has set it to. -/
def lastSet (os : List (JointOverride K)) (name : String) (field : JointOverride K → Option α) :
    Option α :=
  ((os.filter (·.name = name)).filterMap field).getLast?

/-- A joint with every field as it was last set, or as it was. -/
def Joint.merged (os : List (JointOverride K)) (j : Joint K) : Joint K :=
  { name := j.name
    kind := (lastSet os j.name (·.kind)).getD j.kind
    bounds :=
      { velocity := (lastSet os j.name (·.bounds.velocity)).or j.bounds.velocity
        acceleration := (lastSet os j.name (·.bounds.acceleration)).or j.bounds.acceleration
        jerk := (lastSet os j.name (·.bounds.jerk)).or j.bounds.jerk } }

theorem lastSet_concat_of_ne {os : List (JointOverride K)} {o : JointOverride K} {name : String}
    (h : name ≠ o.name) (field : JointOverride K → Option α) :
    lastSet (os ++ [o]) name field = lastSet os name field := by
  simp [lastSet, List.filter_append, h.symm]

theorem lastSet_concat_self (os : List (JointOverride K)) (o : JointOverride K)
    (field : JointOverride K → Option α) :
    lastSet (os ++ [o]) o.name field = (field o).or (lastSet os o.name field) := by
  cases h : field o <;> simp [lastSet, List.filter_append, h]

namespace Joint

variable {os : List (JointOverride K)} {o : JointOverride K}

@[simp] theorem name_merged (os : List (JointOverride K)) (j : Joint K) :
    (j.merged os).name = j.name := rfl

/-- One more override of another name is of no concern to a joint. -/
theorem merged_concat_of_ne {j : Joint K} (h : j.name ≠ o.name) :
    j.merged (os ++ [o]) = j.merged os := by
  simp only [merged, lastSet_concat_of_ne h]

/-- One more override of its own name is applied to what the others made of a joint. -/
theorem merged_concat_self {j : Joint K} (h : j.name = o.name) :
    j.merged (os ++ [o]) = o.applyTo (j.merged os) := by
  simp only [merged, JointOverride.applyTo, Bounds.override, h, lastSet_concat_self]
  cases o.kind <;> simp [Option.or_assoc]

/-- Merging twice is merging once. -/
theorem merged_merged (os : List (JointOverride K)) (j : Joint K) :
    (j.merged os).merged os = j.merged os := by
  have hor {β : Type} (x y : Option β) : x.or (x.or y) = x.or y := by
    rw [← Option.or_assoc, Option.or_self]
  have hgetD {β : Type} (x : Option β) (y : β) : x.getD (x.getD y) = x.getD y := by
    cases x <;> rfl
  rw [merged, name_merged]
  simp only [merged, hor, hgetD]

end Joint

/-! ## The first joint of a name -/

/-- Whether a joint is the first one of its name, that is, none of those before it has that
name. -/
def IsFirst (js : List (Joint K)) (i : ℕ) (j : Joint K) : Prop :=
  ∀ k < i, ∀ j', js[k]? = some j' → j'.name ≠ j.name

/-- What was there before a list of joints was gone through counts for the joints in it. -/
theorem isFirst_cons {j₀ j : Joint K} {js : List (Joint K)} {i : ℕ} :
    IsFirst (j₀ :: js) (i + 1) j ↔ j₀.name ≠ j.name ∧ IsFirst js i j := by
  constructor
  · exact fun h => ⟨h 0 (Nat.succ_pos i) j₀ rfl, fun k hk j' => h (k + 1) (Nat.succ_lt_succ hk) j'⟩
  · rintro ⟨h₀, h⟩ k hk j' hj'
    cases k with
    | zero => exact Option.some.inj hj' ▸ h₀
    | succ k => exact h k (Nat.lt_of_succ_lt_succ hk) j' hj'

/-- Only the names count. -/
theorem isFirst_congr {js js' : List (Joint K)} {j j' : Joint K} {i : ℕ}
    (hnames : js'.map Joint.name = js.map Joint.name) (hname : j'.name = j.name) :
    IsFirst js' i j' ↔ IsFirst js i j := by
  have hlookup (l : List (Joint K)) (x : Joint K) :
      IsFirst l i x ↔ ∀ k < i, (l.map Joint.name)[k]? ≠ some x.name := by
    simp only [IsFirst, List.getElem?_map, ne_eq, Option.map_eq_some_iff, not_exists, not_and]
  rw [hlookup, hlookup, hnames, hname]

namespace JointOverride

variable {o : JointOverride K} {js : List (Joint K)}

theorem names_applyToFirst (o : JointOverride K) (js : List (Joint K)) :
    (o.applyToFirst js).map Joint.name = js.map Joint.name := by
  induction js with
  | nil => rfl
  | cons j js ih =>
    rw [applyToFirst]
    split_ifs with h
    · rfl
    · exact congrArg (j.name :: ·) ih

/-- **One override** reaches a joint if both have one name and no joint before has it. -/
theorem getElem?_applyToFirst {i : ℕ} {j : Joint K} (hj : js[i]? = some j) :
    (j.name = o.name ∧ IsFirst js i j → (o.applyToFirst js)[i]? = some (o.applyTo j))
      ∧ (¬(j.name = o.name ∧ IsFirst js i j) → (o.applyToFirst js)[i]? = some j) := by
  induction js generalizing i with
  | nil => exact nomatch hj
  | cons j₀ js ih =>
    rw [applyToFirst]
    cases i with
    | zero =>
      obtain rfl := Option.some.inj hj
      have hfirst : IsFirst (j₀ :: js) 0 j₀ := fun k hk => absurd hk (Nat.not_lt_zero k)
      split_ifs with h
      · exact ⟨fun _ => rfl, fun hnot => absurd ⟨h, hfirst⟩ hnot⟩
      · exact ⟨fun hyes => absurd hyes.1 h, fun _ => rfl⟩
    | succ i =>
      rw [isFirst_cons]
      split_ifs with h
      · -- The override ends here, and a later joint of its name is not the first one.
        exact ⟨fun ⟨hname, hne, _⟩ => absurd (h.trans hname.symm) hne, fun _ => hj⟩
      · refine ⟨fun ⟨hname, _, hfirst⟩ => (ih hj).1 ⟨hname, hfirst⟩, fun hnot => (ih hj).2 ?_⟩
        exact fun ⟨hname, hfirst⟩ => hnot ⟨hname, fun heq => h (heq.trans hname), hfirst⟩

end JointOverride

/-! ## All overrides -/

/-- The overrides of a list, in order. -/
def overrideAll (os : List (JointOverride K)) (js : List (Joint K)) : List (Joint K) :=
  os.foldl (fun js o => o.applyToFirst js) js

theorem overrideAll_concat (os : List (JointOverride K)) (o : JointOverride K)
    (js : List (Joint K)) : overrideAll (os ++ [o]) js = o.applyToFirst (overrideAll os js) :=
  List.foldl_concat ..

theorem names_overrideAll (os : List (JointOverride K)) (js : List (Joint K)) :
    (overrideAll os js).map Joint.name = js.map Joint.name := by
  induction os using List.reverseRecOn with
  | nil => rfl
  | append_singleton os o ih =>
    rw [overrideAll_concat, o.names_applyToFirst, ih]

/-- **What all overrides make of a joint:** the first one of its name is merged, the others stay. -/
theorem getElem?_overrideAll (os : List (JointOverride K)) {js : List (Joint K)} {i : ℕ}
    {j : Joint K} (hj : js[i]? = some j) :
    (IsFirst js i j → (overrideAll os js)[i]? = some (j.merged os))
      ∧ (¬IsFirst js i j → (overrideAll os js)[i]? = some j) := by
  induction os using List.reverseRecOn with
  | nil => exact ⟨fun _ => hj, fun _ => hj⟩
  | append_singleton os o ih =>
    rw [overrideAll_concat]
    have hnames := names_overrideAll os js
    constructor
    · intro hfirst
      have hmerged := ih.1 hfirst
      have hfirst' := (isFirst_congr hnames (j.name_merged os)).mpr hfirst
      by_cases hname : j.name = o.name
      · rw [(JointOverride.getElem?_applyToFirst hmerged).1 ⟨hname, hfirst'⟩,
          Joint.merged_concat_self hname]
      · rw [(JointOverride.getElem?_applyToFirst hmerged).2 fun h => hname h.1,
          Joint.merged_concat_of_ne hname]
    · intro hlater
      have hlater' : ¬IsFirst (overrideAll os js) i j :=
        mt (isFirst_congr hnames rfl).mp hlater
      exact (JointOverride.getElem?_applyToFirst (ih.2 hlater)).2 fun h => hlater' h.2

/-- Three overrides of one name, two of them with a velocity, and two joints of that name. -/
example : overrideAll (K := ℕ)
    [⟨"a", none, { velocity := some 1 }⟩, ⟨"a", some .continuous, { jerk := some 3 }⟩,
      ⟨"a", none, { velocity := some 2 }⟩]
    [{ name := "a" }, { name := "a" }]
      = [⟨"a", .continuous, ⟨some 2, none, some 3⟩⟩, { name := "a" }] := rfl

/-- Overriding twice is overriding once. -/
theorem overrideAll_overrideAll (os : List (JointOverride K)) (js : List (Joint K)) :
    overrideAll os (overrideAll os js) = overrideAll os js := by
  have hnames := names_overrideAll os js
  refine List.ext_getElem? fun i => ?_
  cases hj : js[i]? with
  | none =>
    have hlength (l : List (Joint K)) (hl : l.map Joint.name = js.map Joint.name) :
        l[i]? = none := by
      have hlen : l.length = js.length := by simpa using congrArg List.length hl
      exact List.getElem?_eq_none (hlen ▸ List.getElem?_eq_none_iff.mp hj)
    rw [hlength _ hnames, hlength _ ((names_overrideAll os _).trans hnames)]
  | some j =>
    by_cases hfirst : IsFirst js i j
    · have hmerged := (getElem?_overrideAll os hj).1 hfirst
      have hfirst' := (isFirst_congr hnames (j.name_merged os)).mpr hfirst
      rw [(getElem?_overrideAll os hmerged).1 hfirst', hmerged, Joint.merged_merged]
    · have hstays := (getElem?_overrideAll os hj).2 hfirst
      have hlater := mt (isFirst_congr hnames rfl).mp hfirst
      rw [(getElem?_overrideAll os hstays).2 hlater, hstays]

namespace Settings

/-- `t'` is `t` with the group and the overrides of the settings. -/
structure Merged (s : Settings K) (t t' : Trajectory K) : Prop where
  group : t'.group = t.group.or s.group
  waypoints : t'.waypoints = t.waypoints
  names : t'.joints.map Joint.name = t.joints.map Joint.name
  /-- The first joint of a name has every field as it was last set. -/
  first {i : ℕ} {j : Joint K} (hj : t.joints[i]? = some j) (hfirst : IsFirst t.joints i j) :
    t'.joints[i]? = some (j.merged s.joints)
  later {i : ℕ} {j : Joint K} (hj : t.joints[i]? = some j) (hlater : ¬IsFirst t.joints i j) :
    t'.joints[i]? = some j

/-- **Settings are merged into a trajectory field by field**, the last override of a field counts,
and doing it twice is doing it once. -/
theorem applyTo_merges (s : Settings K) (t : Trajectory K) :
    s.Merged t (s.applyTo t) ∧ s.applyTo (s.applyTo t) = s.applyTo t := by
  refine ⟨?_, ?_⟩
  · exact {
      group := Option.orElse_eq_or
      waypoints := rfl
      names := names_overrideAll s.joints t.joints
      first := fun hj => (getElem?_overrideAll s.joints hj).1
      later := fun hj => (getElem?_overrideAll s.joints hj).2 }
  · have hjoints := overrideAll_overrideAll s.joints t.joints
    have hgroup : ((t.group <|> s.group) <|> s.group) = (t.group <|> s.group) := by
      cases t.group <;> cases s.group <;> rfl
    exact congrArg₂ (fun g js => Trajectory.mk g js t.waypoints) hgroup hjoints

end Settings

end JerkLimit

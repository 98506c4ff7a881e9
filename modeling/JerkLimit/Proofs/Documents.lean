import Mathlib
import JerkLimit.Archive
import JerkLimit.Proofs.Json.Reader
import JerkLimit.Proofs.Shape

/-!
# Proofs/Documents — a trajectory is read from its document

A document that leaves fields out is read as a trajectory that has them, so writing and reading are
inverse on one side only: what was read is written in full, and the full document is read as the
same trajectory (`Trajectory.accept_toDocument`). What can be written in full is `Storable`: shaped
states, and finite numbers throughout. Every accepted document describes such a trajectory
(`Trajectory.storable_of_accept`).
-/

namespace JerkLimit

/-! ## Parts of documents -/

namespace Json.Value

variable {α β γ : Type}

theorem mapM_map_eq_some {f : α → β} {g : β → Option γ} {k : α → γ} {xs : List α}
    (h : ∀ x ∈ xs, g (f x) = some (k x)) : (xs.map f).mapM g = some (xs.map k) := by
  induction xs with
  | nil => rfl
  | cons x xs ih =>
    obtain ⟨hx, hxs⟩ := List.forall_mem_cons.mp h
    rw [List.map_cons, List.mapM_cons, hx, ih hxs]
    rfl

theorem exists_of_mapM {g : β → Option γ} {ys : List β} {zs : List γ}
    (h : ys.mapM g = some zs) : ∀ z ∈ zs, ∃ y, g y = some z := by
  induction ys generalizing zs with
  | nil =>
    obtain rfl : [] = zs := Option.some.inj h
    exact nofun
  | cons y ys ih =>
    rw [List.mapM_cons] at h
    obtain ⟨z, hz, h⟩ := Option.bind_eq_some_iff.mp h
    obtain ⟨zs', hzs, h⟩ := Option.bind_eq_some_iff.mp h
    obtain rfl : z :: zs' = zs := Option.some.inj h
    exact List.forall_mem_cons.mpr ⟨⟨y, hz⟩, ih hzs⟩

theorem list?_array_map {f : α → Value} {g : Value → Option α} {xs : List α}
    (h : ∀ x ∈ xs, g (f x) = some x) : list? g (array (xs.map f)) = some xs :=
  (mapM_map_eq_some h).trans (congrArg some (List.map_id' xs))

theorem exists_of_list? {g : Value → Option α} {v : Value} {xs : List α}
    (h : list? g v = some xs) : ∀ x ∈ xs, ∃ y, g y = some x := by
  cases v with
  | array ys => exact exists_of_mapM h
  | _ => exact nomatch h

theorem field_some (f : Value → Option α) (default : α) (v : Value) :
    field f default (some v) = f v := rfl

/-- A field that was left out has the default value. -/
theorem field_cases {f : Value → Option α} {default x : α} {v : Option Value}
    (h : field f default v = some x) : x = default ∨ ∃ y, f y = some x := by
  cases v with
  | none => exact .inl (Option.some.inj h).symm
  | some y => exact .inr ⟨y, h⟩

theorem nullable?_of_ne_null (g : Value → Option α) {v : Value} (h : v ≠ null) :
    nullable? g v = (g v).map some := by
  cases v with
  | null => exact absurd rfl h
  | _ => rfl

theorem nullable?_ofOption {f : α → Value} {g : Value → Option α} {o : Option α}
    (hnull : ∀ x ∈ o, f x ≠ null) (h : ∀ x ∈ o, g (f x) = some x) :
    nullable? g (ofOption f o) = some o := by
  cases o with
  | none => rfl
  | some x =>
    rw [ofOption, nullable?_of_ne_null g (hnull x rfl), h x rfl]
    rfl

theorem exists_of_nullable? {g : Value → Option α} {v : Value} {o : Option α}
    (h : nullable? g v = some o) : ∀ x ∈ o, ∃ y, g y = some x := by
  rintro x rfl
  cases v with
  | null => exact nomatch h
  | _ =>
    obtain ⟨y, hy, h⟩ := Option.map_eq_some_iff.mp h
    exact ⟨_, Option.some.inj h ▸ hy⟩

theorem faithful_ofOption {f : α → Value} {o : Option α} (h : ∀ x ∈ o, (f x).Faithful) :
    (ofOption f o).Faithful := by
  cases o with
  | none => trivial
  | some x => exact h x rfl

/-! ### Numbers -/

theorem ofFloat_eq {x : Float} (h : x.isFinite = true) : ofFloat x = number (some x) := if_pos h

theorem isFinite_zero : Float.isFinite 0.0 = true := by decide +kernel

theorem float?_ofFloat {x : Float} (h : x.isFinite = true) : float? (ofFloat x) = some x := by
  rw [ofFloat_eq h]
  exact Option.filter_some_pos h

theorem isFinite_of_float? {v : Value} {x : Float} (h : float? v = some x) : x.isFinite = true := by
  cases v with
  | number y => exact (Option.filter_eq_some_iff.mp h).2
  | _ => exact nomatch h

theorem faithful_ofFloat {x : Float} (h : Exact x) : (ofFloat x).Faithful := by
  rw [ofFloat]
  split_ifs
  · exact ⟨x, rfl, h⟩
  · trivial

theorem list?_ofFloats {xs : List Float} (h : ∀ x ∈ xs, x.isFinite = true) :
    list? float? (ofFloats xs) = some xs :=
  list?_array_map fun x hx => float?_ofFloat (h x hx)

theorem readable_ofFloat (depth : ℕ) (x : Float) : (ofFloat x).readable depth = true := by
  rw [ofFloat]
  split_ifs <;> rfl

theorem readable_ofFloats (depth : ℕ) (xs : List Float) :
    (ofFloats xs).readable (depth + 1) = true := by
  change readableAll depth (xs.map ofFloat) = true
  induction xs with
  | nil => rfl
  | cons x xs ih => exact Bool.and_eq_true_iff.mpr ⟨readable_ofFloat depth x, ih⟩

/-! ### Records -/

/-- The entry of a name that comes once. -/
theorem filter_fields {xs : List (String × Value)} (h : (xs.map Prod.fst).Nodup)
    {p : String × Value} (hp : p ∈ xs) :
    (xs.map fun (name, x) => (some name, x)).filter (·.1 == some p.1) = [(some p.1, p.2)] := by
  induction xs with
  | nil => exact nomatch hp
  | cons q xs ih =>
    obtain ⟨hq, hxs⟩ := List.nodup_cons.mp h
    rw [List.map_cons, List.filter_cons]
    rcases List.mem_cons.mp hp with rfl | hp
    · have hrest : (xs.map fun (name, x) => (some name, x)).filter (·.1 == some p.1) = [] := by
        refine List.filter_eq_nil_iff.mpr fun e he hkey => hq ?_
        obtain ⟨q, hq, rfl⟩ := List.mem_map.mp he
        exact List.mem_map.mpr ⟨q, hq, Option.some.inj (beq_iff_eq.mp hkey)⟩
      rw [if_pos (beq_self_eq_true _), hrest]
    · have hne : q.1 ≠ p.1 := fun heq => hq (heq ▸ List.mem_map_of_mem hp)
      rw [if_neg fun hkey => hne (Option.some.inj (beq_iff_eq.mp hkey)), ih hxs hp]

theorem lookup_fields {xs : List (String × Value)} {names : List String}
    (hnames : xs.map Prod.fst = names) (h : names.Nodup) :
    lookup names (xs.map fun (name, x) => (some name, x)) = some (xs.map fun p => some p.2) := by
  subst hnames
  have hread : (xs.map fun (name, x) => (some name, x)).all (·.1.isSome) = true := by
    rw [List.all_map]
    exact List.all_eq_true.mpr fun _ _ => rfl
  rw [lookup, if_pos hread]
  refine mapM_map_eq_some fun p hp => ?_
  rw [filter_fields h hp]

/-- The known fields of an object that has just these. -/
theorem record_fields {xs : List (String × Value)} {names : List String}
    (hnames : xs.map Prod.fst = names) (h : names.Nodup) :
    (fields xs).record names = some (xs.map fun p => some p.2) := lookup_fields hnames h

theorem faithfulAll_map {f : α → Value} {xs : List α} (h : ∀ x ∈ xs, (f x).Faithful) :
    FaithfulAll (xs.map f) := by
  induction xs with
  | nil => trivial
  | cons x xs ih =>
    obtain ⟨hx, hxs⟩ := List.forall_mem_cons.mp h
    exact ⟨hx, ih hxs⟩

theorem faithful_fields {xs : List (String × Value)} (h : ∀ p ∈ xs, p.2.Faithful) :
    (fields xs).Faithful := by
  change FaithfulFields _
  induction xs with
  | nil => trivial
  | cons p xs ih =>
    obtain ⟨hp, hxs⟩ := List.forall_mem_cons.mp h
    exact ⟨rfl, hp, ih hxs⟩

end Json.Value

open Json (Value Exact)
open Json.Value

/-! ## Bounds and joints -/

namespace Bounds

/-- The bounds that are set. -/
def numbers (b : Bounds Float) : List Float :=
  b.velocity.toList ++ (b.acceleration.toList ++ b.jerk.toList)

variable {b : Bounds Float}

theorem nullable?_float {o : Option Float} (h : ∀ x ∈ o, x.isFinite = true) :
    nullable? float? (ofOption ofFloat o) = some o :=
  nullable?_ofOption (fun x hx => ofFloat_eq (h x hx) ▸ nofun) fun x hx => float?_ofFloat (h x hx)

theorem ofDocument?_toDocument (h : ∀ x ∈ b.numbers, x.isFinite = true) :
    ofDocument? b.toDocument = some b := by
  simp only [numbers, List.mem_append, Option.mem_toList, or_imp, forall_and] at h
  obtain ⟨hv, ha, hj⟩ := h
  have hrecord : b.toDocument.record ["max_velocity", "max_acceleration", "max_jerk"]
      = some [some (ofOption ofFloat b.velocity), some (ofOption ofFloat b.acceleration),
          some (ofOption ofFloat b.jerk)] := record_fields rfl (by decide)
  simp only [ofDocument?, hrecord, Option.bind_eq_bind, Option.bind_some, field_some,
    nullable?_float hv, nullable?_float ha, nullable?_float hj]
  rfl

theorem isFinite_of_field {v : Option Value} {o : Option Float}
    (h : field (nullable? float?) none v = some o) : ∀ x ∈ o, x.isFinite = true := by
  rcases field_cases h with rfl | ⟨y, hy⟩
  · exact nofun
  · intro x hx
    obtain ⟨z, hz⟩ := exists_of_nullable? hy x hx
    exact isFinite_of_float? hz

/-- Bounds that were read are finite. -/
theorem isFinite_of_ofDocument? {v : Value} (h : ofDocument? v = some b) :
    ∀ x ∈ b.numbers, x.isFinite = true := by
  rw [ofDocument?] at h
  obtain ⟨entries, hentries, h⟩ := Option.bind_eq_some_iff.mp h
  split at h
  · rename_i velocity acceleration jerk
    obtain ⟨v, hv, h⟩ := Option.bind_eq_some_iff.mp h
    obtain ⟨a, ha, h⟩ := Option.bind_eq_some_iff.mp h
    obtain ⟨j, hj, h⟩ := Option.bind_eq_some_iff.mp h
    obtain rfl : ⟨v, a, j⟩ = b := Option.some.inj h
    simp only [numbers, List.mem_append, Option.mem_toList]
    rintro x (hx | hx | hx)
    · exact isFinite_of_field hv x hx
    · exact isFinite_of_field ha x hx
    · exact isFinite_of_field hj x hx
  · exact nomatch h

theorem faithful_toDocument (h : ∀ x ∈ b.numbers, Exact x) : b.toDocument.Faithful := by
  simp only [numbers, List.mem_append, Option.mem_toList, or_imp, forall_and] at h
  obtain ⟨hv, ha, hj⟩ := h
  refine faithful_fields ?_
  simp only [List.forall_mem_cons]
  exact ⟨faithful_ofOption fun x hx => faithful_ofFloat (hv x hx),
    faithful_ofOption fun x hx => faithful_ofFloat (ha x hx),
    faithful_ofOption fun x hx => faithful_ofFloat (hj x hx), nofun⟩

end Bounds

theorem JointKind.ofName?_name (k : JointKind) : ofName? k.name = some k := by
  cases k <;> decide +kernel

namespace Joint

variable {j : Joint Float}

theorem ofDocument?_toDocument (h : ∀ x ∈ j.bounds.numbers, x.isFinite = true) :
    ofDocument? j.toDocument = some j := by
  have hrecord : j.toDocument.record ["name", "kind", "bounds"]
      = some [some (ofText j.name), some (ofText j.kind.name), some j.bounds.toDocument] :=
    record_fields rfl (by decide)
  have hname : (ofText j.name).string? = some j.name := rfl
  have hkind : choice? JointKind.ofName? (ofText j.kind.name) = some j.kind :=
    JointKind.ofName?_name j.kind
  simp only [ofDocument?, hrecord, Option.bind_eq_bind, Option.bind_some, field_some, hname, hkind,
    Bounds.ofDocument?_toDocument h]
  rfl

theorem isFinite_of_ofDocument? {v : Value} (h : ofDocument? v = some j) :
    ∀ x ∈ j.bounds.numbers, x.isFinite = true := by
  rw [ofDocument?] at h
  obtain ⟨entries, -, h⟩ := Option.bind_eq_some_iff.mp h
  split at h
  · obtain ⟨nameEntry, -, h⟩ := Option.bind_eq_some_iff.mp h
    obtain ⟨name, -, h⟩ := Option.bind_eq_some_iff.mp h
    obtain ⟨kind, -, h⟩ := Option.bind_eq_some_iff.mp h
    obtain ⟨bounds, hbounds, h⟩ := Option.bind_eq_some_iff.mp h
    obtain rfl : ⟨name, kind, bounds⟩ = j := Option.some.inj h
    rcases field_cases hbounds with rfl | ⟨y, hy⟩
    · exact nofun
    · exact Bounds.isFinite_of_ofDocument? hy
  · exact nomatch h

theorem faithful_toDocument (h : ∀ x ∈ j.bounds.numbers, Exact x) : j.toDocument.Faithful := by
  refine faithful_fields ?_
  simp only [List.forall_mem_cons]
  exact ⟨rfl, rfl, Bounds.faithful_toDocument h, nofun⟩

end Joint

/-! ## Waypoints -/

namespace Waypoint

def numbers (w : Waypoint Float) : List Float :=
  w.duration :: (w.state.position ++ (w.state.velocity ++ w.state.acceleration))

variable {w : Waypoint Float}

/-- The fields of the document of a waypoint. -/
def entries (w : Waypoint Float) : List (Option String × Value) :=
  [("position", ofFloats w.state.position), ("velocity", ofFloats w.state.velocity),
    ("acceleration", ofFloats w.state.acceleration),
    ("duration_from_previous", ofFloat w.duration)].map fun (name, x) => (some name, x)

theorem toDocument_eq (w : Waypoint Float) : w.toDocument = .object (entries w) := rfl

theorem ofDocument?_toDocument (h : ∀ x ∈ w.numbers, x.isFinite = true) :
    ofDocument? w.toDocument = some w := by
  simp only [numbers, List.forall_mem_cons, List.forall_mem_append] at h
  obtain ⟨hd, hp, hv, ha⟩ := h
  have hlookup : lookup ["position", "velocity", "acceleration", "duration_from_previous"]
      (entries w) = some [some (ofFloats w.state.position), some (ofFloats w.state.velocity),
        some (ofFloats w.state.acceleration), some (ofFloat w.duration)] :=
    lookup_fields rfl (by decide)
  rw [toDocument_eq, ofDocument?]
  refine (if_neg ?readable).trans ?read
  case readable =>
    simp only [entries, List.map_cons, List.map_nil, List.all_cons, List.all_nil, maxDepth,
      readable_ofFloats, readable_ofFloat, Bool.or_true, Bool.and_true, Bool.not_true,
      Bool.false_eq_true, not_false_eq_true]
  case read =>
    simp only [hlookup, Option.bind_eq_bind, Option.bind_some, field_some, list?_ofFloats hp,
      list?_ofFloats hv, list?_ofFloats ha, float?_ofFloat hd]
    rfl

theorem isFinite_of_ofDocument? {v : Value} (h : ofDocument? v = some w) :
    w.duration.isFinite = true := by
  rw [ofDocument?.eq_def] at h
  split at h
  · obtain ⟨-, h⟩ := Option.ite_none_left_eq_some.mp h
    obtain ⟨entries, -, h⟩ := Option.bind_eq_some_iff.mp h
    split at h
    · obtain ⟨positionEntry, -, h⟩ := Option.bind_eq_some_iff.mp h
      obtain ⟨position, -, h⟩ := Option.bind_eq_some_iff.mp h
      obtain ⟨velocity, -, h⟩ := Option.bind_eq_some_iff.mp h
      obtain ⟨acceleration, -, h⟩ := Option.bind_eq_some_iff.mp h
      obtain ⟨duration, hduration, h⟩ := Option.bind_eq_some_iff.mp h
      obtain rfl : ⟨⟨position, velocity, acceleration⟩, duration⟩ = w := Option.some.inj h
      rcases field_cases hduration with rfl | ⟨y, hy⟩
      · exact isFinite_zero
      · exact isFinite_of_float? hy
    · exact nomatch h
  · exact nomatch h

theorem faithful_toDocument (h : ∀ x ∈ w.numbers, Exact x) : w.toDocument.Faithful := by
  simp only [numbers, List.forall_mem_cons, List.forall_mem_append] at h
  obtain ⟨hd, hp, hv, ha⟩ := h
  refine faithful_fields ?_
  simp only [List.forall_mem_cons]
  exact ⟨faithfulAll_map fun x hx => faithful_ofFloat (hp x hx),
    faithfulAll_map fun x hx => faithful_ofFloat (hv x hx),
    faithfulAll_map fun x hx => faithful_ofFloat (ha x hx), faithful_ofFloat hd, nofun⟩

end Waypoint

/-- A state of the right shape has nothing left out. -/
theorem State.fillMissing_eq_self {s : State Float} {n : ℕ} (h : s.checkJointCount n = .ok ()) :
    s.fillMissing = s := by
  obtain ⟨position, velocity, acceleration⟩ := s
  obtain ⟨hp, hv, ha⟩ := State.checkJointCount_eq_ok.mp h
  have hfill : ∀ xs : List Float, xs.length = n →
      (if xs.isEmpty then position.map fun _ => (0.0 : Float) else xs) = xs := by
    intro xs hxs
    split_ifs with hempty
    · obtain rfl := List.isEmpty_iff.mp hempty
      obtain rfl := List.length_eq_zero_iff.mp (hp.trans hxs.symm)
      rfl
    · rfl
  exact congrArg₂ (State.mk position) (hfill velocity hv) (hfill acceleration ha)

/-! ## Trajectories -/

namespace Trajectory

/-- The numbers in the document of a trajectory. -/
def numbers (t : Trajectory Float) : List Float :=
  t.bounds.flatMap Bounds.numbers ++ t.waypoints.flatMap Waypoint.numbers

/-- A trajectory that can be written in full. -/
structure Storable (t : Trajectory Float) : Prop where
  shape : t.checkShape = .ok ()
  duration : ∀ w ∈ t.waypoints, w.duration.isFinite = true
  bound : ∀ b ∈ t.bounds, ∀ x ∈ b.numbers, x.isFinite = true

variable {t : Trajectory Float}

theorem fillMissing_eq_self (h : t.checkShape = .ok ()) : t.fillMissing = t := by
  have hwaypoints : (t.waypoints.map fun w => { w with state := w.state.fillMissing })
      = t.waypoints := by
    refine (List.map_congr_left fun w hw => ?_).trans (List.map_id' t.waypoints)
    rw [State.fillMissing_eq_self (shapedAs_of_checkShapeFrom h w hw)]
  rw [fillMissing, hwaypoints]

namespace Storable

theorem isFinite_of_mem (h : t.Storable) {w : Waypoint Float} (hw : w ∈ t.waypoints) :
    ∀ x ∈ w.numbers, x.isFinite = true := by
  have hstate := isFinite_of_checkShapeFrom h.shape w hw
  simp only [State.isFinite, Bool.and_eq_true, List.all_eq_true] at hstate
  obtain ⟨⟨hp, hv⟩, ha⟩ := hstate
  simp only [Waypoint.numbers, List.forall_mem_cons, List.forall_mem_append]
  exact ⟨h.duration w hw, hp, hv, ha⟩

theorem ofDocument?_toDocument (h : t.Storable) : ofDocument? t.toDocument = some t := by
  have hrecord : t.toDocument.record ["group", "joints", "waypoints"]
      = some [some (ofOption ofText t.group), some (.array (t.joints.map Joint.toDocument)),
          some (.array (t.waypoints.map Waypoint.toDocument))] := record_fields rfl (by decide)
  have hgroup : nullable? string? (ofOption ofText t.group) = some t.group :=
    nullable?_ofOption (fun _ _ => nofun) fun _ _ => rfl
  have hjoints : list? Joint.ofDocument? (.array (t.joints.map Joint.toDocument)) = some t.joints :=
    list?_array_map fun j hj =>
      Joint.ofDocument?_toDocument (h.bound _ (List.mem_map_of_mem hj))
  have hwaypoints : list? Waypoint.ofDocument? (.array (t.waypoints.map Waypoint.toDocument))
      = some t.waypoints :=
    list?_array_map fun w hw => Waypoint.ofDocument?_toDocument (h.isFinite_of_mem hw)
  simp only [ofDocument?, hrecord, Option.bind_eq_bind, Option.bind_some, field_some, hgroup,
    hjoints, hwaypoints]
  rfl

end Storable

/-- **What was written in full is accepted as it was.** -/
theorem accept_toDocument (h : t.Storable) : accept t.toDocument = .ok t := by
  have hnormalize : t.normalize = (t, .ok ()) := by
    rw [normalize, fillMissing_eq_self h.shape, h.shape]
  rw [accept, h.ofDocument?_toDocument]
  simp only [hnormalize]

theorem isFinite_of_ofDocument? {v : Value} (h : ofDocument? v = some t) :
    (∀ w ∈ t.waypoints, w.duration.isFinite = true) ∧
      ∀ b ∈ t.bounds, ∀ x ∈ b.numbers, x.isFinite = true := by
  rw [ofDocument?] at h
  obtain ⟨entries, -, h⟩ := Option.bind_eq_some_iff.mp h
  split at h
  · obtain ⟨group, -, h⟩ := Option.bind_eq_some_iff.mp h
    obtain ⟨jointsEntry, -, h⟩ := Option.bind_eq_some_iff.mp h
    obtain ⟨joints, hjoints, h⟩ := Option.bind_eq_some_iff.mp h
    obtain ⟨waypoints, hwaypoints, h⟩ := Option.bind_eq_some_iff.mp h
    obtain rfl : ⟨group, joints, waypoints⟩ = t := Option.some.inj h
    constructor
    · intro w hw
      rcases field_cases hwaypoints with rfl | ⟨y, hy⟩
      · exact nomatch hw
      · obtain ⟨z, hz⟩ := exists_of_list? hy w hw
        exact Waypoint.isFinite_of_ofDocument? hz
    · intro b hb
      obtain ⟨j, hj, rfl⟩ := List.mem_map.mp hb
      obtain ⟨z, hz⟩ := exists_of_list? hjoints j hj
      exact Joint.isFinite_of_ofDocument? hz
  · exact nomatch h

/-- **Accepted documents describe trajectories that can be written in full.** -/
theorem storable_of_accept {v : Value} (h : accept v = .ok t) : t.Storable := by
  rw [accept] at h
  split at h
  · exact nomatch h
  · rename_i read hread
    obtain ⟨hduration, hbound⟩ := isFinite_of_ofDocument? hread
    rw [normalize] at h
    split at h
    · rename_i filled hnormalize
      obtain ⟨rfl, hshape⟩ := Prod.mk.inj hnormalize
      obtain rfl : read.fillMissing = t := Except.ok.inj h
      refine ⟨hshape, fun w hw => ?_, hbound⟩
      obtain ⟨w, hread, rfl⟩ := List.mem_map.mp hw
      exact hduration w hread
    · exact nomatch h

theorem storable_of_decode {bytes : ByteArray} (h : decode bytes = .ok t) : t.Storable := by
  rw [decode] at h
  split at h
  · exact nomatch h
  · exact storable_of_accept h

theorem faithful_toDocument (h : ∀ x ∈ t.numbers, Exact x) : t.toDocument.Faithful := by
  simp only [numbers, List.forall_mem_append, List.forall_mem_flatMap] at h
  obtain ⟨hbounds, hwaypoints⟩ := h
  refine faithful_fields ?_
  simp only [List.forall_mem_cons]
  exact ⟨faithful_ofOption fun _ _ => rfl,
    faithfulAll_map fun j hj => Joint.faithful_toDocument (hbounds _ (List.mem_map_of_mem hj)),
    faithfulAll_map fun w hw => Waypoint.faithful_toDocument (hwaypoints w hw), nofun⟩

/-- The text of a trajectory is decoded to it. -/
theorem decode_encode (h : t.Storable) (hexact : ∀ x ∈ t.numbers, Exact x) :
    decode t.encode.toUTF8 = .ok t := by
  have hread : Json.read? t.encode.toUTF8.toList = some t.toDocument :=
    Json.read_print (faithful_toDocument hexact)
  rw [decode, hread]
  exact accept_toDocument h

end Trajectory

end JerkLimit

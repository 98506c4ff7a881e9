import Mathlib
import JerkLimit.Archive
import JerkLimit.Proofs.Saved

/-!
# Proofs/Export — a table for every joint

`exportTables` writes one table after the other, so what a file holds in the end is the table of the
last joint that is written there (`Files.read_exportFrom`). Every joint has a table of its own
exactly if joints share a file only where their tables agree (`Files.exported_iff`); names that
differ and have no slash keep joints apart (`Files.apart_of_nodup`).
-/

namespace JerkLimit

/-! ## What a table says -/

/-- Lists that are related have related entries. -/
theorem forall₂_iff_getElem? {α β : Type} {R : α → β → Prop} {xs : List α} {ys : List β} :
    List.Forall₂ R xs ys ↔
      ys.length = xs.length ∧ ∀ (k : ℕ) y, ys[k]? = some y → ∃ x, xs[k]? = some x ∧ R x y := by
  rw [List.forall₂_iff_get, eq_comm]
  refine and_congr_right fun hlength => ⟨fun h k y hy => ?_, fun h k hx hy => ?_⟩
  · obtain ⟨hk, rfl⟩ := List.getElem?_eq_some_iff.mp hy
    exact ⟨_, List.getElem?_eq_getElem (hlength ▸ hk), h k (hlength ▸ hk) hk⟩
  · obtain ⟨x, hx', hR⟩ := h k _ (List.getElem?_eq_getElem hy)
    obtain ⟨_, rfl⟩ := List.getElem?_eq_some_iff.mp hx'
    exact hR

section Table

variable {K : Type} [Scalar K]

/-- The time of a waypoint: the durations after the first one, added up from 0. -/
def Trajectory.elapsed (t : Trajectory K) (k : ℕ) : K :=
  ((t.waypoints.tail.take k).map Waypoint.duration).foldl (· + ·) 0.0

/-- A row has the time of a waypoint and what the waypoint says of a joint. -/
structure Row.Describes (r : Row K) (t : Trajectory K) (joint k : ℕ) : Prop where
  time : r.time = t.elapsed k
  values : ∃ w, t.waypoints[k]? = some w ∧ w.state.position[joint]? = some r.position ∧
    w.state.velocity[joint]? = some r.velocity ∧
    w.state.acceleration[joint]? = some r.acceleration

/-- The rows of a joint: one for each waypoint, in order. -/
structure Trajectory.RowsOf (t : Trajectory K) (joint : ℕ) (rows : List (Row K)) : Prop where
  count : rows.length = t.waypointCount
  describes : ∀ (k : ℕ) r, rows[k]? = some r → Row.Describes r t joint k

theorem getElem?_timesAfter (now : K) (ws : List (Waypoint K)) (k : ℕ) :
    (timesAfter now ws)[k]? =
      ws[k]?.map fun _ => ((ws.take (k + 1)).map Waypoint.duration).foldl (· + ·) now := by
  induction ws generalizing now k with
  | nil => rfl
  | cons w ws ih =>
    cases k with
    | zero => rfl
    | succ k => exact ih (now + w.duration) k

namespace Trajectory

variable {t : Trajectory K} {joint : ℕ} {rows : List (Row K)}

theorem times_eq (t : Trajectory K) : t.times = t.waypoints.mapIdx fun k _ => t.elapsed k := by
  apply List.ext_getElem?
  intro k
  rw [List.getElem?_mapIdx, times, elapsed]
  cases t.waypoints with
  | nil => rfl
  | cons first rest =>
    cases k with
    | zero => rfl
    | succ k => exact getElem?_timesAfter 0.0 rest k

theorem length_times (t : Trajectory K) : t.times.length = t.waypointCount := by
  rw [times_eq, List.length_mapIdx, waypointCount]

theorem rows_eq_ok : t.rows joint = .ok rows ↔ t.RowsOf joint rows := by
  have hlength : (t.times.zip t.waypoints).length = t.waypointCount := by
    rw [List.length_zip, length_times, waypointCount, Nat.min_self]
  rw [Trajectory.rows, mapM_eq_ok, forall₂_iff_getElem?, hlength]
  refine ⟨fun ⟨hcount, hrows⟩ => ⟨hcount, fun k r hr => ?_⟩,
    fun ⟨hcount, hrows⟩ => ⟨hcount, fun k r hr => ?_⟩⟩
  · obtain ⟨⟨time, w⟩, hx, hrow⟩ := hrows k r hr
    obtain ⟨htime, hw⟩ := List.getElem?_zip_eq_some.mp hx
    simp only [bind_eq_ok, entry_eq_ok, pure_eq_ok] at hrow
    obtain ⟨p, hp, v, hv, a, ha, rfl⟩ := hrow
    rw [times_eq, List.getElem?_mapIdx, hw] at htime
    exact ⟨(Option.some.inj htime).symm, w, hw, hp, hv, ha⟩
  · obtain ⟨htime, w, hw, hp, hv, ha⟩ := hrows k r hr
    refine ⟨(t.elapsed k, w), List.getElem?_zip_eq_some.mpr ⟨?_, hw⟩, ?_⟩
    · rw [times_eq, List.getElem?_mapIdx, hw, Option.map_some]
    · simp only [bind_eq_ok, entry_eq_ok, pure_eq_ok]
      exact ⟨_, hp, _, hv, _, ha, by rw [← htime]⟩

end Trajectory

end Table

/-- The text of the table of a joint. -/
def Trajectory.IsTable (t : Trajectory Float) (joint : ℕ) (text : String) : Prop :=
  ∃ rows, t.RowsOf joint rows ∧ text = tableText rows

theorem Trajectory.IsTable.unique {t : Trajectory Float} {joint : ℕ} {text text' : String}
    (h : t.IsTable joint text) (h' : t.IsTable joint text') : text = text' := by
  obtain ⟨rows, hrows, rfl⟩ := h
  obtain ⟨rows', hrows', rfl⟩ := h'
  have heq := (rows_eq_ok.mpr hrows).symm.trans (rows_eq_ok.mpr hrows')
  rw [Except.ok.inj heq]

/-! ## The last name of a path -/

theorem splitPath_cons_of_ne {c : Char} (hc : c ≠ '/') {cs part : List Char}
    {parts : List (List Char)} (h : splitPath cs = part :: parts) :
    splitPath (c :: cs) = (c :: part) :: parts := by
  simp [splitPath, h]

theorem splitPath_of_not_mem {cs : List Char} (h : '/' ∉ cs) : splitPath cs = [cs] := by
  induction cs with
  | nil => rfl
  | cons c cs ih =>
    obtain ⟨hc, hcs⟩ := not_or.mp (List.mem_cons.not.mp h)
    exact splitPath_cons_of_ne (Ne.symm hc) (ih hcs)

/-- What follows the last slash belongs to the last part. -/
theorem splitPath_append {ds : List Char} (h : '/' ∉ ds) (cs : List Char) :
    ∃ parts part, splitPath cs = parts ++ [part] ∧ splitPath (cs ++ ds) = parts ++ [part ++ ds] := by
  induction cs with
  | nil => exact ⟨[], [], rfl, splitPath_of_not_mem h⟩
  | cons c cs ih =>
    obtain ⟨parts, part, hcs, happend⟩ := ih
    by_cases hc : c = '/'
    · subst hc
      refine ⟨[] :: parts, part, ?_, ?_⟩
      · rw [splitPath, hcs, List.cons_append]
      · rw [List.cons_append, splitPath, happend, List.cons_append]
    · cases parts with
      | nil =>
        exact ⟨[], c :: part, splitPath_cons_of_ne hc hcs, splitPath_cons_of_ne hc happend⟩
      | cons first parts =>
        exact ⟨(c :: first) :: parts, part, splitPath_cons_of_ne hc hcs,
          splitPath_cons_of_ne hc happend⟩

theorem getLast?_pathNames_append {rest : String} (h : '/' ∉ rest.toList) (s : String) :
    ∃ name, (pathNames s).getLast? = some name ∧
      (pathNames (s ++ rest)).getLast? = some (name ++ rest) := by
  obtain ⟨parts, part, hs, happend⟩ := splitPath_append h s.toList
  refine ⟨String.ofList part, ?_, ?_⟩
  · rw [pathNames, hs, List.map_append, List.map_singleton, List.getLast?_concat]
  · rw [pathNames, String.toList_append, happend, List.map_append, List.map_singleton,
      List.getLast?_concat, String.ofList_append, String.ofList_toList]

theorem joinPath_append {rest : String} (h : '/' ∉ rest.toList) (directory s : String) :
    joinPath directory (s ++ rest) = joinPath directory s ++ rest := by
  have habsolute : isAbsolute (s ++ rest) = isAbsolute s := by
    have hhead : rest.toList.head? ≠ some '/' := fun hhead => h (List.mem_of_head? hhead)
    rw [isAbsolute, isAbsolute, String.toList_append, List.head?_append]
    cases s.toList with
    | nil => simp [hhead]
    | cons c cs => rfl
  rw [joinPath, joinPath, habsolute]
  split_ifs
  · rfl
  · rw [String.append_assoc]
  · simp only [String.append_assoc]

namespace Files

variable {f f' : Files} {path directory title : String} {paths : List String}
  {t : Trajectory Float} {joint : ℕ} {js : List (Joint Float)}

/-- A file is named by the last name of a path to it. -/
theorem head?_of_locate {place : Location} (h : f.locate path = some place) :
    place.head? = (pathNames path).getLast? := by
  rw [locate] at h
  rw [← List.head?_reverse]
  cases hnames : (pathNames path).reverse with
  | nil => simp only [hnames, reduceCtorEq] at h
  | cons name names =>
    simp only [hnames] at h
    split_ifs at h
    obtain ⟨here, -, rfl⟩ := Option.map_eq_some_iff.mp h
    rfl

theorem head?_of_locate_tablePath {j : Joint Float} {place : Location} (hj : '/' ∉ j.name.toList)
    (h : f.locate (Trajectory.tablePath directory title j) = some place) :
    ∃ name, (pathNames (joinPath directory title)).getLast? = some name ∧
      place.head? = some (name ++ (j.name ++ ".csv")) := by
  have hrest : '/' ∉ (j.name ++ ".csv").toList := by
    rw [String.toList_append, List.mem_append]
    exact not_or.mpr ⟨hj, by decide⟩
  obtain ⟨name, hname, hpath⟩ := getLast?_pathNames_append hrest (joinPath directory title)
  rw [← joinPath_append hrest, ← String.append_assoc] at hpath
  exact ⟨name, hname, (head?_of_locate h).trans hpath⟩

/-- Tables in one file are those of one name, as long as there is no slash in it. -/
theorem name_eq_of_locate {j j' : Joint Float} {place : Location} (hj : '/' ∉ j.name.toList)
    (hj' : '/' ∉ j'.name.toList)
    (h : f.locate (Trajectory.tablePath directory title j) = some place)
    (h' : f.locate (Trajectory.tablePath directory title j') = some place) : j.name = j'.name := by
  obtain ⟨name, hname, hhead⟩ := head?_of_locate_tablePath hj h
  obtain ⟨name', hname', hhead'⟩ := head?_of_locate_tablePath hj' h'
  obtain rfl := Option.some.inj (hname.symm.trans hname')
  have hfile := Option.some.inj (hhead.symm.trans hhead')
  simpa using hfile

theorem read_congr {p p' : String} (h : f.locate p = f.locate p') : f.read p = f.read p' := by
  rw [read, read, h]

theorem exists_locate_of_read {content : ByteArray} (h : f.read path = some content) :
    ∃ place, f.locate path = some place := by
  rw [read] at h
  obtain ⟨place, hplace, -⟩ := Option.bind_eq_some_iff.mp h
  exact ⟨place, hplace⟩

/-! ## One table after the other -/

theorem of_exportTable
    (h : (t.exportTable path joint : StateM Files _).run f = (.ok (), f')) :
    (f.create path).1 = true ∧
      ∃ text, t.IsTable joint text ∧ f' = (f.create path).2.append path text := by
  obtain ⟨made, f₁, hcreate⟩ : ∃ made f₁, f.create path = (made, f₁) := ⟨_, _, rfl⟩
  rw [Trajectory.exportTable, StateT.run_bind, run_create, hcreate] at h
  cases made with
  | false => exact nomatch (Prod.mk.inj h).1
  | true =>
    rw [hcreate]
    cases hrows : t.rows joint with
    | error e =>
      simp only [hrows] at h
      exact nomatch (Prod.mk.inj h).1
    | ok rows =>
      simp only [hrows] at h
      exact ⟨rfl, _, ⟨rows, Trajectory.rows_eq_ok.mp hrows, rfl⟩, (Prod.mk.inj h).2.symm⟩

theorem of_exportFrom_cons {j : Joint Float}
    (h : (t.exportFrom directory title joint (j :: js) : StateM Files _).run f = (.ok paths, f')) :
    ∃ f₁ rest,
      (t.exportTable (Trajectory.tablePath directory title j) joint : StateM Files _).run f
        = (.ok (), f₁) ∧
      (t.exportFrom directory title (joint + 1) js : StateM Files _).run f₁ = (.ok rest, f') ∧
      paths = Trajectory.tablePath directory title j :: rest := by
  rw [Trajectory.exportFrom, StateT.run_bind] at h
  obtain ⟨answer, f₁, htable⟩ : ∃ answer f₁,
      (t.exportTable (Trajectory.tablePath directory title j) joint : StateM Files _).run f
        = (answer, f₁) := ⟨_, _, rfl⟩
  rw [htable] at h
  cases answer with
  | error e => exact nomatch (Prod.mk.inj h).1
  | ok u =>
    obtain ⟨rest, f₂, hrest⟩ : ∃ rest f₂,
        (t.exportFrom directory title (joint + 1) js : StateM Files _).run f₁ = (rest, f₂) :=
      ⟨_, _, rfl⟩
    change StateT.run (_ >>= _) f₁ = _ at h
    rw [StateT.run_bind, hrest] at h
    cases rest with
    | error e => exact nomatch (Prod.mk.inj h).1
    | ok rest =>
      obtain ⟨hpaths, rfl⟩ := Prod.mk.inj h
      exact ⟨f₁, rest, htable, hrest, (Except.ok.inj hpaths).symm⟩

theorem paths_of_exportFrom
    (h : (t.exportFrom directory title joint js : StateM Files _).run f = (.ok paths, f')) :
    paths = js.map (Trajectory.tablePath directory title) := by
  induction js generalizing joint f paths with
  | nil => exact (Except.ok.inj (Prod.mk.inj h).1).symm
  | cons j js ih =>
    obtain ⟨f₁, rest, -, hrest, rfl⟩ := of_exportFrom_cons h
    rw [ih hrest, List.map_cons]

/-- Writing tables changes no path. -/
theorem locate_exportFrom
    (h : (t.exportFrom directory title joint js : StateM Files _).run f = (.ok paths, f'))
    (p : String) : f'.locate p = f.locate p := by
  induction js generalizing joint f paths with
  | nil => rw [(Prod.mk.inj h).2]
  | cons j js ih =>
    obtain ⟨f₁, rest, htable, hrest, -⟩ := of_exportFrom_cons h
    obtain ⟨hcreate, text, -, rfl⟩ := of_exportTable htable
    rw [ih hrest, locate_append_create hcreate]

/-- The last of the paths that lead where `p` leads. -/
structure IsLast (f : Files) (paths : List String) (p : String) (k : ℕ) : Prop where
  leads : ∃ path, paths[k]? = some path ∧ f.locate path = f.locate p
  last : ∀ i path, paths[i]? = some path → f.locate path = f.locate p → i ≤ k

/-- **What a file holds in the end.** It is the table of the last joint that is written there, or
what it was if there is none. -/
theorem read_exportFrom
    (h : (t.exportFrom directory title joint js : StateM Files _).run f = (.ok paths, f'))
    (p : String) :
    (∃ k text, f.IsLast paths p k ∧ t.IsTable (joint + k) text ∧ f'.read p = some text.toUTF8) ∨
      (∀ path ∈ paths, f.locate path ≠ f.locate p) ∧ f'.read p = f.read p := by
  induction js generalizing joint f paths with
  | nil =>
    obtain ⟨hpaths, rfl⟩ := Prod.mk.inj h
    obtain rfl := Except.ok.inj hpaths
    exact .inr ⟨nofun, rfl⟩
  | cons j js ih =>
    obtain ⟨f₁, rest, htable, hrest, rfl⟩ := of_exportFrom_cons h
    obtain ⟨hcreate, text, htext, rfl⟩ := of_exportTable htable
    obtain ⟨k, text', ⟨⟨path, hpath, hleads⟩, hlast⟩, htext', hread⟩ | ⟨hnone, hread⟩ := ih hrest
    · -- A later joint is written there.
      refine .inl ⟨k + 1, text', ⟨⟨path, hpath, ?_⟩, fun i path' hi hleads' => ?_⟩, ?_, hread⟩
      · rwa [locate_append_create hcreate, locate_append_create hcreate] at hleads
      · cases i with
        | zero => exact Nat.zero_le _
        | succ i =>
          refine Nat.succ_le_succ (hlast i path' hi ?_)
          rwa [locate_append_create hcreate, locate_append_create hcreate]
      · rwa [Nat.add_right_comm, Nat.add_assoc] at htext'
    · simp only [locate_append_create hcreate] at hnone
      rw [read_append_create hcreate] at hread
      split at hread
      · refine .inl ⟨0, text, ⟨⟨_, rfl, (‹_› : _ = _).symm⟩, fun i path' hi hleads' => ?_⟩, htext,
          hread⟩
        cases i with
        | zero => exact Nat.zero_le _
        | succ i => exact absurd hleads' (hnone path' (List.mem_of_getElem? hi))
      · exact .inr ⟨List.forall_mem_cons.mpr ⟨fun heq => ‹¬_› heq.symm, hnone⟩, hread⟩

/-! ## Every joint -/

/-- Writes the tables of all joints in this world. -/
def exportTables (f : Files) (directory title : String) (t : Trajectory Float) :
    Except (Stop ArchiveError) (List String) × Files :=
  (Trajectory.exportTables directory title t : StateM Files _).run f

/-- There is one path for each joint, and the file there holds the joint's table. -/
structure Exported (f : Files) (t : Trajectory Float) (paths : List String) : Prop where
  count : paths.length = t.jointCount
  table : ∀ (joint : ℕ) path, paths[joint]? = some path →
    ∃ text, t.IsTable joint text ∧ f.read path = some text.toUTF8

/-- Joints whose paths lead to the same file have the same table. -/
def Apart (f : Files) (t : Trajectory Float) (paths : List String) : Prop :=
  ∀ (i j : ℕ) path path', paths[i]? = some path → paths[j]? = some path' →
    f.locate path = f.locate path' → ∃ text, t.IsTable i text ∧ t.IsTable j text

theorem Exported.apart (h : f.Exported t paths) : f.Apart t paths := by
  intro i j path path' hi hj hsame
  obtain ⟨text, htext, hread⟩ := h.table i path hi
  obtain ⟨text', htext', hread'⟩ := h.table j path' hj
  have hbytes := Option.some.inj (hread.symm.trans ((read_congr hsame).trans hread'))
  obtain rfl := String.toByteArray_inj.mp hbytes
  exact ⟨text, htext, htext'⟩

theorem of_exportTables (h : f.exportTables directory title t = (.ok paths, f')) :
    ∃ f₁, (t.exportFrom directory title 0 t.joints : StateM Files _).run f₁ = (.ok paths, f') := by
  rw [exportTables, Trajectory.exportTables, StateT.run_bind] at h
  obtain ⟨made, f₁, hmade⟩ : ∃ made f₁,
      (FileSystem.makeDirectories directory : StateM Files _).run f = (made, f₁) := ⟨_, _, rfl⟩
  rw [hmade] at h
  cases made with
  | false => exact nomatch (Prod.mk.inj h).1
  | true => exact ⟨f₁, h⟩

/-- Every file holds the table of the last joint that was written to it. -/
theorem read_exportTables (h : f.exportTables directory title t = (.ok paths, f')) {path : String}
    (hpath : path ∈ paths) :
    ∃ k text, f'.IsLast paths path k ∧ t.IsTable k text ∧ f'.read path = some text.toUTF8 := by
  obtain ⟨f₁, hrun⟩ := of_exportTables h
  obtain ⟨k, text, ⟨hleads, hlast⟩, htext, hread⟩ | ⟨hnone, -⟩ := read_exportFrom hrun path
  · simp only [← locate_exportFrom hrun] at hleads hlast
    exact ⟨k, text, ⟨hleads, hlast⟩, Nat.zero_add k ▸ htext, hread⟩
  · exact absurd rfl (hnone path hpath)

/-- Names that differ and have no slash keep joints apart. -/
theorem apart_of_nodup (h : f.exportTables directory title t = (.ok paths, f'))
    (hnames : (t.joints.map Joint.name).Nodup) (hslash : ∀ j ∈ t.joints, '/' ∉ j.name.toList) :
    f'.Apart t paths := by
  obtain ⟨f₁, hrun⟩ := of_exportTables h
  intro i j path path' hi hj hsame
  obtain ⟨k, text, ⟨⟨path'', hk, hleads⟩, -⟩, htext, hread⟩ :=
    read_exportTables h (List.mem_of_getElem? hi)
  obtain ⟨place, hplace⟩ := exists_locate_of_read hread
  have hsole : ∀ (l : ℕ) p, paths[l]? = some p → f'.locate p = some place → l = i := by
    intro l p hl hp
    rw [paths_of_exportFrom hrun, List.getElem?_map, Option.map_eq_some_iff] at hi hl
    obtain ⟨x, hx, rfl⟩ := hi
    obtain ⟨y, hy, rfl⟩ := hl
    have hname := name_eq_of_locate (hslash y (List.mem_of_getElem? hy))
      (hslash x (List.mem_of_getElem? hx)) hp hplace
    have hlt : l < (t.joints.map Joint.name).length := by
      rw [List.length_map]
      exact (List.getElem?_eq_some_iff.mp hy).1
    refine (List.getElem?_inj hlt hnames).mp ?_
    rw [List.getElem?_map, List.getElem?_map, hx, hy, Option.map_some, Option.map_some, hname]
  obtain rfl := hsole k path'' hk (hleads.trans hplace)
  obtain rfl := hsole j path' hj (hsame.symm.trans hplace)
  exact ⟨text, htext, htext⟩

theorem exportTables_eq (h : (f.exportTables directory title t).1 = .ok paths) :
    f.exportTables directory title t = (.ok paths, (f.exportTables directory title t).2) :=
  Prod.ext h rfl

/-- **Tables of all joints.** Every file holds the table of the last joint that was written to it,
so each joint has its own table exactly if joints share a file only where their tables agree. -/
theorem exported_iff (h : f.exportTables directory title t = (.ok paths, f')) :
    paths = t.joints.map (Trajectory.tablePath directory title) ∧
      (∀ path ∈ paths, ∃ k text,
        f'.IsLast paths path k ∧ t.IsTable k text ∧ f'.read path = some text.toUTF8) ∧
      (f'.Exported t paths ↔ f'.Apart t paths) := by
  have hread := fun path (hpath : path ∈ paths) => read_exportTables h hpath
  obtain ⟨f₁, hrun⟩ := of_exportTables h
  have hpaths := paths_of_exportFrom hrun
  refine ⟨hpaths, hread, Exported.apart, fun hapart => ⟨?_, fun joint path hjoint => ?_⟩⟩
  · rw [hpaths, List.length_map, Trajectory.jointCount]
  · obtain ⟨k, text, ⟨⟨path', hpath', hleads⟩, -⟩, htext, hcontent⟩ :=
      hread path (List.mem_of_getElem? hjoint)
    obtain ⟨text', hk, hown⟩ := hapart k joint path' path hpath' hjoint hleads
    rw [htext.unique hk] at hcontent
    exact ⟨text', hown, hcontent⟩

/-- `stroke` has two joints with different names. -/
theorem stroke_exported : ∃ f',
    exportTables {} "out" "arm_" stroke = (.ok ["out/arm_lift.csv", "out/arm_wrist.csv"], f') ∧
      f'.Exported stroke ["out/arm_lift.csv", "out/arm_wrist.csv"] := by
  have hanswer : (exportTables {} "out" "arm_" stroke).1
      = .ok ["out/arm_lift.csv", "out/arm_wrist.csv"] := toOption_eq_some.mp (by decide +kernel)
  have hnames : (stroke.joints.map Joint.name).Nodup := by decide +kernel
  have hslash : ∀ j ∈ stroke.joints, '/' ∉ j.name.toList := by decide +kernel
  have hrun := exportTables_eq hanswer
  exact ⟨_, hrun, (exported_iff hrun).2.2.mpr (apart_of_nodup hrun hnames hslash)⟩

/-- A trajectory of two joints that are both called the same. -/
def twins : Trajectory Float :=
  { group := none
    joints := [{ name := "a" }, { name := "a" }]
    waypoints := [⟨⟨[0.0, 1.0], [0.0, 0.0], [0.0, 0.0]⟩, 0.0⟩] }

/-- The second joint of the same name takes the file of the first. -/
theorem twins_not_exported : twins.checkShape = .ok () ∧
    ∃ f', exportTables {} "" "" twins = (.ok ["a.csv", "a.csv"], f') ∧
      ¬ f'.Exported twins ["a.csv", "a.csv"] := by
  have hshape : twins.checkShape = .ok () := by decide +kernel
  have hanswer : (exportTables {} "" "" twins).1 = .ok ["a.csv", "a.csv"] :=
    toOption_eq_some.mp (by decide +kernel)
  refine ⟨hshape, _, exportTables_eq hanswer, fun hexported => ?_⟩
  obtain ⟨text, hfirst, hsecond⟩ := hexported.apart 0 1 _ _ rfl rfl rfl
  have hzero : twins.IsTable 0 (tableText [⟨0.0, 0.0, 0.0, 0.0⟩]) :=
    ⟨_, Trajectory.rows_eq_ok.mp rfl, rfl⟩
  have hone : twins.IsTable 1 (tableText [⟨0.0, 1.0, 0.0, 0.0⟩]) :=
    ⟨_, Trajectory.rows_eq_ok.mp rfl, rfl⟩
  have hsame := (hfirst.unique hzero).symm.trans (hsecond.unique hone)
  exact absurd hsame (by decide +kernel)

end Files

end JerkLimit

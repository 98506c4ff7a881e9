import Mathlib
import JerkLimit.Archive
import JerkLimit.Proofs.Documents

/-!
# Proofs/Saved — a saved trajectory is loaded again

A file that can be made is found again by the same path, with the text that was written to it
(`Files.read_append_create`). With that, whatever is `Storable` survives being saved
(`Files.keeps_of_storable`), and whatever was loaded is `Storable` (`Files.storable_of_load`).
-/

namespace JerkLimit

namespace Files

variable {f g : Files} {place place' : Location} {path : String}

/-! ## Where things are -/

theorem lookup_filter_ne {entries : List (Location × FileEntry)} (h : place' ≠ place) :
    (entries.filter (·.1 ≠ place)).lookup place' = entries.lookup place' := by
  induction entries with
  | nil => rfl
  | cons e entries ih =>
    rw [List.filter_cons]
    by_cases heq : e.1 = place
    · rw [if_neg (by simpa using heq), ih, List.lookup_cons,
        beq_eq_false_iff_ne.mpr fun hkey => h (hkey.trans heq)]
    · rw [if_pos (by simpa using heq), List.lookup_cons, List.lookup_cons, ih]

theorem entry_put_self (h : place ≠ []) (e : FileEntry) : (f.put place e).entry place = some e := by
  cases place with
  | nil => exact absurd rfl h
  | cons name place => exact List.lookup_cons_self

theorem entry_put_of_ne (h : place' ≠ place) (e : FileEntry) :
    (f.put place e).entry place' = f.entry place' := by
  cases place' with
  | nil => rfl
  | cons name place' =>
    simp only [entry, put, List.lookup_cons, beq_eq_false_iff_ne.mpr h, lookup_filter_ne h]

/-- A path leads to the same place wherever the same directories are. -/
theorem walk_congr
    (h : ∀ place, g.entry place = some .directory ↔ f.entry place = some .directory) :
    ∀ (here : Location) (names : List String), g.walk here names = f.walk here names
  | _, [] => rfl
  | here, name :: names => by
    rw [walk, walk, walk_congr h here names, walk_congr h here.tail names,
      walk_congr h (name :: here) names]
    refine ite_congr rfl (fun _ => rfl) fun _ => ite_congr rfl (fun _ => rfl) fun _ => ?_
    split
    · rw [(h _).mp ‹_›]
    · split
      · exact absurd ((h _).mpr ‹_›) ‹_›
      · rfl

/-- A file that is put where no directory was changes no path. -/
theorem locate_put (h : f.entry place ≠ some .directory) (content : ByteArray) (path : String) :
    (f.put place (.file content)).locate path = f.locate path := by
  have hdirectory : ∀ place', (f.put place (.file content)).entry place' = some .directory ↔
      f.entry place' = some .directory := by
    intro place'
    by_cases heq : place' = place
    · subst heq
      have hne : place' ≠ [] := fun hnil => h (hnil ▸ rfl)
      rw [entry_put_self hne]
      exact iff_of_false nofun h
    · rw [entry_put_of_ne heq]
  have hstart : (f.put place (.file content)).start path = f.start path := rfl
  simp only [locate, walk_congr hdirectory, hstart]

/-! ## A file that is written -/

/-- Only where there is a place for a file can one be made. -/
theorem exists_of_create (h : (f.create path).1 = true) :
    ∃ place, f.locate path = some place ∧ f.entry place ≠ some .directory := by
  rw [create] at h
  split at h
  · exact nomatch h
  · rename_i place hplace
    split at h
    · exact nomatch h
    · exact ⟨place, hplace, ‹_›⟩

theorem create_eq (hplace : f.locate path = some place) (h : f.entry place ≠ some .directory) :
    f.create path = (true, f.put place (.file .empty)) := by
  simp only [create, hplace]

theorem append_eq {content : ByteArray} (hplace : f.locate path = some place)
    (h : f.entry place = some (.file content)) (text : String) :
    f.append path text = f.put place (.file (content ++ text.toUTF8)) := by
  simp only [append, hplace, h]

theorem read_eq {content : ByteArray} (hplace : f.locate path = some place)
    (h : f.entry place = some (.file content)) : f.read path = some content := by
  simp only [read, hplace, Option.bind_eq_bind, Option.bind_some, h]

theorem put_put (f : Files) (place : Location) (e e' : FileEntry) :
    (f.put place e).put place e' = f.put place e' := by
  simp [put]

/-- A file that is made and written to is put where its path leads. -/
theorem append_create (h : (f.create path).1 = true) (text : String) :
    ∃ place, f.locate path = some place ∧ f.entry place ≠ some .directory ∧
      (f.create path).2.append path text = f.put place (.file text.toUTF8) := by
  obtain ⟨place, hplace, hdirectory⟩ := exists_of_create h
  have hne : place ≠ [] := fun hnil => hdirectory (hnil ▸ rfl)
  refine ⟨place, hplace, hdirectory, ?_⟩
  rw [create_eq hplace hdirectory, append_eq ((locate_put hdirectory .empty path).trans hplace)
    (entry_put_self hne _), ByteArray.empty_append, put_put]

theorem locate_append_create (h : (f.create path).1 = true) (text p : String) :
    ((f.create path).2.append path text).locate p = f.locate p := by
  obtain ⟨place, -, hdirectory, hput⟩ := append_create h text
  rw [hput, locate_put hdirectory]

/-- A file that can be made is read as what was written to it, by every path that leads there. All
other files stay. -/
theorem read_append_create (h : (f.create path).1 = true) (text p : String) :
    ((f.create path).2.append path text).read p =
      if f.locate p = f.locate path then some text.toUTF8 else f.read p := by
  obtain ⟨place, hplace, hdirectory, hput⟩ := append_create h text
  have hne : place ≠ [] := fun hnil => hdirectory (hnil ▸ rfl)
  have hlocate := locate_put hdirectory text.toUTF8 p
  rw [hput, hplace]
  split
  · exact read_eq (hlocate.trans ‹_›) (entry_put_self hne _)
  · simp only [read, hlocate]
    cases hp : f.locate p with
    | none => rfl
    | some place' =>
      have hplaces : place' ≠ place := fun heq => ‹¬_› (heq ▸ hp)
      simp only [Option.bind_eq_bind, Option.bind_some, entry_put_of_ne hplaces]

/-! ## A trajectory that is saved -/

/-- Saves a trajectory in this world. -/
def save (f : Files) (path : String) (t : Trajectory Float) : Except ArchiveError Unit × Files :=
  (Trajectory.save path t : StateM Files _).run f

/-- Loads a trajectory from this world. -/
def load (f : Files) (path : String) : Except ArchiveError (Trajectory Float) :=
  ((Trajectory.load path : StateM Files _).run f).1

theorem run_read (f : Files) (path : String) :
    (FileSystem.read path : StateM Files _).run f = (f.read path, f) := rfl

theorem run_create (f : Files) (path : String) :
    (FileSystem.create path : StateM Files _).run f = f.create path := rfl

theorem save_eq (h : (f.create path).1 = true) (t : Trajectory Float) :
    f.save path t = (.ok (), (f.create path).2.append path t.encode) := by
  have hcreate : f.create path = (true, (f.create path).2) := Prod.ext h rfl
  rw [save, Trajectory.save, StateT.run_bind, run_create, hcreate]
  rfl

theorem load_eq {bytes : ByteArray} (h : f.read path = some bytes) :
    f.load path = Trajectory.decode bytes := by
  rw [load, Trajectory.load, StateT.run_bind, run_read, h]
  rfl

/-- Saving a trajectory under a path succeeds, and what is loaded from there is the trajectory. -/
structure Keeps (f : Files) (path : String) (t : Trajectory Float) : Prop where
  saved : (f.save path t).1 = .ok ()
  loaded : (f.save path t).2.load path = .ok t

/-- What can be written in full is kept, if its numbers come back from their numerals. -/
theorem keeps_of_storable {t : Trajectory Float} (h : (f.create path).1 = true) (ht : t.Storable)
    (hexact : ∀ x ∈ t.numbers, Json.Exact x) : f.Keeps path t := by
  have hsaved := save_eq h t
  have hread := (read_append_create h t.encode path).trans (if_pos rfl)
  refine ⟨congrArg Prod.fst hsaved, ?_⟩
  rw [hsaved, load_eq hread]
  exact Trajectory.decode_encode ht hexact

/-- What was loaded can be written in full. -/
theorem storable_of_load {t : Trajectory Float} (h : f.load path = .ok t) : t.Storable := by
  cases hread : f.read path with
  | none =>
    rw [load, Trajectory.load, StateT.run_bind, run_read, hread] at h
    exact nomatch h
  | some bytes => exact Trajectory.storable_of_decode ((load_eq hread).symm.trans h)

/-- **Saved trajectories are loaded as they were.** Wherever a file can be made this holds of every
trajectory that can be written in full, and of every trajectory that was loaded, whatever its file
left out. -/
theorem saved_loads (h : (f.create path).1 = true) :
    (∀ t : Trajectory Float, t.Storable → (∀ x ∈ t.numbers, Json.Exact x) → f.Keeps path t) ∧
      ∀ (source : String) (t : Trajectory Float), f.load source = .ok t →
        (∀ x ∈ t.numbers, Json.Exact x) → f.Keeps path t :=
  ⟨fun _ => keeps_of_storable h, fun _ _ hload => keeps_of_storable h (storable_of_load hload)⟩

/-- A document in which the joint has a name only, and the waypoint a position. -/
def sketchText : String :=
  "\x7b\"joints\": [\x7b\"name\": \"lift\"\x7d], \"waypoints\": [\x7b\"position\": [0.25]\x7d]\x7d"

/-- The trajectory in that document. -/
def sketch : Trajectory Float :=
  { group := none
    joints := [{ name := "lift" }]
    waypoints := [⟨⟨[0.25], [0.0], [0.0]⟩, 0.0⟩] }

def sketchbook : Files := { entries := [(["sketch.json"], .file sketchText.toUTF8)] }

/-- A trajectory with a group, kinds of joints, some bounds and some time. -/
def stroke : Trajectory Float :=
  { group := some "arm \"left\""
    joints := [{ name := "lift", kind := .prismatic, bounds := { velocity := some 1.5 } },
      { name := "wrist", kind := .continuous }]
    waypoints := [⟨⟨[0.25, 0.0], [0.0, 0.0], [0.0, 0.0]⟩, 0.0⟩,
      ⟨⟨[0.5, -3.0], [0.0, -0.125], [0.0, 64.0]⟩, 0.75⟩] }

theorem saved_loads_sketches :
    (sketchbook.create "copy.json").1 = true ∧ stroke.Storable ∧
      (∀ x ∈ stroke.numbers, Json.Exact x) ∧ sketchbook.load "sketch.json" = .ok sketch ∧
      (∀ x ∈ sketch.numbers, Json.Exact x) ∧ sketchbook.Keeps "copy.json" stroke ∧
      sketchbook.Keeps "copy.json" sketch := by
  have hcreate : (sketchbook.create "copy.json").1 = true := by decide +kernel
  have hstorable : stroke.Storable := ⟨by decide +kernel, by decide +kernel, by decide +kernel⟩
  have hstroke : ∀ x ∈ stroke.numbers, Json.Exact x := by decide +kernel
  have hload : sketchbook.load "sketch.json" = .ok sketch := by decide +kernel
  have hsketch : ∀ x ∈ sketch.numbers, Json.Exact x := by decide +kernel
  exact ⟨hcreate, hstorable, hstroke, hload, hsketch,
    (saved_loads hcreate).1 stroke hstorable hstroke,
    (saved_loads hcreate).2 "sketch.json" sketch hload hsketch⟩

end Files

end JerkLimit

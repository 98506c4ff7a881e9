import Mathlib
import JerkLimit.Dense
import JerkLimit.Proofs.Dense
import JerkLimit.Proofs.Seam
import JerkLimit.Proofs.Untouched

/-!
# Proofs/Blocks — dense output comes in independent blocks

Every segment is sampled from the state in which the one before has ended. That is not a dependence:
a segment only ends when the planner is finished, and a finished planner is exactly at the target,
so each segment starts from the state of a waypoint. The samples of a segment are therefore a
`block`, a function of its two waypoints, and the output is the first waypoint and all blocks, one
after the other, with the seam filter run over their positions (`smooth_composed`).
-/

namespace JerkLimit.Dense

open Scalar Trajectory

variable {K : Type} [Scalar K]

/-! ## Samples -/

/-- The request for sample number `i`, which starts from the sample before. -/
def sampleRequest (timeStep : K) (limits : Limits K) (target : State K) (desired : K) (i : ℕ)
    (current : State K) : Request K where
  current := current
  target := target
  limits := limits
  minimumDuration :=
    if 0.0 < desired - ofNat i * timeStep then some (desired - ofNat i * timeStep) else none

/-- The planner's answers from sample number `i` on, of which the last one is finished. -/
inductive Sampled (p : Planner K) (limits : Limits K) (target : State K) (desired : K) :
    ℕ → State K → List (State K) → Prop
  | last {i : ℕ} {current : State K} {reply : Reply K}
      (h : p.update (sampleRequest p.timeStep limits target desired i current) = .ok reply)
      (hstatus : reply.status = .finished) :
      Sampled p limits target desired i current [reply.state]
  | cons {i : ℕ} {current : State K} {reply : Reply K} {ss : List (State K)}
      (h : p.update (sampleRequest p.timeStep limits target desired i current) = .ok reply)
      (hstatus : reply.status ≠ .finished)
      (hrest : Sampled p limits target desired (i + 1) reply.state ss) :
      Sampled p limits target desired i current (reply.state :: ss)

section Samples

variable {p : Planner K} {limits : Limits K} {target current : State K} {desired : K} {i : ℕ}
  {ss : List (State K)}

/-- The loop adds samples to what it has done. -/
theorem sampled_of_samplesFrom {fuel : ℕ} {done samples : List (State K)}
    (h : samplesFrom p limits target desired fuel i current done = .ok (some samples)) :
    ∃ ss, samples = done.reverse ++ ss ∧ Sampled p limits target desired i current ss
      ∧ ss.length ≤ fuel := by
  induction fuel generalizing i current done with
  | zero => cases h
  | succ fuel ih =>
    rw [samplesFrom] at h
    cases hreply : p.update (sampleRequest p.timeStep limits target desired i current) with
    | error e =>
      rw [sampleRequest] at hreply
      simp only [hreply] at h
      cases h
    | ok reply =>
      have hreply' := hreply
      rw [sampleRequest] at hreply'
      simp only [hreply'] at h
      split_ifs at h with hstatus
      · obtain rfl := Option.some.inj (Except.ok.inj h)
        exact ⟨[reply.state], List.reverse_cons, .last hreply hstatus, Nat.le_add_left 1 fuel⟩
      · obtain ⟨ss, rfl, hss, hle⟩ := ih h
        refine ⟨reply.state :: ss, ?_, .cons hreply hstatus hss, Nat.succ_le_succ hle⟩
        rw [List.reverse_cons, List.append_assoc, List.singleton_append]

/-- Samples end in the target. -/
theorem Sampled.getLast? (h : Sampled p limits target desired i current ss) :
    ss.getLast? = some target := by
  induction h with
  | last h hstatus => exact congrArg some (Planner.state_of_finished h hstatus)
  | cons _ _ _ ih => rw [List.getLast?_cons, ih, Option.getD_some]

theorem Sampled.shaped [OrderedScalar K] {n : ℕ} (hlimits : limits.Shaped n)
    (htarget : target.checkJointCount n = .ok ()) (hcurrent : current.checkJointCount n = .ok ())
    (h : Sampled p limits target desired i current ss) :
    ∀ s ∈ ss, s.checkJointCount n = .ok () := by
  induction h with
  | last h _ =>
    exact List.forall_mem_singleton.mpr
      (Planner.shape_of_update ⟨hcurrent, htarget, hlimits⟩ h)
  | cons h _ _ ih =>
    have hstate := Planner.shape_of_update ⟨hcurrent, htarget, hlimits⟩ h
    exact List.forall_mem_cons.mpr ⟨hstate, ih hstate⟩

end Samples

/-! ## Blocks -/

/-- The samples of a segment. -/
def block (settings : DenseSettings K) (limits : Limits K) (start goal : State K) (duration : K) :
    Option (List (State K)) :=
  (samplesFrom ⟨limits.jointCount, settings.timeStep⟩ limits goal duration
    (maxSamples settings.durationFactor settings.timeStep duration) 0 start []).toOption.join

/-- The block of a segment that ends at the waypoint `w`, with its last sample. -/
structure IsBlock (settings : DenseSettings K) (limits : Limits K) (start : State K)
    (w : Waypoint K) (samples : List (State K)) : Prop where
  eq : block settings limits start w.state w.duration = some samples
  getLast? : samples.getLast? = some w.state

section Blocks

variable {settings : DenseSettings K} {limits : Limits K} {start goal : State K} {duration : K}
  {samples : List (State K)}

theorem block_eq_some : block settings limits start goal duration = some samples ↔
    samplesFrom ⟨limits.jointCount, settings.timeStep⟩ limits goal duration
      (maxSamples settings.durationFactor settings.timeStep duration) 0 start []
        = .ok (some samples) := by
  rw [block, Option.join_eq_some_iff, toOption_eq_some]

/-- How a block has been sampled. -/
theorem sampled_of_block (h : block settings limits start goal duration = some samples) :
    Sampled ⟨limits.jointCount, settings.timeStep⟩ limits goal duration 0 start samples
      ∧ samples.length ≤ maxSamples settings.durationFactor settings.timeStep duration := by
  obtain ⟨ss, rfl, hss, hle⟩ := sampled_of_samplesFrom (block_eq_some.mp h)
  exact ⟨hss, hle⟩

/-- A segment is a block, whatever its number. -/
theorem isBlock_of_segment {w : Waypoint K} {index : ℕ}
    (h : segment settings ⟨limits.jointCount, settings.timeStep⟩ limits start w.state w.duration
      index = .ok samples) : IsBlock settings limits start w samples := by
  have hblock : block settings limits start w.state w.duration = some samples := by
    rw [segment] at h
    rw [block_eq_some]
    dsimp only at h
    split at h
    · cases h
    · cases h
    · rename_i samples' hsamples
      exact Except.ok.inj h ▸ hsamples
  exact ⟨hblock, (sampled_of_block hblock).1.getLast?⟩

/-- **Each segment starts from a waypoint**, since the one before has ended there. -/
theorem blocks_of_segments {keepGoing : KeepGoing} {current : State K} {index : ℕ}
    {ws : List (Waypoint K)} {blocks : List (List (State K))} {s s' : ℕ}
    (h : (segments settings ⟨limits.jointCount, settings.timeStep⟩ limits keepGoing current index
      ws).run.run s = (.ok blocks, s')) :
    List.Forall₂ (fun x samples => IsBlock settings limits x.1 x.2 samples)
      ((current :: ws.map Waypoint.state).zip ws) blocks := by
  induction ws generalizing current index blocks s with
  | nil =>
    obtain ⟨rfl, -⟩ := run_pure_eq_ok.mp h
    exact .nil
  | cons w ws ih =>
    obtain ⟨⟨⟩, s₁, -, h⟩ := run_bind_eq_ok.mp h
    obtain ⟨samples, s₂, hsamples, h⟩ := run_bind_eq_ok.mp h
    obtain ⟨rest, s₃, hrest, h⟩ := run_bind_eq_ok.mp h
    obtain ⟨rfl, rfl⟩ := run_pure_eq_ok.mp h
    have hblock := isBlock_of_segment (Prod.mk.inj hsamples).1
    rw [hblock.getLast?, Option.getD_some] at hrest
    exact .cons hblock (ih hrest)

theorem shaped_of_blocks [OrderedScalar K] {n : ℕ} (hlimits : limits.Shaped n)
    {first : Waypoint K} {ws : List (Waypoint K)} (hws : ShapedAs n (first :: ws))
    {blocks : List (List (State K))}
    (h : List.Forall₂ (fun x samples => IsBlock settings limits x.1 x.2 samples)
      ((first.state :: ws.map Waypoint.state).zip ws) blocks) :
    ∀ s ∈ blocks.flatten, s.checkJointCount n = .ok () := by
  intro s hs
  obtain ⟨samples, hsamples, hs⟩ := List.mem_flatten.mp hs
  obtain ⟨⟨start, w⟩, hx, hblock⟩ := exists_of_mem_right h hsamples
  obtain ⟨hstart, hw⟩ := List.of_mem_zip hx
  obtain ⟨w', hw', rfl⟩ : ∃ w' ∈ first :: ws, w'.state = start := List.mem_map.mp hstart
  exact (sampled_of_block hblock.eq).1.shaped hlimits (hws w (List.mem_cons_of_mem _ hw))
    (hws w' hw') s hs

end Blocks

/-! ## A whole run -/

/-- How the output `t'` is composed for the unwound input `seed`, whose first waypoint is `first`:
of the `blocks` and of the joints `fs`, as the seam filter leaves them. -/
structure Composed (d : Dense K) (limits : Limits K) (seed : Trajectory K) (first : Waypoint K)
    (blocks : List (List (State K))) (fs : List (FilteredJoint K)) (t' : Trajectory K)
    (report : Report K) : Prop where
  group : t'.group = seed.group
  joints : t'.joints = seed.joints
  /-- The first waypoint stays. -/
  seed_head : seed.waypoints.head? = some first
  head : t'.waypoints.head? = some first
  /-- For each waypoint after the first there is a block. -/
  isBlock : List.Forall₂ (fun x samples => IsBlock d.settings limits x.1 x.2 samples)
    ((seed.waypoints.map Waypoint.state).zip seed.waypoints.tail) blocks
  /-- After the first waypoint come the samples, evenly spaced and with their velocities and
  accelerations. -/
  unplaced : t'.waypoints.tail.map Waypoint.unplaced
    = blocks.flatten.map fun s => (s.velocity, s.acceleration, d.settings.timeStep)
  shape : ShapedAs seed.jointCount t'.waypoints
  length_joints : fs.length = seed.jointCount
  /-- The positions are those of the samples, filtered one joint at a time. -/
  columns {j : ℕ} {f : FilteredJoint K} : fs[j]? = some f → ∃ raw bound,
    column j (first.state :: blocks.flatten) = raw.map some
      ∧ limits.maxDisplacement j d.settings.timeStep = .ok bound ∧ d.seam.filter raw bound = .ok f
      ∧ column j (t'.waypoints.map Waypoint.state) = f.positions.map some
  report : report = {
    attempts := 1
    durationScale := t'.totalDuration / seed.totalDuration
    finalStatus := some .finished
    seamFailures := fs.map FilteredJoint.failures
    waypointCount := 1 + (blocks.map List.length).sum
    deratedSegments := 0
    collapsedSegments := 0 }

section Output

variable {d : Dense K} {limits : Limits K} {seed t' : Trajectory K} {first : Waypoint K}
  {blocks : List (List (State K))} {fs : List (FilteredJoint K)} {report : Report K}

/-- Samples are a time step apart. -/
theorem Composed.durations_eq (h : Composed d limits seed first blocks fs t' report) :
    t'.durations = List.replicate blocks.flatten.length d.settings.timeStep := by
  have hdurations := congrArg (List.map fun x => x.2.2) h.unplaced
  rw [List.map_map, List.map_map] at hdurations
  exact hdurations.trans (List.map_const' ..)

theorem Composed.waypointCount_eq (h : Composed d limits seed first blocks fs t' report) :
    report.waypointCount = t'.waypointCount := by
  obtain ⟨rest, hwaypoints⟩ := List.head?_eq_some_iff.mp h.head
  have hrest := congrArg List.length h.durations_eq
  rw [durations, hwaypoints, List.tail_cons, List.length_map, List.length_replicate,
    List.length_flatten] at hrest
  rw [h.report, waypointCount, hwaypoints, List.length_cons, hrest, Nat.add_comm]

end Output

omit [Scalar K] in
theorem states_assemble (t : Trajectory K) (first : Waypoint K) (timeStep : K)
    (blocks : List (List (State K))) :
    (assemble t first timeStep blocks).waypoints.map Waypoint.state
      = first.state :: blocks.flatten := by
  simp [assemble, Function.comp_def]

omit [Scalar K] in
theorem shapedAs_assemble {n : ℕ} {t : Trajectory K} {first : Waypoint K} {timeStep : K}
    {blocks : List (List (State K))} (hfirst : first.state.checkJointCount n = .ok ())
    (hblocks : ∀ s ∈ blocks.flatten, s.checkJointCount n = .ok ()) :
    ShapedAs n (assemble t first timeStep blocks).waypoints := by
  refine List.forall_mem_cons.mpr ⟨hfirst, fun w hw => ?_⟩
  obtain ⟨s, hs, rfl⟩ := List.mem_map.mp hw
  exact hblocks s hs

omit [Scalar K] in
theorem waypointCount_assemble (t : Trajectory K) (first : Waypoint K) (timeStep : K)
    (blocks : List (List (State K))) :
    (assemble t first timeStep blocks).waypointCount = 1 + (blocks.map List.length).sum := by
  simp [Trajectory.waypointCount, assemble, List.length_flatten, Function.comp_def, add_comm]

section Run

variable {d : Dense K} {limits : Limits K} {keepGoing : KeepGoing} {t t' : Trajectory K}
  {report : Report K} {v a : K}

/-- **A resampled trajectory** is composed of blocks. -/
theorem composed_of_resample [OrderedScalar K] {seed : Trajectory K} {s s' : ℕ}
    (hlimits : limits.Shaped seed.jointCount) (hseed : ShapedAs seed.jointCount seed.waypoints)
    (h : (d.resample limits keepGoing seed).run.run s = (.ok (t', report), s')) :
    ∃ first blocks fs, Composed d limits seed first blocks fs t' report := by
  obtain ⟨planner, s₁, hplanner, h⟩ := run_bind_eq_ok.mp h
  obtain ⟨⟨⟩, -, hplanner⟩ := bind_eq_ok.mp ((mapError_ok _ _).mp (Prod.mk.inj hplanner).1)
  obtain rfl := pure_eq_ok.mp hplanner
  cases hwaypoints : seed.waypoints with
  | nil =>
    rw [hwaypoints] at h
    exact nomatch (Prod.mk.inj h).1
  | cons first rest =>
    rw [hwaypoints] at h hseed
    obtain ⟨blocks, s₂, hblocks, h⟩ := run_bind_eq_ok.mp h
    obtain ⟨⟨output, outcome⟩, houtput⟩ : ∃ r, d.seam.applyAt limits d.settings.timeStep
        (assemble seed first d.settings.timeStep blocks) = r := ⟨_, rfl⟩
    simp only [houtput] at h
    obtain ⟨seams, s₃, hseams, h⟩ := run_bind_eq_ok.mp h
    obtain rfl : outcome = .ok seams := (Prod.mk.inj hseams).1
    obtain ⟨hresult, -⟩ := run_pure_eq_ok.mp h
    obtain ⟨rfl, rfl⟩ := Prod.mk.inj hresult
    have hblocks : List.Forall₂ (fun x samples => IsBlock d.settings limits x.1 x.2 samples)
        ((first.state :: rest.map Waypoint.state).zip rest) blocks := by
      rw [← hlimits.velocity] at hblocks
      exact blocks_of_segments hblocks
    have hsamples := shaped_of_blocks hlimits hseed hblocks
    obtain ⟨hgroup, hjoints, fs, hfiltered, rfl⟩ :=
      Seam.filtered_of_applyAt (List.cons_ne_nil _ _) houtput
    have hunplaced := hfiltered.moved.unplaced
    have hcolumns {j : ℕ} {f : FilteredJoint K} (hf : fs[j]? = some f) := hfiltered.columns hf
    simp only [states_assemble, zero_add] at hcolumns
    have hcount : output.waypointCount = 1 + (blocks.map List.length).sum :=
      hfiltered.moved.length.trans (waypointCount_assemble seed first d.settings.timeStep blocks)
    exact ⟨first, blocks, fs, {
      group := hgroup
      joints := hjoints
      seed_head := hwaypoints ▸ rfl
      head := hfiltered.moved.head
      isBlock := hwaypoints ▸ hblocks
      unplaced := by
        rw [List.map_tail, hunplaced]
        simp [assemble, Waypoint.unplaced, Function.comp_def]
      shape := hfiltered.shaped (shapedAs_assemble (List.forall_mem_cons.mp hseed).1 hsamples)
      length_joints := hfiltered.length
      columns := hcolumns
      report := by rw [hcount] }⟩

/-- A run that ends well has passed the checks and resampled the unwound input. -/
theorem resample_of_smooth {polls : ℕ}
    (h : d.smooth keepGoing v a t = (t', .ok report, polls)) :
    ∃ limits, t.checkPlanned = .ok () ∧ t.batchLimits d.fallbacks v a = .ok limits
      ∧ (d.resample limits keepGoing t.unwind.1).run.run 0 = (.ok (t', report), polls) := by
  obtain ⟨input, hinput⟩ : ∃ r, (do
    t.checkPlanned
    t.batchLimits d.fallbacks v a) = r := ⟨_, rfl⟩
  obtain ⟨⟨seed, unwound⟩, hunwind⟩ : ∃ r, t.unwind = r := ⟨_, rfl⟩
  simp only [smooth, hinput, hunwind] at h
  cases input with
  | error e => exact nomatch (Prod.mk.inj (Prod.mk.inj h).2).1
  | ok limits =>
    cases unwound with
    | error f => exact nomatch (Prod.mk.inj (Prod.mk.inj h).2).1
    | ok u =>
      obtain ⟨⟨⟩, hplanned, hlimits⟩ := bind_eq_ok.mp hinput
      refine ⟨limits, hplanned, hlimits, ?_⟩
      rw [hunwind]
      obtain ⟨⟨result, polls'⟩, hresult⟩ : ∃ r,
          (d.resample limits keepGoing seed).run.run 0 = r := ⟨_, rfl⟩
      simp only [hresult] at h ⊢
      cases result with
      | error e => exact nomatch (Prod.mk.inj (Prod.mk.inj h).2).1
      | ok r =>
        obtain ⟨rfl, hrest⟩ := Prod.mk.inj h
        obtain ⟨hreport, rfl⟩ := Prod.mk.inj hrest
        obtain rfl := Except.ok.inj hreport
        rfl

/-! ## Runs that end well -/

/-- A segment that is generated hands over to the next one. -/
theorem segments_run_cons {settings : DenseSettings K} {p : Planner K} {current : State K}
    {index : ℕ} {w : Waypoint K} {ws : List (Waypoint K)} {samples : List (State K)}
    {rest : List (List (State K))} {s s' : ℕ} (hpoll : keepGoing s = true)
    (hsegment : segment settings p limits current w.state w.duration index = .ok samples)
    (hrest : (segments settings p limits keepGoing (samples.getLast?.getD current) (index + 1)
      ws).run.run (s + 1) = (.ok rest, s')) :
    (segments settings p limits keepGoing current index (w :: ws)).run.run s
      = (.ok (samples :: rest), s') := by
  have hyes : (poll keepGoing : Run ℕ (SmoothingError K) Unit).run.run s = (.ok (), s + 1) := by
    rw [Chain.poll_run, if_pos hpoll]
  rw [segments, run_bind_ok hyes]
  have hsamples : (ExceptT.mk (pure (segment settings p limits current w.state w.duration index)) :
      Run ℕ (SmoothingError K) (List (State K))).run.run (s + 1) = (.ok samples, s + 1) :=
    Prod.ext hsegment rfl
  exact (run_bind_ok hsamples).trans (run_bind_ok hrest)

/-- A run is its resampling, once the checks have been passed. -/
theorem smooth_of_resample {polls : ℕ} (hplanned : t.checkPlanned = .ok ())
    (hlimits : t.batchLimits d.fallbacks v a = .ok limits) (hunwind : t.unwind.2 = .ok ())
    (h : (d.resample limits keepGoing t.unwind.1).run.run 0 = (.ok (t', report), polls)) :
    d.smooth keepGoing v a t = (t', .ok report, polls) := by
  have hinput : (do
      t.checkPlanned
      t.batchLimits d.fallbacks v a) = .ok limits := bind_eq_ok.mpr ⟨(), hplanned, hlimits⟩
  obtain ⟨⟨seed, unwound⟩, hseed⟩ : ∃ r, t.unwind = r := ⟨_, rfl⟩
  rw [hseed] at hunwind h
  obtain rfl : unwound = .ok () := hunwind
  simp only [smooth, hinput, hseed, h]

/-- Resampling succeeds with all segments, if every column can be filtered. -/
theorem exists_resample_eq_ok [OrderedScalar K] {seed : Trajectory K} {first : Waypoint K}
    {rest : List (Waypoint K)} {blocks : List (List (State K))} {polls : ℕ}
    (hstep : isPositive d.settings.timeStep = true) (hlimits : limits.Shaped seed.jointCount)
    (hseed : ShapedAs seed.jointCount seed.waypoints) (hwaypoints : seed.waypoints = first :: rest)
    (hsegments : (segments d.settings ⟨limits.jointCount, d.settings.timeStep⟩ limits keepGoing
      first.state 1 rest).run.run 0 = (.ok blocks, polls))
    (hfilter : ∀ raw bound, ∃ f, d.seam.filter raw bound = .ok f) :
    ∃ t' report, (d.resample limits keepGoing seed).run.run 0 = (.ok (t', report), polls) := by
  rw [hwaypoints] at hseed
  have hassembled : ShapedAs seed.jointCount
      (assemble seed first d.settings.timeStep blocks).waypoints :=
    shapedAs_assemble (List.forall_mem_cons.mp hseed).1
      (shaped_of_blocks hlimits hseed (blocks_of_segments hsegments))
  obtain ⟨t', seams, houtput⟩ : ∃ t' seams, d.seam.applyAt limits d.settings.timeStep
      (assemble seed first d.settings.timeStep blocks) = (t', .ok seams) :=
    Seam.exists_applyAt hlimits hfilter rfl hassembled
  have hcreate : Planner.create seed.jointCount d.settings.timeStep
      = .ok ⟨limits.jointCount, d.settings.timeStep⟩ := by
    rw [Limits.jointCount, hlimits.velocity]
    exact bind_eq_ok.mpr ⟨(), ensure_eq_ok.mpr hstep, rfl⟩
  have hplanner : (Run.ofError .solver (Planner.create seed.jointCount d.settings.timeStep) :
      Run ℕ (SmoothingError K) _).run.run 0
        = (.ok ⟨limits.jointCount, d.settings.timeStep⟩, 0) :=
    Prod.ext ((mapError_ok _ _).mpr hcreate) rfl
  rw [resample, run_bind_ok hplanner, hwaypoints]
  dsimp only
  rw [run_bind_ok hsegments]
  simp only [houtput]
  exact ⟨t', _, rfl⟩

/-- **A run ends well** if all segments are generated and every column can be filtered. -/
theorem exists_smooth_eq_ok [OrderedScalar K] {first : Waypoint K} {rest : List (Waypoint K)}
    {blocks : List (List (State K))} {polls : ℕ}
    (hstep : isPositive d.settings.timeStep = true) (hplanned : t.checkPlanned = .ok ())
    (hlimits : t.batchLimits d.fallbacks v a = .ok limits)
    (hwaypoints : t.unwind.1.waypoints = first :: rest)
    (hsegments : (segments d.settings ⟨limits.jointCount, d.settings.timeStep⟩ limits keepGoing
      first.state 1 rest).run.run 0 = (.ok blocks, polls))
    (hfilter : ∀ raw bound, ∃ f, d.seam.filter raw bound = .ok f) :
    ∃ t' report, d.smooth keepGoing v a t = (t', .ok report, polls) := by
  obtain ⟨hshape, hshaped⟩ := shape_of_batchLimits hlimits
  obtain ⟨hunwind, hjoints, -, hseed⟩ := unwind_unwound hshape
  rw [← hjoints] at hshaped hseed
  obtain ⟨t', report, hresample⟩ :=
    exists_resample_eq_ok hstep hshaped hseed hwaypoints hsegments hfilter
  exact ⟨t', report, smooth_of_resample hplanned hlimits hunwind hresample⟩

/-! ## The output of a run -/

/-- **Dense output is composed of blocks**, one for each segment of the unwound input. -/
theorem smooth_composed [OrderedScalar K] {polls : ℕ}
    (h : d.smooth keepGoing v a t = (t', .ok report, polls)) :
    ∃ limits first blocks fs, t.batchLimits d.fallbacks v a = .ok limits
      ∧ t.waypoints.head? = some first
      ∧ Composed d limits t.unwind.1 first blocks fs t' report := by
  obtain ⟨limits, -, hlimits, hresample⟩ := resample_of_smooth h
  obtain ⟨hshape, hshaped⟩ := shape_of_batchLimits hlimits
  obtain ⟨-, hjoints, -, hseed⟩ := unwind_unwound hshape
  rw [← hjoints] at hshaped hseed
  obtain ⟨first, blocks, fs, hcomposed⟩ := composed_of_resample hshaped hseed hresample
  exact ⟨limits, first, blocks, fs, hlimits,
    (unwind_onlyMoved t).head.symm.trans hcomposed.seed_head, hcomposed⟩

end Run

/-- The default filter has no objections to any column. -/
theorem exists_filter_default (raw : List ℝ) (bound : ℝ) :
    ∃ f, (default : Seam ℝ).filter raw bound = .ok f := by
  refine Seam.exists_filterJoint (LowPass.exists_create.mpr ⟨isFinite_real _, ?_⟩) raw bound
  change (1.0 : ℝ) ≤ 20.0
  norm_num

theorem segment_hop_eq (p : ℝ) (index : ℕ) : segment ⟨1, 100⟩ ⟨1, 1⟩ (hop p).limits (hop p).start
    (hop p).goal (hop p).duration index = .ok [(hop p).stateAt 1, (hop p).goal] := by
  have hstep : 0 < (⟨1, 100⟩ : DenseSettings ℝ).timeStep := one_pos
  have hkeeps := (hop_keepsShare p).keepsLimits (by norm_num)
  have hsegment := (segment_eq_ok_iff hstep (by norm_num) hkeeps index).mpr (lastSearch_hop p)
  dsimp only at hsegment
  rwa [onTheWay_hop] at hsegment

/-- Two hops in steps of one second make two blocks of two samples each. -/
theorem twoHops_composed : ∃ t' report polls,
    (⟨⟨1, 100⟩, default, default⟩ : Dense ℝ).smooth Chain.patient 1 1 Chain.twoHops
        = (t', .ok report, polls)
      ∧ ∃ limits first blocks fs, Chain.twoHops.batchLimits default 1 1 = .ok limits
        ∧ Chain.twoHops.waypoints.head? = some first
        ∧ Composed ⟨⟨1, 100⟩, default, default⟩ limits Chain.twoHops.unwind.1 first blocks fs t'
            report := by
  have hlimits : Chain.twoHops.batchLimits default 1 1 = .ok (hop 0).limits :=
    Chain.onArm_batchLimits Chain.hopping_velocity_pos rfl Chain.pos_of_twoHops
  have hwaypoints : Chain.twoHops.unwind.1.waypoints = Chain.twoHops.waypoints :=
    congrArg (fun r => r.1.waypoints) Chain.onArm_unwind
  have hsegments : (segments ⟨1, 100⟩ ⟨1, 1⟩ (hop 0).limits Chain.patient (hop 0).start 1
      [⟨(hop 0).goal, (hop 0).duration⟩,
        ⟨(hop (0 + 1)).goal, (hop (0 + 1)).duration⟩]).run.run 0
        = (.ok [[(hop 0).stateAt 1, (hop 0).goal], [(hop (0 + 1)).stateAt 1, (hop (0 + 1)).goal]],
          2) :=
    segments_run_cons rfl (segment_hop_eq 0 1)
      (segments_run_cons rfl (segment_hop_eq (0 + 1) 2) rfl)
  obtain ⟨t', report, hsmooth⟩ := exists_smooth_eq_ok (d := ⟨⟨1, 100⟩, default, default⟩)
    ((isPositive_real _).mpr one_pos) rfl hlimits hwaypoints hsegments exists_filter_default
  have hcomposed := smooth_composed hsmooth
  exact ⟨t', report, 2, hsmooth, hcomposed⟩

end JerkLimit.Dense

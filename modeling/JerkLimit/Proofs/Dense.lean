import Mathlib
import JerkLimit.Dense
import JerkLimit.Proofs.Answer
import JerkLimit.Proofs.Motion

/-!
# Proofs/Dense — a segment along one profile

A segment that keeps its limits is sampled along one profile, planned anew at every sample: after
`k` samples the loop is at time `k * dt` of that profile (`samplesFrom_run`). The exception is the
last sample. With no more than one time step left, the planner does not try the time that is asked
for but searches for a duration of its own, and the segment ends where it should exactly if that
search ends within a time step (`segment_along_profile_iff`).
-/

namespace JerkLimit.Dense

open Scalar Quintic

variable {n : ℕ} {l : Leg n} {p : Planner ℝ}

theorem create_eq_ok {settings : DenseSettings ℝ} {fallbacks : Fallbacks ℝ} {seam : Seam ℝ}
    {d : Dense ℝ} : Dense.create settings fallbacks seam = .ok d ↔
      0 < settings.timeStep ∧ 1 ≤ settings.durationFactor ∧ ⟨settings, fallbacks, seam⟩ = d := by
  have hone : (1.0 : ℝ) = 1 := by norm_num
  have hfactor : decide ((1.0 : ℝ) ≤ settings.durationFactor) = true ↔
      1 ≤ settings.durationFactor := by rw [hone, decide_eq_true_iff]
  simp only [Dense.create, bind_eq_ok, pure_eq_ok, ensure_eq_ok, isPositive_real, exists_const]
  exact Iff.and Iff.rfl (Iff.and hfactor Iff.rfl)

/-! ## The loop -/

/-- What is left of the requested duration, if anything. -/
noncomputable def remaining (desired elapsed : ℝ) : Option ℝ :=
  if 0 < desired - elapsed then some (desired - elapsed) else none

section Loop

variable {limits : Limits ℝ} {target current : State ℝ} {desired : ℝ} {fuel i : ℕ}
  {done : List (State ℝ)}

/-- The planner's answer to the request of sample `i`. -/
noncomputable def answer (p : Planner ℝ) (limits : Limits ℝ) (target : State ℝ) (desired : ℝ)
    (i : ℕ) (current : State ℝ) : Except (Stop (SolverError ℝ)) (Reply ℝ) :=
  p.update ⟨current, target, limits, remaining desired (i * p.timeStep)⟩

theorem samplesFrom_of_ok {reply : Reply ℝ}
    (h : answer p limits target desired i current = .ok reply) :
    samplesFrom p limits target desired (fuel + 1) i current done
      = if reply.status = .finished then .ok (some (reply.state :: done).reverse)
        else samplesFrom p limits target desired fuel (i + 1) reply.state
          (reply.state :: done) := by
  have hzero : (0 : ℝ) = 0.0 := by norm_num
  rw [answer, remaining, hzero] at h
  rw [samplesFrom]
  split
  · rename_i e he
    exact nomatch h.symm.trans he
  · rename_i reply' he
    obtain rfl := Except.ok.inj (h.symm.trans he)
    rfl

theorem samplesFrom_of_error {e : Stop (SolverError ℝ)}
    (h : answer p limits target desired i current = .error e) :
    samplesFrom p limits target desired (fuel + 1) i current done = .error e := by
  have hzero : (0 : ℝ) = 0.0 := by norm_num
  rw [answer, remaining, hzero] at h
  rw [samplesFrom]
  split
  · rename_i e' he
    obtain rfl := Except.error.inj (h.symm.trans he)
    rfl
  · rename_i reply he
    exact nomatch h.symm.trans he

/-- The loop only adds to what it has done. -/
theorem length_lt_of_samplesFrom {samples : List (State ℝ)}
    (h : samplesFrom p limits target desired fuel i current done = .ok (some samples)) :
    done.length < samples.length := by
  induction fuel generalizing i current done with
  | zero => exact nomatch h
  | succ fuel ih =>
    cases hanswer : answer p limits target desired i current with
    | error e =>
      rw [samplesFrom_of_error hanswer] at h
      exact nomatch h
    | ok reply =>
      rw [samplesFrom_of_ok hanswer] at h
      split_ifs at h
      · obtain rfl := Option.some.inj (Except.ok.inj h)
        simp
      · exact (Nat.lt_succ_self _).trans (ih h)

end Loop

/-! ## Along the profile -/

/-- The states of the first `k` samples on the way of a leg. -/
noncomputable def onTheWay (l : Leg n) (timeStep : ℝ) (k : ℕ) : List (State ℝ) :=
  (List.range k).map fun i => l.stateAt ((i + 1 : ℕ) * timeStep)

@[simp] theorem length_onTheWay (timeStep : ℝ) (k : ℕ) : (onTheWay l timeStep k).length = k := by
  simp [onTheWay]

theorem onTheWay_succ (timeStep : ℝ) (k : ℕ) :
    onTheWay l timeStep (k + 1)
      = onTheWay l timeStep k ++ [l.stateAt ((k + 1 : ℕ) * timeStep)] := by
  simp [onTheWay, List.range_succ]

/-- On the way of a leg the planner is asked for what is left of it. -/
theorem answer_stateAt {k : ℕ} (h : k * p.timeStep < l.duration) :
    answer p l.limits l.goal l.duration k (l.stateAt (k * p.timeStep))
      = p.update ((l.rest _ h).request (some (l.rest _ h).duration)) := by
  rw [answer, remaining, if_pos (sub_pos.mpr h)]
  rfl

/-- **One sample**: from a point of the profile to the next. -/
theorem samplesFrom_step (hp : p.jointCount = n) (h0 : 0 < p.timeStep) (hkeeps : l.KeepsLimits)
    {k : ℕ} (hk : (k + 1 : ℕ) * p.timeStep < l.duration) (fuel : ℕ) (done : List (State ℝ)) :
    samplesFrom p l.limits l.goal l.duration (fuel + 1) k (l.stateAt (k * p.timeStep)) done
      = samplesFrom p l.limits l.goal l.duration fuel (k + 1)
          (l.stateAt ((k + 1 : ℕ) * p.timeStep))
          (l.stateAt ((k + 1 : ℕ) * p.timeStep) :: done) := by
  have hsucc : ((k + 1 : ℕ) : ℝ) * p.timeStep = k * p.timeStep + p.timeStep := by
    push_cast
    ring
  have hτ : k * p.timeStep < l.duration := by linarith
  have hlong : p.timeStep < (l.rest (k * p.timeStep) hτ).duration := by
    change p.timeStep < l.duration - k * p.timeStep
    linarith
  have hupdate := Leg.update_of_lt hp h0.le (hkeeps.rest (by positivity) hτ) hlong
  rw [samplesFrom_of_ok ((answer_stateAt hτ).trans hupdate), if_neg nofun, hsucc,
    ← Leg.stateAt_rest hτ]

/-- **The loop runs along the profile** as long as there is more than one time step left. -/
theorem samplesFrom_run (hp : p.jointCount = n) (h0 : 0 < p.timeStep) (hkeeps : l.KeepsLimits)
    {k : ℕ} (hk : k * p.timeStep < l.duration) (fuel : ℕ) :
    samplesFrom p l.limits l.goal l.duration (k + fuel) 0 l.start []
      = samplesFrom p l.limits l.goal l.duration fuel k (l.stateAt (k * p.timeStep))
          (onTheWay l p.timeStep k).reverse := by
  induction k generalizing fuel with
  | zero =>
    rw [Nat.cast_zero, zero_mul, l.stateAt_zero, zero_add]
    rfl
  | succ k ih =>
    have hle : (k : ℝ) * p.timeStep ≤ (k + 1 : ℕ) * p.timeStep := by gcongr; simp
    rw [Nat.add_right_comm, Nat.add_assoc, ih (hle.trans_lt hk),
      samplesFrom_step hp h0 hkeeps hk, onTheWay_succ, List.reverse_append]
    rfl

/-! ## The last sample -/

/-- The time of the last but one sample of a motion that takes `desired`, 0 if there is only one. -/
noncomputable def lastStart (timeStep desired : ℝ) : ℝ :=
  (⌈desired / timeStep⌉₊ - 1 : ℕ) * timeStep

/-- From the last but one sample there is something left, and no more than one time step. -/
theorem lastStart_mem {timeStep desired : ℝ} (h0 : 0 < timeStep) (hpos : 0 < desired) :
    lastStart timeStep desired < desired
      ∧ desired - lastStart timeStep desired ≤ timeStep := by
  have hceil : 0 < ⌈desired / timeStep⌉₊ := Nat.ceil_pos.mpr (div_pos hpos h0)
  have hlt : ((⌈desired / timeStep⌉₊ - 1 : ℕ) : ℝ) < desired / timeStep :=
    Nat.lt_ceil.mp (Nat.sub_lt hceil one_pos)
  have hle : desired / timeStep ≤ (⌈desired / timeStep⌉₊ - 1 : ℕ) + 1 := by
    rw [Nat.cast_pred hceil, sub_add_cancel]
    exact Nat.le_ceil _
  rw [lt_div_iff₀ h0] at hlt
  rw [div_le_iff₀ h0, add_mul, one_mul] at hle
  exact ⟨hlt, by rw [lastStart]; linarith⟩

/-- There are at least as many samples as the motion needs. -/
theorem ceil_le_maxSamples {factor timeStep desired : ℝ} (h0 : 0 < timeStep) (hpos : 0 < desired)
    (hfactor : 1 ≤ factor) : ⌈desired / timeStep⌉₊ ≤ maxSamples factor timeStep desired := by
  refine le_trans (Nat.ceil_le_ceil ?_) (Nat.le_max_right 1 _)
  exact div_le_div_of_nonneg_right (le_mul_of_one_le_left hpos.le hfactor) h0.le

/-- What the planner searches for in the last time step of a leg: a common duration for the rest of
all motions, not below what is left of the time that was asked for. -/
noncomputable def lastSearch (l : Leg n) (timeStep : ℝ) : Option ℝ :=
  searchDuration
    ((motions (l.stateAt (lastStart timeStep l.duration)) l.goal l.limits).map Task.raised)
    (some (l.duration - lastStart timeStep l.duration))

/-- The loop up to the last sample. -/
theorem samplesFrom_last (hp : p.jointCount = n) (h0 : 0 < p.timeStep) (hkeeps : l.KeepsLimits)
    (fuel : ℕ) :
    samplesFrom p l.limits l.goal l.duration (⌈l.duration / p.timeStep⌉₊ + fuel) 0 l.start []
      = samplesFrom p l.limits l.goal l.duration (fuel + 1) (⌈l.duration / p.timeStep⌉₊ - 1)
          (l.stateAt (lastStart p.timeStep l.duration))
          (onTheWay l p.timeStep (⌈l.duration / p.timeStep⌉₊ - 1)).reverse := by
  have hceil : 0 < ⌈l.duration / p.timeStep⌉₊ := Nat.ceil_pos.mpr (div_pos l.duration_pos h0)
  have hsplit : ⌈l.duration / p.timeStep⌉₊ + fuel
      = (⌈l.duration / p.timeStep⌉₊ - 1) + (fuel + 1) := by omega
  rw [hsplit, samplesFrom_run hp h0 hkeeps (lastStart_mem h0 l.duration_pos).1]
  rfl

/-- **The last sample** is the goal exactly if the search ends within a time step. -/
theorem answer_last_finished_iff (hp : p.jointCount = n) (h0 : 0 < p.timeStep)
    (hkeeps : l.KeepsLimits) :
    (∃ reply, answer p l.limits l.goal l.duration (⌈l.duration / p.timeStep⌉₊ - 1)
        (l.stateAt (lastStart p.timeStep l.duration)) = .ok reply ∧ reply.status = .finished)
      ↔ ∃ T, lastSearch l p.timeStep = some T ∧ p.FitsStep T := by
  obtain ⟨hlt, hshort⟩ := lastStart_mem h0 l.duration_pos
  have hrest := hkeeps.rest (by rw [lastStart]; positivity) hlt
  have hanswer : answer p l.limits l.goal l.duration (⌈l.duration / p.timeStep⌉₊ - 1)
      (l.stateAt (lastStart p.timeStep l.duration)) = p.search _ _ :=
    (answer_stateAt hlt).trans (Leg.update_of_le hp hrest fun d hd => Option.some.inj hd ▸ hshort)
  rw [hanswer]
  exact Planner.search_finished_iff h0.le

/-- The samples of a segment that keeps its limits, told by the last search. -/
theorem segment_eq_ok_iff {settings : DenseSettings ℝ} (h0 : 0 < settings.timeStep)
    (hfactor : 1 ≤ settings.durationFactor) (hkeeps : l.KeepsLimits) (index : ℕ) :
    segment settings ⟨n, settings.timeStep⟩ l.limits l.start l.goal l.duration index
        = .ok (onTheWay l settings.timeStep (⌈l.duration / settings.timeStep⌉₊ - 1) ++ [l.goal])
      ↔ ∃ T, lastSearch l settings.timeStep = some T ∧ T ≤ settings.timeStep * (1 + 1e-9) := by
  have hiff := answer_last_finished_iff (p := ⟨n, settings.timeStep⟩) rfl h0 hkeeps
  obtain ⟨fuel, hfuel⟩ := Nat.exists_eq_add_of_le
    (ceil_le_maxSamples h0 l.duration_pos hfactor)
  have hrun := samplesFrom_last (p := ⟨n, settings.timeStep⟩) rfl h0 hkeeps fuel
  rw [← hfuel] at hrun
  refine Iff.trans ?_ hiff
  rw [segment, hrun]
  cases hanswer : answer ⟨n, settings.timeStep⟩ l.limits l.goal l.duration
      (⌈l.duration / settings.timeStep⌉₊ - 1) (l.stateAt (lastStart settings.timeStep l.duration))
    with
  | error e => simp [samplesFrom_of_error hanswer]
  | ok reply =>
    rw [samplesFrom_of_ok hanswer]
    by_cases hstatus : reply.status = .finished
    · have hstate : reply.state = l.goal := Planner.state_of_finished hanswer hstatus
      simp [hstatus, hstate]
    · rw [if_neg hstatus]
      refine iff_of_false ?_ (by simpa using hstatus)
      intro h
      -- A loop that goes on has more samples than one per time step.
      split at h
      · exact nomatch h
      · exact nomatch h
      · rename_i samples hsamples
        have hlength := length_lt_of_samplesFrom hsamples
        rw [Except.ok.inj h] at hlength
        simp at hlength

/-- **A segment that keeps its limits runs along one profile**, one sample for each time step and
the goal at the end, exactly if the search in the last time step ends within it. The samples before
the last need no such condition. -/
theorem segment_along_profile_iff (l : Leg n) (hkeeps : l.KeepsShare 0.999)
    {settings : DenseSettings ℝ} {fallbacks : Fallbacks ℝ} {seam : Seam ℝ} {d : Dense ℝ}
    (hd : Dense.create settings fallbacks seam = .ok d)
    (hp : Planner.create n d.settings.timeStep = .ok p) (index : ℕ) :
    segment d.settings p l.limits l.start l.goal l.duration index
        = .ok (onTheWay l p.timeStep (⌈l.duration / p.timeStep⌉₊ - 1) ++ [l.goal])
      ↔ ∃ T, lastSearch l p.timeStep = some T ∧ T ≤ p.timeStep * (1 + 1e-9) := by
  obtain ⟨h0, hfactor, rfl⟩ := create_eq_ok.mp hd
  obtain ⟨-, rfl⟩ := Planner.create_eq_ok.mp hp
  exact segment_eq_ok_iff h0 hfactor (hkeeps.keepsLimits (by norm_num)) index

/-! ## Two steps of one second each -/

theorem lastSearch_hop (p : ℝ) :
    ∃ T, lastSearch (hop p) 1 = some T ∧ T ≤ 1 * (1 + 1e-9) := by
  have hstart : lastStart 1 (hop p).duration = 1 := by
    change ((⌈(2 : ℝ) / 1⌉₊ - 1 : ℕ) : ℝ) * 1 = 1
    norm_num
  have hleft : (hop p).duration - 1 = 1 := by
    change (2 : ℝ) - 1 = 1
    norm_num
  have hsearch : lastSearch (hop p) 1 = searchDuration [landing p] (some 1) := by
    rw [lastSearch, hstart, hleft, motions_landing]
  have hlow : ∀ t ∈ [landing p], t.lowerBound ≤ 1 :=
    List.forall_mem_singleton.mpr (lowerBound_landing p)
  obtain ⟨T, hT, hle⟩ := searchDuration_le_of_window one_pos (by norm_num) hlow fun T hT => by
    simpa [allFeasible] using feasible_landing p hT
  exact ⟨T, hsearch.trans hT, hle.trans (by norm_num)⟩

/-- On its way a hop is sampled once, half way. -/
theorem onTheWay_hop (p : ℝ) :
    onTheWay (hop p) 1 (⌈(hop p).duration / 1⌉₊ - 1) = [(hop p).stateAt 1] := by
  have hone : ⌈(hop p).duration / 1⌉₊ - 1 = 1 := by norm_num [hop]
  rw [hone]
  norm_num [onTheWay]

/-- A hop in two time steps is sampled in its middle, where it is fastest, and where it ends. -/
theorem segment_hop : segment ⟨1, 100⟩ ⟨1, 1⟩ (hop 0).limits (hop 0).start (hop 0).goal
    (hop 0).duration 1 = .ok [⟨[0 + 0.5], [0.9375], [0]⟩, ⟨[0 + 1], [0], [0]⟩] := by
  have hsegment := (segment_along_profile_iff (d := ⟨⟨1, 100⟩, default, default⟩) (p := ⟨1, 1⟩)
    (hop 0) (hop_keepsShare 0) (create_eq_ok.mpr ⟨by norm_num, by norm_num, rfl⟩)
    (Planner.create_eq_ok.mpr ⟨by norm_num, rfl⟩) 1).mpr (lastSearch_hop 0)
  dsimp only at hsegment
  rw [onTheWay_hop, stateAt_hop] at hsegment
  exact hsegment

/-! ## One second at constant speed -/

/-- One joint that goes on at the speed that it has. -/
noncomputable def cruise : Leg 1 where
  start := ⟨[0], [2.0], [0]⟩
  goal := ⟨[2.0], [2.0], [0]⟩
  limits := ⟨[2.05], [10.0], [20.0]⟩
  duration := 1
  start_joints := rfl
  goal_joints := rfl
  limits_positive := by
    refine Limits.ofLists_eq_ok.mpr ⟨⟨rfl, rfl⟩, ?_, rfl⟩
    norm_num [Limits.joints]
  limits_joints := rfl
  duration_pos := one_pos

theorem motions_cruise : cruise.motions = [⟨⟨0, 2, 0⟩, ⟨0 + 2 * 1, 2, 0⟩, ⟨2.05, 10, 20⟩⟩] := by
  change [(⟨⟨0, 2.0, 0⟩, ⟨2.0, 2.0, 0⟩, ⟨2.05, 10.0, 20.0⟩⟩ : Task ℝ)] = _
  norm_num

theorem cruise_keepsShare : cruise.KeepsShare 0.999 := by
  rw [Leg.KeepsShare, motions_cruise]
  refine List.forall_mem_singleton.mpr (staysWithin_cruise one_pos ?_ ?_ ?_) <;>
    norm_num [JointLimits.scaled]

theorem lastStart_cruise : lastStart 0.25 cruise.duration = 0.75 := by
  have hceil : ⌈(1 : ℝ) / 0.25⌉₊ = 4 := by norm_num
  change ((⌈(1 : ℝ) / 0.25⌉₊ - 1 : ℕ) : ℝ) * 0.25 = 0.75
  rw [hceil]
  norm_num

theorem stateAt_cruise (τ : ℝ) : cruise.stateAt τ = ⟨[2 * τ], [2], [0]⟩ := by
  have hstate : (between ⟨0, 2, 0⟩ ⟨0 + 2 * 1, 2, 0⟩ 1).stateAt τ = ⟨2 * τ, 2, 0⟩ := by
    rw [Quintic.cruise 0 2 one_pos, stateAt_mk]
    norm_num
  rw [Leg.stateAt, motions_cruise]
  change State.ofJoints [(between _ _ 1).stateAt τ] = _
  rw [hstate]
  rfl

theorem lastSearch_cruise {T : ℝ} (h : lastSearch cruise 0.25 = some T) : 0.256 < T := by
  have hmotions : (motions (cruise.stateAt 0.75) cruise.goal cruise.limits).map Task.raised
      = [cruising 1.5] := by
    rw [stateAt_cruise]
    change [Task.raised ⟨⟨2 * 0.75, 2, 0⟩, ⟨2.0, 2.0, 0⟩, ⟨2.05, 10.0, 20.0⟩⟩] = _
    norm_num [Task.raised, Task.ofLimits, cruising]
  rw [lastSearch, lastStart_cruise, hmotions] at h
  exact searchDuration_ne_some_of_lt (List.mem_singleton_self _)
    (fun d hd => lt_minimalDuration_cruising _ hd) h

/-- **Going on at constant speed** for four time steps is not done in four steps, though it is far
within the limits. -/
theorem segment_cruise_ne :
    Dense.create ⟨0.25, 100⟩ default default = .ok (⟨⟨0.25, 100⟩, default, default⟩ : Dense ℝ)
      ∧ Planner.create 1 (0.25 : ℝ) = .ok ⟨1, 0.25⟩ ∧ cruise.KeepsShare 0.999
      ∧ segment ⟨0.25, 100⟩ ⟨1, 0.25⟩ cruise.limits cruise.start cruise.goal cruise.duration 1
        ≠ .ok (onTheWay cruise 0.25 (⌈cruise.duration / 0.25⌉₊ - 1) ++ [cruise.goal]) := by
  refine ⟨create_eq_ok.mpr ?_, Planner.create_eq_ok.mpr ?_, cruise_keepsShare, ?_⟩
  · norm_num
  · norm_num
  · intro h
    have h0 : (0 : ℝ) < (⟨0.25, 100⟩ : DenseSettings ℝ).timeStep := by norm_num
    obtain ⟨T, hT, hle⟩ := (segment_eq_ok_iff h0 (by norm_num)
      (cruise_keepsShare.keepsLimits (by norm_num)) 1).mp h
    have hlt := lastSearch_cruise hT
    norm_num at hle hlt
    linarith

end JerkLimit.Dense

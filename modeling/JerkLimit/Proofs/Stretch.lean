import Mathlib
import JerkLimit.Proofs.Endings
import JerkLimit.Proofs.Pace

/-!
# Proofs/Stretch — the duration scale of a report

A report says by which factor the durations of the input have been stretched. For a chained run that
is the power of the extension factor that all durations were multiplied by, for dense output the
quotient of both totals: in either case total times scale (`Chain.Ended.total`,
`Dense.Ended.total`). A replay reports 1, but it puts waypoints at the period of the stream, however
far apart they were recorded. `Strategy.smooth_stretched_iff` is what is left: the scale is right
except for replays of trajectories that are on average recorded at another period.
-/

namespace JerkLimit

open Scalar Trajectory

variable {t t' : Trajectory ℝ} {report : Report ℝ}

/-- What a report says of the trajectory that a run has made of `t`. -/
structure Report.Stretched (report : Report ℝ) (t t' : Trajectory ℝ) : Prop where
  waypointCount : report.waypointCount = t'.waypointCount
  totalDuration : t'.totalDuration = report.durationScale * t.totalDuration

theorem Trajectory.totalDuration_eq (t : Trajectory ℝ) : t.totalDuration = t.durations.sum :=
  sum_real t.durations

theorem Chain.Ended.stretched {settings : ChainSettings ℝ} (h : Ended settings t t' (.ok report)) :
    report.Stretched t t' := by
  cases h with
  | @succeeded k cs _ _ hscale hcount =>
    refine ⟨hcount, ?_⟩
    rw [totalDuration_eq, totalDuration_eq, durations_attempted, List.sum_map_mul_right, hscale,
      List.map_id', mul_comm]

theorem Dense.Ended.stretched {d : Dense ℝ} (h : d.Ended t t' (.ok report)) :
    report.Stretched t t' := by
  cases h with
  | composed hplanned htiming _ h =>
    have htotal : t.unwind.1.totalDuration = t.totalDuration :=
      congrArg Scalar.sum t.durations_unwind
    have hpos : 0 < t.unwind.1.totalDuration :=
      htotal ▸ totalDuration_pos hplanned (Chain.pos_of_checkTiming htiming)
    refine ⟨h.waypointCount_eq, ?_⟩
    rw [← htotal, h.durationScale_mul hpos]

namespace Strategy

/-- A replay takes a period for each waypoint after the first. -/
theorem Streamed.total {period : ℝ} (h : Streamed period t t' report) :
    t'.totalDuration = (t.waypointCount - 1 : ℕ) * period := by
  rw [totalDuration_eq, h.durations, List.sum_replicate, nsmul_eq_mul]

/-- The scale of a replay is right if the input has the period of the stream, on average. -/
theorem Streamed.totalDuration_iff {period : ℝ} (hcount : 2 ≤ t.waypointCount)
    (h : Streamed period t t' report) :
    t'.totalDuration = report.durationScale * t.totalDuration ↔ t.averageDuration = period := by
  have hpos : (0 : ℝ) < (t.waypointCount - 1 : ℕ) := by
    exact_mod_cast Nat.sub_pos_of_lt hcount
  have haverage : t.averageDuration = t.totalDuration / (t.waypointCount - 1 : ℕ) :=
    if_neg (not_lt.mpr hcount)
  have hone : (1.0 : ℝ) = 1 := by norm_num
  rw [h.total, h.durationScale, hone, one_mul, haverage, div_eq_iff hpos.ne', mul_comm, eq_comm]

/-- **When a report tells the truth about its trajectory**: the number of waypoints is always right,
and so is the scale, unless a stream has replayed waypoints that were on average not a period
apart. -/
theorem smooth_stretched_iff {s : Strategy ℝ} (hcount : 2 ≤ t.waypointCount)
    (h : s.smooth t = (t', .ok report)) :
    report.waypointCount = t'.waypointCount
      ∧ (t'.totalDuration = report.durationScale * t.totalDuration
        ↔ ∀ period fallbacks, s = .streaming period fallbacks → t.averageDuration = period) := by
  cases smooth_ended h with
  | @streamed period fallbacks _ _ h =>
    refine ⟨h.waypointCount, (h.totalDuration_iff hcount).trans ?_⟩
    constructor
    · intro haverage period' fallbacks' hs
      obtain ⟨rfl, -⟩ := Strategy.streaming.inj hs
      exact haverage
    · intro hall
      exact hall period fallbacks rfl
  | chained h => exact ⟨h.stretched.waypointCount, iff_of_true h.stretched.totalDuration nofun⟩
  | segmentwise h => exact ⟨h.stretched.waypointCount, iff_of_true h.stretched.totalDuration nofun⟩

/-- A hop of some duration, for a replay. -/
noncomputable def recordedHop (duration : ℝ) : Trajectory ℝ :=
  Chain.oneSegment 1 (hop 0).start (hop 0).goal duration

theorem averageDuration_recordedHop (duration : ℝ) :
    (recordedHop duration).averageDuration = duration := by
  have htotal : (recordedHop duration).totalDuration = duration := by
    rw [totalDuration_eq]
    exact List.sum_singleton
  have hone : (Scalar.ofNat ((recordedHop duration).waypointCount - 1) : ℝ) = 1 := Nat.cast_one
  rw [Trajectory.averageDuration, htotal, hone, div_one]
  exact if_neg (lt_irrefl 2)

theorem exists_replay {period : ℝ} (hperiod : 0 < period) (duration : ℝ) : ∃ t' report,
    (Strategy.streaming period default).smooth (recordedHop duration) = (t', .ok report)
      ∧ Streamed period (recordedHop duration) t' report := by
  have hlimits : Limits.forStreaming (recordedHop duration).bounds default
      = .ok ⟨[1], [1.0e9], [300.0]⟩ := by
    refine bind_eq_ok.mpr ⟨[1], rfl, Limits.ofLists_eq_ok.mpr ⟨⟨rfl, rfl⟩, ?_, rfl⟩⟩
    intro l hl
    obtain rfl : l = ⟨1, 1.0e9, 300.0⟩ := List.mem_singleton.mp hl
    norm_num
  obtain ⟨started, hstart⟩ := exists_startStream (t := recordedHop duration) (List.mem_cons_self ..)
    rfl ((isPositive_real period).mpr hperiod) hlimits
  exact smoothStream_of_start rfl hstart

/-- A replay at the period of the recording. -/
theorem exists_stretched_replay : ∃ t' report,
    (Strategy.streaming 2 default).smooth (recordedHop 2) = (t', .ok report)
      ∧ t'.totalDuration = report.durationScale * (recordedHop 2).totalDuration := by
  obtain ⟨t', report, hrun, -⟩ := exists_replay two_pos 2
  refine ⟨t', report, hrun, (smooth_stretched_iff le_rfl hrun).2.mpr fun period _ hs => ?_⟩
  obtain ⟨rfl, -⟩ := Strategy.streaming.inj hs
  exact averageDuration_recordedHop 2

/-- A replay in half the time of the recording reports that nothing was stretched. -/
theorem exists_unstretched_replay : ∃ t' report,
    (recordedHop 4).checkShape = .ok () ∧ (recordedHop 4).checkTiming = .ok ()
      ∧ 2 ≤ (recordedHop 4).waypointCount
      ∧ (Strategy.streaming 2 default).smooth (recordedHop 4) = (t', .ok report)
      ∧ t'.totalDuration ≠ report.durationScale * (recordedHop 4).totalDuration := by
  obtain ⟨t', report, hrun, hstreamed⟩ := exists_replay two_pos 4
  refine ⟨t', report, rfl, Chain.oneSegment_timing (by norm_num) _ _ _, le_rfl, hrun, ?_⟩
  rw [ne_eq, hstreamed.totalDuration_iff le_rfl, averageDuration_recordedHop]
  norm_num

end Strategy

end JerkLimit

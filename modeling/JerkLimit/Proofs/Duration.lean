import Mathlib
import JerkLimit.Proofs.Checks
import JerkLimit.Proofs.Order
import JerkLimit.Proofs.Profile

/-!
# Proofs/Duration — what the search for a duration finds

`Task.minimalDuration` scans upward in steps of 5 % and halves the interval in front of the first
feasible candidate. Two things can be said about its answer over `ℝ`:

* it is feasible and not below the lower bound (`minimalDuration_eq_some`), and
* it is no later than any `D` from which on all durations up to `1.05 * D` are feasible
  (`minimalDuration_le_of_window`).

A feasible `D` alone is not enough for the second. The scan steps over feasible durations that lie
between two infeasible candidates, and `lt_minimalDuration_of_infeasible` says that it does not come
back for them.
-/

namespace JerkLimit

open Scalar Set

/-! ## What a search hands on

For all numbers: a scan, a bisection and a stretch hand on what has been tested, along with whatever
their steps preserve. -/

section Search

variable {K : Type} [Scalar K]

namespace Task

/-- **A hit of the scan** is feasible, and related to the candidate before it as every candidate is,
starting with the first one. -/
theorem scan_induction {t : Task K} {R : K → K → Prop}
    (hstep : ∀ lo c, R lo c → t.feasible c = false → R c (c * scanGrowth)) {n : ℕ}
    {lo c lo' hi : K} (h0 : R lo c) (h : t.scan n lo c = some (lo', hi)) :
    R lo' hi ∧ t.feasible hi = true := by
  induction n generalizing lo c with
  | zero => exact nomatch h
  | succ n ih =>
    rw [scan] at h
    split_ifs at h with hfeasible hmax
    · obtain ⟨rfl, rfl⟩ := Prod.mk.inj (Option.some.inj h)
      exact ⟨h0, hfeasible⟩
    · exact ih (hstep lo c h0 (Bool.eq_false_iff.mpr hfeasible)) h

/-- **The bisection** ends at a feasible duration. It has every property that both ends have and
that middles inherit. -/
theorem tighten_induction {t : Task K} {P : K → Prop}
    (hmid : ∀ a b, P a → P b → P (0.5 * (a + b))) {n : ℕ} {lo hi : K} (hlo : P lo) (hhi : P hi)
    (h : t.feasible hi = true) :
    P (t.tighten n lo hi) ∧ t.feasible (t.tighten n lo hi) = true := by
  induction n generalizing lo hi with
  | zero => exact ⟨hhi, h⟩
  | succ n ih =>
    rw [tighten]
    have hmiddle := hmid lo hi hlo hhi
    split_ifs with hfeasible
    · exact ih hlo hmiddle hfeasible
    · exact ih hmiddle hhi h

end Task

open OrderedScalar

variable [OrderedScalar K]

theorem lt_mul_scanGrowth {d : K} (h : 0.0 < d) : 0.0 < d * scanGrowth :=
  lt_of_lt_of_le h (le_mul_of_one_le h one_le_scanGrowth)

/-- A stretched duration is feasible for all joints and not shorter than before. -/
theorem stretch_spec {tasks : List (Task K)} {n : ℕ} {c d : K} (hc : 0.0 < c)
    (h : stretch tasks n c = some d) : allFeasible tasks d = true ∧ c ≤ d := by
  induction n generalizing c with
  | zero => exact nomatch h
  | succ n ih =>
    rw [stretch] at h
    split_ifs at h with hfeasible
    · obtain rfl := Option.some.inj h
      exact ⟨hfeasible, number_of_pos hc⟩
    · obtain ⟨hall, hle⟩ := ih (lt_mul_scanGrowth hc) h
      exact ⟨hall, le_trans (le_mul_of_one_le hc one_le_scanGrowth) hle⟩

end Search

namespace Task

/-! ## The scan -/

theorem scan_succ (t : Task ℝ) (n : ℕ) (lo c : ℝ) :
    t.scan (n + 1) lo c = if t.feasible c then some (lo, c)
      else if 1e4 < c then none else t.scan n c (c * 1.05) := rfl

/-- What a scan from `lo` on, with `c` as its first candidate, knows of a candidate `b` and the
duration `a` before it. -/
structure Scanned (t : Task ℝ) (lo c a b : ℝ) : Prop where
  infeasible : t.feasible a = false
  nonneg : 0 ≤ b
  lower : lo ≤ a
  le : a ≤ b
  /-- Behind its first candidate the scan does not come back to it. -/
  past : b = c ∨ c ≤ a

theorem Scanned.next {t : Task ℝ} {lo c a b : ℝ} (h : t.Scanned lo c a b)
    (hb : t.feasible b = false) : t.Scanned lo c b (b * 1.05) := by
  have hgrow : b ≤ b * 1.05 := by linarith [h.nonneg]
  have hpast : c ≤ b := h.past.elim Eq.ge fun hc => hc.trans h.le
  exact ⟨hb, h.nonneg.trans hgrow, h.lower.trans h.le, hgrow, .inr hpast⟩

/-- **A hit of the scan**: a feasible candidate behind an infeasible one. If `c` itself is
infeasible, the scan has gone past it. -/
theorem scan_eq_some {t : Task ℝ} {n : ℕ} {lo c lo' hi : ℝ} (hlo : t.feasible lo = false)
    (h0 : 0 ≤ c) (hle : lo ≤ c) (h : t.scan n lo c = some (lo', hi)) :
    t.feasible lo' = false ∧ t.feasible hi = true ∧ lo ≤ lo' ∧ lo' ≤ hi
      ∧ (t.feasible c = false → c ≤ lo') := by
  obtain ⟨hscanned, hhi⟩ := scan_induction (R := t.Scanned lo c)
    (fun _ _ hab hb => hab.next hb) ⟨hlo, h0, le_rfl, hle, .inl rfl⟩ h
  refine ⟨hscanned.infeasible, hhi, hscanned.lower, hscanned.le, fun hc => ?_⟩
  refine hscanned.past.resolve_left ?_
  rintro rfl
  exact nomatch hc.symm.trans hhi

/-- The scan does not step over a window of 5 %. -/
theorem scan_of_window {t : Task ℝ} {D : ℝ} (hD : D ≤ 1e4)
    (hwindow : ∀ T ∈ Icc D (D * 1.05), t.feasible T = true) {n : ℕ} {lo : ℝ} (hlo : lo < D)
    (hfar : D ≤ lo * 1.05 ^ n) :
    ∃ lo', t.scan n lo (lo * 1.05) = some (lo', lo' * 1.05) ∧ lo' < D := by
  induction n generalizing lo with
  | zero =>
    rw [pow_zero, mul_one] at hfar
    exact absurd hfar hlo.not_ge
  | succ n ih =>
    rw [scan_succ]
    by_cases hc : t.feasible (lo * 1.05) = true
    · exact ⟨lo, if_pos hc, hlo⟩
    · -- An infeasible candidate is still in front of the window.
      have hlt : lo * 1.05 < D := by
        by_contra hge
        exact hc (hwindow _ ⟨not_lt.mp hge, by linarith⟩)
      rw [if_neg hc, if_neg (by linarith)]
      exact ih hlt (by rw [pow_succ] at hfar; linarith)

/-! ## The bisection -/

theorem tighten_succ (t : Task ℝ) (n : ℕ) (lo hi : ℝ) :
    t.tighten (n + 1) lo hi = if t.feasible (0.5 * (lo + hi)) then t.tighten n lo (0.5 * (lo + hi))
      else t.tighten n (0.5 * (lo + hi)) hi := rfl

/-- The bisection ends at a feasible duration between its ends. -/
theorem tighten_mem {t : Task ℝ} {n : ℕ} {lo hi : ℝ} (hle : lo ≤ hi) (hhi : t.feasible hi = true) :
    t.feasible (t.tighten n lo hi) = true ∧ t.tighten n lo hi ∈ Icc lo hi := by
  refine (tighten_induction (P := (· ∈ Icc lo hi)) ?_ ⟨le_rfl, hle⟩ ⟨hle, le_rfl⟩ hhi).symm
  rintro a b ⟨hla, hah⟩ ⟨hlb, hbh⟩
  change (0.5 : ℝ) * (a + b) ∈ Icc lo hi
  exact ⟨by linarith, by linarith⟩

/-- The bisection closes in on the start of a window that reaches its feasible end. -/
theorem tighten_le_of_window {t : Task ℝ} {D : ℝ} {n : ℕ} {lo hi : ℝ} (hle : lo ≤ hi) (hlo : lo ≤ D)
    (hwindow : ∀ T ∈ Icc D hi, t.feasible T = true) :
    t.tighten n lo hi ≤ D + (hi - lo) / 2 ^ n := by
  induction n generalizing lo hi with
  | zero =>
    change hi ≤ _
    rw [pow_zero, div_one]
    linarith
  | succ n ih =>
    have hhalf (x y : ℝ) (h : y = x / 2) : D + y / 2 ^ n = D + x / 2 ^ (n + 1) := by
      rw [h, pow_succ, div_div, mul_comm]
    rw [tighten_succ]
    split_ifs with hmid
    · refine (ih (by linarith) hlo fun T hT => hwindow T ⟨hT.1, ?_⟩).trans_eq (hhalf _ _ (by ring))
      linarith [hT.2]
    · -- An infeasible middle is in front of the window.
      have hlt : 0.5 * (lo + hi) < D := by
        by_contra hge
        exact hmid (hwindow _ ⟨not_lt.mp hge, by linarith⟩)
      exact (ih (by linarith) hlt.le hwindow).trans_eq (hhalf _ _ (by ring))

/-! ## The minimal duration -/

theorem isStationary_iff {t : Task ℝ} :
    t.isStationary = true ↔ t.start = t.goal ∧ t.start.velocity = 0 ∧ t.start.acceleration = 0 := by
  obtain ⟨⟨p, v, a⟩, ⟨p', v', a'⟩, l⟩ := t
  change (((decide (p = p') && decide (v = v') && decide (a = a')) && decide (v = (0.0 : ℝ)))
    && decide (a = (0.0 : ℝ))) = true ↔ _
  simp only [Bool.and_eq_true, decide_eq_true_eq, JointState.mk.injEq]
  norm_num
  tauto

/-- A joint that moves has something to do. -/
theorem isStationary_eq_false {t : Task ℝ} (h : t.start.velocity ≠ 0) : t.isStationary = false := by
  rw [Bool.eq_false_iff, ne_eq, isStationary_iff]
  exact fun hstationary => h hstationary.2.1

theorem lowerBound_le_iff {t : Task ℝ} {D : ℝ} :
    t.lowerBound ≤ D ↔ 1e-6 ≤ D ∧ |t.goal.position - t.start.position| / t.limits.velocity ≤ D
      ∧ |t.goal.velocity - t.start.velocity| / t.limits.acceleration ≤ D
      ∧ |t.goal.acceleration - t.start.acceleration| / t.limits.jerk ≤ D := by
  refine maxFrom_le_iff.trans ?_
  simp only [List.mem_cons, List.not_mem_nil, or_false, forall_eq_or_imp, forall_eq]
  rfl

theorem lowerBound_pos (t : Task ℝ) : 0 < t.lowerBound :=
  lt_of_lt_of_le (by norm_num) (lowerBound_le_iff.mp le_rfl).1

theorem minimalDuration_eq (t : Task ℝ) :
    t.minimalDuration = if t.isStationary then some 0
      else if t.feasible t.lowerBound then some t.lowerBound
      else (t.scan 512 t.lowerBound (t.lowerBound * 1.05)).map fun ends =>
        t.tighten 50 ends.1 ends.2 := by
  have hzero : (0.0 : ℝ) = 0 := by norm_num
  rw [← hzero]
  rfl

/-- A lower bound that is feasible is the answer. -/
theorem minimalDuration_of_feasible {t : Task ℝ} (hs : t.isStationary = false)
    (h : t.feasible t.lowerBound = true) : t.minimalDuration = some t.lowerBound := by
  rw [minimalDuration_eq, if_neg (by simp [hs]), if_pos h]

/-- **What the search finds is feasible** and not below the lower bound; only a joint with nothing
to do gets no time at all. -/
theorem minimalDuration_eq_some {t : Task ℝ} {d : ℝ} (h : t.minimalDuration = some d) :
    t.isStationary = true ∧ d = 0
      ∨ t.isStationary = false ∧ t.lowerBound ≤ d ∧ t.feasible d = true := by
  rw [minimalDuration_eq] at h
  split_ifs at h with hs hf
  · exact .inl ⟨hs, (Option.some.inj h).symm⟩
  · obtain rfl := Option.some.inj h
    exact .inr ⟨by simpa using hs, le_rfl, hf⟩
  · obtain ⟨⟨lo, hi⟩, hscan, rfl⟩ := Option.map_eq_some_iff.mp h
    have hpos := t.lowerBound_pos
    obtain ⟨-, hhi, hle, hlh, -⟩ :=
      scan_eq_some (by simpa using hf) (by positivity) (by linarith) hscan
    obtain ⟨hd, hmem⟩ := tighten_mem (n := 50) hlh hhi
    exact .inr ⟨by simpa using hs, hle.trans hmem.1, hd⟩

/-- **What the search steps over**: nothing below an infeasible second candidate is found, be it
feasible or not. -/
theorem lt_minimalDuration_of_infeasible {t : Task ℝ} {d : ℝ} (hs : t.isStationary = false)
    (h₀ : t.feasible t.lowerBound = false) (h₁ : t.feasible (t.lowerBound * 1.05) = false)
    (h : t.minimalDuration = some d) : t.lowerBound * 1.05 < d := by
  rw [minimalDuration_eq, if_neg (by simp [hs]), if_neg (by simp [h₀])] at h
  obtain ⟨⟨lo, hi⟩, hscan, rfl⟩ := Option.map_eq_some_iff.mp h
  have hpos := t.lowerBound_pos
  obtain ⟨hlo, hhi, -, hlh, hpast⟩ := scan_eq_some h₀ (by positivity) (by linarith) hscan
  obtain ⟨hd, hmem⟩ := tighten_mem (n := 50) hlh hhi
  refine lt_of_le_of_ne ((hpast h₁).trans hmem.1) ?_
  intro heq
  rw [← heq, h₁] at hd
  exact nomatch hd

/-- The scan could go on beyond the longest duration. -/
theorem le_lowerBound_mul_pow (t : Task ℝ) {D : ℝ} (hD : D ≤ 1e4) :
    D ≤ t.lowerBound * 1.05 ^ 512 := by
  have hlow : (1e-6 : ℝ) ≤ t.lowerBound := (lowerBound_le_iff.mp le_rfl).1
  have hpow : (1e10 : ℝ) ≤ 1.05 ^ 512 := by
    calc (1e10 : ℝ) ≤ (1.05 ^ 256) ^ 2 := by norm_num
      _ = 1.05 ^ 512 := (pow_mul _ 256 2).symm
  calc D ≤ 1e-6 * 1e10 := by linarith
    _ ≤ t.lowerBound * 1.05 ^ 512 := by gcongr

/-- **What the search cannot miss**: a window of 5 %. -/
theorem minimalDuration_le_of_window {t : Task ℝ} {D : ℝ} (hlow : t.lowerBound ≤ D) (hD : D ≤ 1e4)
    (hwindow : ∀ T ∈ Icc D (D * 1.05), t.feasible T = true) :
    ∃ d, t.minimalDuration = some d ∧ d ≤ D * (1 + 1e-15) := by
  have hpos : 0 < D := t.lowerBound_pos.trans_le hlow
  rw [minimalDuration_eq]
  split_ifs with hs hf
  · exact ⟨0, rfl, by positivity⟩
  · exact ⟨_, rfl, by linarith⟩
  · have hlt : t.lowerBound < D := by
      refine lt_of_le_of_ne hlow ?_
      intro heq
      refine hf ?_
      exact heq ▸ hwindow D ⟨le_rfl, by linarith⟩
    obtain ⟨lo, hscan, hlo⟩ := scan_of_window hD hwindow hlt (t.le_lowerBound_mul_pow hD)
    have hlo0 : 0 < lo := by
      obtain ⟨-, -, hle, -⟩ := scan_eq_some (by simpa using hf)
        (mul_nonneg t.lowerBound_pos.le (by norm_num)) (by linarith [t.lowerBound_pos]) hscan
      exact t.lowerBound_pos.trans_le hle
    refine ⟨_, by rw [hscan]; rfl, ?_⟩
    refine (tighten_le_of_window (by linarith) hlo.le
      fun T hT => hwindow T ⟨hT.1, by linarith [hT.2]⟩).trans ?_
    have hgap : (lo * 1.05 - lo) / 2 ^ 50 ≤ D * 1e-15 := by
      rw [div_le_iff₀ (by positivity)]
      norm_num
      linarith
    linarith

end Task

/-! ## All joints -/

theorem minimalDurations_eq_ok {joint : ℕ} {tasks : List (Task ℝ)} {ds : List ℝ} :
    minimalDurations joint tasks = .ok ds ↔
      List.Forall₂ (fun t d => t.minimalDuration = some d) tasks ds := by
  induction tasks generalizing joint ds with
  | nil => simp [minimalDurations, eq_comm]
  | cons t ts ih =>
    rw [minimalDurations]
    cases hd : t.minimalDuration with
    | none => cases ds <;> simp [hd]
    | some d =>
      simp only [bind_eq_ok, pure_eq_ok, ih]
      cases ds with
      | nil => simp
      | cons x xs => simp [hd, and_comm]

theorem slowest_nonneg (ds : List ℝ) : 0 ≤ slowest ds := by
  have hzero : (0.0 : ℝ) = 0 := by norm_num
  exact hzero ▸ le_maxFrom (0.0 : ℝ) ds

theorem le_slowest {ds : List ℝ} {d : ℝ} (h : d ∈ ds) : d ≤ slowest ds := le_maxFrom_of_mem h

theorem slowest_singleton {d : ℝ} (h : 0 ≤ d) : slowest [d] = d := by
  refine le_antisymm (maxFrom_le_iff.mpr ⟨?_, ?_⟩) (le_slowest (List.mem_singleton_self d))
  · change (0.0 : ℝ) ≤ d
    norm_num
    exact h
  · exact fun x hx => (List.mem_singleton.mp hx).le

theorem stretch_succ (tasks : List (Task ℝ)) (n : ℕ) (d : ℝ) :
    stretch tasks (n + 1) d
      = if allFeasible tasks d then some d else stretch tasks n (d * 1.05) := rfl

theorem commonDuration_eq (tasks : List (Task ℝ)) (ds : List ℝ) (minimum : Option ℝ) :
    commonDuration tasks ds minimum = if slowest ds ⊔ minimum.getD 0 ≤ 0 then some 0
      else stretch tasks 32 (slowest ds ⊔ minimum.getD 0) := by
  have hzero : (0.0 : ℝ) = 0 := by norm_num
  cases minimum with
  | none =>
    rw [Option.getD_none, sup_of_le_left (slowest_nonneg ds), ← hzero]
    rfl
  | some m =>
    have hsup : slowest ds ⊔ m = if slowest ds < m then m else slowest ds := by
      rw [max_def]
      split_ifs <;> linarith
    rw [Option.getD_some, hsup, ← hzero]
    rfl

/-- The common duration that is found for all joints. -/
noncomputable def searchDuration (tasks : List (Task ℝ)) (minimum : Option ℝ) : Option ℝ :=
  match minimalDurations 0 tasks with
  | .ok ds => commonDuration tasks ds minimum
  | .error _ => none

/-- **A common duration** is long enough for every joint and for what is asked, and all joints can
keep it. -/
theorem searchDuration_eq_some {tasks : List (Task ℝ)} {minimum : Option ℝ} {d : ℝ}
    (h : searchDuration tasks minimum = some d) :
    (∀ t ∈ tasks, ∃ d' ≤ d, t.minimalDuration = some d') ∧ minimum.getD 0 ≤ d
      ∧ (0 < d → allFeasible tasks d = true) := by
  rw [searchDuration] at h
  cases hds : minimalDurations 0 tasks with
  | error e => simp [hds] at h
  | ok ds =>
    simp only [hds, commonDuration_eq] at h
    have hbound : slowest ds ⊔ minimum.getD 0 ≤ d ∧ (0 < d → allFeasible tasks d = true) := by
      split_ifs at h with hpos
      · obtain rfl := Option.some.inj h
        exact ⟨hpos, fun h0 => absurd h0 (lt_irrefl _)⟩
      · have hpos : (0.0 : ℝ) < slowest ds ⊔ minimum.getD 0 := by
          rw [show (0.0 : ℝ) = 0 by norm_num]
          exact not_le.mp hpos
        obtain ⟨hd, hle⟩ := stretch_spec hpos h
        exact ⟨hle, fun _ => hd⟩
    refine ⟨?_, le_sup_right.trans hbound.1, hbound.2⟩
    intro t ht
    obtain ⟨i, hi, rfl⟩ := List.mem_iff_getElem.mp ht
    have hall := minimalDurations_eq_ok.mp hds
    have hi' : i < ds.length := hall.length_eq ▸ hi
    exact ⟨ds[i], (le_slowest (List.getElem_mem hi')).trans (le_sup_left.trans hbound.1),
      hall.get hi hi'⟩

/-- A joint on its own takes its minimal duration. -/
theorem searchDuration_singleton {t : Task ℝ} {d : ℝ} (h : t.minimalDuration = some d) :
    searchDuration [t] none = some d := by
  have hds : minimalDurations 0 [t] = .ok [d] :=
    minimalDurations_eq_ok.mpr (.cons h .nil)
  rw [searchDuration, hds]
  rcases Task.minimalDuration_eq_some h with ⟨-, rfl⟩ | ⟨-, hle, hf⟩
  · change commonDuration [t] [0] none = some 0
    rw [commonDuration_eq, slowest_singleton le_rfl, if_pos (by simp)]
  · have hpos : 0 < d := t.lowerBound_pos.trans_le hle
    change commonDuration [t] [d] none = some d
    rw [commonDuration_eq, slowest_singleton hpos.le, Option.getD_none, sup_of_le_left hpos.le,
      if_neg hpos.not_ge, stretch_succ, if_pos (by simp [allFeasible, hf])]

/-- Joints that have nothing to do take the time that is asked for. -/
theorem searchDuration_of_stationary {tasks : List (Task ℝ)} {D : ℝ} (h0 : 0 < D)
    (hstationary : ∀ t ∈ tasks, t.isStationary = true) (hfeasible : allFeasible tasks D = true) :
    searchDuration tasks (some D) = some D := by
  have hds : minimalDurations 0 tasks = .ok (tasks.map fun _ => 0) := by
    rw [minimalDurations_eq_ok, List.forall₂_map_right_iff, List.forall₂_same]
    intro t ht
    rw [Task.minimalDuration_eq, if_pos (hstationary t ht)]
  have hslow : slowest (tasks.map fun _ => (0 : ℝ)) ≤ D := by
    refine maxFrom_le_iff.mpr ⟨?_, fun d hd => ?_⟩
    · rw [show (0.0 : ℝ) = 0 by norm_num]
      exact h0.le
    · obtain ⟨t, -, rfl⟩ := List.mem_map.mp hd
      exact h0.le
  rw [searchDuration, hds]
  change commonDuration tasks _ (some D) = some D
  rw [commonDuration_eq, Option.getD_some, sup_of_le_right hslow, if_neg h0.not_ge, stretch_succ,
    if_pos hfeasible]

/-- **What a search for at least `D` cannot miss**: a window of 5 % that all joints share. -/
theorem searchDuration_le_of_window {tasks : List (Task ℝ)} {D : ℝ} (h0 : 0 < D) (hD : D ≤ 1e4)
    (hlow : ∀ t ∈ tasks, t.lowerBound ≤ D)
    (hwindow : ∀ T ∈ Icc D (D * 1.05), allFeasible tasks T = true) :
    ∃ d, searchDuration tasks (some D) = some d ∧ d ≤ D * (1 + 1e-15) := by
  have hminimal : ∀ t ∈ tasks, ∃ d, t.minimalDuration = some d ∧ d ≤ D * (1 + 1e-15) :=
    fun t ht => Task.minimalDuration_le_of_window (hlow t ht) hD fun T hT =>
      List.all_eq_true.mp (hwindow T hT) t ht
  obtain ⟨ds, hds, hle⟩ : ∃ ds, List.Forall₂ (fun t d => t.minimalDuration = some d) tasks ds
      ∧ ∀ d ∈ ds, d ≤ D * (1 + 1e-15) := by
    clear hlow hwindow
    induction tasks with
    | nil => exact ⟨[], .nil, by simp⟩
    | cons t ts ih =>
      obtain ⟨d, hd, hle⟩ := hminimal t (List.mem_cons_self ..)
      obtain ⟨ds, hds, hles⟩ := ih fun t' ht' => hminimal t' (List.mem_cons_of_mem _ ht')
      exact ⟨d :: ds, .cons hd hds, List.forall_mem_cons.mpr ⟨hle, hles⟩⟩
  have hslow : slowest ds ≤ D * (1 + 1e-15) := by
    refine maxFrom_le_iff.mpr ⟨?_, hle⟩
    rw [show (0.0 : ℝ) = 0 by norm_num]
    positivity
  have hmax : slowest ds ⊔ D ≤ D * (1 + 1e-15) := sup_le hslow (by linarith)
  refine ⟨slowest ds ⊔ D, ?_, hmax⟩
  rw [searchDuration, minimalDurations_eq_ok.mpr hds]
  change commonDuration tasks ds (some D) = _
  rw [commonDuration_eq, Option.getD_some, if_neg (h0.trans_le le_sup_right).not_ge, stretch_succ,
    if_pos (hwindow _ ⟨le_sup_right, by linarith⟩)]

/-- A joint that cannot be done in time keeps the search from ending in time. -/
theorem searchDuration_ne_some_of_lt {tasks : List (Task ℝ)} {t : Task ℝ} (ht : t ∈ tasks)
    {minimum : Option ℝ} {bound : ℝ} (hlt : ∀ d, t.minimalDuration = some d → bound < d) {d : ℝ}
    (h : searchDuration tasks minimum = some d) : bound < d := by
  obtain ⟨d', hle, hd'⟩ := (searchDuration_eq_some h).1 t ht
  exact (hlt d' hd').trans_le hle

end JerkLimit

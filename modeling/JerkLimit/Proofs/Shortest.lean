import Mathlib
import JerkLimit.Proofs.Motion

/-!
# Proofs/Shortest — the least of the durations that are tried

The search for a joint's duration tries the lower bound, the candidates of a scan and the middles of
a bisection; `Task.tried` lists them. Its answer is the least feasible one of these
(`isLeast_of_minimalDuration`), and it gives up only if none of them is feasible
(`infeasible_of_minimalDuration`).

Feasible durations do not form an interval, and a window of them between two candidates stays
unseen. So a feasible `T` is matched exactly if one of the durations that are tried is feasible and
no longer (`shortest_iff`). A joint that swings out and back has all its feasible
durations in one such window and is given up (`swing_missed`).
-/

namespace JerkLimit

open Scalar Quintic Set

namespace Task

/-! ## What is tried -/

section General

variable {K : Type} [Scalar K]

/-- The candidates of a scan from `c` on, up to the first that is feasible or out of range. -/
def scanned (t : Task K) : ℕ → K → List K
  | 0, _ => []
  | n + 1, c =>
    c :: if t.feasible c then [] else if maxDuration < c then [] else scanned t n (c * scanGrowth)

/-- The middles that a bisection looks at. -/
def halved (t : Task K) : ℕ → K → K → List K
  | 0, _, _ => []
  | n + 1, infeasible, feasible =>
    let mid := 0.5 * (infeasible + feasible)
    mid :: if t.feasible mid then halved t n infeasible mid else halved t n mid feasible

/-- All durations that the search for the minimal duration tries. -/
def tried (t : Task K) : List K :=
  t.lowerBound :: if t.feasible t.lowerBound then []
    else t.scanned scanSteps (t.lowerBound * scanGrowth)
      ++ (t.scan scanSteps t.lowerBound (t.lowerBound * scanGrowth)).elim [] fun ends =>
        t.halved durationBisections ends.1 ends.2

end General

variable {t : Task ℝ}

theorem scanned_succ (n : ℕ) (c : ℝ) : t.scanned (n + 1) c
    = c :: if t.feasible c then [] else if 1e4 < c then [] else t.scanned n (c * 1.05) := rfl

theorem halved_succ (n : ℕ) (lo hi : ℝ) : t.halved (n + 1) lo hi
    = 0.5 * (lo + hi) :: if t.feasible (0.5 * (lo + hi)) then t.halved n lo (0.5 * (lo + hi))
      else t.halved n (0.5 * (lo + hi)) hi := rfl

theorem tried_eq (t : Task ℝ) : t.tried
    = t.lowerBound :: if t.feasible t.lowerBound then []
      else t.scanned 512 (t.lowerBound * 1.05)
        ++ (t.scan 512 t.lowerBound (t.lowerBound * 1.05)).elim [] fun ends =>
          t.halved 50 ends.1 ends.2 := rfl

/-! ## The least of what is tried -/

/-- A miss of the scan: none of its candidates is feasible. -/
theorem infeasible_of_scan {n : ℕ} {lo c : ℝ} (h : t.scan n lo c = none) :
    ∀ x ∈ t.scanned n c, t.feasible x = false := by
  induction n generalizing lo c with
  | zero => exact nofun
  | succ n ih =>
    rw [scan_succ] at h
    rw [scanned_succ]
    split_ifs at h ⊢ with hc hmax
    · exact List.forall_mem_singleton.mpr (Bool.eq_false_iff.mpr hc)
    · exact List.forall_mem_cons.mpr ⟨Bool.eq_false_iff.mpr hc, ih h⟩

/-- The scan misses if none of the candidates that it could get to is feasible. -/
theorem scan_eq_none {n : ℕ} {lo c : ℝ} (h : ∀ k < n, t.feasible (c * 1.05 ^ k) = false) :
    t.scan n lo c = none := by
  induction n generalizing lo c with
  | zero => rfl
  | succ n ih =>
    have hc := h 0 n.succ_pos
    rw [pow_zero, mul_one] at hc
    rw [scan_succ, if_neg (Bool.eq_false_iff.mp hc), ite_eq_left_iff]
    intro _
    refine ih fun k hk => ?_
    rw [mul_assoc, ← pow_succ']
    exact h (k + 1) (Nat.succ_lt_succ hk)

/-- A hit of the scan: the last of its candidates is feasible, and no other one. -/
theorem hit_of_scan {n : ℕ} {lo c lo' hi : ℝ} (h : t.scan n lo c = some (lo', hi)) :
    hi ∈ t.scanned n c ∧ ∀ x ∈ t.scanned n c, t.feasible x = true → x = hi := by
  induction n generalizing lo c with
  | zero => exact nomatch h
  | succ n ih =>
    rw [scan_succ] at h
    rw [scanned_succ]
    split_ifs at h ⊢ with hc hmax
    · obtain ⟨-, rfl⟩ := Prod.mk.inj (Option.some.inj h)
      exact ⟨List.mem_singleton_self _, List.forall_mem_singleton.mpr fun _ => rfl⟩
    · obtain ⟨hmem, honly⟩ := ih h
      exact ⟨List.mem_cons_of_mem _ hmem,
        List.forall_mem_cons.mpr ⟨fun hc' => absurd hc' hc, honly⟩⟩

/-- A bisection ends where it started or at a middle. -/
theorem tighten_mem_halved (n : ℕ) (lo hi : ℝ) : t.tighten n lo hi ∈ hi :: t.halved n lo hi := by
  induction n generalizing lo hi with
  | zero => exact List.mem_singleton_self _
  | succ n ih =>
    rw [tighten_succ, halved_succ]
    split_ifs with hmid
    · exact List.mem_cons_of_mem _ (ih _ _)
    · rcases List.mem_cons.mp (ih (0.5 * (lo + hi)) hi) with h | h
      · rw [h]
        exact List.mem_cons_self
      · exact List.mem_cons_of_mem _ (List.mem_cons_of_mem _ h)

/-- A bisection ends below every feasible middle that it looks at. -/
theorem tighten_le_of_mem_halved {n : ℕ} {lo hi : ℝ} (hle : lo ≤ hi)
    (hhi : t.feasible hi = true) :
    ∀ x ∈ t.halved n lo hi, t.feasible x = true → t.tighten n lo hi ≤ x := by
  induction n generalizing lo hi with
  | zero => exact nofun
  | succ n ih =>
    rw [tighten_succ, halved_succ]
    split_ifs with hmid
    · have hle' : lo ≤ 0.5 * (lo + hi) := by linarith
      exact List.forall_mem_cons.mpr ⟨fun _ => (tighten_mem hle' hmid).2.2, ih hle' hmid⟩
    · exact List.forall_mem_cons.mpr ⟨fun hmid' => absurd hmid' hmid, ih (by linarith) hhi⟩

/-- Without a hit of the scan, its candidates are all that is tried. -/
theorem mem_tried_of_miss (hlower : t.feasible t.lowerBound = false)
    (hscan : t.scan 512 t.lowerBound (t.lowerBound * 1.05) = none) {x : ℝ} :
    x ∈ t.tried ↔ x = t.lowerBound ∨ x ∈ t.scanned 512 (t.lowerBound * 1.05) := by
  rw [tried_eq, if_neg (by simp [hlower]), hscan, Option.elim_none, List.append_nil, List.mem_cons]

/-- After a hit of the scan there is a bisection. -/
theorem mem_tried_of_hit (hlower : t.feasible t.lowerBound = false) {lo hi : ℝ}
    (hscan : t.scan 512 t.lowerBound (t.lowerBound * 1.05) = some (lo, hi)) {x : ℝ} :
    x ∈ t.tried ↔ x = t.lowerBound ∨ x ∈ t.scanned 512 (t.lowerBound * 1.05)
      ∨ x ∈ t.halved 50 lo hi := by
  rw [tried_eq, if_neg (by simp [hlower]), hscan, Option.elim_some, List.mem_cons, List.mem_append]

section Hit

variable {lo hi : ℝ} (hlower : t.feasible t.lowerBound = false)
  (hscan : t.scan 512 t.lowerBound (t.lowerBound * 1.05) = some (lo, hi))

include hlower hscan

/-- After a hit of the scan the bisection ends at a duration that was tried. -/
theorem tighten_mem_tried : t.tighten 50 lo hi ∈ t.tried := by
  refine (mem_tried_of_hit hlower hscan).mpr (.inr ?_)
  rcases List.mem_cons.mp (tighten_mem_halved 50 lo hi) with h | h
  · rw [h]
    exact .inl (hit_of_scan hscan).1
  · exact .inr h

/-- …and it ends below everything feasible that was tried. -/
theorem tighten_le_of_mem_tried (hle : lo ≤ hi) (hhi : t.feasible hi = true) {x : ℝ}
    (hx : x ∈ t.tried) (hfeasible : t.feasible x = true) : t.tighten 50 lo hi ≤ x := by
  rcases (mem_tried_of_hit hlower hscan).mp hx with hx | hx | hx
  · rw [hx, hlower] at hfeasible
    exact nomatch hfeasible
  · rw [(hit_of_scan hscan).2 x hx hfeasible]
    exact (tighten_mem hle hhi).2.2
  · exact tighten_le_of_mem_halved hle hhi x hx hfeasible

end Hit

/-- **The search gives up** only if nothing that it tries is feasible. -/
theorem infeasible_of_minimalDuration (h : t.minimalDuration = none) :
    ∀ x ∈ t.tried, t.feasible x = false := by
  rw [minimalDuration_eq] at h
  split_ifs at h with hs hlower
  have hlower := Bool.eq_false_iff.mpr hlower
  have hscan := Option.map_eq_none_iff.mp h
  intro x hx
  rcases (mem_tried_of_miss hlower hscan).mp hx with hx | hx
  · rw [hx, hlower]
  · exact infeasible_of_scan hscan x hx

/-- **The search answers with the least feasible duration** of those that it tries. -/
theorem isLeast_of_minimalDuration (hs : t.isStationary = false) {d : ℝ}
    (h : t.minimalDuration = some d) : IsLeast {x | x ∈ t.tried ∧ t.feasible x = true} d := by
  rw [minimalDuration_eq, if_neg (by simp [hs])] at h
  split_ifs at h with hlower
  · obtain rfl := Option.some.inj h
    have htried : t.tried = [t.lowerBound] := by rw [tried_eq, if_pos hlower]
    refine ⟨⟨htried ▸ List.mem_singleton_self _, hlower⟩, fun x hx => ?_⟩
    exact (List.mem_singleton.mp (htried ▸ hx.1)).ge
  · have hlower := Bool.eq_false_iff.mpr hlower
    obtain ⟨⟨lo, hi⟩, hscan, rfl⟩ := Option.map_eq_some_iff.mp h
    have hpos := t.lowerBound_pos
    obtain ⟨-, hhi, -, hle, -⟩ := scan_eq_some hlower (by positivity) (by linarith) hscan
    refine ⟨⟨tighten_mem_tried hlower hscan, (tighten_mem hle hhi).1⟩, ?_⟩
    rintro x ⟨hx, hfeasible⟩
    exact tighten_le_of_mem_tried hlower hscan hle hhi hx hfeasible

/-- **A duration is matched up to a millionth** exactly if the search tries a feasible one that is
no longer than that. A window of 5 % is enough for it. -/
theorem shortest_iff (hs : t.isStationary = false) (T : ℝ) :
    ((∃ d, t.minimalDuration = some d ∧ d ≤ T * (1 + 1e-6))
        ↔ ∃ x ∈ t.tried, t.feasible x = true ∧ x ≤ T * (1 + 1e-6))
      ∧ (t.lowerBound ≤ T → T ≤ 1e4 → (∀ x ∈ Icc T (T * 1.05), t.feasible x = true) →
        ∃ d, t.minimalDuration = some d ∧ d ≤ T * (1 + 1e-6)) := by
  refine ⟨⟨?_, ?_⟩, ?_⟩
  · rintro ⟨d, hd, hle⟩
    obtain ⟨hmem, hfeasible⟩ := (isLeast_of_minimalDuration hs hd).1
    exact ⟨d, hmem, hfeasible, hle⟩
  · rintro ⟨x, hx, hfeasible, hle⟩
    cases hd : t.minimalDuration with
    | none => exact absurd hfeasible (by simp [infeasible_of_minimalDuration hd x hx])
    | some d => exact ⟨d, rfl, ((isLeast_of_minimalDuration hs hd).2 ⟨hx, hfeasible⟩).trans hle⟩
  · intro hlower hmax hwindow
    obtain ⟨d, hd, hle⟩ := minimalDuration_le_of_window hlower hmax hwindow
    have hT : 0 ≤ T := t.lowerBound_pos.le.trans hlower
    exact ⟨d, hd, hle.trans (by gcongr; norm_num)⟩

/-- A hop of one unit needs no more than two seconds, and something as short is tried. -/
theorem shortest_hopping : (hopping 0).isStationary = false
    ∧ (∃ d, (hopping 0).minimalDuration = some d ∧ d ≤ 2 * (1 + 1e-6))
    ∧ ∃ x ∈ (hopping 0).tried, (hopping 0).feasible x = true ∧ x ≤ 2 * (1 + 1e-6) := by
  have hs : (hopping 0).isStationary = false := by
    rw [Bool.eq_false_iff, ne_eq, isStationary_iff]
    rintro ⟨hstart, -⟩
    norm_num [hopping] at hstart
  have hfound := (shortest_iff hs 2).2 (lowerBound_hopping 0) (by norm_num) fun x hx =>
    feasible_hopping 0 hx.1
  exact ⟨hs, hfound, (shortest_iff hs 2).1.mp hfound⟩

end Task

/-! ## Out and back -/

/-- Half a unit on the way, with the acceleration turned round: the joint swings out and back. -/
noncomputable def swinging : Task ℝ := ⟨⟨0, 0.5, 2.0⟩, ⟨0 + 0.5, 0.5, -2.0⟩, ⟨1, 10.0, 5.0⟩⟩

theorem moves_swinging : swinging.isStationary = false :=
  Task.isStationary_eq_false (by norm_num [swinging])

theorem lowerBound_swinging : swinging.lowerBound = 0.8 := by
  refine le_antisymm (Task.lowerBound_le_iff.mpr ?_) ?_
  · norm_num [swinging]
  · refine le_trans ?_ (Task.lowerBound_le_iff.mp le_rfl).2.2.2
    norm_num [swinging]

/-- In less time the swing starts with too much jerk. -/
theorem not_feasible_swinging_of_le {T : ℝ} (h0 : 0.8 ≤ T) (h : T ≤ 5.64) :
    swinging.feasible T = false := by
  have hT : 0 < T := by linarith
  refine within_eq_false ?_
  obtain ⟨-, -, hjerk⟩ := same_speed 0 0.5 2.0 0.5 0 hT
  rw [zero_mul] at hjerk
  change (5.0 : ℝ) * (1 + 1e-9) + 1 / 4503599627370496 < |(between _ _ T).jerkAt 0|
  have hvalue : 60 * (1 - 6 * (0 * (1 - 0))) * ((0.5 / T - 0.5) / T ^ 2)
      - 12 * (1 - 5 * (0 * (1 - 0))) * (2.0 / T) = -((24 * T ^ 2 + 30 * T - 30) / T ^ 3) := by
    rw [show (2.0 : ℝ) = 2 by norm_num]
    field_simp
    ring
  -- The cubic `24 T ^ 2 + 30 T - 30 - 5.001 T ^ 3` is positive between 0.8 and 5.64.
  have hcubic : 5.001 * T ^ 3 < 24 * T ^ 2 + 30 * T - 30 := by
    nlinarith [mul_nonneg (mul_nonneg (sub_nonneg.mpr h0) (sub_nonneg.mpr h)) hT.le,
      mul_nonneg (sub_nonneg.mpr h0) (sub_nonneg.mpr h)]
  have hlt : 5.001 < (24 * T ^ 2 + 30 * T - 30) / T ^ 3 := (lt_div_iff₀ (by positivity)).mpr hcubic
  rw [swinging, hjerk, hvalue, abs_neg]
  refine lt_of_lt_of_le ?_ (le_abs_self _)
  linarith

/-- In more time it swings back too fast. -/
theorem not_feasible_swinging_of_ge {T : ℝ} (h : 5.9 ≤ T) : swinging.feasible T = false := by
  have hT : 0 < T := by linarith
  rw [Bool.eq_false_iff]
  intro hfeasible
  have hlimit := abs_velocity_le_of_within (t := 1 / 2 * T) hT hfeasible ⟨by linarith, by linarith⟩
  obtain ⟨hvelocity, -, -⟩ := same_speed 0 0.5 2.0 0.5 (1 / 2) hT
  rw [swinging, hvelocity] at hlimit
  have hinv : 0.5 / T ≤ 0.5 / 5.9 := by gcongr
  have hback := (abs_le.mp hlimit).1
  norm_num [slackened, Poly.peakError] at hback hinv
  linarith

/-- **A swing is given up.** No candidate of the scan falls into the window between the two. -/
theorem minimalDuration_swinging : swinging.minimalDuration = none := by
  have hlower : swinging.feasible swinging.lowerBound = false := by
    rw [lowerBound_swinging]
    exact not_feasible_swinging_of_le le_rfl (by norm_num)
  rw [Task.minimalDuration_eq, if_neg (by simp [moves_swinging]), if_neg (by simp [hlower]),
    Option.map_eq_none_iff, lowerBound_swinging]
  refine Task.scan_eq_none fun k _ => ?_
  rw [mul_assoc, ← pow_succ']
  -- The 40th candidate is still too short, and the 41st is already too long.
  rcases Nat.lt_or_ge k 40 with hk | hk
  · have hone : (1 : ℝ) ≤ 1.05 ^ (k + 1) := one_le_pow₀ (by norm_num)
    have hpow : (1.05 : ℝ) ^ (k + 1) ≤ 1.05 ^ 40 := pow_le_pow_right₀ (by norm_num) hk
    norm_num at hone hpow ⊢
    exact not_feasible_swinging_of_le (by linarith) (by linarith)
  · have hpow : (1.05 : ℝ) ^ 41 ≤ 1.05 ^ (k + 1) := pow_le_pow_right₀ (by norm_num) (by omega)
    norm_num at hpow ⊢
    exact not_feasible_swinging_of_ge (by linarith)

/-- In 5.7 s the swing keeps all its limits. -/
theorem staysWithin_swinging : (swinging.profile 5.7).StaysWithin swinging.limits := by
  intro t ht
  have hT : (0 : ℝ) < 5.7 := by norm_num
  change t ∈ Icc 0 (between _ _ 5.7).duration at ht
  rw [between_duration _ _ hT] at ht
  obtain ⟨s, h0, h1, rfl⟩ := exists_fraction hT ht
  obtain ⟨hvelocity, hacceleration, hjerk⟩ := same_speed 0 0.5 2.0 0.5 s hT
  obtain ⟨hw0, hw1⟩ := mul_one_sub_mem h0 h1
  change |((between _ _ 5.7).stateAt (s * 5.7)).velocity| ≤ 1
    ∧ |((between _ _ 5.7).stateAt (s * 5.7)).acceleration| ≤ 10.0
    ∧ |(between _ _ 5.7).jerkAt (s * 5.7)| ≤ 5.0
  rw [swinging, hvelocity, hacceleration, hjerk]
  have hs := abs_one_sub_two_mul_le h0 h1
  generalize s * (1 - s) = w at hw0 hw1 ⊢
  norm_num
  refine ⟨abs_le.mpr ⟨by nlinarith, by nlinarith [sq_nonneg (w - 0.082)]⟩, ?_,
    abs_le.mpr ⟨by linarith, by linarith⟩⟩
  refine (mul_le_of_le_one_left (abs_nonneg _) hs).trans ?_
  exact abs_le.mpr ⟨by linarith, by linarith⟩

/-- The swing over 5.7 s. -/
noncomputable def swing : Leg 1 where
  start := ⟨[0], [0.5], [2.0]⟩
  goal := ⟨[0 + 0.5], [0.5], [-2.0]⟩
  limits := ⟨[1], [10.0], [5.0]⟩
  duration := 5.7
  start_joints := rfl
  goal_joints := rfl
  limits_positive := by
    refine Limits.ofLists_eq_ok.mpr ⟨⟨rfl, rfl⟩, ?_, rfl⟩
    norm_num [Limits.joints]
  limits_joints := rfl
  duration_pos := by norm_num

theorem keepsLimits_swing : swing.KeepsLimits :=
  List.forall_mem_singleton.mpr staysWithin_swinging

theorem swinging_raised : swinging.raised = swinging := by
  norm_num [Task.raised, Task.ofLimits, swinging]

/-- **A swing is missed.** The request is valid and the swing takes 5.7 s, but the planner says that
there is no feasible duration. -/
theorem swing_missed : (swing.request none).Valid 1
    ∧ (swing.request none).tasks 1 = .ok [swinging] ∧ swinging.isStationary = false
    ∧ 5.7 ∈ Icc (1e-6 : ℝ) 1e4 ∧ swinging.feasible 5.7 = true ∧ swinging.minimalDuration = none
    ∧ Planner.update ⟨1, 0.01⟩ (swing.request none) = .error (.error (.noFeasibleProfile 0)) := by
  have htasks : (swing.request none).tasks 1 = .ok [swinging] :=
    (Leg.request_tasks keepsLimits_swing none).trans (by rw [← swinging_raised]; rfl)
  refine ⟨Leg.request_valid keepsLimits_swing none, htasks, moves_swinging,
    ⟨by norm_num, by norm_num⟩, ?_, minimalDuration_swinging, ?_⟩
  · have h := Task.feasible_raised (by norm_num) staysWithin_swinging
    rwa [swinging_raised] at h
  · rw [Planner.update_of_not_requested htasks rfl]
    refine Planner.search_eq_error ?_
    rw [minimalDurations, minimalDuration_swinging]

end JerkLimit

import Mathlib
import JerkLimit.Proofs.Planner

/-!
# Proofs/Reframing — the planner does not care how its joints are looked at

Someone else may count the joints in another order, measure a joint's position from another zero and
take the opposite direction for positive. A `Reframing` is such a view, and requests and replies are
translated into it part by part. Over `ℝ` the planner commutes with the translation
(**`Planner.update_reframed`**): same success, same status, same duration, translated state.

One joint at a time the reason is that a profile in another frame has the same coefficients up to
sign (`Quintic.between_frame`), and that the isolation of roots looks at signs only to compare them
(`Poly.roots_map_neg`). Over all joints it is that the planner asks for each joint alone, for every
joint, or for the slowest.
-/

namespace JerkLimit

open Scalar Quintic

/-! ## Opposite polynomials -/

namespace Poly

theorem eval_map_neg (cs : List ℝ) (t : ℝ) : eval (cs.map (-·)) t = -eval cs t := by
  induction cs with
  | nil => simp
  | cons c cs ih =>
    rw [List.map_cons, eval_cons, eval_cons, ih]
    ring

theorem timesPower_map_neg (k : ℕ) (cs : List ℝ) :
    timesPower k (cs.map (-·)) = (timesPower k cs).map (-·) := by
  induction cs generalizing k with
  | nil => rfl
  | cons c cs ih => simp only [List.map_cons, timesPower_cons, ih, mul_neg]

theorem derivative_map_neg (cs : List ℝ) :
    derivative (cs.map (-·)) = (derivative cs).map (-·) := by
  cases cs with
  | nil => rfl
  | cons c cs => rw [List.map_cons, derivative_cons, derivative_cons, timesPower_map_neg]

theorem bisect_map_neg (cs : List ℝ) (n : ℕ) (a b : ℝ) :
    bisect (cs.map (-·)) n (eval (cs.map (-·)) a) a b = bisect cs n (eval cs a) a b := by
  induction n generalizing a b with
  | zero => rfl
  | succ n ih =>
    rw [bisect_succ, bisect_succ, ih, ih]
    simp only [eval_map_neg, neg_eq_zero, neg_mul_neg]

theorem rootOnPiece_map_neg (cs : List ℝ) (hi a b : ℝ) :
    rootOnPiece (cs.map (-·)) hi a b = rootOnPiece cs hi a b := by
  rw [rootOnPiece_real, rootOnPiece_real, bisect_map_neg]
  simp only [eval_map_neg, neg_eq_zero, neg_mul_neg]

theorem rootsOnPieces_map_neg (cs : List ℝ) (hi a : ℝ) (breaks : List ℝ) :
    rootsOnPieces (cs.map (-·)) hi a breaks = rootsOnPieces cs hi a breaks := by
  induction breaks generalizing a with
  | nil => rfl
  | cons b breaks ih => rw [rootsOnPieces, rootsOnPieces, rootOnPiece_map_neg, ih]

/-- **A polynomial and its opposite have the same roots**, and they are found at the same points. -/
theorem roots_map_neg (cs : List ℝ) (lo hi : ℝ) : roots (cs.map (-·)) lo hi = roots cs lo hi := by
  induction cs using cutError.induct with
  | case1 c₀ c₁ c₂ cs ih =>
    rw [← derivative_map_neg] at ih
    have hcons : roots ((c₀ :: c₁ :: c₂ :: cs).map (-·)) lo hi
        = rootsOnPieces ((c₀ :: c₁ :: c₂ :: cs).map (-·)) hi lo
          (roots (derivative ((c₀ :: c₁ :: c₂ :: cs).map (-·))) lo hi ++ [hi]) := by
      simp only [List.map_cons]
      rw [roots]
    rw [hcons, ih, rootsOnPieces_map_neg, roots]
  | case2 cs h =>
    rcases cs with _ | ⟨c₀, _ | ⟨c₁, _ | ⟨c₂, cs⟩⟩⟩
    · rfl
    · simp [roots]
    · simp only [List.map_cons, List.map_nil, roots_linear, neg_eq_zero, neg_div_neg_eq]
    · exact absurd rfl (h c₀ c₁ c₂ cs)

theorem peak_map_neg (cs : List ℝ) (T : ℝ) : peak (cs.map (-·)) T = peak cs T := by
  simp only [peak_real, derivative_map_neg, roots_map_neg, eval_map_neg, abs_neg]

end Poly

/-! ## One joint -/

/-- Another way to measure one joint: from another zero, and maybe in the opposite direction. -/
structure Frame where
  reflected : Bool
  /-- Where the old zero is found. -/
  offset : ℝ

namespace Frame

variable (F : Frame)

/-- A velocity or an acceleration in the frame. -/
def turn (x : ℝ) : ℝ := if F.reflected then -x else x

/-- A position in the frame. -/
noncomputable def place (x : ℝ) : ℝ := F.turn x + F.offset

/-- A state of the joint in the frame. -/
noncomputable def joint (j : JointState ℝ) : JointState ℝ :=
  ⟨F.place j.position, F.turn j.velocity, F.turn j.acceleration⟩

/-- What a joint has to do, seen in the frame. Its limits are the same in both directions. -/
noncomputable def task (t : Task ℝ) : Task ℝ := ⟨F.joint t.start, F.joint t.goal, t.limits⟩

/-- The way back. -/
noncomputable def symm : Frame := ⟨F.reflected, -F.turn F.offset⟩

theorem turn_eq : F.turn = id ∨ F.turn = (-·) := by
  obtain ⟨_ | _, o⟩ := F
  · exact .inl rfl
  · exact .inr rfl

@[simp] theorem abs_turn (x : ℝ) : |F.turn x| = |x| := by
  rcases F.turn_eq with h | h <;> simp [h]

theorem turn_sub (x y : ℝ) : F.turn (x - y) = F.turn x - F.turn y := by
  rcases F.turn_eq with h | h
  · simp [h]
  · simp only [h]
    ring

@[simp] theorem turn_turn (x : ℝ) : F.turn (F.turn x) = x := by
  rcases F.turn_eq with h | h <;> simp [h]

@[simp] theorem turn_eq_zero {x : ℝ} : F.turn x = 0 ↔ x = 0 := by
  rw [← abs_eq_zero, abs_turn, abs_eq_zero]

theorem place_sub (x y : ℝ) : F.place x - F.place y = F.turn (x - y) := by
  rw [place, place, turn_sub]
  ring

theorem symm_turn (x : ℝ) : F.symm.turn (F.turn x) = x := F.turn_turn x

theorem symm_place (x : ℝ) : F.symm.place (F.place x) = x := by
  change F.turn (F.turn x + F.offset) + -F.turn F.offset = x
  rcases F.turn_eq with h | h <;> simp [h]

theorem symm_joint (j : JointState ℝ) : F.symm.joint (F.joint j) = j := by
  rw [joint, joint, symm_place, symm_turn, symm_turn]

theorem joint_injective : Function.Injective F.joint :=
  Function.LeftInverse.injective F.symm_joint

/-! ### Profiles -/

theorem derivative_map_turn (cs : List ℝ) :
    Poly.derivative (cs.map F.turn) = (Poly.derivative cs).map F.turn := by
  rcases F.turn_eq with h | h
  · simp [h]
  · rw [h, Poly.derivative_map_neg]

theorem eval_map_turn (cs : List ℝ) (t : ℝ) :
    Poly.eval (cs.map F.turn) t = F.turn (Poly.eval cs t) := by
  rcases F.turn_eq with h | h
  · simp [h]
  · rw [h, Poly.eval_map_neg]

theorem peak_map_turn (cs : List ℝ) (T : ℝ) : Poly.peak (cs.map F.turn) T = Poly.peak cs T := by
  rcases F.turn_eq with h | h
  · simp [h]
  · rw [h, Poly.peak_map_neg]

/-- The constant coefficient is a position, and the others are turned. -/
theorem between_frame (s g : JointState ℝ) (T : ℝ) :
    ∃ c₀ cs T', between s g T = ⟨c₀ :: cs, T'⟩
      ∧ between (F.joint s) (F.joint g) T = ⟨F.place c₀ :: cs.map F.turn, T'⟩ := by
  rcases le_or_gt T 0 with hT | hT
  · refine ⟨_, _, _, between_of_nonpos s g hT, ?_⟩
    rw [between_of_nonpos _ _ hT]
    rcases F.turn_eq with h | h <;> simp [joint, h, neg_div]
  · refine ⟨_, _, _, between_of_pos s g hT, ?_⟩
    rw [between_of_pos _ _ hT]
    simp only [joint, place_sub]
    rcases F.turn_eq with h | h
    · simp [h]
    · simp only [h, List.map_cons, List.map_nil, Quintic.mk.injEq, List.cons.injEq, and_true,
        true_and]
      refine ⟨by ring, ?_, ?_, ?_⟩ <;> ring

theorem derivative_place_cons (c₀ : ℝ) (cs : List ℝ) :
    Poly.derivative (F.place c₀ :: cs.map F.turn) = (Poly.derivative (c₀ :: cs)).map F.turn :=
  F.derivative_map_turn (c₀ :: cs)

theorem eval_place_cons (c₀ : ℝ) (cs : List ℝ) (t : ℝ) :
    Poly.eval (F.place c₀ :: cs.map F.turn) t = F.place (Poly.eval (c₀ :: cs) t) := by
  have hturn := F.eval_map_turn (c₀ :: cs) t
  rw [List.map_cons, Poly.eval_cons] at hturn
  rw [Poly.eval_cons, place, place, ← hturn, add_assoc]

theorem stateAt_between (s g : JointState ℝ) (T t : ℝ) :
    (between (F.joint s) (F.joint g) T).stateAt t = F.joint ((between s g T).stateAt t) := by
  obtain ⟨c₀, cs, T', h, h'⟩ := F.between_frame s g T
  rw [h, h']
  simp only [stateAt, joint, eval_place_cons, derivative_place_cons, derivative_map_turn,
    eval_map_turn]

theorem duration_between (s g : JointState ℝ) (T : ℝ) :
    (between (F.joint s) (F.joint g) T).duration = (between s g T).duration := by
  obtain ⟨c₀, cs, T', h, h'⟩ := F.between_frame s g T
  rw [h, h']

/-- The peaks of a profile are magnitudes, and they are those of its derivatives. -/
theorem peaks_between (s g : JointState ℝ) (T : ℝ) :
    (between (F.joint s) (F.joint g) T).peaks = (between s g T).peaks := by
  obtain ⟨c₀, cs, T', h, h'⟩ := F.between_frame s g T
  rw [h, h']
  simp only [peaks, derivative_place_cons, derivative_map_turn, peak_map_turn]

/-! ### The search for a duration -/

section Task

variable (t : Task ℝ)

theorem feasible_task (d : ℝ) : (F.task t).feasible d = t.feasible d := by
  change (between (F.joint t.start) (F.joint t.goal) d).within t.limits
    = (between t.start t.goal d).within t.limits
  rw [within, within, peaks_between]

theorem isStationary_task : (F.task t).isStationary = t.isStationary := by
  rw [Bool.eq_iff_iff, Task.isStationary_iff, Task.isStationary_iff]
  exact Iff.and F.joint_injective.eq_iff (Iff.and F.turn_eq_zero F.turn_eq_zero)

theorem lowerBound_task : (F.task t).lowerBound = t.lowerBound := by
  refine eq_of_forall_ge_iff fun D => ?_
  rw [Task.lowerBound_le_iff, Task.lowerBound_le_iff]
  simp only [task, joint, place_sub, ← turn_sub, abs_turn]

theorem scan_task (n : ℕ) (lo c : ℝ) : (F.task t).scan n lo c = t.scan n lo c := by
  induction n generalizing lo c with
  | zero => rfl
  | succ n ih => rw [Task.scan_succ, Task.scan_succ, feasible_task, ih]

theorem tighten_task (n : ℕ) (lo hi : ℝ) : (F.task t).tighten n lo hi = t.tighten n lo hi := by
  induction n generalizing lo hi with
  | zero => rfl
  | succ n ih => rw [Task.tighten_succ, Task.tighten_succ, feasible_task, ih, ih]

/-- **The search for a duration** finds the same one in every frame. -/
theorem minimalDuration_task : (F.task t).minimalDuration = t.minimalDuration := by
  simp only [Task.minimalDuration_eq, isStationary_task, lowerBound_task, feasible_task, scan_task,
    tighten_task]

/-- **One time step** leads to the same place in every frame. -/
theorem advance_task {timeStep d : ℝ} {j : JointState ℝ} (h : t.advance timeStep d = .ok j) :
    (F.task t).advance timeStep d = .ok (F.joint j) := by
  rw [Task.advance] at h ⊢
  split_ifs at h ⊢ with hd
  · obtain rfl := Except.ok.inj h
    rfl
  · change (between (F.joint t.start) (F.joint t.goal) d).sample timeStep = _
    rw [Task.profile, sample] at h
    rw [sample, stateAt_between, duration_between]
    split_ifs at h ⊢
    obtain rfl := Except.ok.inj h
    rfl

theorem raised_task : (F.task t).raised = F.task t.raised := by
  simp only [Task.raised, Task.ofLimits, task, joint, abs_real, abs_turn]

theorem valid_task {t : Task ℝ} (h : t.Valid) : (F.task t).Valid where
  velocity_pos := h.velocity_pos
  acceleration_pos := h.acceleration_pos
  jerk_pos := h.jerk_pos
  goal_velocity := (congrArg (withinLimit · _) (F.abs_turn _)).trans h.goal_velocity
  goal_acceleration := (congrArg (withinLimit · _) (F.abs_turn _)).trans h.goal_acceleration

end Task

end Frame

/-! ## Lists with one entry per joint -/

section Relabel

variable {α β γ : Type} {n : ℕ}

/-- The entries of `n` joints in another order, each through its own function. What a list has
beyond them stays; where the entry of a joint is missing, the one in place is taken. -/
def relabel (σ : Equiv.Perm (Fin n)) (f : Fin n → α → α) (xs : List α) : List α :=
  xs.mapIdx fun i x => if h : i < n then f ⟨i, h⟩ (xs.getD (σ ⟨i, h⟩) x) else x

example : relabel (finRotate 3) (fun i x => 10 * i + x) [7, 8, 9] = [8, 19, 27] := by decide

variable (σ : Equiv.Perm (Fin n)) {f : Fin n → α → α} {g : Fin n → β → β} {h : Fin n → γ → γ}
  {xs : List α} {ys : List β}

@[simp] theorem length_relabel (f : Fin n → α → α) (xs : List α) :
    (relabel σ f xs).length = xs.length := List.length_mapIdx

/-- The entry of a joint is the one of its old place. -/
theorem getElem?_relabel (hn : n ≤ xs.length) (i : Fin n) :
    (relabel σ f xs)[(i : ℕ)]? = xs[(σ i : ℕ)]?.map (f i) := by
  have hi : (i : ℕ) < xs.length := i.isLt.trans_le hn
  have hσ : (σ i : ℕ) < xs.length := (σ i).isLt.trans_le hn
  simp [relabel, hi, hσ]

theorem getElem?_relabel_of_ge {k : ℕ} (hk : n ≤ k) : (relabel σ f xs)[k]? = xs[k]? := by
  simp [relabel, hk.not_gt]

theorem relabel_map (φ : α → β) (hφ : ∀ i x, g i (φ x) = φ (f i x)) :
    relabel σ g (xs.map φ) = (relabel σ f xs).map φ := by
  refine List.ext_getElem (by simp) fun k _ _ => ?_
  simp only [relabel, List.getElem_mapIdx, List.getElem_map, List.getD_map]
  split
  · exact hφ _ _
  · rfl

/-- Lists that go together are put in another order together. -/
theorem zipWith_relabel (φ : α → β → γ) (hx : n ≤ xs.length) (hy : n ≤ ys.length)
    (hφ : ∀ i x y, φ (f i x) (g i y) = h i (φ x y)) :
    List.zipWith φ (relabel σ f xs) (relabel σ g ys) = relabel σ h (List.zipWith φ xs ys) := by
  refine List.ext_getElem? fun k => ?_
  rcases lt_or_ge k n with hk | hk
  · have hσ := (σ ⟨k, hk⟩).isLt
    have hlength : n ≤ (List.zipWith φ xs ys).length := by simp [hx, hy]
    rw [List.getElem?_zipWith, getElem?_relabel σ hx ⟨k, hk⟩, getElem?_relabel σ hy ⟨k, hk⟩,
      getElem?_relabel σ hlength ⟨k, hk⟩, List.getElem?_zipWith,
      List.getElem?_eq_getElem (hσ.trans_le hx), List.getElem?_eq_getElem (hσ.trans_le hy)]
    exact congrArg some (hφ _ _ _)
  · rw [List.getElem?_zipWith, getElem?_relabel_of_ge σ hk, getElem?_relabel_of_ge σ hk,
      getElem?_relabel_of_ge σ hk, List.getElem?_zipWith]

theorem forall_mem_relabel {P : α → Prop} (hn : n ≤ xs.length) (hf : ∀ i x, P x → P (f i x))
    (hP : ∀ x ∈ xs, P x) : ∀ y ∈ relabel σ f xs, P y := by
  intro y hy
  obtain ⟨k, hk⟩ := List.mem_iff_getElem?.mp hy
  rcases lt_or_ge k n with hlt | hge
  · rw [getElem?_relabel σ hn ⟨k, hlt⟩] at hk
    obtain ⟨x, hx, rfl⟩ := Option.map_eq_some_iff.mp hk
    exact hf _ _ (hP x (List.mem_of_getElem? hx))
  · rw [getElem?_relabel_of_ge σ hge] at hk
    exact hP y (List.mem_of_getElem? hk)

/-- No entry gets lost. -/
theorem forall_mem_of_relabel {P : α → Prop} (hn : n ≤ xs.length) (hf : ∀ i x, P (f i x) → P x)
    (hP : ∀ y ∈ relabel σ f xs, P y) : ∀ x ∈ xs, P x := by
  intro x hx
  obtain ⟨k, hk⟩ := List.mem_iff_getElem?.mp hx
  rcases lt_or_ge k n with hlt | hge
  · refine hf (σ.symm ⟨k, hlt⟩) x (hP _ (List.mem_iff_getElem?.mpr ⟨σ.symm ⟨k, hlt⟩, ?_⟩))
    rw [getElem?_relabel σ hn, σ.apply_symm_apply, hk]
    rfl
  · refine hP x (List.mem_iff_getElem?.mpr ⟨k, ?_⟩)
    rw [getElem?_relabel_of_ge σ hge, hk]

theorem forall₂_relabel {R : α → β → Prop} (hn : n ≤ xs.length)
    (hR : ∀ i x y, R x y → R (f i x) (g i y)) (hxy : List.Forall₂ R xs ys) :
    List.Forall₂ R (relabel σ f xs) (relabel σ g ys) := by
  have hlength := hxy.length_eq
  have hzip : (relabel σ f xs).zip (relabel σ g ys)
      = relabel σ (fun i => Prod.map (f i) (g i)) (xs.zip ys) :=
    zipWith_relabel σ Prod.mk hn (hlength ▸ hn) fun _ _ _ => rfl
  refine List.forall₂_iff_zip.mpr ⟨by simpa using hlength, fun {x y} hmem => ?_⟩
  rw [hzip] at hmem
  exact forall_mem_relabel σ (P := fun p => R p.1 p.2) (by simp [hn, ← hlength])
    (fun i p => hR i p.1 p.2) (fun p hp => (List.forall₂_iff_zip.mp hxy).2 hp) _ hmem

/-- The way back brings every entry back to its place. -/
theorem relabel_symm (f g : Fin n → α → α) (hn : n ≤ xs.length)
    (hg : ∀ i x, g i (f (σ.symm i) x) = x) : relabel σ.symm g (relabel σ f xs) = xs := by
  refine List.ext_getElem? fun k => ?_
  rcases lt_or_ge k n with hk | hk
  · rw [getElem?_relabel σ.symm (by simpa using hn) ⟨k, hk⟩, getElem?_relabel σ hn,
      σ.apply_symm_apply, Option.map_map]
    exact (congrArg (Option.map · _) (funext (hg _))).trans Option.map_id'
  · rw [getElem?_relabel_of_ge _ hk, getElem?_relabel_of_ge _ hk]

end Relabel

/-! ## All joints -/

/-- Another way to look at `n` joints: joint `i` is what was joint `order i`, seen in `frame i`. -/
structure Reframing (n : ℕ) where
  order : Equiv.Perm (Fin n)
  frame : Fin n → Frame

namespace Reframing

variable {n : ℕ} (f : Reframing n)

noncomputable def state (s : State ℝ) : State ℝ where
  position := relabel f.order (fun i => (f.frame i).place) s.position
  velocity := relabel f.order (fun i => (f.frame i).turn) s.velocity
  acceleration := relabel f.order (fun i => (f.frame i).turn) s.acceleration

/-- What is not measured in a frame, such as a duration, only changes its place. -/
def reorder (xs : List ℝ) : List ℝ := relabel f.order (fun _ => id) xs

/-- Limits are the same in both directions, so only their order changes. -/
def limits (l : Limits ℝ) : Limits ℝ where
  velocity := f.reorder l.velocity
  acceleration := f.reorder l.acceleration
  jerk := f.reorder l.jerk

noncomputable def request (r : Request ℝ) : Request ℝ :=
  { r with
    current := f.state r.current
    target := f.state r.target
    limits := f.limits r.limits }

noncomputable def reply (a : Reply ℝ) : Reply ℝ := { a with state := f.state a.state }

/-- The tasks of the joints, translated one by one. -/
noncomputable def tasks (ts : List (Task ℝ)) : List (Task ℝ) :=
  relabel f.order (fun i => (f.frame i).task) ts

/-- The way back. -/
noncomputable def symm : Reframing n where
  order := f.order.symm
  frame i := (f.frame (f.order.symm i)).symm

/-! ### Requests -/

theorem checkJointCount_state {s : State ℝ} :
    (f.state s).checkJointCount n = .ok () ↔ s.checkJointCount n = .ok () := by
  simp [State.checkJointCount_eq_ok, state]

theorem ofJoints_relabel (js : List (JointState ℝ)) :
    State.ofJoints (relabel f.order (fun i => (f.frame i).joint) js)
      = f.state (State.ofJoints js) := by
  rw [state, State.ofJoints, State.ofJoints, State.mk.injEq]
  exact ⟨(relabel_map f.order JointState.position fun _ _ => rfl).symm,
    (relabel_map f.order JointState.velocity fun _ _ => rfl).symm,
    (relabel_map f.order JointState.acceleration fun _ _ => rfl).symm⟩

theorem joints_state {s : State ℝ} (hs : s.checkJointCount n = .ok ()) :
    (f.state s).joints = relabel f.order (fun i => (f.frame i).joint) s.joints := by
  have h := f.ofJoints_relabel s.joints
  rw [State.ofJoints_joints hs] at h
  rw [← h, State.joints_ofJoints]

theorem joints_limits {l : Limits ℝ} (hl : n ≤ l.joints.length) :
    (f.limits l).joints = relabel f.order (fun _ => id) l.joints := by
  simp only [Limits.joints, List.length_zipWith, List.length_zip, le_min_iff] at hl
  have hzip : (f.reorder l.acceleration).zip (f.reorder l.jerk)
      = relabel f.order (fun _ => id) (l.acceleration.zip l.jerk) :=
    zipWith_relabel f.order Prod.mk hl.2.1 hl.2.2 fun _ _ _ => rfl
  refine (congrArg (List.zipWith _ _) hzip).trans ?_
  refine zipWith_relabel f.order (f := fun _ => id) (g := fun _ => id) (h := fun _ => id) _ hl.1 ?_
    fun _ _ _ => rfl
  rw [List.length_zip]
  exact le_min hl.2.1 hl.2.2

variable {r : Request ℝ}

/-- **The motions of a request** are translated with it. -/
theorem motions_request (h : r.Valid n) : (f.request r).motions = f.tasks r.motions := by
  have hs := (State.length_joints h.current).ge
  have hg := (State.length_joints h.target).ge
  have hl := h.joints.ge
  rw [Request.motions, Request.motions, motions, motions]
  change List.zipWith _ (f.state r.current).joints
    ((f.state r.target).joints.zip (f.limits r.limits).joints) = _
  rw [joints_state f h.current, joints_state f h.target, joints_limits f hl]
  have hzip := zipWith_relabel f.order Prod.mk
    (h := fun i p => ((f.frame i).joint p.1, p.2)) hg hl fun _ _ _ => rfl
  refine (congrArg (List.zipWith _ _) hzip).trans ?_
  exact zipWith_relabel f.order _ hs (by simp [hg, hl]) fun _ _ _ => rfl

theorem valid_request (h : r.Valid n) : (f.request r).Valid n where
  current := f.checkJointCount_state.mpr h.current
  target := f.checkJointCount_state.mpr h.target
  jointCount := (length_relabel f.order (fun _ => id) r.limits.velocity).trans h.jointCount
  joints := by
    change (f.limits r.limits).joints.length = n
    rw [joints_limits f h.joints.ge, length_relabel, h.joints]
  motions := by
    rw [motions_request f h]
    exact forall_mem_relabel _ h.length_motions.ge (fun i m => (f.frame i).valid_task) h.motions

/-- **The checked tasks** are translated with their request. -/
theorem tasks_request {ts : List (Task ℝ)} (h : r.tasks n = .ok ts) :
    (f.request r).tasks n = .ok (f.tasks ts) := by
  obtain ⟨hvalid, rfl⟩ := Request.tasks_eq_ok.mp h
  refine Request.tasks_eq_ok.mpr ⟨f.valid_request hvalid, ?_⟩
  rw [Request.raised, motions_request f hvalid]
  exact (relabel_map f.order Task.raised fun i m => ((f.frame i).raised_task m).symm).symm

/-- Going there and back changes nothing where no entry is missing. -/
theorem symm_state {s : State ℝ} (hs : s.checkJointCount n = .ok ()) :
    f.symm.state (f.state s) = s := by
  obtain ⟨hp, hv, ha⟩ := State.checkJointCount_eq_ok.mp hs
  obtain ⟨p, v, a⟩ := s
  rw [State.mk.injEq]
  exact ⟨relabel_symm f.order (fun i => (f.frame i).place) (fun i => (f.symm.frame i).place)
      hp.ge fun i => (f.frame (f.order.symm i)).symm_place,
    relabel_symm f.order (fun i => (f.frame i).turn) (fun i => (f.symm.frame i).turn)
      hv.ge fun i => (f.frame (f.order.symm i)).symm_turn,
    relabel_symm f.order (fun i => (f.frame i).turn) (fun i => (f.symm.frame i).turn)
      ha.ge fun i => (f.frame (f.order.symm i)).symm_turn⟩

theorem symm_limits {l : Limits ℝ} (hl : n ≤ l.joints.length) : f.symm.limits (f.limits l) = l := by
  simp only [Limits.joints, List.length_zipWith, List.length_zip, le_min_iff] at hl
  obtain ⟨v, a, j⟩ := l
  rw [Limits.mk.injEq]
  have hsymm {xs : List ℝ} (h : n ≤ xs.length) : f.symm.reorder (f.reorder xs) = xs :=
    relabel_symm f.order _ _ h fun _ _ => rfl
  exact ⟨hsymm hl.1, hsymm hl.2.1, hsymm hl.2.2⟩

theorem symm_request (h : (f.request r).Valid n) : f.symm.request (f.request r) = r := by
  have hc := f.checkJointCount_state.mp h.current
  have ht := f.checkJointCount_state.mp h.target
  have hl : n ≤ r.limits.joints.length := by
    have hjoints : n ≤ (f.limits r.limits).joints.length := h.joints.ge
    simpa [Limits.joints, limits, reorder] using hjoints
  obtain ⟨c, t, l, minimum⟩ := r
  rw [Request.mk.injEq]
  exact ⟨f.symm_state hc, f.symm_state ht, f.symm_limits hl, rfl⟩

/-! ### Durations -/

variable {ts : List (Task ℝ)}

theorem allFeasible_tasks (hn : n ≤ ts.length) (d : ℝ) :
    allFeasible (f.tasks ts) d = allFeasible ts d := by
  rw [Bool.eq_iff_iff, allFeasible_iff, allFeasible_iff]
  constructor
  · exact forall_mem_of_relabel f.order hn fun i t h => (f.frame i).feasible_task t d ▸ h
  · exact forall_mem_relabel f.order hn fun i t h => ((f.frame i).feasible_task t d).trans h

theorem minimalDurations_tasks {ds : List ℝ} (hn : n ≤ ts.length)
    (h : minimalDurations 0 ts = .ok ds) :
    minimalDurations 0 (f.tasks ts) = .ok (f.reorder ds) := by
  rw [minimalDurations_eq_ok] at h ⊢
  exact forall₂_relabel f.order hn (fun i t d hd => ((f.frame i).minimalDuration_task t).trans hd) h

/-- The slowest joint is as slow in every order. -/
theorem slowest_reorder {ds : List ℝ} (hn : n ≤ ds.length) :
    slowest (f.reorder ds) = slowest ds := by
  refine eq_of_forall_ge_iff fun b => ?_
  rw [slowest, slowest, maxFrom_le_iff, maxFrom_le_iff]
  exact Iff.and Iff.rfl ⟨forall_mem_of_relabel f.order hn fun _ _ => id,
    forall_mem_relabel f.order hn fun _ _ => id⟩

theorem stretch_tasks (hn : n ≤ ts.length) (k : ℕ) (d : ℝ) :
    stretch (f.tasks ts) k d = stretch ts k d := by
  induction k generalizing d with
  | zero => rfl
  | succ k ih => rw [stretch_succ, stretch_succ, allFeasible_tasks f hn, ih]

theorem commonDuration_tasks {ds : List ℝ} (hts : n ≤ ts.length) (hds : n ≤ ds.length)
    (minimum : Option ℝ) :
    commonDuration (f.tasks ts) (f.reorder ds) minimum = commonDuration ts ds minimum := by
  rw [commonDuration_eq, commonDuration_eq, slowest_reorder f hds, stretch_tasks f hts]

/-! ### Answers -/

variable {p : Planner ℝ}

theorem advance_tasks {timeStep : ℝ} {ds : List ℝ} {s : State ℝ} (hts : n ≤ ts.length)
    (hds : n ≤ ds.length) (h : Planner.advance timeStep ts ds = .ok s) :
    Planner.advance timeStep (f.tasks ts) (f.reorder ds) = .ok (f.state s) := by
  obtain ⟨js, hjs, hs⟩ := bind_eq_ok.mp h
  obtain rfl := pure_eq_ok.mp hs
  have hzip : (f.tasks ts).zip (f.reorder ds)
      = relabel f.order (fun i p => ((f.frame i).task p.1, p.2)) (ts.zip ds) :=
    zipWith_relabel f.order Prod.mk hts hds fun _ _ _ => rfl
  refine bind_eq_ok.mpr ⟨_, ?_, pure_eq_ok.mpr (f.ofJoints_relabel js)⟩
  rw [hzip, mapM_eq_ok]
  exact forall₂_relabel f.order (List.length_zip ▸ le_min hts hds)
    (fun i p j hj => (f.frame i).advance_task p.1 hj) (mapM_eq_ok.mp hjs)

theorem advanceAll_tasks {timeStep d : ℝ} {s : State ℝ} (hts : n ≤ ts.length)
    (h : Planner.advanceAll timeStep ts d = .ok s) :
    Planner.advanceAll timeStep (f.tasks ts) d = .ok (f.state s) := by
  have hsame : (f.tasks ts).map (fun _ => d) = f.reorder (ts.map fun _ => d) :=
    (relabel_map f.order (fun _ => d) fun _ _ => rfl).symm
  rw [Planner.advanceAll, hsame]
  exact f.advance_tasks hts (by simpa using hts) h

theorem search_request {r : Request ℝ} {a : Reply ℝ} (hts : n ≤ ts.length)
    (h : p.search r ts = .ok a) : p.search (f.request r) (f.tasks ts) = .ok (f.reply a) := by
  obtain ⟨ds, hds, h⟩ := bind_eq_ok.mp h
  have hds := (mapError_ok _ _).mp hds
  have hn : n ≤ ds.length := hts.trans (minimalDurations_eq_ok.mp hds).length_eq.le
  refine bind_eq_ok.mpr ⟨_, (mapError_ok _ _).mpr (f.minimalDurations_tasks hts hds), ?_⟩
  have hminimum : (f.request r).minimumDuration = r.minimumDuration := rfl
  rw [hminimum, commonDuration_tasks f hts hn]
  cases hcommon : commonDuration ts ds r.minimumDuration with
  | none =>
    rw [hcommon] at h
    obtain ⟨s, hs, ha⟩ := bind_eq_ok.mp h
    obtain rfl := pure_eq_ok.mp ha
    refine bind_eq_ok.mpr ⟨_, (mapError_ok _ _).mpr
      (f.advance_tasks hts hn ((mapError_ok _ _).mp hs)), ?_⟩
    rw [slowest_reorder f hn]
    rfl
  | some d =>
    simp only [hcommon] at h ⊢
    split_ifs at h ⊢ with hfits
    · obtain rfl := pure_eq_ok.mp h
      rfl
    · obtain ⟨s, hs, ha⟩ := bind_eq_ok.mp h
      obtain rfl := pure_eq_ok.mp ha
      exact bind_eq_ok.mpr ⟨_, (mapError_ok _ _).mpr
        (f.advanceAll_tasks hts ((mapError_ok _ _).mp hs)), rfl⟩

/-- **What the planner answers** it also answers in another view. -/
theorem update_request {f : Reframing p.jointCount} {r : Request ℝ} {a : Reply ℝ}
    (h : p.update r = .ok a) : p.update (f.request r) = .ok (f.reply a) := by
  obtain ⟨ts, hts, h⟩ := bind_eq_ok.mp h
  obtain ⟨hvalid, hmotions⟩ := Request.tasks_eq_ok.mp hts
  have hn : p.jointCount ≤ ts.length := by
    rw [← hmotions, Request.raised, List.length_map, hvalid.length_motions]
  have hrequested : p.requested (f.request r) (f.tasks ts) = p.requested r ts := by
    simp only [Planner.requested, allFeasible_tasks f hn]
    rfl
  refine bind_eq_ok.mpr ⟨_, f.tasks_request hts, ?_⟩
  cases hd : p.requested r ts with
  | none =>
    simp only [hrequested, hd] at h ⊢
    exact f.search_request hn h
  | some d =>
    simp only [hrequested, hd] at h ⊢
    obtain ⟨s, hs, ha⟩ := bind_eq_ok.mp h
    obtain rfl := pure_eq_ok.mp ha
    exact bind_eq_ok.mpr ⟨_, (mapError_ok _ _).mpr
      (f.advanceAll_tasks hn ((mapError_ok _ _).mp hs)), rfl⟩

end Reframing

/-- **The planner commutes with a change of view.** A request in another order, with shifted and
reflected joints, succeeds exactly if the request itself does, and then the answer is the same but
for the view: same status, same duration, and the state in the other order, shifted and
reflected. -/
theorem Planner.update_reframed (p : Planner ℝ) (f : Reframing p.jointCount) (r : Request ℝ) :
    (p.update (f.request r)).toOption = (p.update r).toOption.map f.reply := by
  cases h : p.update r with
  | ok a =>
    rw [Reframing.update_request h]
    rfl
  | error e =>
    -- An answer in the other view would be one in this view, by the way back.
    cases h' : p.update (f.request r) with
    | error e' => rfl
    | ok a' =>
      obtain ⟨ts, hts, -⟩ := bind_eq_ok.mp h'
      have hback := Reframing.update_request (f := f.symm) h'
      rw [f.symm_request (Request.tasks_eq_ok.mp hts).1, h] at hback
      exact nomatch hback

end JerkLimit

import Mathlib.Data.List.Forall2
import JerkLimit.Planner.Task

/-!
# Proofs/Checks — what a run of checks lets through

A check that can fail is a value of `Except`, and a sequence of checks passes exactly if each of
them does. The lemmas here read a success apart, step by step; none of them depends on the numbers.
A `Run` carries a state along, so for it there is one lemma for each way a step can end.
-/

namespace JerkLimit

section Checks

variable {ε ε' α β : Type}

theorem bind_eq_ok {x : Except ε α} {f : α → Except ε β} {b : β} :
    x >>= f = .ok b ↔ ∃ a, x = .ok a ∧ f a = .ok b := by
  cases x <;> simp [bind, Except.bind]

theorem pure_eq_ok {a b : α} : (pure a : Except ε α) = .ok b ↔ a = b := by
  simp [pure, Except.pure]

/-- Errors are renamed, successes stay. -/
theorem mapError_ok {a : α} (x : Except ε α) (f : ε → ε') : x.mapError f = .ok a ↔ x = .ok a := by
  cases x with
  | error e => simp [Except.mapError]
  | ok b => simp [Except.mapError]

theorem ensure_eq_ok {ok : Bool} {e : ε} {u : Unit} : ensure ok e = .ok u ↔ ok = true := by
  cases ok <;> simp [ensure]

theorem require_eq_ok {ok : Bool} {e : ε} {u : Unit} : require ok e = .ok u ↔ ok = true :=
  ensure_eq_ok

theorem entry_eq_ok {xs : List α} {i : ℕ} {x : α} : entry xs i = .ok x ↔ xs[i]? = some x := by
  unfold entry
  cases xs[i]? <;> simp

theorem exists_ok_of_isOk {x : Except ε α} (h : x.isOk = true) : ∃ a, x = .ok a := by
  cases x with
  | ok a => exact ⟨a, rfl⟩
  | error e => exact nomatch h

theorem exists_error_of_isOk {x : Except ε α} (h : x.isOk = false) : ∃ e, x = .error e := by
  cases x with
  | ok a => exact nomatch h
  | error e => exact ⟨e, rfl⟩

theorem toOption_eq_some {x : Except ε α} {a : α} : x.toOption = some a ↔ x = .ok a := by
  cases x <;> simp [Except.toOption]

/-- Checking a list entry by entry. -/
theorem mapM_eq_ok {f : α → Except ε β} {xs : List α} {ys : List β} :
    xs.mapM f = .ok ys ↔ List.Forall₂ (fun x y => f x = .ok y) xs ys := by
  induction xs generalizing ys with
  | nil => rw [List.mapM_nil, pure_eq_ok, List.forall₂_nil_left_iff, eq_comm]
  | cons x xs ih =>
    simp only [List.mapM_cons, bind_eq_ok, pure_eq_ok, ih]
    cases ys with
    | nil => simp
    | cons y ys => simp [List.forall₂_cons, and_comm]

/-- A list of checks passes if each of them does. -/
theorem forM_eq_ok {f : α → Except ε Unit} {xs : List α} {u : Unit} :
    xs.forM f = .ok u ↔ ∀ x ∈ xs, f x = .ok () := by
  induction xs with
  | nil => exact iff_of_true rfl nofun
  | cons x xs ih =>
    change (f x >>= fun _ => xs.forM f) = .ok u ↔ _
    rw [bind_eq_ok, List.forall_mem_cons, ← ih]
    exact ⟨fun ⟨⟨⟩, hx, hxs⟩ => ⟨hx, hxs⟩, fun ⟨hx, hxs⟩ => ⟨(), hx, hxs⟩⟩

end Checks

/-! ## Runs with a state -/

section Runs

variable {σ : Type} {ε ε' α β : Type} {x : Run σ ε α} {s s' : σ}

theorem run_bind_ok {f : α → Run σ ε β} {a : α} (h : x.run.run s = (.ok a, s')) :
    (x >>= f).run.run s = (f a).run.run s' := by
  rw [ExceptT.run_bind, StateT.run_bind, h]
  rfl

theorem run_bind_error {f : α → Run σ ε β} {e : Stop ε} (h : x.run.run s = (.error e, s')) :
    (x >>= f).run.run s = (.error e, s') := by
  rw [ExceptT.run_bind, StateT.run_bind, h]
  rfl

/-- A run that ends well went well at every step. -/
theorem run_bind_eq_ok {f : α → Run σ ε β} {b : β} : (x >>= f).run.run s = (.ok b, s') ↔
    ∃ a s₁, x.run.run s = (.ok a, s₁) ∧ (f a).run.run s₁ = (.ok b, s') := by
  obtain ⟨answer, s₁, hx⟩ : ∃ answer s₁, x.run.run s = (answer, s₁) := ⟨_, _, rfl⟩
  cases answer with
  | error e =>
    refine iff_of_false (fun h => ?_) fun ⟨a, s₂, h, _⟩ => ?_
    · exact nomatch (Prod.mk.inj ((run_bind_error hx).symm.trans h)).1
    · exact nomatch (Prod.mk.inj (hx.symm.trans h)).1
  | ok a =>
    rw [run_bind_ok hx]
    refine ⟨fun h => ⟨a, s₁, hx, h⟩, fun ⟨a', s₂, h, hf⟩ => ?_⟩
    obtain ⟨ha, rfl⟩ := Prod.mk.inj (hx.symm.trans h)
    obtain rfl := Except.ok.inj ha
    exact hf

theorem run_pure_eq_ok {a b : α} :
    (pure a : Run σ ε α).run.run s = (.ok b, s') ↔ a = b ∧ s = s' :=
  ⟨fun h => ⟨Except.ok.inj (Prod.mk.inj h).1, (Prod.mk.inj h).2⟩, fun ⟨ha, hs⟩ => ha ▸ hs ▸ rfl⟩

theorem run_capture_ok {a : α} (h : x.run.run s = (.ok a, s')) :
    (Run.capture x : Run σ ε' (Except ε α)).run.run s = (.ok (.ok a), s') := by
  change StateT.run (x.run >>= _) s = _
  rw [StateT.run_bind, h]
  rfl

theorem run_capture_error {e : ε} (h : x.run.run s = (.error (.error e), s')) :
    (Run.capture x : Run σ ε' (Except ε α)).run.run s = (.ok (.error e), s') := by
  change StateT.run (x.run >>= _) s = _
  rw [StateT.run_bind, h]
  rfl

theorem run_capture_fault {f : Fault} (h : x.run.run s = (.error (.fault f), s')) :
    (Run.capture x : Run σ ε' (Except ε α)).run.run s = (.error (.fault f), s') := by
  change StateT.run (x.run >>= _) s = _
  rw [StateT.run_bind, h]
  rfl

/-- What a run has captured is how it ended. -/
theorem run_of_capture {r : Except ε α}
    (h : (Run.capture x : Run σ ε' (Except ε α)).run.run s = (.ok r, s')) :
    x.run.run s = (r.mapError .error, s') := by
  obtain ⟨answer, s₁, hx⟩ : ∃ answer s₁, x.run.run s = (answer, s₁) := ⟨_, _, rfl⟩
  match answer with
  | .ok a =>
    obtain ⟨hr, rfl⟩ := Prod.mk.inj ((run_capture_ok hx).symm.trans h)
    obtain rfl := Except.ok.inj hr
    exact hx
  | .error (.error e) =>
    obtain ⟨hr, rfl⟩ := Prod.mk.inj ((run_capture_error hx).symm.trans h)
    obtain rfl := Except.ok.inj hr
    exact hx
  | .error (.fault f) =>
    exact nomatch (Prod.mk.inj ((run_capture_fault hx).symm.trans h)).1

end Runs

end JerkLimit

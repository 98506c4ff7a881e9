import Mathlib
import JerkLimit.Proofs.Checks
import JerkLimit.Retry

/-!
# Proofs/Runs — runs side by side

`Run.Tracks R x y Q E` compares two runs. From states related by `R` they give the same answer and
get to related states again; the answer is a value in `Q`, or a stop for a reason in `E`. This goes
through sequences, captured errors and bounded attempts. Two special cases compare a run with
itself.

* `Run.Ends x Q E`: wherever `x` starts, a value of it is in `Q`, and it stops early only for a
  reason in `E`.
* `Run.Agrees R x`: from states related by `R`, `x` gives the same answer and gets to related states
  again. What `R` does not compare is not used.
-/

namespace JerkLimit.Run

variable {σ ρ τ ε ε' α β : Type}

/-! ## Two runs -/

/-- What two runs have come to: the same answer, a value in `Q` or a stop in `E`, in related
states. -/
inductive Meets (R : σ → ρ → Prop) (Q : α → Prop) (E : Stop ε → Prop) :
    Except (Stop ε) α × σ → Except (Stop ε) α × ρ → Prop where
  | value {a : α} {s : σ} {r : ρ} (ha : Q a) (hr : R s r) : Meets R Q E (.ok a, s) (.ok a, r)
  | stop {e : Stop ε} {s : σ} {r : ρ} (he : E e) (hr : R s r) :
      Meets R Q E (.error e, s) (.error e, r)

/-- From related states, two runs come to the same answer, in related states. -/
def Tracks (R : σ → ρ → Prop) (x : Run σ ε α) (y : Run ρ ε α) (Q : α → Prop)
    (E : Stop ε → Prop) : Prop :=
  ∀ ⦃s : σ⦄ ⦃r : ρ⦄, R s r → Meets R Q E (x.run.run s) (y.run.run r)

section Tracks

variable {R : σ → ρ → Prop} {Q : α → Prop} {E : Stop ε → Prop} {F : Stop ε' → Prop}
  {x : Run σ ε α} {y : Run ρ ε α}

namespace Meets

variable {u : Except (Stop ε) α × σ} {v : Except (Stop ε) α × ρ}

theorem answer (h : Meets R Q E u v) : u.1 = v.1 := by
  cases h <;> rfl

theorem related (h : Meets R Q E u v) : R u.2 v.2 := by
  cases h with
  | value _ hr => exact hr
  | stop _ hr => exact hr

end Meets

namespace Tracks

theorem mono {E' : Stop ε → Prop} (h : Tracks R x y Q E) (hE : ∀ e, E e → E' e) :
    Tracks R x y Q E' := by
  intro s r hr
  obtain ⟨u, hu⟩ : ∃ u, x.run.run s = u := ⟨_, rfl⟩
  obtain ⟨v, hv⟩ : ∃ v, y.run.run r = v := ⟨_, rfl⟩
  have hmeets := h hr
  rw [hu, hv] at hmeets ⊢
  cases hmeets with
  | value ha hr => exact .value ha hr
  | stop he hr => exact .stop (hE _ he) hr

/-- A result that does not depend on the state. -/
theorem of_result {r : Except (Stop ε) α} (hvalue : ∀ a, r = .ok a → Q a)
    (hstop : ∀ e, r = .error e → E e) :
    Tracks R (ExceptT.mk (pure r) : Run σ ε α) (ExceptT.mk (pure r) : Run ρ ε α) Q E := by
  intro s s' h
  cases r with
  | ok a => exact .value (hvalue a rfl) h
  | error e => exact .stop (hstop e rfl) h

theorem pure {a : α} (h : Q a) :
    Tracks R (Pure.pure a : Run σ ε α) (Pure.pure a : Run ρ ε α) Q E :=
  of_result (fun _ ha => Except.ok.inj ha ▸ h) nofun

theorem throw {e : Stop ε} (h : E e) :
    Tracks R (MonadExcept.throw e : Run σ ε α) (MonadExcept.throw e : Run ρ ε α) Q E :=
  of_result nofun fun _ he => Except.error.inj he ▸ h

theorem bind {P : β → Prop} {f : α → Run σ ε β} {g : α → Run ρ ε β} (hxy : Tracks R x y Q E)
    (hfg : ∀ a, Q a → Tracks R (f a) (g a) P E) : Tracks R (x >>= f) (y >>= g) P E := by
  intro s r h
  obtain ⟨u, hu⟩ : ∃ u, x.run.run s = u := ⟨_, rfl⟩
  obtain ⟨v, hv⟩ : ∃ v, y.run.run r = v := ⟨_, rfl⟩
  have hmeets := hxy h
  rw [hu, hv] at hmeets
  cases hmeets with
  | value ha hr =>
    rw [run_bind_ok hu, run_bind_ok hv]
    exact hfg _ ha hr
  | stop he hr =>
    rw [run_bind_error hu, run_bind_error hv]
    exact .stop he hr

/-- Captured errors are values, so only faults are left to stop the runs. -/
theorem capture (hxy : Tracks R x y Q E) (hfault : ∀ f, E (.fault f) → F (.fault f)) :
    Tracks R (Run.capture x : Run σ ε' (Except ε α)) (Run.capture y : Run ρ ε' (Except ε α))
      (fun r => ∀ a, r = .ok a → Q a) F := by
  intro s r h
  obtain ⟨u, hu⟩ : ∃ u, x.run.run s = u := ⟨_, rfl⟩
  obtain ⟨v, hv⟩ : ∃ v, y.run.run r = v := ⟨_, rfl⟩
  have hmeets := hxy h
  rw [hu, hv] at hmeets
  cases hmeets with
  | value ha hr =>
    rw [run_capture_ok hu, run_capture_ok hv]
    exact .value (fun _ ha' => Except.ok.inj ha' ▸ ha) hr
  | @stop e _ _ he hr =>
    cases e with
    | error e =>
      rw [run_capture_error hu, run_capture_error hv]
      exact .value nofun hr
    | fault f =>
      rw [run_capture_fault hu, run_capture_fault hv]
      exact .stop (hfault f he) hr

/-- Attempts track each other one by one, and what they lead to is the value of an attempt. -/
theorem retryFrom {attempt : ℕ → Run σ ε α} {attempt' : ℕ → Run ρ ε α} {ok : α → Bool}
    (h : ∀ i, Tracks R (attempt i) (attempt' i) Q E) (n i : ℕ) (last : Option (Attempts α))
    (hlast : ∀ a, last = some a → Q a.value) :
    Tracks R (JerkLimit.retryFrom attempt (fun a => Pure.pure (ok a)) n i last)
      (JerkLimit.retryFrom attempt' (fun a => Pure.pure (ok a)) n i last)
      (fun o => ∀ a, o = some a → Q a.value) E := by
  induction n generalizing i last with
  | zero => exact .pure hlast
  | succ n ih =>
    refine (h i).bind fun a ha =>
      (Tracks.pure (Q := fun _ => True) trivial).bind fun accepted _ => ?_
    have hlast' : ∀ a', some (Attempts.mk a accepted (i + 1)) = some a' → Q a'.value := by
      intro a' ha'
      exact Option.some.inj ha' ▸ ha
    cases accepted with
    | true => exact .pure hlast'
    | false => exact ih (i + 1) _ hlast'

/-- Attempts that work on a state of their own keep an invariant of it. -/
theorem retryFrom_invariant {I : τ → Prop} {attempt : ℕ → StateT τ (Run σ ε) α}
    {attempt' : ℕ → StateT τ (Run ρ ε) α} (accept : α → StateT τ (Run σ ε) Bool)
    (accept' : α → StateT τ (Run ρ ε) Bool)
    (hattempt : ∀ i t, I t → Tracks R ((attempt i).run t) ((attempt' i).run t) (fun r => I r.2) E)
    (haccept : ∀ a t, I t → Tracks R ((accept a).run t) ((accept' a).run t) (fun r => I r.2) E)
    (n i : ℕ) (last : Option (Attempts α)) {t : τ} (ht : I t) :
    Tracks R ((JerkLimit.retryFrom attempt accept n i last).run t)
      ((JerkLimit.retryFrom attempt' accept' n i last).run t) (fun r => I r.2) E := by
  induction n generalizing i last t with
  | zero => exact .pure ht
  | succ n ih =>
    rw [JerkLimit.retryFrom, JerkLimit.retryFrom, StateT.run_bind, StateT.run_bind]
    refine (hattempt i t ht).bind fun ⟨a, t₁⟩ ht₁ => ?_
    rw [StateT.run_bind, StateT.run_bind]
    refine (haccept a t₁ ht₁).bind fun ⟨accepted, t₂⟩ ht₂ => ?_
    cases accepted with
    | true => exact .pure ht₂
    | false => exact ih (i + 1) _ ht₂

end Tracks

end Tracks

/-! ## How a run ends -/

/-- Wherever it starts, a run gives a value in `Q` or stops for a reason in `E`. -/
structure Ends (x : Run σ ε α) (Q : α → Prop) (E : Stop ε → Prop) : Prop where
  value {s s' : σ} {a : α} : x.run.run s = (.ok a, s') → Q a
  stop {s s' : σ} {e : Stop ε} : x.run.run s = (.error e, s') → E e

namespace Ends

variable {x : Run σ ε α} {Q : α → Prop} {E : Stop ε → Prop} {F : Stop ε' → Prop}

/-- A run that tracks itself from every state. -/
theorem of_tracks {R : σ → σ → Prop} (hR : ∀ s, R s s) (h : Tracks R x x Q E) : Ends x Q E where
  value {s s' a} hx := by
    have hmeets := h (hR s)
    rw [hx] at hmeets
    cases hmeets with
    | value ha _ => exact ha
  stop {s s' e} hx := by
    have hmeets := h (hR s)
    rw [hx] at hmeets
    cases hmeets with
    | stop he _ => exact he

theorem tracks (h : Ends x Q E) : Tracks Eq x x Q E := by
  rintro s _ rfl
  obtain ⟨answer, s', hx⟩ : ∃ answer s', x.run.run s = (answer, s') := ⟨_, _, rfl⟩
  rw [hx]
  cases answer with
  | ok a => exact .value (h.value hx) rfl
  | error e => exact .stop (h.stop hx) rfl

/-- A result that does not depend on the state. -/
theorem of_result {r : Except (Stop ε) α} (hvalue : ∀ a, r = .ok a → Q a)
    (hstop : ∀ e, r = .error e → E e) : Ends (ExceptT.mk (pure r) : Run σ ε α) Q E :=
  .of_tracks (fun _ => rfl) (.of_result hvalue hstop)

theorem pure {a : α} (h : Q a) : Ends (Pure.pure a : Run σ ε α) Q E :=
  of_result (fun _ ha => Except.ok.inj ha ▸ h) nofun

theorem throw {e : Stop ε} (h : E e) : Ends (MonadExcept.throw e : Run σ ε α) Q E :=
  of_result nofun fun _ he => Except.error.inj he ▸ h

theorem bind {f : α → Run σ ε β} {R : β → Prop} (hx : Ends x Q E)
    (hf : ∀ a, Q a → Ends (f a) R E) : Ends (x >>= f) R E :=
  .of_tracks (fun _ => rfl) (hx.tracks.bind fun a ha => (hf a ha).tracks)

/-- Captured errors are values, so only faults are left to stop the run. -/
theorem capture (hx : Ends x Q E) (hfault : ∀ f, E (.fault f) → F (.fault f)) :
    Ends (Run.capture x : Run σ ε' (Except ε α)) (fun r => ∀ a, r = .ok a → Q a) F :=
  .of_tracks (fun _ => rfl) (hx.tracks.capture hfault)

/-- Attempts that work on a state of their own keep an invariant of it. -/
theorem retryFrom_invariant {I : τ → Prop} {attempt : ℕ → StateT τ (Run σ ε) α}
    (accept : α → StateT τ (Run σ ε) Bool)
    (hattempt : ∀ i t, I t → Ends ((attempt i).run t) (fun r => I r.2) E)
    (haccept : ∀ a t, I t → Ends ((accept a).run t) (fun r => I r.2) E) (n i : ℕ)
    (last : Option (Attempts α)) {t : τ} (ht : I t) :
    Ends ((JerkLimit.retryFrom attempt accept n i last).run t) (fun r => I r.2) E :=
  .of_tracks (fun _ => rfl) (.retryFrom_invariant accept accept
    (fun i t ht => (hattempt i t ht).tracks) (fun a t ht => (haccept a t ht).tracks) n i last ht)

end Ends

/-! ## Runs from related states -/

/-- Related states lead to the same answer and to related states. -/
def Agrees (R : σ → σ → Prop) (x : Run σ ε α) : Prop :=
  ∀ ⦃s s' : σ⦄, R s s' → (x.run.run s).1 = (x.run.run s').1
    ∧ R (x.run.run s).2 (x.run.run s').2

namespace Agrees

variable {R : σ → σ → Prop} {x : Run σ ε α}

theorem of_tracks {Q : α → Prop} {E : Stop ε → Prop} (h : Tracks R x x Q E) : Agrees R x :=
  fun _ _ hs => ⟨(h hs).answer, (h hs).related⟩

theorem tracks (h : Agrees R x) : Tracks R x x (fun _ => True) fun _ => True := by
  intro s s' hs
  obtain ⟨hanswer, hstates⟩ := h hs
  obtain ⟨answer, s₁, hx⟩ : ∃ answer s₁, x.run.run s = (answer, s₁) := ⟨_, _, rfl⟩
  obtain ⟨answer', s₁', hx'⟩ : ∃ answer s₁, x.run.run s' = (answer, s₁) := ⟨_, _, rfl⟩
  rw [hx, hx'] at hanswer hstates
  subst hanswer
  rw [hx, hx']
  cases answer with
  | ok a => exact .value trivial hstates
  | error e => exact .stop trivial hstates

theorem of_result (r : Except (Stop ε) α) :
    Agrees R (ExceptT.mk (pure r) : Run σ ε α) :=
  fun _ _ h => ⟨rfl, h⟩

theorem pure (a : α) : Agrees R (Pure.pure a : Run σ ε α) := of_result (.ok a)

/-- What comes before may relate the states as well. -/
theorem after {f : α → Run σ ε β} {a : α} {s s' s₁ s₁' : σ} (hs : x.run.run s = (.ok a, s₁))
    (hs' : x.run.run s' = (.ok a, s₁')) (h : R s₁ s₁') (hf : Agrees R (f a)) :
    ((x >>= f).run.run s).1 = ((x >>= f).run.run s').1
      ∧ R ((x >>= f).run.run s).2 ((x >>= f).run.run s').2 := by
  rw [run_bind_ok hs, run_bind_ok hs']
  exact hf h

theorem bind {f : α → Run σ ε β} (hx : Agrees R x) (hf : ∀ a, Agrees R (f a)) :
    Agrees R (x >>= f) :=
  .of_tracks (hx.tracks.bind fun a _ => (hf a).tracks)

theorem capture (hx : Agrees R x) :
    Agrees R (Run.capture x : Run σ ε' (Except ε α)) :=
  .of_tracks (hx.tracks.capture (F := fun _ => True) fun _ _ => trivial)

theorem retryFrom {attempt : ℕ → StateT τ (Run σ ε) α} (accept : α → StateT τ (Run σ ε) Bool)
    (hattempt : ∀ i t, Agrees R ((attempt i).run t))
    (haccept : ∀ a t, Agrees R ((accept a).run t)) (n i : ℕ) (last : Option (Attempts α))
    (t : τ) : Agrees R ((JerkLimit.retryFrom attempt accept n i last).run t) :=
  .of_tracks (.retryFrom_invariant (I := fun _ => True) accept accept
    (fun i t _ => (hattempt i t).tracks) (fun a t _ => (haccept a t).tracks) n i last trivial)

end Agrees

end JerkLimit.Run

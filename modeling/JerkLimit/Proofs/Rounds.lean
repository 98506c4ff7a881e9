import Mathlib
import JerkLimit.Proofs.Retry

/-!
# Proofs/Rounds — which attempts are made

The attempts of a loop and the checks of their values may have effects, so it matters which calls
are made, in which order and how often, and not only what comes out. In `Rounds` an attempt and the
check of its value take turns, from index 0 on, each in the state that the one before it left. A loop
goes through rounds until a value is approved or all of them are used up (`Ended`), and answers with
the last one (`outcome`).

That a loop makes no further calls is what closures that note their calls see (`noteAttempt`,
`noteAccept`): the log is `calls`, round by round. Such closures are closures too, so nothing about a
loop is proved twice; their rounds are the same with a log beside the state (`Rounds.note`).

**`retry_rounds`** says so for `retry`, and for `tryRetry` as far as its attempts succeed; the first
error is the last call.
-/

namespace JerkLimit

/-! ## Rounds -/

section Rounds

variable {σ ε α β : Type}

/-- In state `s` attempt `i` yields `b` and leaves `t`. -/
def Yields (attempt : ℕ → StateM σ β) (i : ℕ) (s : σ) (b : β) (t : σ) : Prop :=
  (attempt i).run s = (b, t)

/-- In state `s` attempt `i` succeeds with `a` and leaves `t`. -/
def Succeeds (attempt : ℕ → StateM σ (Except ε α)) (i : ℕ) (s : σ) (a : α) (t : σ) : Prop :=
  Yields attempt i s (.ok a) t

/-- From state `s`, attempts that yield these values, each with the verdict on it right after. -/
inductive Rounds (yields : ℕ → σ → α → σ → Prop) (accept : α → StateM σ Bool) (s : σ) :
    List (α × Bool) → σ → Prop
  | start : Rounds yields accept s [] s
  | next {rs : List (α × Bool)} {t t₁ t₂ : σ} {value : α} {accepted : Bool}
      (before : Rounds yields accept s rs t) (hattempt : yields rs.length t value t₁)
      (haccept : (accept value).run t₁ = (accepted, t₂)) :
      Rounds yields accept s (rs ++ [(value, accepted)]) t₂

/-- Nothing has been approved yet. -/
def Rejected (rs : List (α × Bool)) : Prop := ∀ r ∈ rs, r.2 = false

/-- There is no next round: all of them are used up, or a value has been approved for the first
time. -/
inductive Ended (max : ℕ) : List (α × Bool) → Prop
  | exhausted {rs : List (α × Bool)} (hrejected : Rejected rs) (hcount : rs.length = max) :
      Ended max rs
  | accepted {rs : List (α × Bool)} (hrejected : Rejected rs) (hcount : rs.length < max)
      (value : α) : Ended max (rs ++ [(value, true)])

/-- The last value, its verdict and the number of rounds. -/
def outcome (rs : List (α × Bool)) : Option (Attempts α) :=
  rs.getLast?.map fun (value, accepted) => ⟨value, accepted, rs.length⟩

theorem outcome_append (rs : List (α × Bool)) (value : α) (accepted : Bool) :
    outcome (rs ++ [(value, accepted)]) = some ⟨value, accepted, rs.length + 1⟩ := by
  simp [outcome]

theorem Rejected.append {rs : List (α × Bool)} (h : Rejected rs) (value : α) :
    Rejected (rs ++ [(value, false)]) :=
  List.forall_mem_append.mpr ⟨h, List.forall_mem_singleton.mpr rfl⟩

/-- There is no outcome only if no round is allowed. -/
theorem Ended.outcome_eq_none {max : ℕ} {rs : List (α × Bool)} (h : Ended max rs) :
    outcome rs = none ↔ max = 0 := by
  cases h with
  | exhausted _ hcount =>
    rw [outcome, Option.map_eq_none_iff, List.getLast?_eq_none_iff, ← hcount,
      List.length_eq_zero_iff]
  | accepted _ hcount value =>
    rw [outcome_append]
    exact iff_of_false nofun (Nat.ne_zero_of_lt hcount)

namespace Rounds

variable {yields : ℕ → σ → α → σ → Prop} {accept : α → StateM σ Bool} {s t : σ}
  {rs : List (α × Bool)}

/-- What the last round was. -/
theorem last {value : α} {accepted : Bool}
    (h : Rounds yields accept s (rs ++ [(value, accepted)]) t) :
    ∃ t₀ t₁, Rounds yields accept s rs t₀ ∧ yields rs.length t₀ value t₁
      ∧ (accept value).run t₁ = (accepted, t) := by
  obtain ⟨rs', hrs⟩ : ∃ rs', rs ++ [(value, accepted)] = rs' := ⟨_, rfl⟩
  rw [hrs] at h
  cases h with
  | start => exact absurd hrs (List.append_ne_nil_of_right_ne_nil _ (List.cons_ne_nil _ _))
  | next before hattempt haccept =>
    obtain ⟨rfl, hlast⟩ := List.append_inj' hrs rfl
    obtain ⟨rfl, rfl⟩ := Prod.mk.inj (List.cons.inj hlast).1
    exact ⟨_, _, before, hattempt, haccept⟩

/-- Attempts that yield the same go through the same rounds. -/
theorem imp {yields' : ℕ → σ → α → σ → Prop} (h : ∀ i s a t, yields i s a t → yields' i s a t)
    (hrounds : Rounds yields accept s rs t) : Rounds yields' accept s rs t := by
  induction hrounds with
  | start => exact .start
  | next _ hattempt haccept ih => exact .next ih (h _ _ _ _ hattempt) haccept

end Rounds

/-! ## What the loops come to -/

section Tried

variable {tried : ℕ → StateM σ (Except ε α)} {accept : α → StateM σ Bool} {s t : σ}
  {rs : List (α × Bool)}

theorem run_lift {x : StateM σ β} {b : β} (h : x.run s = (b, t)) :
    (ExceptT.lift x : ExceptT ε (StateM σ) β).run.run s = (.ok b, t) := by
  rw [ExceptT.run_lift, StateT.run_map, h]
  rfl

/-- After rounds without approval the loop goes on where they end. -/
theorem Rounds.retryFrom_run (h : Rounds (Succeeds tried) accept s rs t) (hrejected : Rejected rs)
    (n : ℕ) :
    (tryRetry (rs.length + n) tried accept).run s
      = (retryFrom (fun i => ExceptT.mk (tried i)) (fun a => ExceptT.lift (accept a)) n rs.length
          (outcome rs)).run.run t := by
  induction h generalizing n with
  | start => rw [List.length_nil, Nat.zero_add]; rfl
  | @next rs t t₁ t₂ value accepted _ hattempt haccept ih =>
    obtain ⟨hbefore, hlast⟩ := List.forall_mem_append.mp hrejected
    obtain rfl : accepted = false := hlast _ (List.mem_singleton_self _)
    rw [outcome_append, List.length_append, List.length_singleton, Nat.add_assoc, Nat.add_comm 1,
      ih hbefore, retryFrom_step (fun i => ExceptT.mk (tried i)) _ hattempt (run_lift haccept)]
    rfl

/-- Rounds that have ended determine the answer. -/
theorem Rounds.tryRetry_run {max : ℕ} (h : Rounds (Succeeds tried) accept s rs t)
    (hended : Ended max rs) : (tryRetry max tried accept).run s = (.ok (outcome rs), t) := by
  cases hended with
  | exhausted hrejected hcount =>
    rw [← hcount, ← Nat.add_zero rs.length, h.retryFrom_run hrejected]
    rfl
  | @accepted rs hrejected hcount value =>
    obtain ⟨t₀, t₁, hbefore, hattempt, haccept⟩ := h.last
    obtain ⟨n, rfl⟩ := Nat.exists_eq_add_of_lt hcount
    rw [Nat.add_assoc, hbefore.retryFrom_run hrejected, outcome_append,
      retryFrom_step (fun i => ExceptT.mk (tried i)) _ hattempt (run_lift haccept)]
    rfl

/-- So does an error after rounds without approval. -/
theorem Rounds.tryRetry_error {max : ℕ} {e : ε} {s' : σ} (h : Rounds (Succeeds tried) accept s rs t)
    (hrejected : Rejected rs) (hcount : rs.length < max)
    (herror : Yields tried rs.length t (.error e) s') :
    (tryRetry max tried accept).run s = (.error e, s') := by
  obtain ⟨n, rfl⟩ := Nat.exists_eq_add_of_lt hcount
  rw [Nat.add_assoc, h.retryFrom_run hrejected]
  exact retryFrom_error (fun i => ExceptT.mk (tried i)) _ herror

/-- Attempts go on until the rounds have ended or one of them fails. -/
theorem exists_rounds (tried : ℕ → StateM σ (Except ε α)) (accept : α → StateM σ Bool) (s : σ)
    (max : ℕ) :
    (∃ rs t, Rounds (Succeeds tried) accept s rs t ∧ Ended max rs)
      ∨ ∃ rs t e s', Rounds (Succeeds tried) accept s rs t ∧ Rejected rs ∧ rs.length < max
        ∧ Yields tried rs.length t (.error e) s' := by
  induction max with
  | zero => exact .inl ⟨[], s, .start, .exhausted nofun rfl⟩
  | succ max ih =>
    rcases ih with ⟨rs, t, hrounds, hended⟩ | ⟨rs, t, e, s', hrounds, hrejected, hcount, herror⟩
    · cases hended with
      | accepted hrejected hcount value =>
        exact .inl ⟨_, t, hrounds, .accepted hrejected (hcount.trans (Nat.lt_succ_self max)) value⟩
      | exhausted hrejected hcount =>
        obtain ⟨⟨answer, t₁⟩, hattempt⟩ : ∃ r, (tried rs.length).run t = r := ⟨_, rfl⟩
        cases answer with
        | error e => exact .inr ⟨rs, t, e, t₁, hrounds, hrejected, by omega, hattempt⟩
        | ok value =>
          obtain ⟨⟨accepted, t₂⟩, haccept⟩ : ∃ r, (accept value).run t₁ = r := ⟨_, rfl⟩
          refine .inl ⟨_, t₂, hrounds.next hattempt haccept, ?_⟩
          cases accepted with
          | true => exact .accepted hrejected (by omega) value
          | false => exact .exhausted (hrejected.append value) (by simp [hcount])
    · exact .inr ⟨rs, t, e, s', hrounds, hrejected, hcount.trans (Nat.lt_succ_self max), herror⟩

end Tried

section Infallible

variable {m : Type → Type} [Monad m] [LawfulMonad m]

theorem retryFrom_lift (attempt : ℕ → m α) (accept : α → m Bool) (n i : ℕ)
    (last : Option (Attempts α)) :
    (retryFrom (fun i => (ExceptT.lift (attempt i) : ExceptT ε m α))
      (fun a => ExceptT.lift (accept a)) n i last).run
      = Except.ok <$> retryFrom attempt accept n i last := by
  induction n generalizing i last with
  | zero => rw [retryFrom, retryFrom, ExceptT.run_pure, map_pure]
  | succ n ih =>
    rw [retryFrom, retryFrom, ExceptT.run_bind_lift, map_bind]
    refine bind_congr fun value => ?_
    rw [ExceptT.run_bind_lift, map_bind]
    refine bind_congr fun accepted => ?_
    cases accepted with
    | true => rw [if_pos rfl, if_pos rfl, ExceptT.run_pure, map_pure]
    | false => exact ih (i + 1) _

/-- **With attempts that cannot fail both loops are the same**, in any monad. -/
theorem tryRetry_infallible (max : ℕ) (attempt : ℕ → m α) (accept : α → m Bool) :
    (tryRetry max (fun i => Except.ok <$> attempt i) accept : m (Except ε (Option (Attempts α))))
      = Except.ok <$> retry max attempt accept :=
  retryFrom_lift attempt accept max 0 none

end Infallible

section Attempts

variable {attempt : ℕ → StateM σ α} {accept : α → StateM σ Bool} {s t : σ} {rs : List (α × Bool)}

theorem run_map_ok_iff {x : StateM σ β} {b : β} :
    (Except.ok <$> x : StateM σ (Except ε β)).run s = (.ok b, t) ↔ x.run s = (b, t) := by
  rw [StateT.run_map]
  change (Except.ok (x.run s).1, (x.run s).2) = (.ok b, t) ↔ _
  rw [Prod.mk.injEq, Except.ok.injEq, Prod.ext_iff]

/-- Rounds that have ended determine the answer. -/
theorem Rounds.retry_run {max : ℕ} (h : Rounds (Yields attempt) accept s rs t)
    (hended : Ended max rs) : (retry max attempt accept).run s = (outcome rs, t) := by
  have hrounds : Rounds (Succeeds fun i => (Except.ok <$> attempt i : StateM σ (Except Empty α)))
      accept s rs t := h.imp fun _ _ _ _ => run_map_ok_iff.mpr
  rw [← run_map_ok_iff, ← tryRetry_infallible]
  exact hrounds.tryRetry_run hended

/-- Attempts that cannot fail go on until the rounds have ended. -/
theorem exists_rounds_infallible (attempt : ℕ → StateM σ α) (accept : α → StateM σ Bool) (s : σ)
    (max : ℕ) : ∃ rs t, Rounds (Yields attempt) accept s rs t ∧ Ended max rs := by
  rcases exists_rounds (fun i => (Except.ok <$> attempt i : StateM σ (Except Empty α))) accept s max
    with ⟨rs, t, hrounds, hended⟩ | ⟨_, _, e, _⟩
  · exact ⟨rs, t, hrounds.imp fun _ _ _ _ => run_map_ok_iff.mp, hended⟩
  · exact e.elim

end Attempts

/-! ## The calls -/

/-- A call of one of the two closures of a loop. -/
inductive Call (α : Type)
  | attempt (i : ℕ)
  | accept (a : α)

/-- The calls of these rounds: every attempt, and right after it the check of its value. -/
def calls (rs : List (α × Bool)) : List (Call α) :=
  rs.zipIdx.flatMap fun (r, i) => [.attempt i, .accept r.1]

theorem calls_append (rs : List (α × Bool)) (r : α × Bool) :
    calls (rs ++ [r]) = calls rs ++ [.attempt rs.length, .accept r.1] := by
  simp [calls, List.zipIdx_append]

/-- Attempts that note their index. -/
def noteAttempt (attempt : ℕ → StateM σ β) (i : ℕ) : StateM (σ × List (Call α)) β :=
  fun (s, log) =>
    let (b, t) := (attempt i).run s
    (b, t, log ++ [.attempt i])

/-- Checks that note what they are asked about. -/
def noteAccept (accept : α → StateM σ Bool) (a : α) : StateM (σ × List (Call α)) Bool :=
  fun (s, log) =>
    let (accepted, t) := (accept a).run s
    (accepted, t, log ++ [.accept a])

theorem noteAttempt_yields {attempt : ℕ → StateM σ β} {i : ℕ} {s t : σ} {b : β}
    (log : List (Call α)) (h : Yields attempt i s b t) :
    Yields (noteAttempt attempt) i (s, log) b (t, log ++ [.attempt i]) := by
  have h' : (attempt i).run s = (b, t) := h
  change (let (b, t) := (attempt i).run s; (b, t, log ++ [Call.attempt i])) = _
  rw [h']

theorem noteAttempt_succeeds {tried : ℕ → StateM σ (Except ε α)} {i : ℕ} {s t : σ} {a : α}
    (log : List (Call α)) (h : Succeeds tried i s a t) :
    Succeeds (noteAttempt tried) i (s, log) a (t, log ++ [.attempt i]) := noteAttempt_yields log h

theorem noteAccept_run {accept : α → StateM σ Bool} {a : α} {s t : σ} {accepted : Bool}
    (log : List (Call α)) (h : (accept a).run s = (accepted, t)) :
    (noteAccept accept a).run (s, log) = (accepted, t, log ++ [.accept a]) := by
  change (let (accepted, t) := (accept a).run s; (accepted, t, log ++ [Call.accept a])) = _
  rw [h]

/-- **Closures that note their calls go through the same rounds**, and note them. -/
theorem Rounds.note {yields : ℕ → σ → α → σ → Prop}
    {yields' : ℕ → σ × List (Call α) → α → σ × List (Call α) → Prop} {accept : α → StateM σ Bool}
    {s t : σ} {rs : List (α × Bool)}
    (hyields : ∀ i s a t log, yields i s a t → yields' i (s, log) a (t, log ++ [.attempt i]))
    (h : Rounds yields accept s rs t) :
    Rounds yields' (noteAccept accept) (s, []) rs (t, calls rs) := by
  induction h with
  | start => exact .start
  | @next rs t t₁ t₂ value accepted _ hattempt haccept ih =>
    have hlog : calls (rs ++ [(value, accepted)])
        = calls rs ++ [.attempt rs.length] ++ [.accept value] := by
      rw [calls_append, List.append_assoc]
      rfl
    rw [hlog]
    exact .next ih (hyields _ _ _ _ _ hattempt) (noteAccept_run _ haccept)

/-! ## The loops -/

/-- **The loops make exactly the right attempts.** `retry` goes through rounds until they have
ended, makes their calls and no others, and answers with the last one; without an answer if no round
is allowed. `tryRetry` does the same, or else one attempt fails after rounds without approval: then
this error is the answer, and the attempt the last call. With attempts that cannot fail the two are
the same. -/
theorem retry_rounds (max : ℕ) (attempt : ℕ → StateM σ α) (tried : ℕ → StateM σ (Except ε α))
    (accept : α → StateM σ Bool) (s : σ) :
    (∃ rs t, Rounds (Yields attempt) accept s rs t ∧ Ended max rs
      ∧ (retry max attempt accept).run s = (outcome rs, t)
      ∧ (retry max (noteAttempt attempt) (noteAccept accept)).run (s, [])
        = (outcome rs, t, calls rs)
      ∧ (outcome rs = none ↔ max = 0))
    ∧ ((∃ rs t, Rounds (Succeeds tried) accept s rs t ∧ Ended max rs
      ∧ (tryRetry max tried accept).run s = (.ok (outcome rs), t)
      ∧ (tryRetry max (noteAttempt tried) (noteAccept accept)).run (s, [])
        = (.ok (outcome rs), t, calls rs))
      ∨ ∃ rs t e s', Rounds (Succeeds tried) accept s rs t ∧ Rejected rs ∧ rs.length < max
        ∧ Yields tried rs.length t (.error e) s'
        ∧ (tryRetry max tried accept).run s = (.error e, s')
        ∧ (tryRetry max (noteAttempt tried) (noteAccept accept)).run (s, [])
          = (.error e, s', calls rs ++ [.attempt rs.length]))
    ∧ (tryRetry max (fun i => Except.ok <$> attempt i) accept
        : StateM σ (Except ε (Option (Attempts α)))) = Except.ok <$> retry max attempt accept := by
  refine ⟨?retry, ?tryRetry, tryRetry_infallible max attempt accept⟩
  case retry =>
    obtain ⟨rs, t, hrounds, hended⟩ := exists_rounds_infallible attempt accept s max
    have hnoted := hrounds.note fun _ _ _ _ log => noteAttempt_yields log
    exact ⟨rs, t, hrounds, hended, hrounds.retry_run hended, hnoted.retry_run hended,
      hended.outcome_eq_none⟩
  case tryRetry =>
    rcases exists_rounds tried accept s max
      with ⟨rs, t, hrounds, hended⟩ | ⟨rs, t, e, s', hrounds, hrejected, hcount, herror⟩
    · have hnoted := hrounds.note fun _ _ _ _ log => noteAttempt_succeeds log
      exact .inl ⟨rs, t, hrounds, hended, hrounds.tryRetry_run hended, hnoted.tryRetry_run hended⟩
    · have hnoted := hrounds.note fun _ _ _ _ log => noteAttempt_succeeds log
      exact .inr ⟨rs, t, e, s', hrounds, hrejected, hcount, herror,
        hrounds.tryRetry_error hrejected hcount herror,
        hnoted.tryRetry_error hrejected hcount (noteAttempt_yields _ herror)⟩

/-- The third of five attempts is approved, so there are three. -/
example : (retry 5 (fun i => do modify (· + 1); return 10 * i)
    (fun value => return decide (20 ≤ value)) : StateM ℕ (Option (Attempts ℕ))).run 0
      = (some ⟨20, true, 3⟩, 3) := rfl

end Rounds

end JerkLimit

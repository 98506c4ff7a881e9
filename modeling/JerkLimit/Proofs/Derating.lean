import Mathlib
import JerkLimit.Proofs.Correction
import JerkLimit.Proofs.Shape

/-!
# Proofs/Derating — what a segment asks of its solver

A segment that lags is solved again and again for slower targets, and what is asked next depends on
what was accepted before. `Solver.logged` keeps all requests and answers of a solver, so that the
whole conversation can be spoken about: **`Segment.correct_outcome`** says, for any solver, how many
requests there are, what each of them asks for, which one is the last and what comes out.

The loop is followed with `Segment.Follows`, which reads the state of the loop off the conversation.
-/

namespace JerkLimit

open Scalar Correction

variable {σ K : Type}

/-! ## A solver with a log -/

/-- A request and the answer to it. -/
structure Exchange (K : Type) where
  request : Request K
  answer : Except (Stop (SolverError K)) (Reply K)

/-- A solver's state and what was asked of it so far. -/
structure Logged (σ K : Type) where
  inner : σ
  exchanges : List (Exchange K)

/-- A solver that keeps every request with its answer. -/
def Solver.logged (solver : Solver σ K) : Solver (Logged σ K) K where
  jointCount l := solver.jointCount l.inner
  timeStep l := solver.timeStep l.inner
  setTimeStep timeStep := ExceptT.mk fun l =>
    let (answer, inner) := (solver.setTimeStep timeStep).run l.inner
    (answer, { l with inner })
  update request := ExceptT.mk fun l =>
    let (answer, inner) := (solver.update request).run l.inner
    (answer, ⟨inner, l.exchanges ++ [⟨request, answer⟩]⟩)

section Logged

variable {solver : Solver σ K} {s s' : σ} (es : List (Exchange K))

theorem logged_setTimeStep_run {timeStep : K} {u : Except (Stop (SolverError K)) Unit}
    (h : (solver.setTimeStep timeStep).run.run s = (u, s')) :
    (solver.logged.setTimeStep timeStep).run.run ⟨s, es⟩ = (u, ⟨s', es⟩) := by
  change (((solver.setTimeStep timeStep).run.run s).1,
    Logged.mk ((solver.setTimeStep timeStep).run.run s).2 es) = _
  rw [h]

theorem logged_update_run {r : Request K} {answer : Except (Stop (SolverError K)) (Reply K)}
    (h : (solver.update r).run.run s = (answer, s')) :
    (solver.logged.update r).run.run ⟨s, es⟩ = (answer, ⟨s', es ++ [⟨r, answer⟩]⟩) := by
  change (((solver.update r).run.run s).1, Logged.mk ((solver.update r).run.run s).2
    (es ++ [⟨r, ((solver.update r).run.run s).1⟩])) = _
  rw [h]

/-- A solver with a log beside the same one without. -/
def Logged.Beside (l : Logged σ K) (s : σ) : Prop := l.inner = s

theorem logged_setTimeStep_tracks (solver : Solver σ K) (timeStep : K) :
    Run.Tracks Logged.Beside (solver.logged.setTimeStep timeStep) (solver.setTimeStep timeStep)
      (fun _ => True) fun _ => True := by
  rintro ⟨s, es⟩ _ rfl
  obtain ⟨u, s', h⟩ : ∃ u s', (solver.setTimeStep timeStep).run.run s = (u, s') := ⟨_, _, rfl⟩
  rw [logged_setTimeStep_run es h, h]
  cases u with
  | ok a => exact .value trivial rfl
  | error e => exact .stop trivial rfl

theorem logged_update_tracks (solver : Solver σ K) (r : Request K) :
    Run.Tracks Logged.Beside (solver.logged.update r) (solver.update r) (fun _ => True)
      fun _ => True := by
  rintro ⟨s, es⟩ _ rfl
  obtain ⟨u, s', h⟩ : ∃ u s', (solver.update r).run.run s = (u, s') := ⟨_, _, rfl⟩
  rw [logged_update_run es h, h]
  cases u with
  | ok a => exact .value trivial rfl
  | error e => exact .stop trivial rfl

end Logged

namespace Exchange

/-- The answer, if the request was accepted. -/
def reply? (e : Exchange K) : Option (Reply K) := e.answer.toOption

/-- The error, if the request was rejected. -/
def rejection? (e : Exchange K) : Option (SolverError K) :=
  match e.answer with
  | .error (.error rejection) => some rejection
  | _ => none

/-- An exchange that ends the de-rating: the target was no faster than the floor, or the request was
accepted and no joint lags. -/
def Settles [Scalar K] (floor : K) (e : Exchange K) : Prop :=
  State.norm e.request.target.velocity ≤ floor
    ∨ ∃ reply, e.answer = .ok reply
      ∧ isLagging reply.state.velocity e.request.target.velocity = false

theorem settles_accepted [Scalar K] {floor : K} {r : Request K} {reply : Reply K} :
    Settles floor ⟨r, .ok reply⟩ ↔ (!isLagging reply.state.velocity r.target.velocity
      || decide (State.norm r.target.velocity ≤ floor)) = true := by
  rw [Bool.or_eq_true, Bool.not_eq_true', decide_eq_true_iff, or_comm]
  exact or_congr_right ⟨fun ⟨_, h, hlag⟩ => Except.ok.inj h ▸ hlag, fun hlag => ⟨reply, rfl, hlag⟩⟩

theorem settles_rejected [Scalar K] {floor : K} {r : Request K} {stop : Stop (SolverError K)} :
    Settles floor ⟨r, .error stop⟩ ↔ decide (State.norm r.target.velocity ≤ floor) = true := by
  rw [decide_eq_true_iff]
  exact or_iff_left fun ⟨_, h, _⟩ => nomatch h

end Exchange

/-! ## A step and its answer -/

section Answer

variable [Scalar K]

/-- Whether a step for `target` is the last one, and where it leads, by what it is answered. -/
def Correction.Trial.after (t : Trial K) (floor : K) (target : State K) :
    Except (SolverError K) (Reply K) → Bool × Trial K
  | .ok reply => (!isLagging reply.state.velocity target.velocity
      || decide (State.norm target.velocity ≤ floor),
    { t with target, latest := reply, answered := true })
  | .error e => (decide (State.norm target.velocity ≤ floor),
    { t with target, lastError := some e })

/-- **A step asks for the scaled target** and does nothing else. -/
theorem derateOnce_run {factor duration : K} {t : Trial K} {target : State K}
    (hscaled : scaledTarget factor duration t = .ok target) (solver : Solver σ K)
    (limits : Limits K) (floor : K) (current : State K) :
    (derateOnce solver limits factor floor current duration).run t
      = Run.capture (solver.update { current, target, limits }) >>= fun answer =>
        pure (t.after floor target answer) := by
  have hpure : (Run.ofFault (.ok target) : Run σ (SolverError K) _) = pure target := rfl
  simp only [derateOnce, StateT.run_bind, StateT.run_get, StateT.run_lift, pure_bind, bind_assoc,
    hscaled, hpure]
  refine congrArg _ (funext fun answer => ?_)
  cases answer with
  | ok reply => rfl
  | error e => rfl

end Answer

/-! ## What becomes of a segment -/

/-- A segment of a chain, to be corrected. -/
structure Segment (K : Type) where
  limits : Limits K
  settings : ChainSettings K
  current : State K
  target : State K
  duration : K

namespace Segment

variable [Scalar K]

def correct (seg : Segment K) (solver : Solver σ K) : Run σ (SolverError K) (Correction K) :=
  segment solver seg.limits seg.settings seg.current seg.target seg.duration

/-- The de-rating of a segment that was first answered by `first`. -/
def slowDown (seg : Segment K) (solver : Solver σ K) (first : Reply K) :
    Run σ (SolverError K) (Correction K) :=
  derate solver seg.limits seg.settings seg.current seg.target seg.duration first

/-- The segment as it stands. -/
def request (seg : Segment K) : Request K :=
  { current := seg.current, target := seg.target, limits := seg.limits }

/-- A joint falls short of its target velocity, and the target is faster than the floor. -/
def Lags (seg : Segment K) (first : Reply K) : Prop :=
  isLagging first.state.velocity seg.target.velocity = true
    ∧ seg.settings.speedFloor < State.norm seg.target.velocity

/-- A segment that goes nowhere. -/
def Repeats (seg : Segment K) : Prop :=
  seg.current.distance seg.target ≤ seg.settings.identicalDistance

/-- The most de-rating steps. -/
def bound (seg : Segment K) : ℕ :=
  deratingBound (State.norm seg.target.velocity) seg.settings.speedFloor seg.settings.deratingFactor

/-- The latest answer to a request that was accepted. -/
def latest (first : Reply K) (es : List (Exchange K)) : Reply K :=
  (es.filterMap Exchange.reply?).getLastD first

/-- The request after the first one, which was answered by `first`, and after `es`: the velocity of
the target is scaled down once more, and the acceleration leads there from the latest velocity. -/
def redo (seg : Segment K) (first : Reply K) (es : List (Exchange K)) : Request K :=
  let velocity := seg.target.velocity.map fun v =>
    (fun x => x * seg.settings.deratingFactor)^[es.length + 1] v
  { current := seg.current
    target :=
      { position := seg.target.position
        velocity
        acceleration := List.zipWith (fun v l => (v - l) / seg.duration) velocity
          (latest first es).state.velocity }
    limits := seg.limits }

/-- The exchanges of a de-rating that starts after the answer `first`. -/
structure Descent (seg : Segment K) (first : Reply K) (es : List (Exchange K)) : Prop where
  /-- What is asked depends on what was answered before. -/
  request (i : ℕ) (e : Exchange K) (h : es[i]? = some e) : e.request = seg.redo first (es.take i)
  /-- Only the last exchange may settle the matter. -/
  goes_on : ∀ e ∈ es.dropLast, ¬e.Settles seg.settings.speedFloor
  length_le : es.length ≤ seg.bound
  /-- Below the bound, the last one does. -/
  settles (h : es.length < seg.bound) :
    ∃ e, es.getLast? = some e ∧ e.Settles seg.settings.speedFloor

/-- The solver answers every target for `n` joints with a state of `n` joints, or rejects it. -/
def AnsweredBy (seg : Segment K) (n : ℕ) (solver : Solver σ K) : Prop :=
  ∀ target, target.checkJointCount n = .ok () →
    Run.Ends (solver.update { current := seg.current, target, limits := seg.limits })
      (fun reply => reply.state.checkJointCount n = .ok ()) Stop.IsError

omit [Scalar K] in
/-- A solver that gets along with `n` joints does so on every segment with `n` joints. -/
theorem answeredBy_of_shaped {seg : Segment K} {n : ℕ} {solver : Solver σ K}
    (h : solver.Shaped n) (hcurrent : seg.current.checkJointCount n = .ok ())
    (hlimits : seg.limits.Shaped n) : seg.AnsweredBy n solver :=
  fun _ htarget => h.update ⟨hcurrent, htarget, hlimits⟩

/-- What becomes of a segment whose first answer is `first`, and which exchanges come after it. -/
inductive Outcome (seg : Segment K) (first : Reply K) :
    List (Exchange K) → Except (Stop (SolverError K)) (Correction K) → Prop where
  /-- A segment that does not lag is taken over. -/
  | kept (h : ¬seg.Lags first) : Outcome seg first [] (.ok ⟨first.state, first.status, 0, false⟩)
  /-- One that lags and goes nowhere is merged into its start. -/
  | collapsed (h : seg.Lags first) (hnear : seg.Repeats) :
      Outcome seg first [] (.ok ⟨seg.current, .finished, 0, true⟩)
  /-- Any other is de-rated, and the latest answer counts. -/
  | derated {es : List (Exchange K)} (h : seg.Lags first) (hfar : ¬seg.Repeats)
      (hes : seg.Descent first es) (haccepted : es.filterMap Exchange.reply? = [] → es = []) :
      Outcome seg first es
        (.ok ⟨(latest first es).state, (latest first es).status, es.length, false⟩)
  /-- Nothing is left if all slower targets were rejected. -/
  | rejected {es : List (Exchange K)} {rejection : SolverError K} (h : seg.Lags first)
      (hfar : ¬seg.Repeats) (hes : seg.Descent first es)
      (hnone : es.filterMap Exchange.reply? = [])
      (hlast : (es.filterMap Exchange.rejection?).getLast? = some rejection) :
      Outcome seg first es (.error (.error rejection))

/-! ## The log changes nothing -/

section Logged

variable (solver : Solver σ K) (seg : Segment K)

theorem logged_derateOnce_tracks (t : Trial K) :
    Run.Tracks Logged.Beside ((derateOnce solver.logged seg.limits seg.settings.deratingFactor
        seg.settings.speedFloor seg.current seg.duration).run t)
      ((derateOnce solver seg.limits seg.settings.deratingFactor seg.settings.speedFloor
        seg.current seg.duration).run t) (fun _ => True) fun _ => True := by
  simp only [derateOnce, StateT.run_bind, StateT.run_get, StateT.run_lift, pure_bind, bind_assoc]
  refine (Run.Tracks.of_result (Q := fun _ => True) (fun _ _ => trivial)
    fun _ _ => trivial).bind fun target _ => ?_
  refine ((logged_update_tracks solver _).capture (F := fun _ => True) fun _ _ => trivial).bind
    fun answer _ => ?_
  cases answer with
  | ok reply => exact .pure trivial
  | error e => exact .pure trivial

theorem logged_slowDown_tracks (first : Reply K) :
    Run.Tracks Logged.Beside (seg.slowDown solver.logged first) (seg.slowDown solver first)
      (fun _ => True) fun _ => True := by
  refine (Run.Tracks.retryFrom_invariant (I := fun _ => True) pure pure
    (fun _ t _ => logged_derateOnce_tracks solver seg t) (fun _ _ _ => .pure trivial) _ 0 none
    trivial).bind fun ⟨attempts, trial⟩ _ => ?_
  dsimp only
  split
  · exact .throw trivial
  · exact .pure trivial

/-- **A segment is corrected with a log as without.** -/
theorem logged_correct_tracks :
    Run.Tracks Logged.Beside (seg.correct solver.logged) (seg.correct solver) (fun _ => True)
      fun _ => True := by
  refine (logged_setTimeStep_tracks solver seg.duration).bind fun _ _ =>
    (logged_update_tracks solver seg.request).bind fun first _ => ?_
  dsimp only
  split_ifs
  · exact .pure trivial
  · exact .pure trivial
  · exact logged_slowDown_tracks solver seg first

end Logged

/-! ## One step -/

section Step

variable {seg : Segment K} {n : ℕ} {first : Reply K} {es : List (Exchange K)} {e : Exchange K}
  {t : Trial K}

/-- The state of the loop after the exchanges `es`. -/
structure Follows (seg : Segment K) (n : ℕ) (first : Reply K) (es : List (Exchange K))
    (t : Trial K) : Prop where
  position : t.target.position = seg.target.position
  velocity : t.target.velocity = seg.target.velocity.map fun v =>
    (fun x => x * seg.settings.deratingFactor)^[es.length] v
  acceleration : t.target.acceleration.length = n
  latest : t.latest = Segment.latest first es
  shape : t.latest.state.checkJointCount n = .ok ()
  answered : t.answered = true ↔ es.filterMap Exchange.reply? ≠ []
  lastError : t.lastError = (es.filterMap Exchange.rejection?).getLast?
  /-- An exchange leaves an answer or an error behind; a fault would have ended the run. -/
  started (h : es ≠ []) : t.answered = true ∨ t.lastError ≠ none

theorem follows_start (htarget : seg.target.checkJointCount n = .ok ())
    (hfirst : first.state.checkJointCount n = .ok ()) :
    Follows seg n first [] ⟨seg.target, first, false, none⟩ where
  position := rfl
  velocity := (List.map_id' _).symm
  acceleration := (State.checkJointCount_eq_ok.mp htarget).2.2
  latest := rfl
  shape := hfirst
  answered := by simp
  lastError := rfl
  started h := absurd rfl h

theorem shaped_of_follows (htarget : seg.target.checkJointCount n = .ok ())
    (h : Follows seg n first es t) : t.Shaped n where
  target := by
    obtain ⟨hp, hv, -⟩ := State.checkJointCount_eq_ok.mp htarget
    exact State.checkJointCount_eq_ok.mpr ⟨h.position ▸ hp, by simp [h.velocity, hv],
      h.acceleration⟩
  latest := h.shape

/-- **What the loop asks for next** can be read off the exchanges. -/
theorem scaledTarget_of_follows (htarget : seg.target.checkJointCount n = .ok ())
    (h : Follows seg n first es t) :
    scaledTarget seg.settings.deratingFactor seg.duration t = .ok (seg.redo first es).target := by
  rw [scaledTarget_eq _ _ (shaped_of_follows htarget h), h.position, h.velocity, h.latest,
    List.map_map]
  simp only [redo, Function.iterate_succ', Function.comp_def]

theorem redo_shape (htarget : seg.target.checkJointCount n = .ok ())
    (h : Follows seg n first es t) : (seg.redo first es).target.checkJointCount n = .ok () := by
  obtain ⟨target, hscaled, hshape⟩ := scaledTarget_shape seg.settings.deratingFactor seg.duration
    (shaped_of_follows htarget h)
  obtain rfl := Except.ok.inj ((scaledTarget_of_follows htarget h).symm.trans hscaled)
  exact hshape

/-- An accepted request. -/
theorem Follows.accepted {reply : Reply K} (htarget : seg.target.checkJointCount n = .ok ())
    (h : Follows seg n first es t)
    (hreply : reply.state.checkJointCount n = .ok ()) :
    Follows seg n first (es ++ [⟨seg.redo first es, .ok reply⟩])
      { t with target := (seg.redo first es).target, latest := reply, answered := true } where
  position := rfl
  velocity := by simp [redo]
  acceleration := (State.checkJointCount_eq_ok.mp (redo_shape htarget h)).2.2
  latest := by simp [Segment.latest, Exchange.reply?, Except.toOption]
  shape := hreply
  answered := by simp [Exchange.reply?, Except.toOption]
  lastError := by simp [h.lastError, Exchange.rejection?]
  started _ := .inl rfl

theorem Follows.rejected {rejection : SolverError K}
    (htarget : seg.target.checkJointCount n = .ok ()) (h : Follows seg n first es t) :
    Follows seg n first (es ++ [⟨seg.redo first es, .error (.error rejection)⟩])
      { t with target := (seg.redo first es).target, lastError := some rejection } where
  position := rfl
  velocity := by simp [redo]
  acceleration := (State.checkJointCount_eq_ok.mp (redo_shape htarget h)).2.2
  latest := by simp [h.latest, Segment.latest, Exchange.reply?, Except.toOption]
  shape := h.shape
  answered := by simp [h.answered, Exchange.reply?, Except.toOption]
  lastError := by simp [Exchange.rejection?]
  started _ := .inr nofun

variable {solver : Solver σ K}

/-- **One step** is one exchange, and it is the last one if that settles the matter. -/
theorem derateOnce_follows (hsolver : seg.AnsweredBy n solver)
    (htarget : seg.target.checkJointCount n = .ok ()) (h : Follows seg n first es t) (s : σ)
    (log : List (Exchange K)) :
    ∃ last e t' s', ((derateOnce solver.logged seg.limits seg.settings.deratingFactor
        seg.settings.speedFloor seg.current seg.duration).run t).run.run ⟨s, log⟩
        = (.ok (last, t'), ⟨s', log ++ [e]⟩)
      ∧ e.request = seg.redo first es ∧ Follows seg n first (es ++ [e]) t'
      ∧ (last = true ↔ e.Settles seg.settings.speedFloor) := by
  have hends := hsolver _ (redo_shape htarget h)
  obtain ⟨answer, s', hupdate⟩ : ∃ answer s',
    (solver.update (seg.redo first es)).run.run s = (answer, s') := ⟨_, _, rfl⟩
  have hlogged := logged_update_run log hupdate
  rw [derateOnce_run (scaledTarget_of_follows htarget h)]
  cases answer with
  | ok reply =>
    exact ⟨_, ⟨seg.redo first es, .ok reply⟩, _, s', run_bind_ok (run_capture_ok hlogged), rfl,
      h.accepted htarget (hends.value hupdate), Exchange.settles_accepted.symm⟩
  | error stop =>
    obtain ⟨rejection, rfl⟩ := hends.stop hupdate
    exact ⟨_, ⟨seg.redo first es, .error (.error rejection)⟩, _, s',
      run_bind_ok (run_capture_error hlogged), rfl, h.rejected htarget,
      Exchange.settles_rejected.symm⟩

/-! ## The loop -/

/-- One more exchange after some that settled nothing. -/
theorem request_concat (hes : ∀ i e, es[i]? = some e → e.request = seg.redo first (es.take i))
    (he : e.request = seg.redo first es) (i : ℕ) (e' : Exchange K)
    (h : (es ++ [e])[i]? = some e') : e'.request = seg.redo first ((es ++ [e]).take i) := by
  rcases lt_or_ge i es.length with hi | hi
  · rw [List.getElem?_append_left hi] at h
    rw [List.take_append_of_le_length hi.le, hes i e' h]
  · obtain ⟨hlt, -⟩ := List.getElem?_eq_some_iff.mp h
    obtain rfl : i = es.length := by simp at hlt; omega
    rw [List.getElem?_concat_length] at h
    obtain rfl := Option.some.inj h
    rw [List.take_left, he]

/-- **The loop is a descent**: it goes on until an exchange settles the matter or the bound is
reached. -/
theorem retryFrom_descends (hsolver : seg.AnsweredBy n solver)
    (htarget : seg.target.checkJointCount n = .ok ()) (start : Exchange K) {k : ℕ}
    {last : Option (Attempts Bool)} (hk : es.length + k = seg.bound)
    (hlast : (last.map Attempts.count).getD 0 = es.length)
    (hrequest : ∀ i e, es[i]? = some e → e.request = seg.redo first (es.take i))
    (hgoes : ∀ e ∈ es, ¬e.Settles seg.settings.speedFloor) (h : Follows seg n first es t) (s : σ) :
    ∃ es' attempts t' s',
      ((retryFrom (fun _ => derateOnce solver.logged seg.limits seg.settings.deratingFactor
        seg.settings.speedFloor seg.current seg.duration) pure k es.length last).run t).run.run
          ⟨s, start :: es⟩ = (.ok (attempts, t'), ⟨s', start :: es'⟩)
      ∧ (attempts.map Attempts.count).getD 0 = es'.length
      ∧ Follows seg n first es' t' ∧ seg.Descent first es' := by
  induction k generalizing es last t s with
  | zero =>
    refine ⟨es, last, t, s, rfl, hlast, h, hrequest, ?_, hk.le, fun hlt => ?_⟩
    · exact fun e he => hgoes e (List.mem_of_mem_dropLast he)
    · exact absurd hk hlt.ne
  | succ k ih =>
    obtain ⟨done, e, t₁, s₁, hrun, he, hfollows, hdone⟩ :=
      derateOnce_follows hsolver htarget h s (start :: es)
    rw [retryFrom, StateT.run_bind, run_bind_ok hrun]
    simp only [pure_bind]
    have hrequest' := request_concat hrequest he
    have hlength : (es ++ [e]).length = es.length + 1 := by simp
    cases done with
    | true =>
      refine ⟨es ++ [e], _, t₁, s₁, rfl, hlength.symm, hfollows, hrequest', ?_, by omega,
        fun _ => ⟨e, by simp, hdone.mp rfl⟩⟩
      rw [List.dropLast_concat]
      exact hgoes
    | false =>
      have hgoes' : ∀ e' ∈ es ++ [e], ¬e'.Settles seg.settings.speedFloor := by
        intro e' he'
        rcases List.mem_append.mp he' with hmem | hmem
        · exact hgoes e' hmem
        · obtain rfl := List.mem_singleton.mp hmem
          exact fun hsettles => Bool.false_ne_true (hdone.mpr hsettles)
      have hlast' : ((some ⟨false, false, es.length + 1⟩ : Option (Attempts Bool)).map
          Attempts.count).getD 0 = (es ++ [e]).length := hlength.symm
      obtain ⟨es', attempts, t', s', hrest, hcount, hdescent⟩ :=
        ih (by omega) hlast' hrequest' hgoes' hfollows s₁
      rw [hlength] at hrest
      exact ⟨es', attempts, t', s', hrest, hcount, hdescent⟩

/-- **The whole loop.** -/
theorem retry_descends (hsolver : seg.AnsweredBy n solver)
    (htarget : seg.target.checkJointCount n = .ok ())
    (hfirst : first.state.checkJointCount n = .ok ()) (start : Exchange K) (s : σ) :
    ∃ es attempts t s',
      ((retry seg.bound (fun _ => derateOnce solver.logged seg.limits seg.settings.deratingFactor
        seg.settings.speedFloor seg.current seg.duration) pure).run
          ⟨seg.target, first, false, none⟩).run.run ⟨s, [start]⟩
        = (.ok (attempts, t), ⟨s', start :: es⟩)
      ∧ (attempts.map Attempts.count).getD 0 = es.length
      ∧ Follows seg n first es t ∧ seg.Descent first es := by
  have hbound : ([] : List (Exchange K)).length + seg.bound = seg.bound := Nat.zero_add _
  have hnoCount : ((none : Option (Attempts Bool)).map Attempts.count).getD 0
      = ([] : List (Exchange K)).length := rfl
  exact retryFrom_descends hsolver htarget start hbound hnoCount nofun nofun
    (follows_start htarget hfirst) s

/-- A de-rating ends with the latest answer, or with the latest error if nothing was accepted. -/
theorem slowDown_outcome (hsolver : seg.AnsweredBy n solver)
    (htarget : seg.target.checkJointCount n = .ok ())
    (hfirst : first.state.checkJointCount n = .ok ()) (hlags : seg.Lags first)
    (hfar : ¬seg.Repeats) (start : Exchange K) (s : σ) :
    ∃ es s' answer,
      (seg.slowDown solver.logged first).run.run ⟨s, [start]⟩ = (answer, ⟨s', start :: es⟩)
      ∧ seg.Outcome first es answer := by
  obtain ⟨es, attempts, t, s', hrun, hcount, h, hdescent⟩ :=
    retry_descends hsolver htarget hfirst start s
  cases hanswered : t.answered with
  | false =>
    have hnone : es.filterMap Exchange.reply? = [] := by
      by_contra hne
      exact nomatch hanswered.symm.trans (h.answered.mpr hne)
    cases hlast : t.lastError with
    | none =>
      have hes : es = [] := by
        by_contra hne
        rcases h.started hne with ht | ht
        · exact nomatch hanswered.symm.trans ht
        · exact ht hlast
      refine ⟨es, s', _, (run_bind_ok hrun).trans ?_, .derated hlags hfar hdescent fun _ => hes⟩
      simp only [hanswered, hlast, hcount, h.latest]
      rfl
    | some rejection =>
      refine ⟨es, s', _, (run_bind_ok hrun).trans ?_,
        .rejected hlags hfar hdescent hnone (h.lastError.symm.trans hlast)⟩
      simp only [hanswered, hlast]
      rfl
  | true =>
    refine ⟨es, s', _, (run_bind_ok hrun).trans ?_,
      .derated hlags hfar hdescent fun hnone => absurd hnone (h.answered.mp hanswered)⟩
    simp only [hanswered, hcount, h.latest]
    rfl

end Step

section Run

variable {seg : Segment K} {n : ℕ} {solver : Solver σ K} {s s₁ s₂ : σ} {first : Reply K}

/-- What becomes of a segment with a log. -/
theorem logged_outcome (htarget : seg.target.checkJointCount n = .ok ())
    (hsolver : seg.AnsweredBy n solver)
    (hset : (solver.setTimeStep seg.duration).run.run s = (.ok (), s₁))
    (hfirst : (solver.update seg.request).run.run s₁ = (.ok first, s₂)) :
    ∃ es s' answer, (seg.correct solver.logged).run.run ⟨s, []⟩
        = (answer, ⟨s', ⟨seg.request, .ok first⟩ :: es⟩) ∧ seg.Outcome first es answer := by
  have hset' := logged_setTimeStep_run [] hset
  have hfirst' := logged_update_run [] hfirst
  by_cases hlags : seg.Lags first
  · have hslow := mt keepsUp_iff.mp (not_not_intro hlags)
    by_cases hnear : seg.current.distance seg.target ≤ seg.settings.identicalDistance
    · refine ⟨[], s₂, _, (run_bind_ok hset').trans ((run_bind_ok hfirst').trans ?_),
        .collapsed hlags hnear⟩
      dsimp only
      rw [if_neg hslow, if_pos hnear]
      rfl
    · obtain ⟨es, s', answer, hrun, houtcome⟩ := slowDown_outcome hsolver htarget
        ((hsolver _ htarget).value hfirst) hlags hnear ⟨seg.request, .ok first⟩ s₂
      refine ⟨es, s', answer, (run_bind_ok hset').trans ((run_bind_ok hfirst').trans ?_), houtcome⟩
      dsimp only
      rw [if_neg hslow, if_neg hnear]
      exact hrun
  · refine ⟨[], s₂, _, (run_bind_ok hset').trans ((run_bind_ok hfirst').trans ?_), .kept hlags⟩
    dsimp only
    rw [if_pos (keepsUp_iff.mpr hlags)]
    rfl

/-- **What becomes of a segment, with any solver** that sets its time step and answers the first
request. All requests are in the log: the first one, and after it those of the outcome. -/
theorem correct_outcome (htarget : seg.target.checkJointCount n = .ok ())
    (hsolver : seg.AnsweredBy n solver)
    (hset : (solver.setTimeStep seg.duration).run.run s = (.ok (), s₁))
    (hfirst : (solver.update seg.request).run.run s₁ = (.ok first, s₂)) :
    ∃ es s' answer, (seg.correct solver).run.run s = (answer, s')
      ∧ (seg.correct solver.logged).run.run ⟨s, []⟩
        = (answer, ⟨s', ⟨seg.request, .ok first⟩ :: es⟩)
      ∧ seg.Outcome first es answer := by
  obtain ⟨es, s', answer, hrun, houtcome⟩ := logged_outcome htarget hsolver hset hfirst
  have htracks := logged_correct_tracks solver seg (s := ⟨s, []⟩) (r := s) rfl
  rw [hrun] at htracks
  exact ⟨es, s', answer, Prod.ext htracks.answer.symm htracks.related.symm, hrun, houtcome⟩

end Run

/-! ## A solver that wavers -/

/-- A solver that does not move at first, then rejects a target, and reaches all later ones. It
counts its requests. -/
noncomputable def wavering : Solver ℕ ℝ where
  jointCount _ := 1
  timeStep _ := 1
  setTimeStep _ := pure ()
  update r := do
    let k ← get
    set (k + 1)
    if k = 1 then throw (.error (.noFeasibleProfile 0))
    else return ⟨.working, if k = 0 then r.current else r.target, 1⟩

/-- From rest to a speed of 1, one unit away. -/
noncomputable def sprint : Segment ℝ where
  limits := ⟨[5.0], [10.0], [20.0]⟩
  settings := default
  current := ⟨[0], [0], [0]⟩
  target := ⟨[1], [1], [0]⟩
  duration := 1

theorem wavering_update_run (r : Request ℝ) (k : ℕ) : (wavering.update r).run.run k
    = (if k = 1 then .error (.error (.noFeasibleProfile 0))
        else .ok ⟨.working, if k = 0 then r.current else r.target, 1⟩, k + 1) := by
  change (if k = 1 then throw (.error (.noFeasibleProfile 0))
    else pure (⟨.working, if k = 0 then r.current else r.target, 1⟩ : Reply ℝ) :
      Run ℕ (SolverError ℝ) _).run.run (k + 1) = _
  split_ifs <;> rfl

theorem wavering_shaped (n : ℕ) : wavering.Shaped n where
  setTimeStep _ := .pure trivial
  update {r} hr :=
    { value := fun {k k' reply} h => by
        rw [wavering_update_run] at h
        split_ifs at h
        · exact nomatch (Prod.mk.inj h).1
        · obtain rfl := Except.ok.inj (Prod.mk.inj h).1
          exact hr.current
        · obtain rfl := Except.ok.inj (Prod.mk.inj h).1
          exact hr.target
      stop := fun {k k' e} h => by
        rw [wavering_update_run] at h
        split_ifs at h
        · exact ⟨_, (Except.error.inj (Prod.mk.inj h).1).symm⟩
        · exact nomatch (Prod.mk.inj h).1
        · exact nomatch (Prod.mk.inj h).1 }

theorem answeredBy_wavering : sprint.AnsweredBy 1 wavering :=
  answeredBy_of_shaped (wavering_shaped 1) rfl ⟨rfl, rfl, rfl⟩

theorem norm_sprint : State.norm sprint.target.velocity = 1 := by
  change Real.sqrt (Scalar.sum [(1 : ℝ) * 1]) = 1
  rw [sum_real, List.sum_singleton, mul_one, Real.sqrt_one]

theorem lags_sprint : sprint.Lags ⟨.working, sprint.current, 1⟩ := by
  constructor
  · change (!decide ((1 : ℝ) = (0.0 : ℝ)) && decide ((0 : ℝ) / 1 < (1.0 : ℝ)) || false) = true
    norm_num
  · rw [norm_sprint]
    change (0.01 : ℝ) < 1
    norm_num

theorem not_repeats_sprint : ¬sprint.Repeats := by
  change ¬Real.sqrt (Scalar.sum [((0 : ℝ) - 1) * (0 - 1)]) ≤ 1e-3
  rw [sum_real, List.sum_singleton, Real.sqrt_mul_self_eq_abs]
  norm_num

theorem bound_sprint_pos : 0 < sprint.bound := by
  rw [bound, norm_sprint]
  exact deratingBound_pos derates_default.floor_pos (norm_sprint ▸ lags_sprint.2)
    derates_default.factor_pos derates_default.factor_lt_one

/-- The sprint lags behind a solver that does not move, so it is solved again for slower targets. -/
theorem correct_outcome_sprint : sprint.target.checkJointCount 1 = .ok ()
    ∧ sprint.AnsweredBy 1 wavering ∧ (wavering.setTimeStep sprint.duration).run.run 0 = (.ok (), 0)
    ∧ (wavering.update sprint.request).run.run 0 = (.ok ⟨.working, sprint.current, 1⟩, 1)
    ∧ ∃ es s' answer, (sprint.correct wavering).run.run 0 = (answer, s')
      ∧ (sprint.correct wavering.logged).run.run ⟨0, []⟩
        = (answer, ⟨s', ⟨sprint.request, .ok ⟨.working, sprint.current, 1⟩⟩ :: es⟩)
      ∧ es ≠ [] ∧ sprint.Descent ⟨.working, sprint.current, 1⟩ es := by
  have hfirst := wavering_update_run sprint.request 0
  have hset : (wavering.setTimeStep sprint.duration).run.run 0 = (.ok (), 0) := rfl
  refine ⟨rfl, answeredBy_wavering, hset, hfirst, ?_⟩
  obtain ⟨es, s', answer, hrun, hlogged, houtcome⟩ :=
    correct_outcome rfl answeredBy_wavering hset hfirst
  have hdescent : sprint.Descent ⟨.working, sprint.current, 1⟩ es := by
    cases houtcome with
    | kept h => exact absurd lags_sprint h
    | collapsed h hnear => exact absurd hnear not_repeats_sprint
    | derated h hfar hes haccepted => exact hes
    | rejected h hfar hes hnone hlast => exact hes
  refine ⟨es, s', answer, hrun, hlogged, ?_, hdescent⟩
  rintro rfl
  obtain ⟨e, he, -⟩ := hdescent.settles bound_sprint_pos
  exact nomatch he

end Segment

end JerkLimit

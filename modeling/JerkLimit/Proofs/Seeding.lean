import Mathlib
import JerkLimit.CommandStream
import JerkLimit.Proofs.Motion

/-!
# Proofs/Seeding — where a control cycle starts from

A caller creates a stream, resets it and feeds it commands, in any order and with any solver.
`Reached` relates such a session to its history, and `step_current` says from which state the next
cycle is planned: the latest **seed** of the history, be it the output of a smoothed cycle or a
state that was given. A cycle that is held leaves no seed and takes none away.

So a held cycle does not lead back to the state of the last reset if a cycle was smoothed since;
`step_current` also says exactly when the two are the same.
-/

namespace JerkLimit.CommandStream

variable {σ K : Type} [Scalar K]

/-! ## Sessions -/

/-- What a caller holds between calls. -/
structure Session (σ K : Type) where
  stream : CommandStream σ K
  solver : σ
  memory : Memory K

/-- What a call leaves behind. A refused call leaves nothing. -/
inductive Event (K : Type) where
  | created (jointCount : ℕ)
  | reset (current : State K)
  | smoothed (output : State K)
  | held

/-- The event of a control cycle. -/
def Event.ofStep (r : StreamStep K) : Event K :=
  match r.cycle with
  | .smoothed _ => .smoothed r.command
  | .held _ => .held

/-- The sessions that calls lead to, with what has happened, latest first. -/
inductive Reached : Session σ K → List (Event K) → Prop where
  | create {solver : Solver σ K} {start : σ} {bounds : List (Bounds K)} {fallbacks : Fallbacks K}
      {stream : CommandStream σ K} {memory : Memory K}
      (h : CommandStream.create solver start bounds fallbacks = .ok (stream, memory)) :
      Reached ⟨stream, start, memory⟩ [.created (solver.jointCount start)]
  | createAgain {s : Session σ K} {history : List (Event K)} {solver : Solver σ K} {start : σ}
      {bounds : List (Bounds K)} {fallbacks : Fallbacks K} {stream : CommandStream σ K}
      {memory : Memory K} (hs : Reached s history)
      (h : CommandStream.create solver start bounds fallbacks = .ok (stream, memory)) :
      Reached ⟨stream, start, memory⟩ (.created (solver.jointCount start) :: history)
  | reset {s : Session σ K} {history : List (Event K)} {current : State K} {memory : Memory K}
      (hs : Reached s history) (h : s.stream.reset s.solver current = .ok memory) :
      Reached ⟨s.stream, s.solver, memory⟩ (.reset current :: history)
  | step {s : Session σ K} {history : List (Event K)} {command : State K} {solver : σ}
      {r : StreamStep K} (hs : Reached s history)
      (h : (s.stream.step s.memory command).run.run s.solver = (.ok r, solver)) :
      Reached ⟨s.stream, solver, r.memory⟩ (.ofStep r :: history)

/-! ## Seeds -/

/-- The state that was last given or put out. -/
def seed : List (Event K) → State K
  | .created n :: _ => State.zeros n
  | .reset s :: _ => s
  | .smoothed s :: _ => s
  | .held :: history => seed history
  | [] => State.zeros 0

/-- The state that was last given: by a reset, or all zeros by creation. -/
def lastReset : List (Event K) → State K
  | .created n :: _ => State.zeros n
  | .reset s :: _ => s
  | .smoothed _ :: history => lastReset history
  | .held :: history => lastReset history
  | [] => State.zeros 0

/-- What was last put out since a state was given. -/
def lastSmoothed : List (Event K) → Option (State K)
  | .smoothed s :: _ => some s
  | .held :: history => lastSmoothed history
  | _ => none

/-- The last output right after a smoothed cycle, and what was last given otherwise. -/
def lastOutputOrReset : List (Event K) → State K
  | .smoothed s :: _ => s
  | history => lastReset history

theorem seed_eq (history : List (Event K)) :
    seed history = (lastSmoothed history).getD (lastReset history) := by
  induction history with
  | nil => rfl
  | cons e history ih => cases e <;> first | rfl | exact ih

/-- A held cycle makes the difference, if there was an output before it that is not the state last
given. -/
theorem seed_eq_lastOutputOrReset_iff (history : List (Event K)) :
    seed history = lastOutputOrReset history ↔
      (history.head? = some .held → ∀ s ∈ lastSmoothed history, s = lastReset history) := by
  match history with
  | [] => simp [seed, lastOutputOrReset, lastReset]
  | .created n :: _ => simp [seed, lastOutputOrReset, lastReset]
  | .reset s :: _ => simp [seed, lastOutputOrReset, lastReset]
  | .smoothed s :: _ => simp [seed, lastOutputOrReset]
  | .held :: history =>
    rw [seed_eq]
    cases h : lastSmoothed history <;> simp [lastSmoothed, lastReset, lastOutputOrReset, h]

/-! ## One cycle -/

/-- Where the next cycle starts from. -/
def planned (m : Memory K) : State K := if m.validSeed then m.lastOutput else m.current

/-- The request of a cycle that starts from `current`. -/
def cycleRequest (s : CommandStream σ K) (current command : State K) : Request K :=
  { current, target := State.atRest command.position, limits := s.limits }

/-- What a cycle makes of the solver's answer. -/
def cycleResult (m : Memory K) (command : State K) :
    Except (Stop (SolverError K)) (Reply K) → Except (Stop Empty) (StreamStep K)
  | .ok reply =>
    .ok ⟨⟨planned m, reply.state, true⟩, reply.state, .smoothed reply.status⟩
  | .error (.error e) => .ok ⟨⟨planned m, m.lastOutput, false⟩, command, .held e⟩
  | .error (.fault f) => .error (.fault f)

/-- **A cycle** asks the solver once. -/
theorem step_run (s : CommandStream σ K) (m : Memory K) (command : State K) (solver : σ) :
    (s.step m command).run.run solver
      = let answer := (s.solver.update (cycleRequest s (planned m) command)).run.run solver
        (cycleResult m command answer.1, answer.2) := by
  have hmemory : (if m.validSeed then { m with current := m.lastOutput } else m)
      = ⟨planned m, m.lastOutput, m.validSeed⟩ := by
    rw [planned]
    split <;> rfl
  rw [CommandStream.step, hmemory]
  obtain ⟨answer, solver', hupdate⟩ : ∃ answer solver',
      (s.solver.update (cycleRequest s (planned m) command)).run.run solver = (answer, solver') :=
    ⟨_, _, rfl⟩
  rw [hupdate]
  match answer with
  | .ok reply => exact run_bind_ok (run_capture_ok hupdate)
  | .error (.error e) => exact run_bind_ok (run_capture_error hupdate)
  | .error (.fault f) => exact run_bind_error (run_capture_fault hupdate)

/-- A cycle that ends leaves its own seed, or the one that it started from. -/
theorem planned_of_step {s : CommandStream σ K} {m : Memory K} {command : State K}
    {solver solver' : σ} {r : StreamStep K}
    (h : (s.step m command).run.run solver = (.ok r, solver')) :
    r.memory.current = planned m ∧
      ((∃ status, r.cycle = .smoothed status) ∧ planned r.memory = r.command
        ∨ (∃ e, r.cycle = .held e) ∧ planned r.memory = planned m) := by
  rw [step_run] at h
  obtain ⟨hresult, -⟩ := Prod.mk.inj h
  match hanswer : ((s.solver.update (cycleRequest s (planned m) command)).run.run solver).1 with
  | .ok reply =>
    rw [hanswer] at hresult
    obtain rfl := Except.ok.inj hresult
    exact ⟨rfl, .inl ⟨⟨_, rfl⟩, rfl⟩⟩
  | .error (.error e) =>
    rw [hanswer] at hresult
    obtain rfl := Except.ok.inj hresult
    exact ⟨rfl, .inr ⟨⟨_, rfl⟩, rfl⟩⟩
  | .error (.fault f) =>
    rw [hanswer] at hresult
    exact nomatch hresult

/-! ## Every session -/

theorem planned_of_create {solver : Solver σ K} {start : σ} {bounds : List (Bounds K)}
    {fallbacks : Fallbacks K} {stream : CommandStream σ K} {memory : Memory K}
    (h : CommandStream.create solver start bounds fallbacks = .ok (stream, memory)) :
    planned memory = State.zeros (solver.jointCount start) := by
  obtain ⟨_, -, h⟩ := bind_eq_ok.mp h
  obtain ⟨limits, -, h⟩ := bind_eq_ok.mp h
  obtain ⟨-, rfl⟩ := Prod.mk.inj (pure_eq_ok.mp h)
  rfl

theorem planned_of_reset {s : CommandStream σ K} {solver : σ} {current : State K}
    {memory : Memory K} (h : s.reset solver current = .ok memory) : planned memory = current := by
  obtain ⟨_, -, h⟩ := bind_eq_ok.mp h
  obtain ⟨_, -, h⟩ := bind_eq_ok.mp h
  obtain rfl := pure_eq_ok.mp h
  rfl

/-- **The next cycle starts from the seed of the history**, whatever has been called. -/
theorem planned_eq_seed {s : Session σ K} {history : List (Event K)} (h : Reached s history) :
    planned s.memory = seed history := by
  induction h with
  | create h => exact planned_of_create h
  | createAgain _ h _ => exact planned_of_create h
  | reset _ h _ => exact planned_of_reset h
  | step _ h ih =>
    obtain ⟨-, ⟨⟨status, hcycle⟩, hplanned⟩ | ⟨⟨e, hcycle⟩, hplanned⟩⟩ := planned_of_step h
    · rw [hplanned, Event.ofStep, hcycle, seed]
    · rw [hplanned, ih, Event.ofStep, hcycle, seed]

/-- **Where a cycle starts from.** The solver is asked to go on from the seed of the history, and
that state is what the memory keeps. It is the last output, or after a held cycle the state last
given, unless the cycle before was held and there is an output since that state was given which
differs from it. -/
theorem step_current {s : Session σ K} {history : List (Event K)} (hs : Reached s history)
    {command : State K} {r : StreamStep K} {solver : σ}
    (h : (s.stream.step s.memory command).run.run s.solver = (.ok r, solver)) :
    r.memory.current = seed history
      ∧ (∃ answer, (s.stream.solver.update (cycleRequest s.stream (seed history) command)).run.run
            s.solver = (answer, solver) ∧ cycleResult s.memory command answer = .ok r)
      ∧ (r.memory.current = lastOutputOrReset history ↔
          (history.head? = some .held →
            ∀ out ∈ lastSmoothed history, out = lastReset history)) := by
  have hplanned := planned_eq_seed hs
  have hcurrent := (planned_of_step h).1.trans hplanned
  rw [step_run, hplanned] at h
  obtain ⟨hresult, hsolver⟩ := Prod.mk.inj h
  exact ⟨hcurrent, ⟨_, Prod.ext rfl hsolver, hresult⟩,
    hcurrent ▸ seed_eq_lastOutputOrReset_iff history⟩

/-! ## A held cycle between two outputs -/

/-- A stream whose planner hops one unit in a cycle. -/
noncomputable def hops : CommandStream (Planner ℝ) ℝ := ⟨Planner.solver, (hop 0).limits⟩

theorem create_hops :
    CommandStream.create Planner.solver (⟨1, 2⟩ : Planner ℝ) [⟨some 5, some 10, some 20⟩] default
      = .ok (hops, .ofState (State.zeros 1)) := by
  have hlimits : Limits.forStreaming [(⟨some 5, some 10, some 20⟩ : Bounds ℝ)] default
      = .ok ⟨[5], [10], [20]⟩ := by
    refine bind_eq_ok.mpr ⟨[5], rfl, Limits.ofLists_eq_ok.mpr ⟨⟨rfl, rfl⟩, ?_, rfl⟩⟩
    norm_num [Limits.joints]
  exact bind_eq_ok.mpr ⟨(), rfl, bind_eq_ok.mpr ⟨_, (mapError_ok _ _).mpr hlimits, rfl⟩⟩

theorem reset_hops : hops.reset ⟨1, 2⟩ ⟨[0], [0], [0]⟩ = .ok (.ofState ⟨[0], [0], [0]⟩) := rfl

/-- A command one unit ahead is smoothed. -/
theorem step_hops {m : Memory ℝ} {p : ℝ} (hm : planned m = ⟨[p], [0], [0]⟩) :
    ∃ status, (hops.step m (.atRest [p + 1])).run.run ⟨1, 2⟩
      = (.ok ⟨⟨⟨[p], [0], [0]⟩, ⟨[p + 1], [0], [0]⟩, true⟩, ⟨[p + 1], [0], [0]⟩,
          .smoothed status⟩, ⟨1, 2⟩) := by
  have hrest : State.atRest [p + 1] = ⟨[p + 1], [0], [0]⟩ := by norm_num [State.atRest]
  obtain ⟨d, hd⟩ := update_hop p
  have hrequest : cycleRequest hops (planned m) (.atRest [p + 1]) = (hop p).request none := by
    rw [hm, hrest, cycleRequest, hrest]
    rfl
  refine ⟨.finished, ?_⟩
  rw [step_run, hrequest]
  change (cycleResult m _ (Planner.update ⟨1, 2⟩ _), _) = _
  rw [hd, cycleResult, hm]
  rfl

/-- A command for two joints is held. -/
theorem step_hops_held {m : Memory ℝ} {p : ℝ} (hm : planned m = ⟨[p], [0], [0]⟩) :
    (hops.step m (.atRest [1, 1])).run.run ⟨1, 2⟩
      = (.ok ⟨⟨⟨[p], [0], [0]⟩, m.lastOutput, false⟩, .atRest [1, 1],
          .held (.jointCount .targetPosition 1 2)⟩, ⟨1, 2⟩) := by
  have hrefused : Planner.update ⟨1, 2⟩ (cycleRequest hops ⟨[p], [0], [0]⟩ (.atRest [1, 1]))
      = .error (.error (.jointCount .targetPosition 1 2)) := rfl
  rw [step_run, hm]
  change (cycleResult m _ (Planner.update ⟨1, 2⟩ _), _) = _
  rw [hrefused, cycleResult, hm]
  rfl

/-- A reset to zero, a hop to one, and a cycle that is held. -/
theorem reached_hops : Reached ⟨hops, ⟨1, 2⟩, ⟨⟨[1], [0], [0]⟩, ⟨[1], [0], [0]⟩, false⟩⟩
    [.held, .smoothed ⟨[1], [0], [0]⟩, .reset ⟨[0], [0], [0]⟩, .created 1] := by
  have hreset := (Reached.create create_hops).reset reset_hops
  obtain ⟨status, hstep⟩ := step_hops (m := .ofState ⟨[0], [0], [0]⟩) (p := 0) rfl
  rw [zero_add] at hstep
  exact (hreset.step hstep).step (step_hops_held rfl)

/-- The next hop starts from where the first one ended. -/
theorem step_current_hops : ∃ (r : StreamStep ℝ) (p : Planner ℝ),
    (hops.step ⟨⟨[1], [0], [0]⟩, ⟨[1], [0], [0]⟩, false⟩ (.atRest [1 + 1])).run.run ⟨1, 2⟩
        = (.ok r, p)
      ∧ r.memory.current = ⟨[1], [0], [0]⟩ := by
  obtain ⟨status, hstep⟩ :=
    step_hops (m := ⟨⟨[1], [0], [0]⟩, ⟨[1], [0], [0]⟩, false⟩) (p := 1) rfl
  exact ⟨_, _, hstep, (step_current reached_hops hstep).1⟩

/-- **A held cycle does not lead back to the reset.** The stream was reset to zero, but the cycle
after the held one starts from one. -/
theorem exists_step_current_ne : ∃ (s : Session (Planner ℝ) ℝ) (history : List (Event ℝ))
    (command : State ℝ) (r : StreamStep ℝ) (p : Planner ℝ), Reached s history
      ∧ (s.stream.step s.memory command).run.run s.solver = (.ok r, p)
      ∧ history = [.held, .smoothed ⟨[1], [0], [0]⟩, .reset ⟨[0], [0], [0]⟩, .created 1]
      ∧ r.memory.current ≠ lastOutputOrReset history := by
  obtain ⟨status, hstep⟩ :=
    step_hops (m := ⟨⟨[1], [0], [0]⟩, ⟨[1], [0], [0]⟩, false⟩) (p := 1) rfl
  refine ⟨_, _, _, _, _, reached_hops, hstep, rfl, ?_⟩
  intro h
  simp [lastOutputOrReset, lastReset] at h

end JerkLimit.CommandStream

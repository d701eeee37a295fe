/-!
# Runs of a step function

A system reacts to events by a step function that may fail.  A run is a
sequence of steps; the steps of interest are those that meet a condition on the
state and the event.

A second kind of system never fails and may put out something at each step.
One such system refines another when each event of the second stands for a list
of events of the first with the same output.
-/

namespace XEditor.Run

open List Option

universe u v

/-! ## Steps in a row -/

section

variable {α β γ δ : Type u} {first : Option α} {second : α → Option β} {third : α → β → Option γ}

theorem bind₂_eq_some_iff {c : γ} :
    (first.bind fun a => (second a).bind (third a)) = some c ↔
      ∃ a, first = some a ∧ ∃ b, second a = some b ∧ third a b = some c := by
  simp only [bind_eq_some_iff]

theorem bind₃_eq_some_iff {fourth : α → β → γ → Option δ} {d : δ} :
    (first.bind fun a => (second a).bind fun b => (third a b).bind (fourth a b)) = some d ↔
      ∃ a, first = some a ∧ ∃ b, second a = some b ∧ ∃ c, third a b = some c ∧
        fourth a b c = some d := by
  simp only [bind_eq_some_iff]

end

/-! ## Runs -/

variable {σ : Type u} {ε : Type v} {step : σ → ε → Option σ}

/-- The states reached from a state by steps that meet a condition. -/
inductive Reached (step : σ → ε → Option σ) (meets : σ → ε → Prop) (start : σ) : σ → Prop
  | start : Reached step meets start start
  | step {state next : σ} {event : ε} : Reached step meets start state → meets state event →
      step state event = some next → Reached step meets start next

/-- What holds at the start and is kept by every step holds in every state
reached. -/
theorem Reached.invariant {meets : σ → ε → Prop} {holds : σ → Prop}
    (keeps : ∀ state event next, holds state → meets state event →
      step state event = some next → holds next)
    {start state : σ} (initial : holds start) (reached : Reached step meets start state) :
    holds state := by
  induction reached with
  | start => exact initial
  | step _ meetsEvent stepped ih => exact keeps _ _ _ ih meetsEvent stepped

/-- Run a list of events. -/
def run (step : σ → ε → Option σ) : σ → List ε → Option σ
  | state, [] => some state
  | state, event :: events => (step state event).bind fun next => run step next events

/-- Running a list of events reaches its last state. -/
theorem reached_of_run {start state last : σ} {events : List ε}
    (reached : Reached step (fun _ _ => True) start state)
    (ran : run step state events = some last) : Reached step (fun _ _ => True) start last := by
  induction events generalizing state with
  | nil =>
    cases ran
    exact reached
  | cons event events ih =>
    rw [run, bind_eq_some_iff] at ran
    obtain ⟨next, stepped, ran⟩ := ran
    exact ih (reached.step trivial stepped) ran

/-- If a view of the state after each step depends on the view before it only,
then so it does for whole runs. -/
theorem run_map {τ : Type u} {abstract : τ → ε → Option τ}
    {view : σ → τ} {holds : σ → Prop} {good : ε → Prop}
    (commutes : ∀ state event, holds state → good event →
      (step state event).map view = abstract (view state) event)
    (keeps : ∀ state event next, holds state → good event →
      step state event = some next → holds next)
    {state : σ} (initial : holds state) {events : List ε} (allGood : ∀ event ∈ events, good event) :
    (run step state events).map view = run abstract (view state) events := by
  induction events generalizing state with
  | nil => rfl
  | cons event events ih =>
    have isGood := allGood event mem_cons_self
    rw [run, run, ← commutes state event initial isGood]
    cases stepped : step state event with
    | none => rfl
    | some next =>
      exact ih (keeps state event next initial isGood stepped)
        fun later member => allGood later (mem_cons_of_mem event member)

/-- A property holds after every step of a run exactly when every step meets a
condition, if a step from a good state keeps the property exactly when it meets the
condition. -/
theorem run_holds_iff {good holds : σ → Prop} {meets : σ → ε → Prop}
    (goodHolds : ∀ state, good state → holds state)
    (keeps : ∀ state event next, good state → step state event = some next →
      (holds next ↔ meets state event) ∧ (holds next → good next))
    {start : σ} (initial : good start) (events : List ε) :
    (∀ count state, run step start (events.take count) = some state → holds state) ↔
      ∀ before event after, events = before ++ event :: after → ∀ state next,
        run step start before = some state → step state event = some next →
          meets state event := by
  induction events generalizing start with
  | nil =>
    refine iff_of_true ?_ ?_
    · intro count state ran
      rw [take_nil] at ran
      cases ran
      exact goodHolds _ initial
    · intro before event after events_eq
      simp at events_eq
  | cons event events ih =>
    constructor
    · intro always before later after events_eq state next ran stepped
      cases before with
      | nil =>
        cases events_eq
        cases ran
        refine (keeps _ _ _ initial stepped).1.mp (always 1 next ?_)
        rw [take_succ_cons, take_zero, run, stepped]
        rfl
      | cons first before =>
        cases events_eq
        obtain ⟨second, firstStep, ran⟩ := bind_eq_some_iff.mp ran
        have isSecond : holds second := by
          refine always 1 second ?_
          rw [take_succ_cons, take_zero, run, firstStep]
          rfl
        refine (ih ((keeps _ _ _ initial firstStep).2 isSecond)).mp ?_ before later after rfl
          state next ran stepped
        intro count last ranOn
        refine always (count + 1) last ?_
        rw [take_succ_cons, run, firstStep]
        exact ranOn
    · intro condition count state ran
      cases count with
      | zero =>
        cases ran
        exact goodHolds _ initial
      | succ count =>
        rw [take_succ_cons] at ran
        obtain ⟨next, stepped, ran⟩ := bind_eq_some_iff.mp ran
        obtain ⟨holdsNext, goodNext⟩ := keeps _ _ _ initial stepped
        have isNext := holdsNext.mpr (condition [] event events rfl start next rfl stepped)
        refine (ih (goodNext isNext)).mpr ?_ count state ran
        rintro before later after rfl reached last ranOn steppedOn
        refine condition (event :: before) later after rfl reached last ?_ steppedOn
        rw [run, stepped]
        exact ranOn

/-! ## Systems with output -/

universe w

variable {τ : Type u} {κ : Type v} {ω : Type w}

/-- The last state of a list of events and what was put out on the way. -/
def trace (step : σ → ε → σ × Option ω) : σ → List ε → σ × List ω
  | state, [] => (state, [])
  | state, event :: events =>
    let stepped := step state event
    let rest := trace step stepped.1 events
    (rest.1, stepped.2.toList ++ rest.2)

theorem trace_append (step : σ → ε → σ × Option ω) (state : σ) (first second : List ε) :
    trace step state (first ++ second) =
      ((trace step (trace step state first).1 second).1,
        (trace step state first).2 ++ (trace step (trace step state first).1 second).2) := by
  induction first generalizing state with
  | nil => rfl
  | cons event first ih => simp [trace, ih]

theorem trace_concat (step : σ → ε → σ × Option ω) (state : σ) (events : List ε) (event : ε) :
    trace step state (events ++ [event]) =
      ((step (trace step state events).1 event).1,
        (trace step state events).2 ++ (step (trace step state events).1 event).2.toList) := by
  rw [trace_append]
  simp [trace]

/-- What every step keeps holds at the end of every list of events. -/
theorem trace_invariant {step : σ → ε → σ × Option ω} {holds : σ → Prop}
    (keeps : ∀ state event, holds state → holds (step state event).1) {state : σ}
    (initial : holds state) (events : List ε) : holds (trace step state events).1 := by
  induction events generalizing state with
  | nil => exact initial
  | cons event events ih => exact ih (keeps state event initial)

/-- If every event of one system stands for a list of events of another with
the same output, and related states stay related, then whole lists of events
have the same output and related last states. -/
theorem trace_refines {step : σ → ε → σ × Option ω} {abstract : τ → κ → τ × Option ω}
    {related : σ → τ → Prop} {expand : κ → List ε} {good : κ → Prop}
    (refines : ∀ state spec event, related state spec → good event →
      related (trace step state (expand event)).1 (abstract spec event).1 ∧
        (trace step state (expand event)).2 = (abstract spec event).2.toList)
    {state : σ} {spec : τ} (initial : related state spec) {events : List κ}
    (allGood : ∀ event ∈ events, good event) :
    related (trace step state (events.flatMap expand)).1 (trace abstract spec events).1 ∧
      (trace step state (events.flatMap expand)).2 = (trace abstract spec events).2 := by
  induction events generalizing state spec with
  | nil => exact ⟨initial, rfl⟩
  | cons event events ih =>
    obtain ⟨stillRelated, sameOutput⟩ :=
      refines state spec event initial (allGood event (mem_cons_self))
    obtain ⟨lastRelated, sameRest⟩ :=
      ih stillRelated fun later member => allGood later (mem_cons_of_mem event member)
    rw [flatMap_cons, trace_append]
    exact ⟨lastRelated, by rw [sameRest, sameOutput]; rfl⟩

end XEditor.Run

/-!
# Programs over a state

A program takes a state to an outcome: a value or a reason why it halted, the
state it left, and the events it reported.  Programs over a part of a state are
programs over the whole.

A specification says what holds at the end of a run from a state.  It may rely
on a condition on the events of the run, and then also says what these events
guarantee.  Nothing is lost when a run halts: the reasons for which it may halt
are part of the specification.
-/

namespace XEditor

open List

universe u

/-- How a run ended, the state it left and the events it reported. -/
structure Outcome (σ ε ω α : Type u) where
  result : Except ε α
  state : σ
  events : List ω

/-- A program over states `σ` that may halt for a reason `ε`. -/
def Program (σ ε ω α : Type u) : Type u :=
  σ → Outcome σ ε ω α

namespace Program

variable {σ τ ε ω α β : Type u}

/-- Run a second program on the value and the state of a first one. -/
def andThen (program : Program σ ε ω α) (next : α → Program σ ε ω β) : Program σ ε ω β :=
  fun state =>
    match program state with
    | ⟨.error reason, last, events⟩ => ⟨.error reason, last, events⟩
    | ⟨.ok value, middle, events⟩ =>
      match next value middle with
      | ⟨result, last, later⟩ => ⟨result, last, events ++ later⟩

instance : Monad (Program σ ε ω) where
  pure value := fun state => ⟨.ok value, state, []⟩
  bind := andThen

/-- Stop. -/
def halt (reason : ε) : Program σ ε ω α :=
  fun state => ⟨.error reason, state, []⟩

/-- The state. -/
def get : Program σ ε ω σ :=
  fun state => ⟨.ok state, state, []⟩

/-- Change the state. -/
def modify (change : σ → σ) : Program σ ε ω PUnit :=
  fun state => ⟨.ok ⟨⟩, change state, []⟩

/-- Report an event. -/
def report (event : ω) : Program σ ε ω PUnit :=
  fun state => ⟨.ok ⟨⟩, state, [event]⟩

/-- A part of a state. -/
structure Part (σ τ : Type u) where
  get : σ → τ
  set : σ → τ → σ

/-- Run a program on a part of the state. -/
def on (part : Part σ τ) (program : Program τ ε ω α) : Program σ ε ω α :=
  fun state =>
    match program (part.get state) with
    | ⟨result, last, events⟩ => ⟨result, part.set state last, events⟩

/-- Run a program for each element of a list. -/
def each (body : β → Program σ ε ω PUnit) : List β → Program σ ε ω PUnit
  | [] => pure ⟨⟩
  | element :: rest => do
    body element
    each body rest

/-! ## Runs that return -/

/-- A run returns a value, leaves a state and reports events. -/
def Returns (program : Program σ ε ω α) (state : σ) (value : α) (last : σ) (events : List ω) :
    Prop :=
  program state = ⟨.ok value, last, events⟩

variable {value : α} {state : σ} {program : Program σ ε ω α} {next : α → Program σ ε ω β}
  {events : List ω}

namespace Returns

theorem pure : Returns (Pure.pure value : Program σ ε ω α) state value state [] :=
  rfl

theorem get : Returns (Program.get : Program σ ε ω σ) state state state [] :=
  rfl

theorem modify {change : σ → σ} :
    Returns (Program.modify change : Program σ ε ω PUnit) state ⟨⟩ (change state) [] :=
  rfl

theorem report {event : ω} :
    Returns (Program.report event : Program σ ε ω PUnit) state ⟨⟩ state [event] :=
  rfl

variable {last middle : σ}

theorem bind {state : σ} {first : α} {value : β} {events later : List ω}
    (returns : Returns program state first middle events)
    (rest : Returns (next first) middle value last later) :
    Returns (program >>= next) state value last (events ++ later) := by
  show andThen program next state = _
  rw [andThen, returns]
  dsimp only
  rw [rest]

/-- A step without events can be left out. -/
theorem bind_eq {state : σ} (returns : Returns program state value middle []) :
    (program >>= next) state = next value middle := by
  show andThen program next state = _
  rw [andThen, returns]
  rfl

/-- A first step and the rest, with the events of both. -/
theorem step {program : Program σ ε ω α} {next : α → Program σ ε ω β} {state : σ} {first : α}
    {value : β} {events later all : List ω} (returns : Returns program state first middle events)
    (rest : Returns (next first) middle value last later) (eq : all = events ++ later) :
    Returns (program >>= next) state value last all :=
  eq ▸ returns.bind rest

theorem on {part : Part σ τ} {program : Program τ ε ω α} {last : τ}
    (returns : Returns program (part.get state) value last events) :
    Returns (program.on part) state value (part.set state last) events := by
  unfold Returns at returns ⊢
  rw [Program.on, returns]

end Returns

/-! ## Specifications -/

section

variable (rely guarantee : ω → Prop) (halts : ε → Prop)

/-- If the events of the run are as relied on, they are as guaranteed, and the run
ends well: it returns a value and a state with the given property, or it halts
for an admitted reason. -/
def Spec (program : Program σ ε ω α) (state : σ) (ends : α → σ → Prop) : Prop :=
  (∀ event ∈ (program state).events, rely event) →
    (∀ event ∈ (program state).events, guarantee event) ∧
      match (program state).result with
      | .ok value => ends value (program state).state
      | .error reason => halts reason

variable {rely guarantee halts}

namespace Spec

variable {ends : α → σ → Prop}

theorem pure (holds : ends value state) :
    Spec rely guarantee halts (Pure.pure value : Program σ ε ω α) state ends :=
  fun _ => ⟨fun _ isEvent => (not_mem_nil isEvent).elim, holds⟩

theorem halt {reason : ε} (admitted : halts reason) :
    Spec rely guarantee halts (Program.halt reason : Program σ ε ω α) state ends :=
  fun _ => ⟨fun _ isEvent => (not_mem_nil isEvent).elim, admitted⟩

theorem get {ends : σ → σ → Prop} (holds : ends state state) :
    Spec rely guarantee halts (Program.get : Program σ ε ω σ) state ends :=
  fun _ => ⟨fun _ isEvent => (not_mem_nil isEvent).elim, holds⟩

theorem modify {change : σ → σ} {ends : PUnit → σ → Prop} (holds : ends ⟨⟩ (change state)) :
    Spec rely guarantee halts (Program.modify change : Program σ ε ω PUnit) state ends :=
  fun _ => ⟨fun _ isEvent => (not_mem_nil isEvent).elim, holds⟩

theorem bind {ends : β → σ → Prop}
    (spec : Spec rely guarantee halts program state fun value middle =>
      Spec rely guarantee halts (next value) middle ends) :
    Spec rely guarantee halts (program >>= next) state ends := by
  show Spec rely guarantee halts (Program.andThen program next) state ends
  unfold Spec Program.andThen at *
  generalize program state = outcome at spec ⊢
  obtain ⟨result, middle, events⟩ := outcome
  cases result with
  | error reason => exact spec
  | ok value =>
    intro relied
    obtain ⟨good, rest⟩ := spec fun event isEvent => relied event (mem_append_left _ isEvent)
    obtain ⟨good', ends⟩ := rest fun event isEvent =>
      relied event (mem_append_right _ isEvent)
    refine ⟨fun event isEvent => ?_, ends⟩
    rcases mem_append.mp isEvent with first | second
    · exact good event first
    · exact good' event second

theorem mono {ends ends' : α → σ → Prop} (spec : Spec rely guarantee halts program state ends)
    (implies : ∀ value last, ends value last → ends' value last) :
    Spec rely guarantee halts program state ends' := by
  intro relied
  obtain ⟨good, rest⟩ := spec relied
  refine ⟨good, ?_⟩
  cases result : (program state).result with
  | error reason =>
    rw [result] at rest
    exact rest
  | ok value =>
    rw [result] at rest
    exact implies _ _ rest

/-- A first program with its specification, and the rest from where it ends. -/
theorem andThen {middle : α → σ → Prop} {ends : β → σ → Prop}
    (spec : Spec rely guarantee halts program state middle)
    (rest : ∀ value last, middle value last → Spec rely guarantee halts (next value) last ends) :
    Spec rely guarantee halts (program >>= next) state ends :=
  bind (spec.mono rest)

/-- A run that returns meets its specification. -/
theorem of_returns {state : σ} (returns : Returns program state value last events)
    (good : ∀ event ∈ events, guarantee event) (holds : ends value last) :
    Spec rely guarantee halts program state ends := by
  unfold Spec
  rw [returns]
  exact fun _ => ⟨good, holds⟩

/-- What a run that returns ends with. -/
theorem ends_of_returns {state : σ} (spec : Spec rely guarantee halts program state ends)
    (returns : Returns program state value last events) (relied : ∀ event ∈ events, rely event) :
    ends value last := by
  unfold Spec at spec
  rw [returns] at spec
  exact (spec relied).2

/-- A run that has no reason to halt returns. -/
theorem exists_returns (spec : Spec rely guarantee halts program state ends)
    (never : ∀ reason, ¬ halts reason) (relied : ∀ event ∈ (program state).events, rely event) :
    ∃ value last events, Returns program state value last events ∧ ends value last := by
  have := (spec relied).2
  unfold Returns
  generalize program state = outcome at this ⊢
  obtain ⟨result, last, events⟩ := outcome
  cases result with
  | error reason => exact absurd this (never reason)
  | ok value => exact ⟨value, last, events, rfl, this⟩

end Spec

end

end Program

end XEditor

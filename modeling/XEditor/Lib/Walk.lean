import Mathlib.Data.List.Chain

/-!
# Walks through a list

A partial step function walks through a list of stops when it leads from each
stop to the one behind it and stays at the last.  A second function that walks
through the reversed list undoes the first one, except where one of the two
stays.

A loop is a walk that ends where there is no step.  A number that each step makes
smaller leads it to a stop.
-/

namespace XEditor.Walk

open List Option

universe u

variable {σ : Type u}

/-- Take a number of steps.  A step that fails makes the whole walk fail. -/
def steps (next : σ → Option σ) : Nat → σ → Option σ
  | 0, state => some state
  | n + 1, state => (next state).bind (steps next n)

/-- From each stop of the list the step leads to the following one, and it stays
at the last one. -/
structure Walks (next : σ → Option σ) (stops : List σ) : Prop where
  moves : stops.IsChain fun here there => next here = some there
  stays : ∀ last ∈ stops.getLast?, next last = some last

variable {next previous : σ → Option σ}

theorem steps_of_stays {state : σ} (stays : next state = some state) (n : Nat) :
    steps next n state = some state := by
  induction n with
  | zero => rfl
  | succ n ih => rw [steps, stays, bind_some, ih]

variable {start : σ} {before after : List σ}

/-- A walk passes the stops one after the other and ends at the last one. -/
theorem Walks.steps_eq {rest : List σ} (walks : Walks next (start :: rest)) (n : Nat) :
    steps next n start = (start :: rest)[min n rest.length]? := by
  induction rest generalizing start n with
  | nil =>
    rw [steps_of_stays (walks.stays start rfl), length_nil, Nat.min_zero]
    rfl
  | cons second rest ih =>
    cases n with
    | zero => rfl
    | succ n =>
      have moves := isChain_cons_cons.mp walks.moves
      have later : Walks next (second :: rest) := ⟨moves.2, walks.stays⟩
      rw [steps, moves.1, bind_some, ih later, length_cons,
        Nat.add_min_add_right, getElem?_cons_succ]

/-! ## Loops -/

/-- A loop comes to a state without a step. -/
def Ends (next : σ → Option σ) (start : σ) : Prop :=
  ∃ n last, steps next n start = some last ∧ next last = none

theorem steps_invariant (holds : σ → Prop)
    (keeps : ∀ here there, holds here → next here = some there → holds there) {last : σ}
    (initial : holds start) {n : Nat} (walked : steps next n start = some last) : holds last := by
  induction n generalizing start with
  | zero =>
    cases walked
    exact initial
  | succ n ih =>
    obtain ⟨second, step, walked⟩ := bind_eq_some_iff.mp walked
    exact ih (keeps start second initial step) walked

/-- By induction on the measure: each step makes it smaller, so the walk comes to
a stop. -/
theorem exists_steps (holds stops : σ → Prop) (measure : σ → Nat)
    (goes : ∀ here, holds here → stops here ∨
      ∃ there, next here = some there ∧ holds there ∧ measure there < measure here)
    (start : σ) (initial : holds start) :
    ∃ n last, steps next n start = some last ∧ stops last := by
  induction size : measure start using Nat.strong_induction_on generalizing start with
  | h size ih =>
    subst size
    rcases goes start initial with stop | ⟨second, step, holds, smaller⟩
    · exact ⟨0, start, rfl, stop⟩
    · obtain ⟨n, last, walked, stop⟩ := ih _ smaller second holds rfl
      exact ⟨n + 1, last, by rw [steps, step, bind_some, walked], stop⟩

/-- A loop does not end where every state has a step to another one. -/
theorem not_ends (holds : σ → Prop)
    (goes : ∀ here, holds here → ∃ there, next here = some there ∧ holds there)
    (initial : holds start) : ¬ Ends next start := by
  rintro ⟨n, last, walked, stop⟩
  have keeps (here there : σ) (before : holds here) (step : next here = some there) :
      holds there := by
    obtain ⟨other, otherStep, after⟩ := goes here before
    rwa [some.inj (step.symm.trans otherStep)]
  obtain ⟨there, step, -⟩ := goes last (steps_invariant holds keeps initial walked)
  exact nomatch stop.symm.trans step

/-! ## Walks there and back -/

variable {here there : σ}

/-- Every stop but the last one has another one behind it. -/
theorem exists_behind {stops : List σ} (isStop : here ∈ stops) (notLast : here ∉ stops.getLast?) :
    ∃ before there after, stops = before ++ here :: there :: after := by
  obtain ⟨before, after, rfl⟩ := append_of_mem isStop
  cases after with
  | nil => simp at notLast
  | cons there after => exact ⟨before, there, after, rfl⟩

theorem exists_before {stops : List σ} (isStop : there ∈ stops) (notFirst : there ∉ stops.head?) :
    ∃ before here after, stops = before ++ here :: there :: after := by
  obtain ⟨before, after, rfl⟩ := append_of_mem isStop
  rcases eq_nil_or_concat' before with rfl | ⟨before, here, rfl⟩
  · simp at notFirst
  · exact ⟨before, here, after, by simp⟩

theorem Walks.next_eq (walks : Walks next (before ++ here :: there :: after)) :
    next here = some there := by
  have moves := (isChain_append.mp walks.moves).2.1
  exact (isChain_cons_cons.mp moves).1

theorem Walks.previous_eq (walks : Walks previous (before ++ here :: there :: after).reverse) :
    previous there = some here := by
  rw [reverse_append, reverse_cons, reverse_cons, append_assoc, append_assoc] at walks
  exact walks.next_eq

section

variable {stops : List σ} (forward : Walks next stops) (backward : Walks previous stops.reverse)
include forward backward

/-- From every stop but the last one, a step forward is undone by a step back. -/
theorem Walks.previous_next (isStop : here ∈ stops) (notLast : here ∉ stops.getLast?) :
    (next here).bind previous = some here := by
  obtain ⟨before, there, after, rfl⟩ := exists_behind isStop notLast
  rw [forward.next_eq, bind_some, backward.previous_eq]

/-- From every stop but the first one, a step back is undone by a step
forward. -/
theorem Walks.next_previous (isStop : there ∈ stops) (notFirst : there ∉ stops.head?) :
    (previous there).bind next = some there := by
  obtain ⟨before, here, after, rfl⟩ := exists_before isStop notFirst
  rw [backward.previous_eq, bind_some, forward.next_eq]

end

end XEditor.Walk

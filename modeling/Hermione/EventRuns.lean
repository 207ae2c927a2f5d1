import Mathlib.Data.List.Basic
import Mathlib.Data.List.Induction

/-!
# Runs of event-driven systems

A system is a partial step function: an event either moves the state or is not
possible in it.  Nondeterminism (which of several parties acts next, what the
environment answers) is carried by the events, so a statement about every
interleaving is a statement about every list of events.

The second half is about machines that answer every input, and says when two of
them give the same answers.
-/

namespace EventRuns

section Systems

variable {State Event : Type*}

/-- The state after a list of events, when every one of them is possible. -/
def run (step : State → Event → Option State) : State → List Event → Option State
  | state, [] => some state
  | state, event :: events => (step state event).bind fun next => run step next events

variable {step : State → Event → Option State}

@[simp]
theorem run_nil (state : State) : run step state [] = some state :=
  rfl

@[simp]
theorem run_cons (state : State) (event : Event) (events : List Event) :
    run step state (event :: events) =
      (step state event).bind fun next => run step next events :=
  rfl

theorem run_append (state : State) (first second : List Event) :
    run step state (first ++ second) =
      (run step state first).bind fun next => run step next second := by
  induction first generalizing state with
  | nil => rfl
  | cons event first ih =>
      simp only [List.cons_append, run_cons, Option.bind_assoc]
      congr 1
      funext next
      exact ih next

theorem run_append_eq_some_iff {state final : State} {first second : List Event} :
    run step state (first ++ second) = some final ↔
      ∃ middle, run step state first = some middle ∧
        run step middle second = some final := by
  rw [run_append, Option.bind_eq_some_iff]

theorem run_cons_eq_some_iff {state final : State} {event : Event}
    {events : List Event} :
    run step state (event :: events) = some final ↔
      ∃ next, step state event = some next ∧ run step next events = some final := by
  rw [run_cons, Option.bind_eq_some_iff]

/-- What every step preserves holds at the end of every run. -/
theorem invariant_of_run {invariant : State → Prop}
    (preserved : ∀ state event next, invariant state →
      step state event = some next → invariant next)
    {state final : State} {events : List Event}
    (holds : invariant state) (ran : run step state events = some final) :
    invariant final := by
  induction events generalizing state with
  | nil =>
      simp only [run_nil, Option.some.injEq] at ran
      exact ran ▸ holds
  | cons event events ih =>
      obtain ⟨next, stepped, rest⟩ := run_cons_eq_some_iff.mp ran
      exact ih (preserved state event next holds stepped) rest

/-- Every step of a run is taken in a state, and with an event, that meet a
condition. -/
def Guarded (step : State → Event → Option State) (guard : State → Event → Prop) :
    State → List Event → Prop
  | _, [] => True
  | state, event :: events =>
      guard state event ∧
        ∀ next, step state event = some next → Guarded step guard next events

theorem Guarded.cons {guard : State → Event → Prop} {state next : State} {event : Event}
    {events : List Event} (met : guard state event) (stepped : step state event = some next)
    (rest : Guarded step guard next events) :
    Guarded step guard state (event :: events) := by
  refine ⟨met, ?_⟩
  intro other same
  rw [stepped] at same
  exact Option.some.inj same ▸ rest

/-- A condition on events alone. -/
theorem guarded_of_forall {guard : State → Event → Prop} {state : State}
    {events : List Event} (met : ∀ event ∈ events, ∀ state, guard state event) :
    Guarded step guard state events := by
  induction events generalizing state with
  | nil => trivial
  | cons event events ih =>
      refine ⟨met event List.mem_cons_self state, fun next _ => ?_⟩
      exact ih fun other member => met other (List.mem_cons_of_mem _ member)

theorem Guarded.append {guard : State → Event → Prop} {state : State}
    {first second : List Event} (before : Guarded step guard state first)
    (after : ∀ middle, run step state first = some middle → Guarded step guard middle second) :
    Guarded step guard state (first ++ second) := by
  induction first generalizing state with
  | nil => exact after state rfl
  | cons event first ih =>
      refine ⟨before.1, fun next stepped => ih (before.2 next stepped) ?_⟩
      intro middle ran
      exact after middle (run_cons_eq_some_iff.mpr ⟨next, stepped, ran⟩)

/-- What every step that meets a condition preserves holds at the end of every
run whose steps all meet it. -/
theorem invariant_of_guarded {guard : State → Event → Prop}
    {invariant : State → Prop}
    (preserved : ∀ state event next, invariant state → guard state event →
      step state event = some next → invariant next)
    {state final : State} {events : List Event}
    (holds : invariant state) (guarded : Guarded step guard state events)
    (ran : run step state events = some final) :
    invariant final := by
  induction events generalizing state with
  | nil =>
      simp only [run_nil, Option.some.injEq] at ran
      exact ran ▸ holds
  | cons event events ih =>
      obtain ⟨next, stepped, rest⟩ := run_cons_eq_some_iff.mp ran
      exact ih (preserved state event next holds guarded.1 stepped)
        (guarded.2 next stepped) rest

/-- A condition that implies another in the states that steps meeting it lead to. -/
theorem Guarded.weaken {guard weaker : State → Event → Prop} (invariant : State → Prop)
    (preserved : ∀ state event next, invariant state → guard state event →
      step state event = some next → invariant next)
    (meets : ∀ state event, invariant state → guard state event → weaker state event)
    {state : State} {events : List Event} (holds : invariant state)
    (guarded : Guarded step guard state events) :
    Guarded step weaker state events := by
  induction events generalizing state with
  | nil => trivial
  | cons event events ih =>
      refine ⟨meets state event holds guarded.1, fun next stepped => ?_⟩
      exact ih (preserved state event next holds guarded.1 stepped) (guarded.2 next stepped)

/-- What every step preserves together with whether the condition has held so
far: at the end it speaks of the whole run. -/
theorem tracked_of_run {guard : State → Event → Prop}
    {invariant : State → Prop → Prop}
    (preserved : ∀ state held event next, invariant state held →
      step state event = some next → invariant next (held ∧ guard state event))
    {state final : State} {held : Prop} {events : List Event}
    (holds : invariant state held) (ran : run step state events = some final) :
    invariant final (held ∧ Guarded step guard state events) := by
  induction events generalizing state held with
  | nil =>
      simp only [run_nil, Option.some.injEq] at ran
      simpa [Guarded, ran] using holds
  | cons event events ih =>
      obtain ⟨next, stepped, rest⟩ := run_cons_eq_some_iff.mp ran
      have later := ih (preserved state held event next holds stepped) rest
      simpa only [Guarded, stepped, Option.some.injEq, forall_eq', and_assoc] using later

/-- What every step preserves together with the events so far. -/
theorem history_of_run {start : State} (invariant : List Event → State → Prop)
    (preserved : ∀ past state event next, run step start past = some state →
      invariant past state → step state event = some next → invariant (past ++ [event]) next)
    (holds : invariant [] start) {final : State} {events : List Event}
    (ran : run step start events = some final) :
    invariant events final := by
  induction events using List.reverseRecOn generalizing final with
  | nil =>
      rw [run_nil, Option.some.injEq] at ran
      exact ran ▸ holds
  | append_singleton past event ih =>
      obtain ⟨state, before, moved⟩ := run_append_eq_some_iff.mp ran
      rw [run_cons, Option.bind_eq_some_iff] at moved
      obtain ⟨next, stepped, same⟩ := moved
      rw [run_nil, Option.some.injEq] at same
      exact preserved past state event final before (ih before) (same ▸ stepped)

/-- A property of every state that a run comes through, the last one included. -/
def Throughout (step : State → Event → Option State) (holds : State → Prop) :
    State → List Event → Prop
  | state, [] => holds state
  | state, event :: events =>
      holds state ∧ ∀ next, step state event = some next → Throughout step holds next events

theorem Throughout.head {holds : State → Prop} {state : State} {events : List Event}
    (throughout : Throughout step holds state events) : holds state := by
  cases events with
  | nil => exact throughout
  | cons event events => exact throughout.1

/-- A property of all the states of a run makes its steps meet a condition. -/
theorem Throughout.guarded {guard : State → Event → Prop} {holds : State → Prop}
    (invariant : State → Prop)
    (preserved : ∀ state event next, invariant state → holds state →
      step state event = some next → invariant next)
    (meets : ∀ state event, invariant state → holds state → guard state event)
    {state : State} {events : List Event} (initial : invariant state)
    (throughout : Throughout step holds state events) :
    Guarded step guard state events := by
  induction events generalizing state with
  | nil => trivial
  | cons event events ih =>
      refine ⟨meets state event initial throughout.1, fun next stepped => ?_⟩
      have onward := preserved state event next initial throughout.1 stepped
      exact ih onward (throughout.2 next stepped)

/-- A condition on steps is exactly what keeps a property of states, if the property
is kept by the steps that meet the condition and lost by those that don't. -/
theorem guarded_iff_throughout {guard : State → Event → Prop} {holds : State → Prop}
    {allowed : Event → Prop} (invariant : State → Prop)
    (preserved : ∀ state event next, invariant state → step state event = some next →
      invariant next)
    (kept : ∀ state event next, invariant state → holds state → allowed event →
      guard state event → step state event = some next → holds next)
    (needed : ∀ state event next, invariant state → holds next →
      step state event = some next → guard state event)
    {state final : State} {events : List Event} (initial : invariant state)
    (first : holds state) (within : ∀ event ∈ events, allowed event)
    (ran : run step state events = some final) :
    Guarded step guard state events ↔ Throughout step holds state events := by
  induction events generalizing state with
  | nil => exact iff_of_true trivial first
  | cons event events ih =>
      obtain ⟨next, stepped, rest⟩ := run_cons_eq_some_iff.mp ran
      obtain ⟨here, later⟩ := List.forall_mem_cons.mp within
      have onward := preserved state event next initial stepped
      constructor
      · intro guarded
        have afterwards := kept state event next initial first here guarded.1 stepped
        refine ⟨first, fun other same => ?_⟩
        obtain rfl := Option.some.inj (stepped.symm.trans same)
        exact (ih onward afterwards later rest).mp (guarded.2 next stepped)
      · intro throughout
        have holding := throughout.2 next stepped
        apply Guarded.cons (needed state event next initial holding.head stepped) stepped
        exact (ih onward holding.head later rest).mpr holding

end Systems

section Machines

variable {State Other Input Output : Type*}

/-- The answers a machine gives to a list of inputs, in order. -/
def answers (step : State → Input → State × Output) : State → List Input → List Output
  | _, [] => []
  | state, input :: inputs =>
      (step state input).2 :: answers step (step state input).1 inputs

/-- The state a list of inputs leaves a machine in. -/
def final (step : State → Input → State × Output) (state : State)
    (inputs : List Input) : State :=
  inputs.foldl (fun current input => (step current input).1) state

/-- Every input arrives in a state in which it is allowed. -/
def Admissible (step : State → Input → State × Output)
    (allowed : State → Input → Prop) : State → List Input → Prop
  | _, [] => True
  | state, input :: inputs =>
      allowed state input ∧ Admissible step allowed (step state input).1 inputs

theorem final_append (step : State → Input → State × Output) (state : State)
    (first second : List Input) :
    final step state (first ++ second) = final step (final step state first) second :=
  List.foldl_append

theorem admissible_append_iff {step : State → Input → State × Output}
    {allowed : State → Input → Prop} {state : State} {first second : List Input} :
    Admissible step allowed state (first ++ second) ↔
      Admissible step allowed state first ∧
        Admissible step allowed (final step state first) second := by
  induction first generalizing state with
  | nil => simp [Admissible, final]
  | cons input first ih =>
      simp only [List.cons_append, Admissible, ih, and_assoc]
      rfl

/-- Two machines related by a simulation that respects answers give the same
answers to every admissible list of inputs, and stay related. -/
theorem answers_eq_of_simulation
    {step : State → Input → State × Output} {other : Other → Input → Other × Output}
    {allowed : Other → Input → Prop} {related : State → Other → Prop}
    (simulates : ∀ state mirror input, related state mirror → allowed mirror input →
      related (step state input).1 (other mirror input).1 ∧
        (step state input).2 = (other mirror input).2)
    {state : State} {mirror : Other} {inputs : List Input}
    (start : related state mirror) (admissible : Admissible other allowed mirror inputs) :
    answers step state inputs = answers other mirror inputs ∧
      related (final step state inputs) (final other mirror inputs) := by
  induction inputs generalizing state mirror with
  | nil => exact ⟨rfl, start⟩
  | cons input inputs ih =>
      obtain ⟨next, answer⟩ := simulates state mirror input start admissible.1
      obtain ⟨rest, finish⟩ := ih next admissible.2
      refine ⟨?_, finish⟩
      rw [answers, answers, answer, rest]

end Machines

end EventRuns

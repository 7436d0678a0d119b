import Mathlib.Data.List.Basic

/-!
# Deterministic machines driven by events

A machine has a start state and a partial step function: every choice the
surroundings can make is part of the event, so that a list of events is one
interleaving and can be executed.  `ReachedBy` restricts the steps of a run by
a condition on the state before the step, which is how a discipline of the
surroundings is stated.  A simulation relates a detailed machine to a coarser
one, each detailed step being at most one coarse step.
-/

namespace Fetchpp.Lib

universe u v

structure Machine (State : Type u) (Event : Type v) where
  start : State
  step : State → Event → Option State

namespace Machine

variable {State State' : Type u} {Event Event' : Type v}

/-- The states of the runs whose steps all satisfy `Allowed`. -/
inductive ReachedBy (machine : Machine State Event)
    (Allowed : State → Event → Prop) : State → Prop where
  | start : ReachedBy machine Allowed machine.start
  | step {before after : State} {event : Event} :
      ReachedBy machine Allowed before →
      Allowed before event →
      machine.step before event = some after →
      ReachedBy machine Allowed after

abbrev Reached (machine : Machine State Event) : State → Prop :=
  machine.ReachedBy (fun _ _ => True)

def run (machine : Machine State Event) : State → List Event → Option State
  | state, [] => some state
  | state, event :: events =>
      match machine.step state event with
      | none => none
      | some next => machine.run next events

theorem run_append (machine : Machine State Event) (state : State)
    (earlier later : List Event) :
    machine.run state (earlier ++ later) =
      (machine.run state earlier).bind (fun middle =>
        machine.run middle later) := by
  induction earlier generalizing state with
  | nil => rfl
  | cons event earlier induction =>
      simp only [List.cons_append, run]
      cases machine.step state event with
      | none => rfl
      | some next => exact induction next

/-- Executes a list of events as long as each of them is allowed. -/
def runWhere (machine : Machine State Event)
    (Allowed : State → Event → Prop)
    [∀ before event, Decidable (Allowed before event)] :
    State → List Event → Option State
  | state, [] => some state
  | state, event :: events =>
      if Allowed state event then
        match machine.step state event with
        | none => none
        | some next => machine.runWhere Allowed next events
      else none

theorem ReachedBy.mono {machine : Machine State Event}
    {Strong Weak : State → Event → Prop} {state : State}
    (weaker : ∀ before event, Strong before event → Weak before event)
    (reached : machine.ReachedBy Strong state) :
    machine.ReachedBy Weak state := by
  induction reached with
  | start => exact .start
  | step _ allowed stepped induction =>
      exact .step induction (weaker _ _ allowed) stepped

theorem ReachedBy.reached {machine : Machine State Event}
    {Allowed : State → Event → Prop} {state : State}
    (reached : machine.ReachedBy Allowed state) : machine.Reached state :=
  reached.mono (fun _ _ _ => trivial)

/-- An invariant of the start state that every allowed step keeps holds in
every state of every allowed run.  The step may use that the state before it
was reached. -/
theorem ReachedBy.invariant {machine : Machine State Event}
    {Allowed : State → Event → Prop} {Invariant : State → Prop}
    (initial : Invariant machine.start)
    (preserved : ∀ before event after,
      machine.ReachedBy Allowed before → Invariant before →
      Allowed before event → machine.step before event = some after →
      Invariant after)
    {state : State} (reached : machine.ReachedBy Allowed state) :
    Invariant state := by
  induction reached with
  | start => exact initial
  | step earlier allowed stepped induction =>
      exact preserved _ _ _ earlier induction allowed stepped

theorem ReachedBy.append_run {machine : Machine State Event}
    {state final : State} {events : List Event}
    (reached : machine.Reached state)
    (executed : machine.run state events = some final) :
    machine.Reached final := by
  induction events generalizing state with
  | nil =>
      cases executed
      exact reached
  | cons event events induction =>
      simp only [run] at executed
      cases stepped : machine.step state event with
      | none => simp [stepped] at executed
      | some next =>
          simp only [stepped] at executed
          exact induction (reached.step trivial stepped) executed

/-- What every allowed step from a reached state keeps, every run of allowed
events keeps. -/
theorem ReachedBy.run_invariant_of {machine : Machine State Event}
    {Allowed : Event → Prop} {Invariant : State → Prop}
    (kept : ∀ {before event after}, machine.Reached before → Allowed event →
      Invariant before → machine.step before event = some after →
      Invariant after)
    {state final : State} {events : List Event}
    (reached : machine.Reached state) (holds : Invariant state)
    (all : ∀ event ∈ events, Allowed event)
    (executed : machine.run state events = some final) : Invariant final := by
  induction events generalizing state with
  | nil =>
      cases executed
      exact holds
  | cons event events induction =>
      obtain ⟨allowed, rest⟩ := List.forall_mem_cons.mp all
      simp only [run] at executed
      cases stepped : machine.step state event with
      | none => simp [stepped] at executed
      | some next =>
          simp only [stepped] at executed
          exact induction (reached.step trivial stepped)
            (kept reached allowed holds stepped) rest executed

/-- What every step from a reached state keeps, every run keeps. -/
theorem ReachedBy.run_invariant {machine : Machine State Event}
    {Invariant : State → Prop}
    (kept : ∀ {before event after}, machine.Reached before →
      Invariant before → machine.step before event = some after →
      Invariant after)
    {state final : State} {events : List Event}
    (reached : machine.Reached state) (holds : Invariant state)
    (executed : machine.run state events = some final) : Invariant final := by
  have keptBy : ∀ {before event after}, machine.Reached before → True →
      Invariant before → machine.step before event = some after →
      Invariant after := fun reached _ => kept reached
  exact reached.run_invariant_of keptBy holds (fun _ _ => trivial) executed

theorem ReachedBy.append_all {machine : Machine State Event}
    {Allowed : Event → Prop} {state final : State} {events : List Event}
    (reached : machine.ReachedBy (fun _ event => Allowed event) state)
    (all : ∀ event ∈ events, Allowed event)
    (executed : machine.run state events = some final) :
    machine.ReachedBy (fun _ event => Allowed event) final := by
  induction events generalizing state with
  | nil =>
      cases executed
      exact reached
  | cons event events induction =>
      simp only [run] at executed
      cases stepped : machine.step state event with
      | none => simp [stepped] at executed
      | some next =>
          simp only [stepped] at executed
          exact induction (reached.step (all event List.mem_cons_self) stepped)
            (fun later member => all later (List.mem_cons_of_mem _ member))
            executed

theorem reached_of_run {machine : Machine State Event} {final : State}
    (events : List Event)
    (executed : machine.run machine.start events = some final) :
    machine.Reached final :=
  ReachedBy.append_run .start executed

theorem run_of_runWhere {machine : Machine State Event}
    {Allowed : State → Event → Prop}
    [∀ before event, Decidable (Allowed before event)]
    {state final : State} {events : List Event}
    (executed : machine.runWhere Allowed state events = some final) :
    machine.run state events = some final := by
  induction events generalizing state with
  | nil => exact executed
  | cons event events induction =>
      simp only [runWhere] at executed
      split at executed
      case isTrue =>
        simp only [run]
        cases stepped : machine.step state event with
        | none => simp [stepped] at executed
        | some next =>
            simp only [stepped] at executed ⊢
            exact induction executed
      case isFalse => cases executed

/-- Events that are allowed whenever they come can be executed as allowed ones.
-/
theorem runWhere_of_run {machine : Machine State Event}
    {Allowed : State → Event → Prop}
    [∀ before event, Decidable (Allowed before event)]
    {state final : State} {events : List Event}
    (all : ∀ event ∈ events, ∀ before, Allowed before event)
    (executed : machine.run state events = some final) :
    machine.runWhere Allowed state events = some final := by
  induction events generalizing state with
  | nil => exact executed
  | cons event events induction =>
      obtain ⟨allowed, rest⟩ := List.forall_mem_cons.mp all
      simp only [run] at executed
      simp only [runWhere, if_pos (allowed state)]
      cases stepped : machine.step state event with
      | none => simp [stepped] at executed
      | some next =>
          simp only [stepped] at executed ⊢
          exact induction rest executed

theorem ReachedBy.append_runWhere {machine : Machine State Event}
    {Allowed : State → Event → Prop}
    [∀ before event, Decidable (Allowed before event)]
    {state final : State} {events : List Event}
    (reached : machine.ReachedBy Allowed state)
    (executed : machine.runWhere Allowed state events = some final) :
    machine.ReachedBy Allowed final := by
  induction events generalizing state with
  | nil =>
      cases executed
      exact reached
  | cons event events induction =>
      simp only [runWhere] at executed
      split at executed
      case isTrue allowed =>
        cases stepped : machine.step state event with
        | none => simp [stepped] at executed
        | some next =>
            simp only [stepped] at executed
            exact induction (reached.step allowed stepped) executed
      case isFalse => cases executed

theorem reachedBy_of_runWhere {machine : Machine State Event}
    {Allowed : State → Event → Prop}
    [∀ before event, Decidable (Allowed before event)]
    {final : State} (events : List Event)
    (executed : machine.runWhere Allowed machine.start events = some final) :
    machine.ReachedBy Allowed final :=
  ReachedBy.append_runWhere .start executed

/-- `Related` is kept when every detailed step is matched by the coarse step
that `label` names, or by no step where it names none. -/
structure Simulation (detailed : Machine State Event)
    (coarse : Machine State' Event')
    (Related : State → State' → Prop)
    (label : State → Event → Option Event') : Prop where
  start : Related detailed.start coarse.start
  silent : ∀ {before event after image},
    Related before image → detailed.step before event = some after →
    label before event = none → Related after image
  visible : ∀ {before event after image event'},
    Related before image → detailed.step before event = some after →
    label before event = some event' →
    ∃ image', coarse.step image event' = some image' ∧ Related after image'

/-- Runs of the detailed machine are runs of the coarse one; a condition on
detailed steps carries over when it implies the condition on their labels. -/
theorem Simulation.reachedBy {detailed : Machine State Event}
    {coarse : Machine State' Event'} {Related : State → State' → Prop}
    {label : State → Event → Option Event'}
    (simulation : Simulation detailed coarse Related label)
    {Allowed : State → Event → Prop} {Allowed' : State' → Event' → Prop}
    (carried : ∀ before event after image event',
      Related before image → Allowed before event →
      detailed.step before event = some after →
      label before event = some event' → Allowed' image event')
    {state : State} (reached : detailed.ReachedBy Allowed state) :
    ∃ image, coarse.ReachedBy Allowed' image ∧ Related state image := by
  induction reached with
  | start => exact ⟨coarse.start, .start, simulation.start⟩
  | @step before after event _ allowed stepped induction =>
      obtain ⟨image, imageReached, related⟩ := induction
      cases named : label before event with
      | none =>
          exact ⟨image, imageReached, simulation.silent related stepped named⟩
      | some event' =>
          obtain ⟨image', imageStep, related'⟩ :=
            simulation.visible related stepped named
          exact ⟨image', imageReached.step
            (carried _ _ _ _ _ related allowed stepped named) imageStep,
            related'⟩

theorem Simulation.reached {detailed : Machine State Event}
    {coarse : Machine State' Event'} {Related : State → State' → Prop}
    {label : State → Event → Option Event'}
    (simulation : Simulation detailed coarse Related label)
    {state : State} (reached : detailed.Reached state) :
    ∃ image, coarse.Reached image ∧ Related state image :=
  simulation.reachedBy (fun _ _ _ _ _ _ _ _ _ => trivial) reached

def labels (machine : Machine State Event)
    (label : State → Event → Option Event') :
    State → List Event → List Event'
  | _, [] => []
  | state, event :: events =>
      (label state event).toList ++
        match machine.step state event with
        | none => []
        | some next => machine.labels label next events

/-- The coarse machine runs through the labels of a detailed run. -/
theorem Simulation.run {detailed : Machine State Event}
    {coarse : Machine State' Event'} {Related : State → State' → Prop}
    {label : State → Event → Option Event'}
    (simulation : Simulation detailed coarse Related label)
    {state final : State} {image : State'} {events : List Event}
    (related : Related state image)
    (executed : detailed.run state events = some final) :
    ∃ image', coarse.run image (detailed.labels label state events) =
      some image' ∧ Related final image' := by
  induction events generalizing state image with
  | nil =>
      cases executed
      exact ⟨image, rfl, related⟩
  | cons event events induction =>
      simp only [Machine.run] at executed
      cases stepped : detailed.step state event with
      | none => simp [stepped] at executed
      | some next =>
          simp only [stepped] at executed
          simp only [labels, stepped]
          cases named : label state event with
          | none =>
              exact induction (simulation.silent related stepped named)
                executed
          | some event' =>
              obtain ⟨image', imageStep, related'⟩ :=
                simulation.visible related stepped named
              simpa [Machine.run, imageStep] using induction related' executed

/-- Two machines that take the same events and stay related. -/
structure Lockstep (left : Machine State Event) (right : Machine State' Event)
    (Related : State → State' → Prop) : Prop where
  start : Related left.start right.start
  step : ∀ {state state'} (event), Related state state' →
    Option.Rel Related (left.step state event) (right.step state' event)

theorem Lockstep.run {left : Machine State Event}
    {right : Machine State' Event} {Related : State → State' → Prop}
    (lockstep : Lockstep left right Related) (events : List Event) :
    Option.Rel Related (left.run left.start events)
      (right.run right.start events) := by
  have related := lockstep.start
  revert related
  generalize left.start = state, right.start = state'
  intro related
  induction events generalizing state state' with
  | nil => exact .some related
  | cons event events induction =>
      have stepped := lockstep.step event related
      simp only [Machine.run]
      generalize left.step state event = next,
        right.step state' event = next' at stepped
      cases stepped with
      | none => exact .none
      | some related => exact induction _ _ related

/-- What related states have in common is the same after the same events. -/
theorem Lockstep.observe {left : Machine State Event}
    {right : Machine State' Event} {Related : State → State' → Prop}
    (lockstep : Lockstep left right Related) {Seen : Type v}
    {see : State → Seen} {see' : State' → Seen}
    (same : ∀ state state', Related state state' → see state = see' state')
    (events : List Event) :
    (left.run left.start events).map see =
      (right.run right.start events).map see' := by
  have ran := lockstep.run events
  generalize left.run left.start events = final,
    right.run right.start events = final' at ran
  cases ran with
  | none => rfl
  | some related => exact congrArg some (same _ _ related)

/-- A condition on steps may be joined by what holds of all reached states. -/
theorem ReachedBy.joined {machine : Machine State Event}
    {Allowed : State → Event → Prop} {Invariant : State → Prop}
    (holds : ∀ {state}, machine.ReachedBy Allowed state → Invariant state)
    {state : State} (reached : machine.ReachedBy Allowed state) :
    machine.ReachedBy
      (fun before event => Allowed before event ∧ Invariant before) state := by
  induction reached with
  | start => exact .start
  | step earlier allowed stepped induction =>
      exact induction.step ⟨allowed, holds earlier⟩ stepped

section Logs

variable {Note : Type u}

/-- The machine with a log, to which every step adds its notes. -/
def logged (machine : Machine State Event)
    (notes : State → Event → List Note) :
    Machine (State × List Note) Event where
  start := (machine.start, [])
  step s event :=
    (machine.step s.1 event).map (fun next => (next, s.2 ++ notes s.1 event))

theorem logged_step {machine : Machine State Event}
    {notes : State → Event → List Note} {before after : State × List Note}
    {event : Event}
    (stepped : (machine.logged notes).step before event = some after) :
    machine.step before.1 event = some after.1 ∧
      after.2 = before.2 ++ notes before.1 event := by
  obtain ⟨next, underlying, rfl⟩ := Option.map_eq_some_iff.mp stepped
  exact ⟨underlying, rfl⟩

theorem ReachedBy.unlogged {machine : Machine State Event}
    {notes : State → Event → List Note} {Allowed : State → Event → Prop}
    {state : State × List Note}
    (reached : (machine.logged notes).ReachedBy
      (fun before event => Allowed before.1 event) state) :
    machine.ReachedBy Allowed state.1 := by
  induction reached with
  | start => exact .start
  | step earlier allowed stepped induction =>
      exact induction.step allowed (logged_step stepped).1

/-- Logs that tell the same of related steps are the same. -/
theorem Simulation.logged {detailed : Machine State Event}
    {coarse : Machine State' Event'} {Related : State → State' → Prop}
    {label : State → Event → Option Event'}
    (simulation : Simulation detailed coarse Related label)
    {notes : State → Event → List Note}
    {notes' : State' → Event' → List Note}
    (silent : ∀ {before event}, label before event = none →
      notes before event = [])
    (visible : ∀ {before event image event'}, Related before image →
      label before event = some event' →
      notes before event = notes' image event') :
    Simulation (detailed.logged notes) (coarse.logged notes')
      (fun state image => Related state.1 image.1 ∧ state.2 = image.2)
      (fun state event => label state.1 event) where
  start := ⟨simulation.start, rfl⟩
  silent := by
    intro before event after image related stepped unnamed
    obtain ⟨underlying, log⟩ := logged_step stepped
    refine ⟨simulation.silent related.1 underlying unnamed, ?_⟩
    rw [log, silent unnamed, List.append_nil, related.2]
  visible := by
    intro before event after image event' related stepped named
    obtain ⟨underlying, log⟩ := logged_step stepped
    obtain ⟨next, coarseStep, related'⟩ :=
      simulation.visible related.1 underlying named
    refine ⟨(next, image.2 ++ notes' image.1 event'), ?_, related', ?_⟩
    · simp [Machine.logged, coarseStep]
    · rw [log, related.2, visible related.1 named]

end Logs

end Machine

end Fetchpp.Lib

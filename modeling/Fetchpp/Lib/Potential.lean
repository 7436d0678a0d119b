import Mathlib.Algebra.GroupWithZero.Nat
import Fetchpp.Lib.Machine

/-!
# Machines that come to rest

The surroundings call a machine, and the machine goes on by itself until
nothing is left to do.  A potential is what is left: a call may add no more
than it costs, and an event that takes effort has to pay for it.  As long as
nothing costs anything the potential bounds the effort of a run, and a machine
whose own events all take effort can always be run until it rests.
-/

namespace Fetchpp.Lib

universe u v

theorem sum_eq_countP {α : Type u} {weight : α → Nat} {counted : α → Bool}
    {events : List α} (all : ∀ event ∈ events,
      weight event = if counted event then 1 else 0) :
    (events.map weight).sum = events.countP counted := by
  induction events with
  | nil => rfl
  | cons event events induction =>
      have rest := induction fun later member =>
        all later (List.mem_cons_of_mem _ member)
      rw [List.map_cons, List.sum_cons, rest, List.countP_cons, Nat.add_comm,
        all event List.mem_cons_self]

namespace Machine

variable {State : Type u} {Event : Type v} {machine : Machine State Event}
  {cost : State → Event → Nat} {effort : Event → Nat} {potential : State → Nat}

/-- No step of the machine's own is possible. -/
def AtRest (machine : Machine State Event) (isOwn : Event → Bool)
    (state : State) : Prop :=
  ∀ event, isOwn event = true → machine.step state event = none

/-- `Invariant` is kept by every step, and every step pays for its effort. -/
structure Potential (machine : Machine State Event)
    (Invariant : State → Prop) (cost : State → Event → Nat)
    (effort : Event → Nat) (potential : State → Nat) : Prop where
  kept : ∀ {before event after}, Invariant before →
    machine.step before event = some after → Invariant after
  pays : ∀ {before event after}, Invariant before →
    machine.step before event = some after →
    potential after + effort event ≤ potential before + cost before event

namespace Potential

variable {Invariant : State → Prop}

theorem effort_le (pot : Potential machine Invariant cost effort potential)
    {state final : State} {events : List Event} (holds : Invariant state)
    (free : ∀ event ∈ events, ∀ before, cost before event = 0)
    (executed : machine.run state events = some final) :
    potential final + (events.map effort).sum ≤ potential state := by
  induction events generalizing state with
  | nil =>
      cases executed
      exact Nat.le_refl _
  | cons event events induction =>
      simp only [run] at executed
      cases stepped : machine.step state event with
      | none => simp [stepped] at executed
      | some next =>
          simp only [stepped] at executed
          have later := induction (pot.kept holds stepped)
            (fun other member => free other (List.mem_cons_of_mem _ member))
            executed
          have now := pot.pays holds stepped
          rw [free event List.mem_cons_self] at now
          simp only [List.map_cons, List.sum_cons]
          omega

variable {isOwn : Event → Bool}

/-- The machine goes on by itself no longer than its potential allows. -/
theorem length_le (pot : Potential machine Invariant cost effort potential)
    (free : ∀ before event, isOwn event = true →
      cost before event < effort event)
    {state final : State} {events : List Event} (holds : Invariant state)
    (own : ∀ event ∈ events, isOwn event = true)
    (executed : machine.run state events = some final) :
    potential final + events.length ≤ potential state := by
  induction events generalizing state with
  | nil =>
      cases executed
      exact Nat.le_refl _
  | cons event events induction =>
      simp only [run] at executed
      cases stepped : machine.step state event with
      | none => simp [stepped] at executed
      | some next =>
          simp only [stepped] at executed
          have later := induction (pot.kept holds stepped)
            (fun other member => own other (List.mem_cons_of_mem _ member))
            executed
          have now := pot.pays holds stepped
          have cheap := free state event (own event List.mem_cons_self)
          simp only [List.length_cons]
          omega

/-- The machine can go on by itself until it rests. -/
theorem exists_rest
    (pot : Potential machine Invariant cost effort potential)
    (free : ∀ before event, isOwn event = true →
      cost before event < effort event)
    {state : State} (holds : Invariant state) :
    ∃ events final, (∀ event ∈ events, isOwn event = true) ∧
      machine.run state events = some final ∧
      machine.AtRest isOwn final := by
  induction left : potential state using Nat.strongRecOn
    generalizing state with
  | ind left induction =>
      by_cases rests : machine.AtRest isOwn state
      · exact ⟨[], state, by simp, rfl, rests⟩
      · simp only [AtRest, not_forall] at rests
        obtain ⟨event, own, enabled⟩ := rests
        obtain ⟨next, stepped⟩ := Option.ne_none_iff_exists'.mp enabled
        have paid := pot.pays holds stepped
        have cheap := free state event own
        obtain ⟨events, final, all, executed, rests⟩ :=
          induction (potential next) (by omega) (pot.kept holds stepped) rfl
        refine ⟨event :: events, final, ?_, ?_, rests⟩
        · intro other member
          rcases List.mem_cons.mp member with here | later
          · exact here ▸ own
          · exact all other later
        · simpa only [run, stepped] using executed

end Potential

end Machine

end Fetchpp.Lib

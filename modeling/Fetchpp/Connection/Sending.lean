import Fetchpp.Session.Serving
import Fetchpp.Connection.Repeating

/-!
# The order of requests on the wire

Whatever callers and the network do, the requests of the session go out in the
order in which they were accepted, each of them twice at most, and never before
everything that was accepted earlier has been answered.  What a tunnel writes
for itself is not counted.  The rounds of the request in hand tell how often it
may have been written.
-/

namespace Fetchpp

namespace Session

/-- How often the request in hand may have been written. -/
def QueueOp.written (op : QueueOp) : Nat :=
  (if op.firstRound then 0 else 1) +
    match op.coro with
    | .exchanged | .closed => 1
    | .entry | .connected => 0

theorem QueueOp.written_le (op : QueueOp) : op.written ≤ 2 := by
  unfold written
  cases op.firstRound <;> cases op.coro <;> simp

theorem QueueOp.Follows.written_eq {op next : QueueOp} {ec : Option ErrorCode}
    (follows : op.Follows ec next) :
    next.written = op.written + (if next.coro = .exchanged then 1 else 0) := by
  cases follows with
  | connects entry => simp [QueueOp.written, entry]
  | exchanges point =>
      rcases point with entry | connected
      · simp [QueueOp.written, entry]
      · simp [QueueOp.written, connected]
  | closes error exchanged => simp [QueueOp.written, exchanged]
  | retries closed first => simp [QueueOp.written, closed, first]

theorem State.drivers_sole {s : State}
    (atMostOne : s.drivers.length ≤ 1) {first second : Driver}
    (left : first ∈ s.drivers) (right : second ∈ s.drivers) :
    first = second := by
  match drivers : s.drivers, atMostOne with
  | [], _ => simp [drivers] at left
  | [driver], _ =>
      rw [drivers, List.mem_singleton] at left right
      exact left.trans right.symm

end Session

namespace Connection

open Session Http Lib

variable {Byte Response : Type} {codec : Codec Byte Response}
  {endpoint : SessionEndpoint} {request : PushId → Request}

/-- `attempts` begins with the latest. -/
structure State.SentInOrder (s : State Byte Response) : Prop where
  accepted : ∀ attempt ∈ s.attempts, attempt.push ∈ s.session.core.accepted
  inOrder : s.attempts.Pairwise
    (fun later earlier => earlier.push ≤ later.push)
  atMostTwice : ∀ push, (s.attemptsOf push).length ≤ 2
  /-- nothing is sent before all earlier requests have been answered -/
  headOfLine : ∀ attempt ∈ s.attempts, ∀ push ∈ s.session.core.accepted,
    push < attempt.push → push ∈ s.session.core.served

/-- The attempts are counted by the rounds of the request in hand. -/
structure State.Counted (s : State Byte Response) : Prop where
  inHand : ∀ op, .queueOp op ∈ s.session.drivers →
    (s.attemptsOf op.task).length ≤ op.written
  atMostTwice : ∀ push, (s.attemptsOf push).length ≤ 2
  inOrder : s.attempts.Pairwise
    (fun later earlier => earlier.push ≤ later.push)

theorem Handled.exchange_drives {s t : State Byte Response}
    {event : Session.Event} {next : QueueOp}
    (handled : Handled endpoint request s event t)
    (one : (event.outcome s.session.core).2 = [.exchange next]) :
    .exchange next ∈ t.session.operations := by
  have begun : State.started endpoint request s.transport (.exchange next) =
      some (.exchange next,
        (processOne (request next.task) s.transport : Step Byte Response)) :=
    rfl
  rw [handled.operations one begun]
  exact List.mem_append_right _ List.mem_cons_self

namespace State.Counted

variable {s t : State Byte Response} {event : Session.Event}

theorem started (counted : s.Counted)
    (reached : (machine codec endpoint request).Reached s)
    (handled : Handled endpoint request s event t)
    (afterPoints : t.session.AtPoints)
    {effect : Effect} {op : QueueOp}
    (starts : effect ∈ (event.outcome s.session.core).2)
    (keeps : effect.queueOp? = some op) :
    (t.attemptsOf op.task).length ≤ op.written := by
  have session := reached_session reached
  have invariant := reached_invariant session
  have points := reached_atPoints session
  have enabled := (step_eq handled.stepped).1
  obtain ⟨more, attempts, atMostOne, one⟩ :=
    (handled.launches points).attemptsOf op.task
  have added : more.length ≤ if op.coro = .exchanged then 1 else 0 := by
    by_cases none : more = []
    · simp [none]
    · obtain ⟨next, effects, _⟩ := one none
      rw [effects, List.mem_singleton] at starts
      rw [starts] at keeps
      obtain rfl : next = op := Option.some.inj keeps
      have exchanged : next.coro = .exchanged :=
        afterPoints.operations (.exchange next) (handled.exchange_drives effects)
      simpa [exchanged] using atMostOne
  rw [attempts, List.length_append]
  cases Session.Event.continues invariant points enabled starts keeps with
  | takes fresh follows =>
      have unwritten : s.attemptsOf op.task = [] := by
        refine List.filter_eq_nil_iff.mpr ?_
        intro attempt member same
        exact fresh (of_decide_eq_true same ▸
          reached_attempts reached attempt member)
      have written := follows.written_eq
      have none : ({ task := op.task } : QueueOp).written = 0 := rfl
      rw [unwritten, List.length_nil]
      omega
  | goes before ec drives follows _ =>
      have earlier := counted.inHand before drives
      have written := follows.written_eq
      rw [follows.task]
      omega

theorem handled (counted : s.Counted)
    (reached : (machine codec endpoint request).Reached s)
    (reachedAfter : (machine codec endpoint request).Reached t)
    (handled : Handled endpoint request s event t) : t.Counted := by
  have session := reached_session reached
  have points := reached_atPoints session
  have sessionAfter := reached_session reachedAfter
  have afterPoints := reached_atPoints sessionAfter
  have sole : t.session.drivers.length ≤ 1 :=
    (reached_invariant sessionAfter).driven.drivers_length
  have effective : ∀ next,
      (event.outcome s.session.core).2 = [.exchange next] →
      (t.attemptsOf next.task).length ≤ next.written := by
    intro next one
    exact counted.started reached handled afterPoints
      (one ▸ List.mem_singleton_self _) rfl
  have drives : ∀ next,
      (event.outcome s.session.core).2 = [.exchange next] →
      .queueOp next ∈ t.session.drivers := fun next one =>
    Session.State.mem_drivers (handled.exchange_drives one) rfl
  refine ⟨?_, ?_, ?_⟩
  · intro op later
    obtain ⟨more, attempts, _, one⟩ :=
      (handled.launches points).attemptsOf op.task
    have after := (step_eq handled.stepped).2
    rw [handled.session_eq, after] at later
    rcases Session.State.drivers_apply later with old |
      ⟨effect, starts, keeps⟩
    · by_cases none : more = []
      · rw [attempts, none, List.nil_append]
        exact counted.inHand op (Session.Event.drivers_taken old)
      · obtain ⟨next, effects, _⟩ := one none
        rw [← after, ← handled.session_eq] at later
        have same := Session.State.drivers_sole sole later
          (drives next effects)
        cases same
        exact effective op effects
    · exact counted.started reached handled afterPoints starts keeps
  · intro push
    obtain ⟨more, attempts, _, one⟩ :=
      (handled.launches points).attemptsOf push
    by_cases none : more = []
    · rw [attempts, none, List.nil_append]
      exact counted.atMostTwice push
    · obtain ⟨next, effects, rfl⟩ := one none
      exact Nat.le_trans (effective next effects) next.written_le
  · cases handled.launches points with
    | nothing attempts => exact attempts ▸ counted.inOrder
    | refuses _ attempts => exact attempts ▸ counted.inOrder
    | writes next effects attempt push attempts =>
        rw [attempts]
        refine List.pairwise_cons.mpr ⟨?_, counted.inOrder⟩
        intro earlier member
        rw [push]
        refine taken_le sessionAfter (drives next effects) ?_
        exact reached_attempts reachedAfter earlier
          (attempts ▸ List.mem_cons_of_mem _ member)

end State.Counted

theorem reached_counted {s : State Byte Response}
    (reached : (machine codec endpoint request).Reached s) : s.Counted := by
  induction reached with
  | start =>
      refine ⟨?_, ?_, .nil⟩
      · intro op drives
        cases drives
      · intro push
        exact Nat.zero_le 2
  | step earlier _ stepped counted =>
      rcases step_cases stepped with ⟨index, answer, rfl, ⟨answered⟩⟩ |
        ⟨_, _, ⟨handled⟩⟩
      · have attempts := answered.uses.1
        have session := answered.entered.session
        refine ⟨?_, ?_, ?_⟩
        · intro op drives
          simp only [State.attemptsOf, attempts]
          rw [session] at drives
          exact counted.inHand op drives
        · intro push
          simp only [State.attemptsOf, attempts]
          exact counted.atMostTwice push
        · exact attempts ▸ counted.inOrder
      · exact counted.handled earlier (earlier.step trivial stepped) handled

/-- Apart from the `CONNECT` that a tunnel itself writes, requests go out in the
order of acceptance, one at a time and each of them twice at most. -/
theorem reached_sentInOrder {s : State Byte Response}
    (reached : (machine codec endpoint request).Reached s) :
    s.SentInOrder := by
  have session := reached_session reached
  have counted := reached_counted reached
  have taken := reached_attempts reached
  refine ⟨?_, counted.inOrder, counted.atMostTwice, ?_⟩
  · intro attempt member
    have invariant := reached_invariant session
    rw [invariant.numbered.order]
    rcases invariant.ran_cases (taken attempt member) with popped |
      ⟨rest, tasks⟩
    · exact List.mem_append_left _ popped
    · refine List.mem_append_right _ ?_
      rw [tasks]
      exact List.mem_cons_self
  · intro attempt member push accepted before
    exact served_of_taken session (taken attempt member) accepted before

theorem sentInOrder_of_repeatingRun :
    ∃ s, (machine textCodec exampleEndpoint (fun _ => exampleRequest)).run {}
        repeatingRun = some s ∧
      s.attempts = [⟨1, 2, 0⟩, ⟨1, 1, 1⟩, ⟨0, 1, 0⟩] ∧ s.SentInOrder := by
  have executed : ((machine textCodec exampleEndpoint
        (fun _ => exampleRequest)).run {} repeatingRun).map
        (fun s => s.attempts) =
      some [⟨1, 2, 0⟩, ⟨1, 1, 1⟩, ⟨0, 1, 0⟩] := by
    decide +kernel
  obtain ⟨s, run, attempts⟩ := Option.map_eq_some_iff.mp executed
  exact ⟨s, run, attempts,
    reached_sentInOrder (Machine.reached_of_run repeatingRun run)⟩

end Connection

end Fetchpp

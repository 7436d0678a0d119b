import Fetchpp.Session.GivingUp
import Fetchpp.Connection.Retrying

/-!
# Requests that were never sent

What a session cancels it has not sent: nothing of the request was written, and
no connect was started for it.  When a request fails for good in a session
without `async_start` and `async_stop`, this goes for everything queued behind
it, and the queue is empty once the posted `advance_task` has run.
-/

namespace Fetchpp

namespace Connection

open Session Http Lib

variable {Byte Response : Type} {codec : Codec Byte Response}
  {endpoint : SessionEndpoint} {request : PushId → Request}

theorem reached_attempts {s : State Byte Response}
    (reached : (machine codec endpoint request).Reached s) :
    ∀ attempt ∈ s.attempts, attempt.push ∈ s.session.core.ran := by
  induction reached with
  | start => simp [machine]
  | @step before after event earlier _ stepped written =>
      have ran : ∀ {u : State Byte Response} {operation : Operation}
          {op : QueueOp}, Session.machine.Reached u.session →
          operation ∈ u.session.operations → operation = .exchange op →
          op.task ∈ u.session.core.ran := by
        rintro u operation op reached member rfl
        exact (reached_invariant reached).driver_ran
          (Session.State.mem_drivers member rfl)
      have session := reached_session (earlier.step trivial stepped)
      rcases step_cases stepped with ⟨index, answer, rfl, ⟨answered⟩⟩ |
        ⟨event', label, ⟨handled⟩⟩
      · have same : after.session = before.session :=
          answered.entered.session
        intro attempt member
        rw [same]
        rcases answered.recorded.attempts with kept |
          ⟨op, latest, exchange, task, _, added⟩
        · exact written attempt (kept ▸ member)
        · rw [added] at member
          rcases List.mem_cons.mp member with rfl | old
          · have waits : answered.flight.operation ∈ before.outstanding := by
              refine List.mem_append_left _ (List.mem_map_of_mem ?_)
              exact List.mem_map_of_mem
                (List.mem_of_getElem? answered.member)
            rw [task]
            exact ran (reached_session earlier)
              ((reached_linked earlier).subperm.subset waits) exchange
          · exact written attempt old
      · obtain ⟨operation, recorded, started⟩ :=
          handled.recorded (reached_atPoints (reached_session earlier))
        obtain ⟨enabled, taken⟩ := step_eq handled.stepped
        have grown : before.session.core.ran ⊆ after.session.core.ran := by
          rw [handled.session_eq, taken, Session.State.apply_core]
          exact (Session.Event.notesRan
            (reached_invariant (reached_session earlier)) enabled).1
        intro attempt member
        rcases recorded.attempts with kept |
          ⟨op, latest, exchange, task, _, added⟩
        · exact grown (written attempt (kept ▸ member))
        · rw [added] at member
          rcases List.mem_cons.mp member with rfl | old
          · rw [task]
            exact ran session (started op exchange) exchange
          · exact grown (written attempt old)

/-- Nothing of the request was written and no operation was started for it. -/
structure Untouched (s : State Byte Response × List Note) (push : PushId) :
    Prop where
  told : told push s.2 = []
  unwritten : ∀ attempt ∈ s.1.attempts, attempt.push ≠ push

theorem reached_untouched {s : State Byte Response × List Note}
    (reached : (loggedMachine codec endpoint request).Reached s)
    {push : PushId} (untaken : push ∉ s.1.session.core.ran) :
    Untouched s push := by
  have unlogged : (machine codec endpoint request).Reached s.1 :=
    Machine.ReachedBy.unlogged reached
  refine ⟨?_, ?_⟩
  · obtain ⟨⟨image, log⟩, imageReached, same, rfl⟩ :=
      simulation_logged.reached reached
    obtain rfl : s.1.session = image := same
    exact reached_untold imageReached untaken
  · rintro attempt member rfl
    exact untaken (reached_attempts unlogged attempt member)

/-- What follows the failure of `failed`: a push is refused, and
`advance_task`, as long as it is posted, empties the queue. -/
structure Abandoned (codec : Codec Byte Response) (endpoint : SessionEndpoint)
    (request : PushId → Request) (s : State Byte Response × List Note)
    (failed : PushId) (error : ErrorCode) (behind : List PushId) : Prop where
  queue : s.1.session.GivenUp failed error behind
  untouched : ∀ push ∈ behind, Untouched s push
  refuses : ∀ t, (loggedMachine codec endpoint request).step s .push = some t →
    t.1.session.core.posted = s.1.session.core.posted ++
      [.refusal s.1.session.core.pushes] ∧
    t.1.session.core.accepted = s.1.session.core.accepted
  advances : .advanceTask ∈ s.1.session.posts →
    ∃ t, (loggedMachine codec endpoint request).step s (.post .advanceTask) =
        some t ∧
      t.1.session.core.tasks = [] ∧
      t.1.session.core.posted = s.1.session.core.posted ++
        behind.map .cancellation

theorem loggedMachine_step {s t : State Byte Response × List Note}
    {event : Event Byte} {event' : Session.Event}
    (stepped : (loggedMachine codec endpoint request).step s event = some t)
    (label : event.label s.1 = some event') :
    t.1.session.core = (event'.outcome s.1.session.core).1 := by
  rcases step_cases (Machine.logged_step stepped).1 with
    ⟨index, answer, rfl, _⟩ | ⟨other, same, ⟨handled⟩⟩
  · cases label
  · obtain rfl := Option.some.inj (same.symm.trans label)
    rw [handled.session_eq, (step_eq handled.stepped).2,
      Session.State.apply_core]

theorem loggedMachine_post {s : State Byte Response × List Note}
    (idle : s.1.completing = none) {handler : Posted}
    (posted : handler ∈ s.1.session.posts) :
    ∃ t, (loggedMachine codec endpoint request).step s (.post handler) =
      some t := by
  refine Option.isSome_iff_exists.mp ?_
  simp [loggedMachine, Machine.logged, machine, step, idle, dispatch,
    Session.step, posted]

theorem reached_abandoned {s : State Byte Response × List Note}
    (reached : (loggedMachine codec endpoint request).ReachedBy
      (fun _ event => event.PushOnly) s) {failed : PushId} {error : ErrorCode}
    (notAborted : error ≠ .operationAborted)
    (posted : ⟨failed, some error, .complete⟩ ∈ s.1.session.core.posted) :
    ∃ behind, Abandoned codec endpoint request s failed error behind := by
  have unlogged : (machine codec endpoint request).ReachedBy
      (fun _ event => event.PushOnly) s.1 := Machine.ReachedBy.unlogged reached
  have session := reached_pushOnly unlogged
  have stopped := stopped_of_failure session notAborted posted
  obtain ⟨behind, givenUp⟩ := reached_givenUp session notAborted posted
  refine ⟨behind, givenUp, ?_, ?_, ?_⟩
  · intro push member
    exact reached_untouched reached.reached
      (givenUp.untaken session.reached member)
  · intro t stepped
    have after := @loggedMachine_step _ _ codec endpoint request s t .push
      .push stepped rfl
    rw [after, Session.Event.outcome, pushOp_stopped stopped]
    exact ⟨rfl, rfl⟩
  · intro member
    have idle : s.1.completing = none := by
      have linked := (reached_linked unlogged.reached).subperm
      rw [givenUp.operations_nil session] at linked
      have none := List.subperm_nil.mp linked
      cases completing : s.1.completing with
      | none => rfl
      | some completing' =>
          simp [State.outstanding, completing] at none
    obtain ⟨t, stepped⟩ :=
      @loggedMachine_post _ _ codec endpoint request s idle _ member
    have after := loggedMachine_step stepped rfl
    cases givenUp with
    | ended _ _ _ posts => simp [posts] at member
    | ending earlier since posts tasks _ =>
        refine ⟨t, stepped, ?_⟩
        rw [after, Session.Event.outcome, Posted.run,
          Session.State.GivenUp.advanceTask_eq stopped tasks]
        exact ⟨rfl, rfl⟩

/-- No request is cancelled after any of it was written; and a failure leaves
the queue abandoned, if the session was neither started nor stopped. -/
theorem reached_cancelled {s : State Byte Response × List Note}
    (reached : (loggedMachine codec endpoint request).Reached s) :
    (∀ push ec, ⟨push, ec, .cancel⟩ ∈ s.1.session.core.posted →
      Untouched s push) ∧
    ((loggedMachine codec endpoint request).ReachedBy
        (fun _ event => event.PushOnly) s →
      ∀ failed error, error ≠ .operationAborted →
      ⟨failed, some error, .complete⟩ ∈ s.1.session.core.posted →
      ∃ behind, Abandoned codec endpoint request s failed error behind) := by
  refine ⟨?_, ?_⟩
  · intro push ec posted
    have unlogged : (machine codec endpoint request).Reached s.1 :=
      Machine.ReachedBy.unlogged reached
    exact reached_untouched reached
      (reached_cancelsUntaken (reached_session unlogged) push ec posted)
  · intro pushOnly failed error notAborted posted
    exact reached_abandoned pushOnly notAborted posted

/-- The exchange of the first of three requests fails twice; a fourth is pushed
before the queue is cancelled. -/
def givingUpRun : List (Event Char) :=
  .push :: .push :: interruptedTwiceRun ++ [.push, .post .advanceTask, .push]

theorem cancelled_of_givingUpRun :
    ∃ s, (loggedMachine textCodec exampleEndpoint
          (fun _ => exampleRequest)).runWhere
        (fun _ event => event.PushOnly) ({}, []) givingUpRun = some s ∧
      s.1.session.core.posted =
        [⟨0, some .timedOut, .complete⟩, .refusal 3, .cancellation 1,
          .cancellation 2, .refusal 4] ∧
      (∀ push ∈ [1, 2], Untouched s push) ∧
      ∃ behind, Abandoned textCodec exampleEndpoint (fun _ => exampleRequest)
        s 0 .timedOut behind := by
  have executed : ((loggedMachine textCodec exampleEndpoint
        (fun _ => exampleRequest)).runWhere (fun _ event => event.PushOnly)
        ({}, []) givingUpRun).map (fun s => s.1.session.core.posted) =
      some [⟨0, some .timedOut, .complete⟩, .refusal 3, .cancellation 1,
        .cancellation 2, .refusal 4] := by
    decide +kernel
  obtain ⟨s, run, posted⟩ := Option.map_eq_some_iff.mp executed
  have pushOnly := Machine.reachedBy_of_runWhere givingUpRun run
  obtain ⟨cancelled, failed⟩ := reached_cancelled pushOnly.reached
  refine ⟨s, run, posted, ?_, failed pushOnly 0 .timedOut (by decide) ?_⟩
  · intro push member
    refine cancelled push (some .operationAborted) ?_
    rw [posted]
    rcases List.mem_cons.mp member with rfl | last
    · simp [Posting.cancellation]
    · rw [List.mem_singleton.mp last]
      simp [Posting.cancellation]
  · rw [posted]
    exact List.mem_cons_self

end Connection

end Fetchpp

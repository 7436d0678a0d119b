import Fetchpp.Connection.Dropping
import Fetchpp.Connection.Resting
import Fetchpp.Connection.Sending

/-!
# Responses and successes

The response object of a request is assigned if and only if its handler is
called without an error: an exchange that brings a response is not asked for
another one, and a session that was stopped since has stopped its transport.
-/

namespace Fetchpp

namespace Connection

open Session Http Lib

variable {Byte Response : Type} {codec : Codec Byte Response}
  {endpoint : SessionEndpoint} {request : PushId → Request}

/-- The request whose response has come and whose handler is called next. -/
def State.delivered (s : State Byte Response) : List PushId :=
  match s.completing with
  | some ⟨.exchange op, none, _⟩ => [op.task]
  | _ => []

/-- `responses` begins with the latest. -/
structure State.Answers (s : State Byte Response) : Prop where
  assigned : (s.responses.map Prod.fst).reverse =
    s.session.core.successes ++ s.delivered
  /-- nobody is answered twice -/
  inOrder : (s.responses.map Prod.fst).Pairwise (· > ·)

theorem started_fits {t : Transport Byte} {effect : Effect}
    {operation : Operation} {next : Step Byte Response}
    {later : Point Byte Response}
    (begun : State.started endpoint request t effect = some (operation, next))
    (awaits : next.2 = .await later) :
    operationKind operation = some later.kind := by
  have stays : ∀ {call : Call} {t : Transport Byte}
      {later : Point Byte Response},
      (call.first endpoint request t).2 = .await later →
      later.kind = call.kind := by
    intro call t later awaits
    have stays := @Call.first_stays Byte Response endpoint request call t
    rw [awaits] at stays
    exact stays
  cases effect with
  | post handler => cases begun
  | wait stop => cases begun
  | cancelTimer => cases begun
  | connect caller =>
      cases begun
      exact congrArg some (@stays (.connect 0) t later awaits).symm
  | exchange op =>
      cases begun
      exact congrArg some (@stays (.exchange op.task) t later awaits).symm
  | close graceful caller =>
      cases begun
      exact congrArg some (@stays (.close graceful 0) t later awaits).symm

/-- Every operation waits at a point of its own. -/
theorem reached_fitting {s : State Byte Response}
    (reached : (machine codec endpoint request).Reached s) :
    ∀ waiting ∈ s.waiting, waiting.Fits := by
  refine @reached_waits _ _ _ _ _
    (fun operation point => operationKind operation = some point.kind)
    (fun fits resumed awaits => ?_) (fun begun awaits => ?_) _ reached
  · have stays := Call.resume_stays resumed
    rw [awaits] at stays
    exact fits.trans (congrArg some stays.symm)
  · exact started_fits begun awaits

/-- An answer completes an exchange without an error if it delivers, and
delivers nothing else. -/
inductive Answered.Delivers {s t : State Byte Response} {index : Nat}
    {answer : Answer Byte}
    (answered : Answered codec endpoint s index answer t) : Prop where
  | delivers (op : QueueOp) (response : Response)
      (exchange : answered.flight.operation = .exchange op)
      (running : s.transport.running = true)
      (responses : t.responses = (op.task, response) :: s.responses)
      (delivered : t.delivered = [op.task])
  | nothing (responses : t.responses = s.responses)
      (delivered : t.delivered = [])

theorem State.delivered_of_ended {s : State Byte Response}
    (other : ∀ op cancelTimer,
      s.completing ≠ some ⟨.exchange op, none, cancelTimer⟩) :
    s.delivered = [] := by
  unfold delivered
  split
  · exact (other _ _ ‹_›).elim
  · rfl

theorem Answered.delivers {s t : State Byte Response} {index : Nat}
    {answer : Answer Byte}
    (answered : Answered codec endpoint s index answer t)
    (fits : answered.flight.toWaiting.Fits) : answered.Delivers := by
  have entered := answered.entered
  have completing := entered.completing.trans (Option.or_none)
  by_cases exchange : ∃ op, answered.flight.operation = .exchange op
  · obtain ⟨op, exchange⟩ := exchange
    have kind : answered.flight.point.kind = .exchange := by
      simpa [Waiting.Fits, exchange, operationKind] using fits.symm
    have wrote := answered.wrote (by simp [kind])
    have heard := s.hear_responses answered.flight.point answer
    obtain ⟨io, point⟩ := Point.exchanging_of_kind kind
    obtain ⟨result, u, _, running, _, _, next⟩ :=
      Point.resume_exchanging (point ▸ answered.resumed)
    have processes := processOneResume_processes codec result u
    rw [← next] at processes
    have nothing : (∀ response, answered.next.2 ≠ .deliver response) →
        (∀ cancelTimer, State.completion answered.flight.operation
          answered.next ≠ some ⟨.exchange op, none, cancelTimer⟩) →
        answered.Delivers := by
      intro undelivered unended
      refine .nothing ((wrote.unassigned undelivered).trans heard) ?_
      refine State.delivered_of_ended fun other cancelTimer ends => ?_
      rw [completing] at ends
      have same := State.completion_operation ends
      obtain rfl : op = other :=
        Operation.exchange.inj (exchange.symm.trans same.symm)
      exact unended cancelTimer ends
    cases processes with
    | pending same =>
        exact nothing (by simp [same]) (by simp [same, State.completion])
    | fails error _ same =>
        exact nothing (by simp [same]) (by simp [same, State.completion])
    | reads _ same =>
        exact nothing (by simp [same]) (by simp [same, State.completion])
    | @delivers response _ isRunning same =>
        refine .delivers op response exchange (running.symm.trans isRunning)
          ?_ ?_
        · have responses := wrote.responses
          simp only [same, State.respond, exchange, heard] at responses
          exact responses
        · simp [State.delivered, completing, same, State.completion, exchange]
  · refine .nothing ?_ (State.delivered_of_ended ?_)
    · rcases answered.recorded.responses with same | ⟨op, _, other, _⟩
      · exact same
      · exact (exchange ⟨op, other⟩).elim
    · intro op cancelTimer ends
      rw [completing] at ends
      exact exchange ⟨op, (State.completion_operation ends).symm⟩

theorem State.launch_responses (effect : Effect) (s : State Byte Response) :
    (s.launch endpoint request effect).responses = s.responses := by
  cases effect with
  | post handler => rfl
  | wait stop => rfl
  | cancelTimer => rfl
  | connect caller =>
      have recorded := s.enter_recorded (.connect caller)
        (connect endpoint s.transport)
      refine recorded.responses.resolve_right ?_
      rintro ⟨_, _, other, _⟩
      cases other
  | exchange op =>
      have notConnecting : (processOne (request op.task) s.transport :
          Step Byte Response).2 ≠ .await .connecting := by
        rcases @processOne_cases Byte Response (request op.task) s.transport
          with waits | refused
        · simp [waits]
        · simp [refused]
      exact (State.enter_wrote notConnecting s).unassigned
        (@Call.first_undelivered Byte Response endpoint request
          (.exchange op.task) s.transport)
  | close graceful caller =>
      have recorded := s.cancelForClose.enter_recorded
        (.close graceful caller) (close endpoint graceful s.transport)
      have same := recorded.responses.resolve_right (by
        rintro ⟨_, _, other, _⟩
        cases other)
      refine same.trans ?_
      unfold State.cancelForClose
      split <;> rfl

theorem Handled.responses {s t : State Byte Response} {event : Session.Event}
    (handled : Handled endpoint request s event t) :
    t.responses = s.responses := by
  have launched : ∀ (effects : List Effect) (u : State Byte Response),
      (effects.foldl (State.launch endpoint request) u).responses =
        u.responses := by
    intro effects
    induction effects with
    | nil => exact fun _ => rfl
    | cons effect effects induction =>
        intro u
        exact (induction _).trans (u.launch_responses effect)
  have kept : ∀ u : State Byte Response,
      (u.handled handled.cancelTimer).responses = u.responses := by
    intro u
    unfold State.handled
    split <;> rfl
  rw [handled.after, kept, launched]
  rfl

/-- A session that does not run any more has stopped the transport on which a
request is being exchanged. -/
def State.Halts (s : State Byte Response) : Prop :=
  s.session.core.running = false → ∀ op,
    .exchange op ∈ s.session.operations → s.transport.running = false

theorem Handled.transport_running {s t : State Byte Response}
    {event : Session.Event} (points : s.session.AtPoints)
    (handled : Handled endpoint request s event t) :
    t.transport.running = s.transport.running ∨
      t.transport.running = false ∨
      ∃ caller, (event.outcome s.session.core).2 = [.connect caller] ∧
        event.Starts s.session.core (.connect caller) := by
  have kept : ∀ u : State Byte Response,
      (u.handled handled.cancelTimer).transport.running =
        u.transport.running := by
    intro u
    unfold State.handled
    split <;> rfl
  rcases handled.cases points with quiet |
    ⟨effect, operation, next, starts, one, begun, launched⟩
  · rw [quiet, kept]
    exact .inl rfl
  · have entered : (s.resumed handled.session).Entered operation next
        ((s.resumed handled.session).launch endpoint request effect) :=
      State.launch_entered begun
    rw [launched, kept, entered.transport]
    cases effect with
    | post handler => cases begun
    | wait stop => cases begun
    | cancelTimer => cases begun
    | connect caller => exact .inr (.inr ⟨caller, one, starts⟩)
    | exchange op =>
        cases begun
        left
        unfold processOne
        split <;> rfl
    | close graceful caller =>
        cases begun
        exact .inr (.inl (close_running _ _ _))

theorem Handled.stops {s t : State Byte Response} {graceful : GracefulShutdown}
    (handled : Handled endpoint request s (.stop graceful) t) :
    t.transport.running = false := by
  have after := handled.after
  have entered : (s.resumed handled.session).Entered
      (.close graceful (.stop s.session.core.stops))
      (close endpoint graceful s.transport) _ :=
    @State.launch_entered Byte Response endpoint request
      (.close graceful (.stop s.session.core.stops)) _ _ _ rfl
  have kept : ∀ u : State Byte Response,
      (u.handled handled.cancelTimer).transport.running =
        u.transport.running := by
    intro u
    unfold State.handled
    split <;> rfl
  have launched : t.transport.running =
      (close endpoint graceful s.transport : Step Byte Response).1.running := by
    rw [after, kept]
    exact congrArg Transport.running entered.transport
  rw [launched, close_running]

theorem State.Halts.handled {s t : State Byte Response}
    {event : Session.Event} (halts : s.Halts)
    (session : Session.machine.Reached s.session)
    (handled : Handled endpoint request s event t) : t.Halts := by
  intro stopped op waits
  have points := reached_atPoints session
  have invariant := reached_invariant session
  have core : t.session.core = (event.outcome s.session.core).1 := by
    rw [handled.session_eq, (step_eq handled.stepped).2,
      Session.State.apply_core]
  -- an operation of the queue is not started by a session that does not run
  have unstarted : ∀ effect ∈ (event.outcome s.session.core).2,
      effect.queueOp? = none := by
    intro effect starts
    by_contra keeps
    obtain ⟨next, keeps⟩ := Option.ne_none_iff_exists'.mp keeps
    have running := event.outcome_running starts keeps
    rw [← core, stopped] at running
    cases running
  have taken : .exchange op ∈ (event.taken s.session).operations := by
    rw [handled.session_eq, (step_eq handled.stepped).2] at waits
    rcases Session.State.from_apply waits with ⟨earlier, inState, same⟩ |
      started
    · rcases same with rfl | cancelled
      · exact inState
      · cases earlier <;> cases cancelled
        exact inState
    · exact absurd (unstarted _ started) (by simp [Operation.effect,
        Effect.queueOp?])
  have inState := Session.Event.mem_operations_taken taken
  cases running : s.session.core.running with
  | false =>
      rcases handled.transport_running points with same | halted |
        ⟨caller, one, starts⟩
      · exact same.trans (halts running op inState)
      · exact halted
      · exfalso
        have alone := unstarted (.connect caller)
          (one ▸ List.mem_singleton_self _)
        cases caller with
        | queue next => cases alone
        | start handler =>
            cases starts with
            | elsewhere isLocal => cases isLocal
            | start =>
                rw [core] at stopped
                cases stopped
  | true =>
      rw [handled.session_eq] at stopped
      rcases step_shuts session handled.stepped running stopped with
        ⟨graceful, rfl⟩ | ⟨operation, other, ec, isOpen, rfl, resumes⟩
      · exact handled.stops
      · exfalso
        have enabled := (step_eq handled.stepped).1
        obtain ⟨_, undriven⟩ := Session.State.drivers_erase_queueOp
          invariant.driven.drivers_length enabled.1 resumes
        have drives := Session.State.mem_drivers taken rfl
        simp only [Session.Event.taken] at drives
        rw [undriven] at drives
        cases drives

theorem reached_halts {s : State Byte Response}
    (reached : (machine codec endpoint request).Reached s) : s.Halts := by
  induction reached with
  | start =>
      intro stopped
      cases stopped
  | step earlier _ stepped halts =>
      rcases step_cases stepped with ⟨index, answer, rfl, ⟨answered⟩⟩ |
        ⟨_, _, ⟨handled⟩⟩
      · intro stopped op waits
        have session := answered.entered.session
        rw [session] at stopped waits
        rw [answered.entered.transport, Point.resume_running answered.resumed]
        exact halts stopped op waits
      · exact halts.handled (reached_session earlier) handled

/-- The responses that were assigned, told apart by the handlers that were
called and the one that is called next. -/
structure State.Assigned (s : State Byte Response) : Prop where
  responses : (s.responses.map Prod.fst).reverse =
    s.session.core.successes ++ s.delivered
  running : s.delivered ≠ [] → s.session.core.running = true

namespace State.Assigned

theorem answered {s t : State Byte Response} {index : Nat}
    {answer : Answer Byte} (assigned : s.Assigned)
    (reached : (machine codec endpoint request).Reached s)
    (answered : Answered codec endpoint s index answer t) : t.Assigned := by
  have member : answered.flight.toWaiting ∈ s.waiting :=
    List.mem_map_of_mem (List.mem_of_getElem? answered.member)
  have session := answered.entered.session
  have undelivered : s.delivered = [] := by
    simp [State.delivered, answered.idle]
  have responses := assigned.responses
  rw [undelivered, List.append_nil] at responses
  cases answered.delivers (reached_fitting reached _ member) with
  | nothing same delivered =>
      refine ⟨?_, fun some => (some delivered).elim⟩
      rw [same, delivered, List.append_nil, session]
      exact responses
  | delivers op response exchange running added delivered =>
      refine ⟨?_, fun _ => ?_⟩
      · rw [added, delivered, List.map_cons, List.reverse_cons, responses,
          session]
      · rw [session]
        by_contra stopped
        have waits : .exchange op ∈ s.session.operations :=
          (reached_linked reached).subperm.subset (exchange ▸
            List.mem_append_left _ (List.mem_map_of_mem member))
        have halted := reached_halts reached (by simpa using stopped) op waits
        rw [running] at halted
        cases halted

theorem handled {s t : State Byte Response} {event : Session.Event}
    (assigned : s.Assigned)
    (reached : (machine codec endpoint request).Reached s)
    (handled : Handled endpoint request s event t) : t.Assigned := by
  have session := reached_session reached
  have points := reached_atPoints session
  have enabled := (step_eq handled.stepped).1
  have undelivered : t.delivered = [] := by
    refine State.delivered_of_ended fun op cancelTimer ends => ?_
    cases handled.launches points with
    | nothing _ _ completing => exact completing _ _ _ ends
    | writes _ _ _ _ _ _ completing =>
        rw [completing] at ends
        cases ends
    | refuses _ _ _ completing =>
        rw [completing] at ends
        cases ends
  refine ⟨?_, fun some => (some undelivered).elim⟩
  rw [handled.responses, assigned.responses, undelivered, List.append_nil]
  have moves := step_moves session handled.stepped
  rw [← handled.session_eq] at moves
  by_cases delivers : s.delivered = []
  · rw [delivers, List.append_nil, ← Core.desk_satisfied,
      ← Core.desk_satisfied]
    refine (moves.satisfied_eq fun serves => ?_).symm
    obtain ⟨op, isOpen, rfl⟩ := Session.Event.serves (points.event enabled)
      serves
    cases idle : s.completing with
    | none =>
        obtain ⟨_, _, other⟩ := handled.alone idle _ _ _ rfl
        cases other
    | some completing =>
        have caller := handled.caller completing idle
        simp only [Session.Event.resume.injEq] at caller
        obtain ⟨operation, ec, _⟩ := caller
        obtain ⟨_, _, cancelTimer⟩ := completing
        cases operation
        cases ec
        simp [State.delivered, idle] at delivers
  · have running := assigned.running delivers
    cases idle : s.completing with
    | none => simp [State.delivered, idle] at delivers
    | some completing =>
        obtain ⟨operation, ec, cancelTimer⟩ := completing
        obtain rfl := handled.caller _ idle
        cases operation with
        | connect caller => simp [State.delivered, idle] at delivers
        | close graceful caller => simp [State.delivered, idle] at delivers
        | wait stop cancelled => simp [State.delivered, idle] at delivers
        | exchange op =>
            cases ec with
            | some error => simp [State.delivered, idle] at delivers
            | none =>
                have exchanged : op.coro = .exchanged :=
                  points.operations _ enabled.1
                rw [Session.Event.deskEvent_exchange exchanged running]
                  at moves
                obtain ⟨rest, line⟩ := desk_line_of_live session
                  (Session.State.mem_drivers enabled.1 rfl)
                rw [← Core.desk_satisfied, ← Core.desk_satisfied,
                  moves.satisfied_serve line]
                simp [State.delivered, idle]

end State.Assigned

theorem reached_assigned {s : State Byte Response}
    (reached : (machine codec endpoint request).Reached s) : s.Assigned := by
  induction reached with
  | start => exact ⟨rfl, fun some => (some rfl).elim⟩
  | step earlier _ stepped assigned =>
      rcases step_cases stepped with ⟨index, answer, rfl, ⟨answered⟩⟩ |
        ⟨_, _, ⟨handled⟩⟩
      · exact assigned.answered earlier answered
      · exact assigned.handled earlier handled

theorem State.Linked.delivered_cases {s : State Byte Response}
    (linked : s.Linked) :
    s.delivered = [] ∨
      ∃ op, .exchange op ∈ s.session.operations ∧ s.delivered = [op.task] := by
  unfold State.delivered
  split
  case h_1 op cancelTimer ends =>
    refine .inr ⟨op, linked.subperm.subset ?_, rfl⟩
    exact List.mem_append_right _ (by simp [ends])
  case h_2 => exact .inl rfl

/-- The response of a request is assigned if and only if its handler is called
without an error, at most once and in the order of acceptance. -/
theorem reached_answers {s : State Byte Response}
    (reached : (machine codec endpoint request).Reached s) : s.Answers := by
  have assigned := (reached_assigned reached).responses
  refine ⟨assigned, ?_⟩
  have session := reached_session reached
  have invariant := reached_invariant session
  have delivered : s.delivered.Sublist s.session.core.desk.line := by
    rcases (reached_linked reached).delivered_cases with
      none | ⟨op, waits, one⟩
    · exact none ▸ List.nil_sublist _
    · obtain ⟨rest, line⟩ := desk_line_of_live session
        (Session.State.mem_drivers waits rfl)
      rw [line, one]
      exact List.singleton_sublist.mpr List.mem_cons_self
  have among : (s.session.core.successes ++ s.delivered).Sublist
      s.session.core.accepted := by
    rw [← invariant.desk_queued, ← Core.desk_satisfied]
    exact s.session.core.desk.satisfied_sublist.append delivered
  have sorted := (reached_accepted_sorted session).sublist among
  rw [← assigned] at sorted
  exact List.pairwise_reverse.mp sorted

/-- The response to the second request is assigned once, in its second
round, which the handler is not told yet. -/
def answeringRun : List (Event Char) :=
  repeatingRun ++ [.answer 0 (.ended none false),
    .answer 0 (.chunk (exampleReply "again"))]

theorem answers_of_answeringRun :
    ∃ s, (machine textCodec exampleEndpoint (fun _ => exampleRequest)).run {}
        answeringRun = some s ∧
      s.responses.map Prod.fst = [1, 0] ∧ s.session.core.successes = [0] ∧
      s.delivered = [1] ∧ s.Answers := by
  have executed : ((machine textCodec exampleEndpoint
        (fun _ => exampleRequest)).run {} answeringRun).map
        (fun s => (s.responses.map Prod.fst, s.session.core.successes,
          s.delivered)) = some ([1, 0], [0], [1]) := by
    decide +kernel
  obtain ⟨s, run, record⟩ := Option.map_eq_some_iff.mp executed
  simp only [Prod.mk.injEq] at record
  exact ⟨s, run, record.1, record.2.1, record.2.2,
    reached_answers (Machine.reached_of_run answeringRun run)⟩

end Connection

end Fetchpp

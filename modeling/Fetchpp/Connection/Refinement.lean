import Mathlib.Data.List.Perm.Subperm
import Fetchpp.Connection.Core

/-!
# The session behind a connection

A step of a connection is a step of its session, or it answers an operation and
leaves the session alone.  The operations that wait on the transport, and the
one whose handler is called next, are operations the session waits for.
-/

namespace Fetchpp

namespace Connection

open Session Http

variable {Byte Response : Type} {codec : Codec Byte Response}
  {endpoint : SessionEndpoint} {request : PushId → Request}

namespace State

def waiting (s : State Byte Response) : List (Waiting Byte Response) :=
  s.flights.map Flight.toWaiting

def outstanding (s : State Byte Response) : List Operation :=
  s.waiting.map Waiting.operation ++
    s.completing.toList.map Completing.operation

/-- The state in which a handler of the session, which left `session`, starts
operations. -/
def resumed (session : Session.State) (s : State Byte Response) :
    State Byte Response :=
  { s with session := session, completing := none }

@[simp] theorem outstanding_resumed (session : Session.State)
    (s : State Byte Response) :
    (s.resumed session).outstanding = s.waiting.map Waiting.operation := by
  simp [outstanding, resumed, waiting]

@[simp] theorem waiting_setTransport (t : Transport Byte)
    (s : State Byte Response) : (s.setTransport t).waiting = s.waiting := by
  have kept : ∀ flight : Flight Byte Response,
      (flight.cancelOn s.transport.stream).toWaiting = flight.toWaiting := by
    intro flight
    unfold Flight.cancelOn
    split <;> rfl
  unfold setTransport
  split
  · simp [waiting, Function.comp_def, kept]
  · rfl

@[simp] theorem waiting_cancelForClose (s : State Byte Response) :
    s.cancelForClose.waiting = s.waiting := by
  have onStream : ∀ flight : Flight Byte Response,
      (flight.cancelOn s.transport.stream).toWaiting = flight.toWaiting := by
    intro flight
    unfold Flight.cancelOn
    split <;> rfl
  have resolving : ∀ flight : Flight Byte Response,
      flight.cancelResolve.toWaiting = flight.toWaiting := by
    intro flight
    unfold Flight.cancelResolve
    split <;> rfl
  unfold cancelForClose
  split <;> simp [waiting, Function.comp_def, onStream, resolving]

@[simp] theorem setTransport_session (t : Transport Byte)
    (s : State Byte Response) : (s.setTransport t).session = s.session := by
  unfold setTransport
  split <;> rfl

@[simp] theorem setTransport_transport (t : Transport Byte)
    (s : State Byte Response) : (s.setTransport t).transport = t := by
  unfold setTransport
  split <;> rfl

@[simp] theorem setTransport_completing (t : Transport Byte)
    (s : State Byte Response) :
    (s.setTransport t).completing = s.completing := by
  unfold setTransport
  split <;> rfl

@[simp] theorem cancelForClose_session (s : State Byte Response) :
    s.cancelForClose.session = s.session := by
  unfold cancelForClose
  split <;> rfl

@[simp] theorem cancelForClose_completing (s : State Byte Response) :
    s.cancelForClose.completing = s.completing := by
  unfold cancelForClose
  split <;> rfl

/-- What recording leaves as it was. -/
structure SameBut (s t : State Byte Response) : Prop where
  session : t.session = s.session
  transport : t.transport = s.transport
  flights : t.flights = s.flights
  completing : t.completing = s.completing

theorem record_sameBut (operation : Operation) (point : Point Byte Response)
    (s : State Byte Response) : s.SameBut (s.record operation point) := by
  unfold record
  split <;> constructor <;> rfl

theorem hear_sameBut (point : Point Byte Response) (answer : Answer Byte)
    (s : State Byte Response) : s.SameBut (s.hear point answer) := by
  unfold hear
  split <;> constructor <;> rfl

@[simp] theorem handled_session (cancelTimer : Bool) (s : State Byte Response) :
    (s.handled cancelTimer).session = s.session := by
  unfold handled
  split <;> rfl

@[simp] theorem handled_flights (cancelTimer : Bool) (s : State Byte Response) :
    (s.handled cancelTimer).flights = s.flights := by
  unfold handled
  split <;> rfl

@[simp] theorem handled_waiting (cancelTimer : Bool) (s : State Byte Response) :
    (s.handled cancelTimer).waiting = s.waiting := by
  simp [waiting]

@[simp] theorem handled_completing (cancelTimer : Bool)
    (s : State Byte Response) :
    (s.handled cancelTimer).completing = s.completing := by
  unfold handled
  split <;> rfl

@[simp] theorem handled_isOpen (cancelTimer : Bool)
    (s : State Byte Response) :
    (s.handled cancelTimer).transport.isOpen = s.transport.isOpen := by
  unfold handled
  split <;> rfl

@[simp] theorem handled_outstanding (cancelTimer : Bool)
    (s : State Byte Response) :
    (s.handled cancelTimer).outstanding = s.outstanding := by
  simp [outstanding]

/-- Where an operation waits after a step of it. -/
def entering (operation : Operation) (next : Step Byte Response) :
    List (Waiting Byte Response) :=
  match next.2 with
  | .await point => [⟨operation, point, next.1.stream⟩]
  | _ => []

def completion (operation : Operation) (next : Step Byte Response) :
    Option Completing :=
  match next.2 with
  | .complete ec => some ⟨operation, ec, false⟩
  | .completeFirst ec => some ⟨operation, ec, true⟩
  | .deliver _ => some ⟨operation, none, false⟩
  | _ => none

/-- The spec of `enter`, apart from what it records. -/
structure Entered (s : State Byte Response) (operation : Operation)
    (next : Step Byte Response) (t : State Byte Response) : Prop where
  session : t.session = s.session
  transport : t.transport = next.1
  waiting : t.waiting = s.waiting ++ entering operation next
  completing : t.completing =
    (completion operation next).or s.completing

theorem enter_entered (operation : Operation) (next : Step Byte Response)
    (s : State Byte Response) :
    s.Entered operation next (s.enter operation next) := by
  obtain ⟨t, yield⟩ := next
  have unmoved : (s.setTransport t).flights.map Flight.toWaiting =
      s.waiting ++ [] :=
    (waiting_setTransport t s).trans (List.append_nil _).symm
  cases yield with
  | await point =>
      have same := record_sameBut operation point
        { s.setTransport t with
          flights := (s.setTransport t).flights ++
            [⟨⟨operation, point, t.stream⟩, false⟩] }
      constructor
      · exact same.session.trans (setTransport_session t s)
      · exact same.transport.trans (setTransport_transport t s)
      · have waiting := waiting_setTransport t s
        simp only [State.waiting] at waiting ⊢
        simp only [enter, same.flights, List.map_append, waiting]
        rfl
      · exact same.completing.trans (setTransport_completing t s)
  | complete ec =>
      constructor
      · exact setTransport_session t s
      · exact setTransport_transport t s
      · exact unmoved
      · rfl
  | completeFirst ec =>
      constructor
      · exact setTransport_session t s
      · exact setTransport_transport t s
      · exact unmoved
      · rfl
  | deliver response =>
      constructor
      · exact setTransport_session t s
      · exact setTransport_transport t s
      · exact unmoved
      · rfl
  | escape =>
      constructor
      · exact setTransport_session t s
      · exact setTransport_transport t s
      · exact unmoved
      · exact setTransport_completing t s

theorem mem_entering {operation : Operation} {next : Step Byte Response}
    {waiting : Waiting Byte Response}
    (member : waiting ∈ entering operation next) :
    ∃ point, next.2 = .await point ∧
      waiting = ⟨operation, point, next.1.stream⟩ := by
  unfold entering at member
  split at member
  case h_1 point awaits => exact ⟨point, awaits, List.mem_singleton.mp member⟩
  case h_2 => cases member

theorem Entered.waits {s t : State Byte Response} {operation : Operation}
    {next : Step Byte Response} (entered : s.Entered operation next t)
    {waiting : Waiting Byte Response} (member : waiting ∈ t.waiting) :
    waiting ∈ s.waiting ∨ ∃ point, next.2 = .await point ∧
      waiting = ⟨operation, point, next.1.stream⟩ := by
  rw [entered.waiting] at member
  exact (List.mem_append.mp member).imp_right mem_entering

/-- The transport step by which an effect starts its operation. -/
def started (endpoint : SessionEndpoint) (request : PushId → Request)
    (t : Transport Byte) : Effect → Option (Operation × Step Byte Response)
  | .connect caller => some (.connect caller, connect endpoint t)
  | .exchange op => some (.exchange op, processOne (request op.task) t)
  | .close graceful caller =>
      some (.close graceful caller, close endpoint graceful t)
  | _ => none

theorem launch_local {effect : Effect} (isLocal : effect.isLocal = true)
    (s : State Byte Response) : s.launch endpoint request effect = s := by
  cases effect with
  | post handler => rfl
  | connect caller => cases isLocal
  | exchange op => cases isLocal
  | close graceful caller => cases isLocal
  | wait stop => rfl
  | cancelTimer => rfl

theorem launch_entered {effect : Effect} {operation : Operation}
    {next : Step Byte Response} {s : State Byte Response}
    (starts : started endpoint request s.transport effect =
      some (operation, next)) :
    s.Entered operation next (s.launch endpoint request effect) := by
  cases effect with
  | post handler => cases starts
  | wait stop => cases starts
  | cancelTimer => cases starts
  | connect caller =>
      cases starts
      exact enter_entered _ _ _
  | exchange op =>
      cases starts
      exact enter_entered _ _ _
  | close graceful caller =>
      cases starts
      have entered := enter_entered (.close graceful caller)
        (close endpoint graceful s.transport) s.cancelForClose
      exact
        { session := entered.session.trans s.cancelForClose_session
          transport := entered.transport
          waiting := by
            rw [← s.waiting_cancelForClose]
            exact entered.waiting
          completing := by
            rw [← s.cancelForClose_completing]
            exact entered.completing }

end State

/-- The step of the session behind an event. -/
def Event.label (s : State Byte Response) : Event Byte → Option Session.Event
  | .push => some .push
  | .start => some .start
  | .stop graceful => some (.stop graceful)
  | .post handler => some (.post handler s.transport.isOpen)
  | .timer waiter cancelled ec =>
      some (.resume (.wait waiter cancelled) ec s.transport.isOpen)
  | .answer _ _ => none
  | .complete => s.completing.map (fun completing =>
      .resume completing.operation completing.ec s.transport.isOpen)

/-- A step that answers an operation. -/
structure Answered (codec : Codec Byte Response) (endpoint : SessionEndpoint)
    (s : State Byte Response) (index : Nat) (answer : Answer Byte)
    (t : State Byte Response) where
  flight : Flight Byte Response
  next : Step Byte Response
  idle : s.completing = none
  member : s.flights[index]? = some flight
  mayAnswer : flight.mayAnswer answer = true
  resumed : flight.point.resume codec endpoint flight.stream s.transport
    answer = some next
  after : t = (State.hear flight.point answer
    { s with
      flights := s.flights.eraseIdx index
      completing := none }).enter flight.operation next

/-- A step in which a handler of the session runs. -/
structure Handled (endpoint : SessionEndpoint) (request : PushId → Request)
    (s : State Byte Response) (event : Session.Event)
    (t : State Byte Response) where
  session : Session.State
  cancelTimer : Bool
  /-- the handler is that of the operation which completed, if one did -/
  caller : ∀ completing, s.completing = some completing →
    event = .resume completing.operation completing.ec s.transport.isOpen
  /-- otherwise only the end of a wait resumes the session -/
  alone : s.completing = none → ∀ operation ec isOpen,
    event = .resume operation ec isOpen →
    ∃ waiter cancelled, operation = .wait waiter cancelled
  stepped : Session.step s.session event = some session
  after : t = ((event.outcome s.session.core).2.foldl
    (State.launch endpoint request)
    (s.resumed session)).handled cancelTimer

theorem handled_of_dispatch {s t : State Byte Response} {event : Session.Event}
    (idle : s.completing = none)
    (alone : ∀ operation ec isOpen, event = .resume operation ec isOpen →
      ∃ waiter cancelled, operation = .wait waiter cancelled)
    (dispatched : dispatch endpoint request s event = some t) :
    Nonempty (Handled endpoint request s event t) := by
  unfold dispatch at dispatched
  split at dispatched
  case h_1 => cases dispatched
  case h_2 session stepped =>
    refine ⟨⟨session, false, ?_, fun _ => alone, stepped, ?_⟩⟩
    · intro completing some
      simp [idle] at some
    · rw [idle] at dispatched
      exact (Option.some.inj dispatched).symm

/-- Every step is of one of the two kinds. -/
theorem step_cases {s t : State Byte Response} {event : Event Byte}
    (stepped : step codec endpoint request s event = some t) :
    (∃ index answer, event = .answer index answer ∧
      Nonempty (Answered codec endpoint s index answer t)) ∨
    (∃ event', event.label s = some event' ∧
      Nonempty (Handled endpoint request s event' t)) := by
  cases idle : s.completing with
  | some completing =>
      cases event with
      | complete =>
          right
          simp only [step, idle] at stepped
          cases sessionStepped : Session.step s.session
              (.resume completing.operation completing.ec
                s.transport.isOpen) with
          | none => simp [dispatch, sessionStepped] at stepped
          | some session =>
            simp only [dispatch, sessionStepped] at stepped
            have label : Event.label s (.complete : Event Byte) =
                some (.resume completing.operation completing.ec
                  s.transport.isOpen) := by
              simp [Event.label, idle]
            refine ⟨_, label, ⟨⟨session, completing.thenCancelTimer, ?_, ?_,
              sessionStepped, ?_⟩⟩⟩
            · intro other same
              rw [idle] at same
              cases same
              rfl
            · intro none
              simp [idle] at none
            · exact (Option.some.inj stepped).symm
      | push => simp [step, idle] at stepped
      | start => simp [step, idle] at stepped
      | stop graceful => simp [step, idle] at stepped
      | post handler => simp [step, idle] at stepped
      | timer stop cancelled ec => simp [step, idle] at stepped
      | answer index answer => simp [step, idle] at stepped
  | none =>
      cases event with
      | complete => simp [step, idle] at stepped
      | push =>
          simp only [step, idle] at stepped
          exact .inr ⟨_, rfl, handled_of_dispatch idle
            (fun _ _ _ other => by cases other) stepped⟩
      | start =>
          simp only [step, idle] at stepped
          exact .inr ⟨_, rfl, handled_of_dispatch idle
            (fun _ _ _ other => by cases other) stepped⟩
      | stop graceful =>
          simp only [step, idle] at stepped
          exact .inr ⟨_, rfl, handled_of_dispatch idle
            (fun _ _ _ other => by cases other) stepped⟩
      | post handler =>
          simp only [step, idle] at stepped
          exact .inr ⟨_, rfl, handled_of_dispatch idle
            (fun _ _ _ other => by cases other) stepped⟩
      | timer stop cancelled ec =>
          simp only [step, idle] at stepped
          refine .inr ⟨_, rfl, handled_of_dispatch idle ?_ stepped⟩
          rintro _ _ _ ⟨rfl⟩
          exact ⟨_, _, rfl⟩
      | answer index answer =>
          left
          simp only [step, idle] at stepped
          split at stepped
          case h_1 => cases stepped
          case h_2 flight member =>
            split at stepped
            case isFalse => cases stepped
            case isTrue mayAnswer =>
              split at stepped
              case h_1 => cases stepped
              case h_2 next resumed =>
                exact ⟨index, answer, rfl, ⟨⟨flight, next, idle, member,
                  mayAnswer, resumed, (Option.some.inj stepped).symm⟩⟩⟩

theorem Event.label_start {s : State Byte Response} {event : Event Byte}
    (label : event.label s = some .start) : event = .start := by
  cases event with
  | start => rfl
  | push => cases label
  | stop graceful => cases label
  | post handler => cases label
  | timer waiter cancelled ec => cases label
  | answer index answer => cases label
  | complete =>
      obtain ⟨completing, _, other⟩ := Option.map_eq_some_iff.mp label
      cases other

theorem Event.label_stop {s : State Byte Response} {event : Event Byte}
    {graceful : GracefulShutdown}
    (label : event.label s = some (.stop graceful)) :
    event = .stop graceful := by
  cases event with
  | stop other =>
      cases label
      rfl
  | push => cases label
  | start => cases label
  | post handler => cases label
  | timer waiter cancelled ec => cases label
  | answer index answer => cases label
  | complete =>
      obtain ⟨completing, _, other⟩ := Option.map_eq_some_iff.mp label
      cases other

theorem Event.label_post {s : State Byte Response} {event : Event Byte}
    {handler : Posted} {isOpen : Bool}
    (label : event.label s = some (.post handler isOpen)) :
    event = .post handler ∧ isOpen = s.transport.isOpen := by
  cases event with
  | post other =>
      cases label
      exact ⟨rfl, rfl⟩
  | push => cases label
  | start => cases label
  | stop graceful => cases label
  | timer waiter cancelled ec => cases label
  | answer index answer => cases label
  | complete =>
      obtain ⟨completing, _, other⟩ := Option.map_eq_some_iff.mp label
      cases other

theorem launch_session (s : State Byte Response) (effect : Effect) :
    (s.launch endpoint request effect).session = s.session := by
  cases starts : State.started endpoint request s.transport effect with
  | some launched => exact (State.launch_entered starts).session
  | none =>
      have isLocal : effect.isLocal = true := by
        cases effect <;> first | rfl | simp [State.started] at starts
      rw [State.launch_local isLocal]

theorem Handled.session_eq {s t : State Byte Response} {event : Session.Event}
    (handled : Handled endpoint request s event t) :
    t.session = handled.session := by
  have kept : ∀ (effects : List Effect) (u : State Byte Response),
      (effects.foldl (State.launch endpoint request) u).session =
        u.session := by
    intro effects
    induction effects with
    | nil => exact fun _ => rfl
    | cons effect rest induction =>
        intro u
        exact (induction _).trans (launch_session u effect)
  exact (congrArg State.session handled.after).trans
    ((State.handled_session _ _).trans (kept _ _))

theorem Answered.entered {s t : State Byte Response} {index : Nat}
    {answer : Answer Byte} (answered : Answered codec endpoint s index answer t) :
    State.Entered { s with
        flights := s.flights.eraseIdx index
        completing := none }
      answered.flight.operation answered.next t := by
  have same := State.hear_sameBut answered.flight.point answer
    { s with flights := s.flights.eraseIdx index, completing := none }
  have entered := State.enter_entered answered.flight.operation answered.next
    (State.hear answered.flight.point answer
      { s with flights := s.flights.eraseIdx index, completing := none })
  rw [← answered.after] at entered
  exact
    { session := entered.session.trans same.session
      transport := entered.transport
      waiting := by
        rw [entered.waiting]
        simp only [State.waiting, same.flights]
      completing := by
        rw [entered.completing, same.completing] }

/-- A connection runs as its session does. -/
theorem simulation : Lib.Machine.Simulation
    (machine codec endpoint request) Session.machine
    (fun s image => s.session = image) (fun s event => event.label s) where
  start := rfl
  silent := by
    intro before event after image related stepped silent
    rcases step_cases stepped with ⟨index, answer, rfl, ⟨answered⟩⟩ |
      ⟨event', label, _⟩
    · exact answered.entered.session.trans related
    · rw [silent] at label
      cases label
  visible := by
    intro before event after image event' related stepped visible
    rcases step_cases stepped with ⟨index, answer, rfl, _⟩ |
      ⟨other, label, ⟨handled⟩⟩
    · cases visible
    · rw [visible] at label
      cases label
      exact ⟨_, related ▸ handled.stepped, handled.session_eq⟩

theorem reached_session {s : State Byte Response}
    (reached : (machine codec endpoint request).Reached s) :
    Session.machine.Reached s.session := by
  obtain ⟨image, imageReached, related⟩ := simulation.reached reached
  rwa [related]

theorem Handled.cases {s t : State Byte Response} {event : Session.Event}
    (points : s.session.AtPoints)
    (handled : Handled endpoint request s event t) :
    t = (s.resumed handled.session).handled handled.cancelTimer ∨
    ∃ effect operation, ∃ next : Step Byte Response,
      event.Starts s.session.core effect ∧
      (event.outcome s.session.core).2 = [effect] ∧
      State.started endpoint request s.transport effect =
        some (operation, next) ∧
      t = ((s.resumed handled.session).launch endpoint request effect).handled
        handled.cancelTimer := by
  have point := points.event (step_eq handled.stepped).1
  rcases event.effects point s.session.core with none | ⟨effect, one, starts⟩
  · left
    have after := handled.after
    rw [none] at after
    exact after
  · have after := handled.after
    rw [one] at after
    cases begun : State.started endpoint request s.transport effect with
    | some launched =>
        exact .inr ⟨effect, launched.1, launched.2, starts, one, begun, after⟩
    | none =>
        left
        have isLocal : effect.isLocal = true := by
          cases effect <;> first | rfl | simp [State.started] at begun
        rw [List.foldl_cons, State.launch_local isLocal] at after
        exact after

theorem Handled.completes {s t : State Byte Response} {event : Session.Event}
    (handled : Handled endpoint request s event t) {operation : Operation}
    {ec : Option ErrorCode} {isOpen : Bool}
    (resumes : event = .resume operation ec isOpen)
    (notWait : ∀ waiter cancelled, operation ≠ .wait waiter cancelled) :
    ∃ completing, s.completing = some completing ∧
      completing.operation = operation ∧ completing.ec = ec := by
  cases idle : s.completing with
  | none =>
      obtain ⟨waiter, cancelled, same⟩ := handled.alone idle _ _ _ resumes
      exact (notWait _ _ same).elim
  | some completing =>
      have same := handled.caller completing idle
      rw [resumes] at same
      obtain ⟨operation, ec, _⟩ := Session.Event.resume.inj same
      exact ⟨completing, rfl, operation.symm, ec.symm⟩

theorem Handled.stopped {s t : State Byte Response}
    {graceful : GracefulShutdown}
    (handled : Handled endpoint request s (.stop graceful) t) :
    handled.session.core.running = false := by
  rw [← Option.some.inj handled.stepped]
  exact congrArg Core.running (Session.State.apply_core _ _)

theorem State.waiting_perm {s : State Byte Response} {index : Nat}
    {flight : Flight Byte Response} (member : s.flights[index]? = some flight) :
    s.waiting.Perm (flight.toWaiting ::
      (s.flights.eraseIdx index).map Flight.toWaiting) := by
  obtain ⟨bound, rfl⟩ := List.getElem?_eq_some_iff.mp member
  exact (List.getElem_cons_eraseIdx_perm bound).symm.map Flight.toWaiting

theorem Answered.rest {s t : State Byte Response} {index : Nat}
    {answer : Answer Byte} (answered : Answered codec endpoint s index answer t)
    {waiting : Waiting Byte Response}
    (member : waiting ∈ State.waiting { s with
      flights := s.flights.eraseIdx index
      completing := none }) : waiting ∈ s.waiting :=
  (State.waiting_perm answered.member).symm.subset
    (List.mem_cons_of_mem _ member)

theorem Answered.waited {s t : State Byte Response} {index : Nat}
    {answer : Answer Byte} (answered : Answered codec endpoint s index answer t) :
    answered.flight.toWaiting ∈ s.waiting :=
  (State.waiting_perm answered.member).symm.subset List.mem_cons_self

theorem Answered.waits {s t : State Byte Response} {index : Nat}
    {answer : Answer Byte} (answered : Answered codec endpoint s index answer t)
    {waiting : Waiting Byte Response} (member : waiting ∈ t.waiting) :
    waiting ∈ s.waiting ∨ ∃ point, answered.next.2 = .await point ∧
      waiting = ⟨answered.flight.operation, point,
        answered.next.1.stream⟩ :=
  (answered.entered.waits member).imp_left answered.rest

private theorem perform_started {t : Transport Byte} {effect : Effect}
    {operation : Operation} {next : Step Byte Response}
    (begun : State.started endpoint request t effect = some (operation, next))
    (s : Session.State) :
    (s.perform effect).operations = s.operations ++ [operation] ∧
      ∀ waiter cancelled, operation ≠ .wait waiter cancelled := by
  cases effect with
  | post handler => cases begun
  | wait stop => cases begun
  | cancelTimer => cases begun
  | connect caller =>
      cases begun
      exact ⟨rfl, nofun⟩
  | exchange op =>
      cases begun
      exact ⟨rfl, nofun⟩
  | close graceful caller =>
      cases begun
      exact ⟨rfl, nofun⟩

theorem Handled.operations {s t : State Byte Response} {event : Session.Event}
    (handled : Handled endpoint request s event t) {effect : Effect}
    (one : (event.outcome s.session.core).2 = [effect]) {operation : Operation}
    {next : Step Byte Response}
    (begun : State.started endpoint request s.transport effect =
      some (operation, next)) :
    t.session.operations =
      (event.taken s.session).operations ++ [operation] := by
  obtain ⟨added, _⟩ := perform_started begun
    { event.taken s.session with
      core := (event.outcome s.session.core).1 }
  rw [handled.session_eq, (step_eq handled.stepped).2]
  simp only [Session.State.apply, one, List.foldl_cons, List.foldl_nil]
  exact added

theorem State.completion_operation {operation : Operation}
    {next : Step Byte Response} {completing : Completing}
    (completion : State.completion operation next = some completing) :
    completing.operation = operation := by
  obtain ⟨transport, yield⟩ := next
  cases yield <;> cases completion <;> rfl

/-- An operation that is entered waits or has completed, unless an exception
leaves it. -/
theorem State.Entered.outstanding_eq {s t : State Byte Response}
    {operation : Operation} {next : Step Byte Response}
    (entered : s.Entered operation next t) (idle : s.completing = none) :
    t.outstanding = s.outstanding ++
      (match next.2 with
        | .escape => []
        | _ => [operation]) := by
  have outstanding : t.outstanding = s.waiting.map Waiting.operation ++
      ((State.entering operation next).map Waiting.operation ++
        (State.completion operation next).toList.map
          Completing.operation) := by
    simp only [State.outstanding, entered.waiting, entered.completing, idle,
      Option.or_none, List.map_append, List.append_assoc]
  have before : s.outstanding = s.waiting.map Waiting.operation := by
    simp [State.outstanding, idle]
  rw [outstanding, before]
  obtain ⟨transport, yield⟩ := next
  cases yield <;> rfl

theorem State.Entered.outstanding {s t : State Byte Response}
    {operation : Operation} {next : Step Byte Response}
    (entered : s.Entered operation next t) (idle : s.completing = none) :
    t.outstanding = s.outstanding ∨
      t.outstanding = s.outstanding ++ [operation] := by
  rw [entered.outstanding_eq idle]
  split
  · exact .inl (List.append_nil _)
  · exact .inr rfl

/-- The transport has no operation that the session does not wait for. -/
structure State.Linked (s : State Byte Response) : Prop where
  notWait : ∀ waiter cancelled, .wait waiter cancelled ∉ s.outstanding
  subperm : s.outstanding.Subperm s.session.operations

namespace State.Linked

theorem answered {s t : State Byte Response} (linked : s.Linked) {index : Nat}
    {answer : Answer Byte}
    (answered : Answered codec endpoint s index answer t) : t.Linked := by
  have entered := answered.entered
  have split : s.outstanding.Perm
      (answered.flight.operation ::
        ((s.flights.eraseIdx index).map Flight.toWaiting).map
          Waiting.operation) := by
    simpa [State.outstanding, answered.idle] using
      (State.waiting_perm answered.member).map Waiting.operation
  have rest : State.outstanding { s with
      flights := s.flights.eraseIdx index
      completing := none } =
      ((s.flights.eraseIdx index).map Flight.toWaiting).map
        Waiting.operation := by
    simp [State.outstanding, State.waiting]
  have within : t.outstanding.Subperm s.outstanding := by
    refine .trans ?_ split.symm.subperm
    rcases entered.outstanding rfl with same | added
    · rw [same, rest]
      exact .cons_self
    · rw [added, rest]
      exact List.perm_append_singleton _ _ |>.subperm
  refine ⟨?_, ?_⟩
  · intro waiter cancelled member
    exact linked.notWait waiter cancelled (within.subset member)
  · rw [entered.session]
    exact within.trans linked.subperm

private theorem subperm_cancelWait {operations others : List Operation}
    (notWait : ∀ waiter cancelled, .wait waiter cancelled ∉ operations)
    (subperm : operations.Subperm others) :
    operations.Subperm (others.map Operation.cancelWait) := by
  have same : operations.map Operation.cancelWait = operations := by
    refine (List.map_congr_left ?_).trans (List.map_id _)
    intro operation member
    cases operation with
    | wait waiter cancelled => exact (notWait _ _ member).elim
    | connect caller => rfl
    | exchange op => rfl
    | close graceful caller => rfl
  obtain ⟨among, perm, sublist⟩ := subperm
  rw [← same]
  exact ⟨among.map _, perm.map _, sublist.map _⟩

private theorem subperm_perform {operations : List Operation}
    (notWait : ∀ waiter cancelled, .wait waiter cancelled ∉ operations)
    {s : Session.State} (subperm : operations.Subperm s.operations)
    (effect : Effect) :
    operations.Subperm (s.perform effect).operations := by
  cases effect with
  | post handler => exact subperm
  | connect caller =>
      exact subperm.trans (List.sublist_append_left _ _).subperm
  | exchange op =>
      exact subperm.trans (List.sublist_append_left _ _).subperm
  | close graceful caller =>
      exact subperm.trans (List.sublist_append_left _ _).subperm
  | wait stop =>
      exact (subperm_cancelWait notWait subperm).trans
        (List.sublist_append_left _ _).subperm
  | cancelTimer => exact subperm_cancelWait notWait subperm

private theorem subperm_apply {operations : List Operation}
    (notWait : ∀ waiter cancelled, .wait waiter cancelled ∉ operations)
    {s : Session.State} (subperm : operations.Subperm s.operations)
    (outcome : Outcome) : operations.Subperm (s.apply outcome).operations := by
  obtain ⟨core, effects⟩ := outcome
  have kept : ∀ t : Session.State, operations.Subperm t.operations →
      operations.Subperm (effects.foldl Session.State.perform t).operations := by
    induction effects with
    | nil => exact fun _ subperm => subperm
    | cons effect rest induction =>
        intro t subperm
        exact induction _ (subperm_perform notWait subperm effect)
  exact kept { s with core := core } subperm

private theorem taken {s t : State Byte Response} (linked : s.Linked)
    {event : Session.Event} (handled : Handled endpoint request s event t) :
    (s.waiting.map Waiting.operation).Subperm
      (event.taken s.session).operations := by
  have waits : ∀ waiter cancelled, .wait waiter cancelled ∉
      s.waiting.map Waiting.operation :=
    fun waiter cancelled member =>
      linked.notWait waiter cancelled (List.mem_append_left _ member)
  have all : (s.waiting.map Waiting.operation).Subperm s.session.operations :=
    (List.sublist_append_left _ _).subperm.trans linked.subperm
  cases event with
  | push => exact all
  | start => exact all
  | stop graceful => exact all
  | post handler isOpen => exact all
  | resume operation ec isOpen =>
      cases idle : s.completing with
      | none =>
          obtain ⟨waiter, cancelled, rfl⟩ := handled.alone idle _ _ _ rfl
          have erased := all.erase (.wait waiter cancelled)
          rwa [List.erase_of_not_mem (waits waiter cancelled)] at erased
      | some completing =>
          have same := handled.caller completing idle
          simp only [Session.Event.resume.injEq] at same
          have front : s.outstanding.Perm
              (operation :: s.waiting.map Waiting.operation) := by
            rw [same.1]
            simp only [State.outstanding, idle]
            exact List.perm_append_singleton completing.operation
              (s.waiting.map Waiting.operation)
          have erased :=
            (front.symm.subperm.trans linked.subperm).erase operation
          rw [List.erase_cons_head] at erased
          exact erased

theorem handled {s t : State Byte Response} (linked : s.Linked)
    (points : s.session.AtPoints) {event : Session.Event}
    (handled : Handled endpoint request s event t) : t.Linked := by
  have kept := linked.taken handled
  have waits : ∀ waiter cancelled, .wait waiter cancelled ∉
      s.waiting.map Waiting.operation :=
    fun waiter cancelled member =>
      linked.notWait waiter cancelled (List.mem_append_left _ member)
  have session : handled.session =
      (event.taken s.session).apply (event.outcome s.session.core) :=
    (step_eq handled.stepped).2
  rcases handled.cases points with quiet |
    ⟨effect, operation, next, _, one, begun, launched⟩
  · have outstanding : t.outstanding = s.waiting.map Waiting.operation := by
      rw [quiet, State.handled_outstanding, State.outstanding_resumed]
    refine ⟨outstanding ▸ waits, ?_⟩
    rw [outstanding, handled.session_eq, session]
    exact subperm_apply waits kept _
  · have entered : (s.resumed handled.session).Entered operation next
        ((s.resumed handled.session).launch endpoint request effect) :=
      State.launch_entered begun
    have after : t.outstanding =
        ((s.resumed handled.session).launch endpoint request
          effect).outstanding :=
      (congrArg State.outstanding launched).trans
        (State.handled_outstanding _ _)
    have operations := handled.operations one begun
    have notWait := (perform_started begun s.session).2
    rcases entered.outstanding rfl with same | added
    · rw [State.outstanding_resumed] at same
      refine ⟨after.trans same ▸ waits, ?_⟩
      rw [after, same, operations]
      exact kept.trans (List.sublist_append_left _ _).subperm
    · rw [State.outstanding_resumed] at added
      refine ⟨?_, ?_⟩
      · intro waiter cancelled member
        rw [after, added] at member
        rcases List.mem_append.mp member with earlier | single
        · exact waits waiter cancelled earlier
        · exact notWait waiter cancelled (List.mem_singleton.mp single).symm
      · rw [after, added, operations]
        exact (List.subperm_append_right _).mpr kept

end State.Linked

theorem reached_linked {s : State Byte Response}
    (reached : (machine codec endpoint request).Reached s) : s.Linked := by
  refine reached.invariant ⟨by simp [machine, State.outstanding,
    State.waiting], by simp [machine, State.outstanding, State.waiting]⟩ ?_
  intro before event after earlier linked _ stepped
  rcases step_cases stepped with ⟨_, _, _, ⟨answered⟩⟩ | ⟨_, _, ⟨handled⟩⟩
  · exact linked.answered answered
  · exact linked.handled (reached_atPoints (reached_session earlier)) handled

theorem State.Linked.mem {s : State Byte Response} (linked : s.Linked)
    {waiting : Waiting Byte Response} (member : waiting ∈ s.waiting) :
    waiting.operation ∈ s.session.operations :=
  linked.subperm.subset
    (List.mem_append_left _ (List.mem_map_of_mem member))

theorem State.Linked.queueOps_nil {s : State Byte Response} (linked : s.Linked)
    (invariant : s.session.Invariant) {handler : Posted}
    (posted : handler ∈ s.session.posts) {operation : Operation}
    (member : operation ∈ s.outstanding) : operation.queueOp? = none := by
  have undriven :=
    (Session.State.drivers_erase_post invariant.driven.drivers_length
      posted).2
  have noOps := (Session.State.drivers_eq_nil.mp undriven).2
  exact List.filterMap_eq_nil_iff.mp noOps operation
    (linked.subperm.subset member)

end Connection

end Fetchpp

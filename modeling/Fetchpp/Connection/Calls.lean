import Fetchpp.Connection.Refinement
import Fetchpp.Transport.Steps

/-!
# Calls on a transport

A transport that is used without a session: its callers start connects,
exchanges and closes, and are called back when these complete.  The state is
that of a connection whose session takes no part.  A caller is known by the
number of its handler, and a handler may make the next call itself.
-/

namespace Fetchpp

variable {Byte Response : Type}

/-- A connect has neither read nor started a handshake. -/
def Point.isFresh : Point Byte Response → Bool
  | .resolving _ _ => true
  | .connecting => true
  | .proxying (.writing _) => true
  | _ => false

namespace Connection

open Session Http

inductive Call where
  | connect (handler : Nat)
  | exchange (handler : Nat)
  | close (graceful : GracefulShutdown) (handler : Nat)
  deriving DecidableEq, Repr

namespace Call

def operation : Call → Operation
  | .connect handler => .connect (.start handler)
  | .exchange handler => .exchange { task := handler }
  | .close graceful handler => .close graceful (.stop handler)

def effect : Call → Effect
  | .connect handler => .connect (.start handler)
  | .exchange handler => .exchange { task := handler }
  | .close graceful handler => .close graceful (.stop handler)

inductive Event (Byte : Type) where
  | call (call : Call)
  /-- the operation the flight waits for is answered -/
  | answer (flight : Nat) (answer : Answer Byte)
  /-- the handler of the operation that completed is called; it may make a
  call itself -/
  | complete (call : Option Call)
  deriving DecidableEq, Repr

/-- The call an event makes, from outside or from a handler. -/
def Event.call? : Event Byte → Option Call
  | .call made => some made
  | .answer _ _ => none
  | .complete next => next

/-- What happens to the calls. -/
inductive Note (Byte : Type) where
  | called (call : Call)
  | completed (operation : Operation) (ec : Option ErrorCode)
  /-- a connect comes to its first read or handshake and finds this in the
  buffer -/
  | found (buffer : List Byte)
  /-- a handshake is started on the stream -/
  | shakes (stream : Nat)
  deriving DecidableEq, Repr

end Call

variable (codec : Codec Byte Response) (endpoint : SessionEndpoint)
  (request : PushId → Request)

def Call.start (s : State Byte Response) (call : Call) : State Byte Response :=
  s.launch endpoint request call.effect

def Call.startNext (s : State Byte Response) :
    Option Call → State Byte Response
  | none => s
  | some call => call.start endpoint request s

def Call.step (s : State Byte Response) (event : Call.Event Byte) :
    Option (State Byte Response) :=
  match s.completing, event with
  | some completing, .complete call =>
      some ((Call.startNext endpoint request { s with completing := none }
        call).handled completing.thenCancelTimer)
  | none, .call call => some (call.start endpoint request s)
  | none, .answer index answer =>
      Connection.step codec endpoint request s (.answer index answer)
  | _, _ => none

/-- A connect goes on from `point`. -/
def Call.goingOn (t : Transport Byte) (point : Point Byte Response)
    (next : Step Byte Response) : List (Call.Note Byte) :=
  match next.2 with
  | .await (.proxying (.writing _)) => []
  | .await (.proxying _) => if point.isFresh then [.found t.buffer] else []
  | .await .handshaking =>
      (if point.isFresh then [.found t.buffer] else []) ++
        [.shakes next.1.stream]
  | _ => []

def Call.notes (s : State Byte Response) :
    Call.Event Byte → List (Call.Note Byte)
  | .call call => [.called call]
  | .answer index answer =>
      match s.flights[index]? with
      | none => []
      | some flight =>
          match flight.point.resume codec endpoint flight.stream s.transport
              answer with
          | none => []
          | some next => Call.goingOn s.transport flight.point next
  | .complete next =>
      s.completing.toList.map
          (fun completing => .completed completing.operation completing.ec) ++
        next.toList.map .called

/-- The machine of a transport that is `t` at first, with the log of what
happens to the calls. -/
def Call.machine (t : Transport Byte) :
    Lib.Machine (State Byte Response × List (Call.Note Byte))
      (Call.Event Byte) :=
  Lib.Machine.logged ⟨{ transport := t }, Call.step codec endpoint request⟩
    (Call.notes codec endpoint)

section Steps

variable {codec : Codec Byte Response} {endpoint : SessionEndpoint}
  {request : PushId → Request}

/-- The step by which a call starts its operation. -/
def Call.first (endpoint : SessionEndpoint) (request : PushId → Request)
    (t : Transport Byte) : Call → Step Byte Response
  | .connect _ => Fetchpp.connect endpoint t
  | .exchange handler => processOne (request handler) t
  | .close graceful _ => Fetchpp.close endpoint graceful t

/-- A call is the entering of its operation. -/
theorem Call.start_entered (call : Call) (s : State Byte Response) :
    s.Entered call.operation (call.first endpoint request s.transport)
      (call.start endpoint request s) := by
  apply State.launch_entered
  cases call <;> rfl

/-- Every step is of one of three kinds. -/
theorem Call.step_cases {s t : State Byte Response} {event : Call.Event Byte}
    (stepped : Call.step codec endpoint request s event = some t) :
    (∃ call, event = .call call ∧ s.completing = none ∧
      t = call.start endpoint request s) ∨
    (∃ index answer, event = .answer index answer ∧
      Nonempty (Answered codec endpoint s index answer t)) ∨
    (∃ completing next, event = .complete next ∧
      s.completing = some completing ∧
      t = (Call.startNext endpoint request { s with completing := none }
        next).handled completing.thenCancelTimer) := by
  unfold Call.step at stepped
  split at stepped
  case h_1 completing next some =>
    exact .inr (.inr ⟨completing, next, rfl, some,
      (Option.some.inj stepped).symm⟩)
  case h_2 call none =>
    exact .inl ⟨call, rfl, none, (Option.some.inj stepped).symm⟩
  case h_3 index answer none =>
    rcases Connection.step_cases stepped with ⟨_, _, same, answered⟩ |
      ⟨_, label, _⟩
    · cases same
      exact .inr (.inl ⟨index, answer, rfl, answered⟩)
    · cases label
  case h_4 => cases stepped

theorem Call.step_call {s t : State Byte Response} {event : Call.Event Byte}
    {call : Call} (stepped : Call.step codec endpoint request s event = some t)
    (makes : event.call? = some call) :
    ∃ cancelTimer, t =
      (call.start endpoint request { s with completing := none }).handled
        cancelTimer := by
  rcases step_cases stepped with ⟨other, rfl, idle, after⟩ |
    ⟨index, answer, rfl, _⟩ | ⟨completing, next, rfl, _, after⟩
  · obtain rfl : other = call := Option.some.inj makes
    refine ⟨false, after.trans ?_⟩
    have same : { s with completing := none } = s := by
      rw [← idle]
    rw [same]
    rfl
  · cases makes
  · obtain rfl : next = some call := makes
    exact ⟨completing.thenCancelTimer, after⟩

theorem State.entering_ended {operation : Operation}
    {next : Step Byte Response} (ended : ∀ later, next.2 ≠ .await later) :
    State.entering operation next = [] := by
  unfold State.entering
  split
  case h_1 awaits => exact (ended _ awaits).elim
  case h_2 => rfl

theorem State.Entered.awaits {s t : State Byte Response} {operation : Operation}
    {next : Step Byte Response} (entered : s.Entered operation next t)
    (idle : s.completing = none) {point : Point Byte Response}
    (awaits : next.2 = .await point) :
    t.completing = none ∧
      t.waiting = s.waiting ++ [⟨operation, point, next.1.stream⟩] := by
  have waiting := entered.waiting
  have completing := entered.completing
  rw [idle, Option.or_none] at completing
  obtain ⟨u, yield⟩ := next
  obtain rfl : yield = .await point := awaits
  exact ⟨completing, waiting⟩

theorem State.Entered.ends {s t : State Byte Response} {operation : Operation}
    {next : Step Byte Response} (entered : s.Entered operation next t)
    {ec : Option ErrorCode} (ends : next.2.Ends ec) :
    (∃ cancelTimer, t.completing = some ⟨operation, ec, cancelTimer⟩) ∧
      t.waiting = s.waiting := by
  have waiting := entered.waiting
  have completing := entered.completing
  obtain ⟨u, yield⟩ := next
  rcases ends with complete | completeFirst
  · obtain rfl : yield = .complete ec := complete
    exact ⟨⟨false, completing⟩, waiting.trans (List.append_nil _)⟩
  · obtain rfl : yield = .completeFirst ec := completeFirst
    exact ⟨⟨true, completing⟩, waiting.trans (List.append_nil _)⟩

theorem State.Entered.cases {s t : State Byte Response} {operation : Operation}
    {next : Step Byte Response} (entered : s.Entered operation next t)
    (idle : s.completing = none) :
    (∃ point, next.2 = .await point ∧ t.completing = none ∧
      t.waiting = s.waiting ++ [⟨operation, point, next.1.stream⟩]) ∨
    ((∀ point, next.2 ≠ .await point) ∧ t.waiting = s.waiting) := by
  by_cases awaits : ∃ point, next.2 = .await point
  · obtain ⟨point, awaits⟩ := awaits
    exact .inl ⟨point, awaits, entered.awaits idle awaits⟩
  · right
    have ended : ∀ point, next.2 ≠ .await point :=
      fun point same => awaits ⟨point, same⟩
    refine ⟨ended, ?_⟩
    rw [entered.waiting, State.entering_ended ended, List.append_nil]

theorem Answered.notes {s t : State Byte Response} {index : Nat}
    {answer : Answer Byte}
    (answered : Answered codec endpoint s index answer t) :
    Call.notes codec endpoint s (.answer index answer) =
      Call.goingOn s.transport answered.flight.point answered.next := by
  simp only [Call.notes, answered.member, answered.resumed]

theorem Call.notes_complete {s : State Byte Response} {completing : Completing}
    (ends : s.completing = some completing) (next : Option Call) :
    Call.notes codec endpoint s (.complete next : Call.Event Byte) =
      [.completed completing.operation completing.ec] ++
        next.toList.map .called := by
  simp [Call.notes, ends]

theorem Call.completed_not_mem_goingOn (t : Transport Byte)
    (point : Point Byte Response) (next : Step Byte Response)
    (operation : Operation) (ec : Option ErrorCode) :
    .completed operation ec ∉ Call.goingOn t point next := by
  unfold Call.goingOn
  split
  · simp
  · split <;> simp
  · split <;> simp
  · simp

theorem Call.called_not_mem_goingOn (t : Transport Byte)
    (point : Point Byte Response) (next : Step Byte Response) (call : Call) :
    .called call ∉ Call.goingOn t point next := by
  unfold Call.goingOn
  split
  · simp
  · split <;> simp
  · split <;> simp
  · simp

end Steps

end Connection

end Fetchpp

import Fetchpp.Session.Effects
import Fetchpp.Transport.Core

/-!
# A session on its transport

The machine of a session whose operations are those of its transport, each at
the point where it waits.  A step is the answer to one awaited operation, the
call of a completion handler, or a handler that runs on the strand.  An
operation that completes calls its handler before anything else can run; it
stands in `completing` until then.  `operation_aborted` is reported only by
operations that were cancelled, that is by a close, or because their socket was
closed or destroyed.

What the machine is for is told by `session`, which moves by steps of the
session's own machine.
-/

namespace Fetchpp

namespace Connection

open Session Http

variable {Byte Response : Type}

/-- An operation of the session and where it waits; `stream` is the stream that
was current when it began to wait. -/
structure Waiting (Byte Response : Type) where
  operation : Operation
  point : Point Byte Response
  stream : Nat

structure Flight (Byte Response : Type) extends Waiting Byte Response where
  cancelled : Bool := false

/-- An operation that has completed and whose handler is called next. -/
structure Completing where
  operation : Operation
  ec : Option ErrorCode
  /-- the operation cancels the timer after that -/
  thenCancelTimer : Bool := false
  deriving DecidableEq, Repr

/-- A request that was written, and the place it has among the requests written
on its connection. -/
structure Attempt where
  push : PushId
  connection : Nat
  index : Nat
  deriving DecidableEq, Repr

/-- `connection` counts the connects that were started; `received` are the
bytes read on the last one, `ended` tells that its end was read.  `attempts`
and `responses` begin with the latest. -/
structure State (Byte Response : Type) where
  session : Session.State := {}
  transport : Transport Byte := {}
  flights : List (Flight Byte Response) := []
  completing : Option Completing := none
  connection : Nat := 0
  received : List Byte := []
  ended : Bool := false
  attempts : List Attempt := []
  responses : List (PushId × Response) := []

def Flight.cancelOn (stream : Nat) (flight : Flight Byte Response) :
    Flight Byte Response :=
  if flight.stream = stream && flight.point.onStream then
    { flight with cancelled := true }
  else flight

def Flight.cancelResolve (flight : Flight Byte Response) :
    Flight Byte Response :=
  if flight.point.isResolving then { flight with cancelled := true }
  else flight

/-- `operation_aborted` is the answer to a cancelled operation only. -/
def Flight.mayAnswer (flight : Flight Byte Response) : Answer Byte → Bool
  | .resolved ec _ _ => ec != some .operationAborted || flight.cancelled
  | .connected ec _ _ => ec != some .operationAborted || flight.cancelled
  | .ended ec _ => ec != some .operationAborted || flight.cancelled
  | .chunk _ => true

namespace State

/-- The transport changes; a socket that is closed, or destroyed with its
stream, cancels what waits on it. -/
def setTransport (t : Transport Byte) (s : State Byte Response) :
    State Byte Response :=
  if t.stream ≠ s.transport.stream ||
      (s.transport.isOpen && !t.isOpen) then
    { s with
      transport := t
      flights := s.flights.map (Flight.cancelOn s.transport.stream) }
  else { s with transport := t }

/-- What `async_close` cancels. -/
def cancelForClose (s : State Byte Response) : State Byte Response :=
  if s.transport.isOpen then
    { s with flights := s.flights.map (Flight.cancelOn s.transport.stream) }
  else { s with flights := s.flights.map Flight.cancelResolve }

def onConnection (s : State Byte Response) : List Attempt :=
  s.attempts.filter (fun attempt => attempt.connection = s.connection)

/-- The start of an operation is recorded. -/
def record (operation : Operation) (point : Point Byte Response)
    (s : State Byte Response) : State Byte Response :=
  match operation, point with
  | _, .connecting =>
      { s with connection := s.connection + 1, received := [], ended := false }
  | .exchange op, .exchanging (.writing _) =>
      { s with attempts :=
          ⟨op.task, s.connection, s.onConnection.length⟩ :: s.attempts }
  | _, _ => s

/-- What an exchange reads is recorded. -/
def hear (point : Point Byte Response) (answer : Answer Byte)
    (s : State Byte Response) : State Byte Response :=
  match point, answer with
  | .exchanging (.reading _ _), .chunk bytes =>
      { s with received := s.received ++ bytes }
  | .exchanging (.reading _ _), .ended (some .eof) _ => { s with ended := true }
  | _, _ => s

/-- The response object of a request is assigned. -/
def respond (operation : Operation) (response : Response)
    (s : State Byte Response) : List (PushId × Response) :=
  match operation with
  | .exchange op => (op.task, response) :: s.responses
  | _ => s.responses

/-- An operation waits for its next point or completes.  An exception that
leaves it takes its handler along. -/
def enter (operation : Operation) (next : Step Byte Response)
    (s : State Byte Response) : State Byte Response :=
  let s := s.setTransport next.1
  match next.2 with
  | .await point =>
      record operation point { s with
        flights := s.flights ++
          [⟨⟨operation, point, next.1.stream⟩, false⟩] }
  | .complete ec => { s with completing := some ⟨operation, ec, false⟩ }
  | .completeFirst ec => { s with completing := some ⟨operation, ec, true⟩ }
  | .deliver response =>
      { s with
        responses := s.respond operation response
        completing := some ⟨operation, none, false⟩ }
  | .escape => s

/-- The rest of an operation whose handler has returned. -/
def handled (cancelTimer : Bool) (s : State Byte Response) :
    State Byte Response :=
  if cancelTimer then { s with transport := s.transport.cancelTimer } else s

/-- A handler of the session starts an operation on the transport. -/
def launch (endpoint : SessionEndpoint) (request : PushId → Request)
    (s : State Byte Response) : Effect → State Byte Response
  | .connect caller => s.enter (.connect caller) (connect endpoint s.transport)
  | .exchange op =>
      s.enter (.exchange op) (processOne (request op.task) s.transport)
  | .close graceful caller =>
      s.cancelForClose.enter (.close graceful caller)
        (close endpoint graceful s.transport)
  | _ => s

end State

inductive Event (Byte : Type) where
  | push
  | start
  | stop (graceful : GracefulShutdown)
  | post (handler : Posted)
  /-- a wait for the timer of the session ends -/
  | timer (stop : Nat) (cancelled : Bool) (ec : Option ErrorCode)
  /-- the operation the flight waits for is answered -/
  | answer (flight : Nat) (answer : Answer Byte)
  /-- the handler of the operation that completed is called -/
  | complete
  deriving DecidableEq, Repr

def Event.isCall {Byte : Type} : Event Byte → Bool
  | .push | .start | .stop _ => true
  | _ => false

variable (codec : Codec Byte Response) (endpoint : SessionEndpoint)
  (request : PushId → Request)

/-- A handler of the session runs. -/
def dispatch (s : State Byte Response) (event : Session.Event) :
    Option (State Byte Response) :=
  match Session.step s.session event with
  | none => none
  | some session =>
      some ((event.outcome s.session.core).2.foldl
        (State.launch endpoint request) { s with session := session })

def step (s : State Byte Response) (event : Event Byte) :
    Option (State Byte Response) :=
  match s.completing, event with
  | some completing, .complete =>
      match dispatch endpoint request { s with completing := none }
          (.resume completing.operation completing.ec s.transport.isOpen) with
      | none => none
      | some next =>
          some (next.handled completing.thenCancelTimer)
  | some _, _ => none
  | none, .push => dispatch endpoint request s .push
  | none, .start => dispatch endpoint request s .start
  | none, .stop graceful => dispatch endpoint request s (.stop graceful)
  | none, .post handler =>
      dispatch endpoint request s (.post handler s.transport.isOpen)
  | none, .timer stop cancelled ec =>
      dispatch endpoint request s
        (.resume (.wait stop cancelled) ec s.transport.isOpen)
  | none, .answer index answer =>
      match s.flights[index]? with
      | none => none
      | some flight =>
          if flight.mayAnswer answer then
            match flight.point.resume codec endpoint flight.stream
                s.transport answer with
            | none => none
            | some next =>
                some (({ s with flights := s.flights.eraseIdx index }.hear
                  flight.point answer).enter flight.operation next)
          else none
  | none, .complete => none

def machine : Lib.Machine (State Byte Response) (Event Byte) where
  start := {}
  step := step codec endpoint request

end Connection

end Fetchpp

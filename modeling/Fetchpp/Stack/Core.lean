import Fetchpp.Client.Core
import Fetchpp.Connection.Core

/-!
# A client on its transports

The machine of a client whose sessions run on their transports, as those in
the deque of `client.hpp` do.  A step is a handler of the client, or a step of
the connection of one session.  What the client runs on the strand of a session
starts its operations on the transport of that session.  An operation that has
completed calls its handler before anything else runs, in any session.
-/

namespace Fetchpp

open Http

namespace Client

/-- A work dispatched to an idle strand runs at once. -/
def State.runsAt (index : Nat) (work : Work) (completed : Bool) (s : State) :
    Option (Nat × Work) :=
  match s.sessions[index]? with
  | some hosted => if hosted.busy completed then none else some (index, work)
  | none => none

/-- The work a handler of the client runs on the strand of a session. -/
def Event.runs (rules : UrlRules) (s : State) : Event → Option (Nat × Work)
  | .fetch uri completed =>
      match selectProxy s.proxies uri with
      | .error _ => none
      | .ok proxy =>
          match fetchEndpoint rules proxy uri with
          | .error _ => none
          | .ok endpoint =>
              let (s', index) := s.getSession endpoint
              s'.runsAt index (.push ⟨s.fetches, uri, proxy⟩) completed
  | .stop graceful completed => s.runsAt 0 (.stop graceful s.stops) completed
  | .stopResumed op _ completed =>
      if op.begin_ + 1 = op.end_ then none
      else s.runsAt (op.begin_ + 1) (.stop op.graceful op.op) completed
  | .work index =>
      match s.sessions[index]? with
      | some hosted => hosted.queued.head?.map (fun work => (index, work))
      | none => none
  | _ => none

/-- A step that the session takes on its transport. -/
def Event.ofSession : Event → Bool
  | .post _ _ _ | .resume _ _ _ _ => true
  | _ => false

def Hosted.request (requests : Nat → Request) (hosted : Hosted)
    (push : Session.PushId) : Request :=
  requests ((hosted.pushed[push]?.map Fetch.number).getD push)

end Client

namespace Connection

variable {Byte : Type}

def Event.isComplete : Event Byte → Bool
  | .complete => true
  | _ => false

end Connection

/-- `push_op` or `stop_op` runs on the strand of the session. -/
def Client.Work.call {Byte : Type} : Client.Work → Connection.Event Byte
  | .push _ => .push
  | .stop graceful _ => .stop graceful

namespace Stack

variable {Byte Response : Type}

/-- The connections are those of the client's sessions, in their order. -/
structure State (Byte Response : Type) where
  client : Client.State
  connections : List (Connection.State Byte Response) := []

inductive Event (Byte : Type) where
  | client (event : Client.Event)
  | session (index : Nat) (event : Connection.Event Byte)
  deriving DecidableEq

namespace State

def quiet (s : State Byte Response) : Bool :=
  s.connections.all fun connection => connection.completing.isNone

/-- The session at an index, which may be new, is on this connection. -/
def setConnection (index : Nat) (connection : Connection.State Byte Response)
    (s : State Byte Response) : State Byte Response :=
  { s with connections :=
      if index < s.connections.length then s.connections.set index connection
      else s.connections ++ [connection] }

variable (codec : Codec Byte Response) (rules : UrlRules)
  (requests : Nat → Request)

/-- The connection of the session at an index takes a step. -/
def advance (index : Nat) (event : Connection.Event Byte)
    (s : State Byte Response) : Option (Connection.State Byte Response) :=
  match s.client.sessions[index]? with
  | none => none
  | some hosted =>
      Connection.step codec hosted.endpoint (hosted.request requests)
        (s.connections[index]?.getD {}) event

/-- A handler of the client runs. -/
def handle (event : Client.Event) (s : State Byte Response) :
    Option (State Byte Response) :=
  match Client.step rules s.client event with
  | none => none
  | some client =>
      let after := { s with client := client }
      match event.runs rules s.client with
      | none => some after
      | some (index, work) =>
          (after.advance codec requests index work.call).map
            (after.setConnection index)

def move (index : Nat) (event : Connection.Event Byte)
    (s : State Byte Response) : Option (State Byte Response) :=
  match s.advance codec requests index event with
  | none => none
  | some connection =>
      let sessions := s.client.sessions.modify index fun hosted =>
        { hosted with session := connection.session }
      some (State.setConnection index connection
        { s with client := { s.client with sessions := sessions } })

end State

variable (codec : Codec Byte Response) (rules : UrlRules)
  (requests : Nat → Request)

def step (s : State Byte Response) : Event Byte → Option (State Byte Response)
  | .client event =>
      if event.ofSession || !s.quiet then none
      else s.handle codec rules requests event
  | .session index event =>
      if event.isCall || !(event.isComplete || s.quiet) then none
      else s.move codec requests index event

def machine (maxPending : Nat) :
    Lib.Machine (State Byte Response) (Event Byte) where
  start := { client := (Client.machine rules maxPending).start }
  step := step codec rules requests

end Stack

end Fetchpp
